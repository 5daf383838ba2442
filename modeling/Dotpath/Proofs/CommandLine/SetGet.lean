import Dotpath.Proofs.CommandLine.Running
import Dotpath.Proofs.Document.Reading
import Dotpath.Proofs.Document.RoundTrip
import Dotpath.Proofs.Walk.Batch

/-!
# Storing into a document and reading from it

What a run stores in a file at a path, a run on the new file prints for this path
(`runGet_of_runSet`).  Three results meet here: a run writes the text of the document after the write
(`stored_eq_ok`), the value is found in what this text reads back as (`Heap.document_of_write`), and
a run prints what its walker finds (`runGet_eq_ok`).
-/

namespace Dotpath

namespace World

variable {w w' : World} {path old text : String}

theorem openFile_eq_ok : w.openFile path = .ok text ↔
    path.isEmpty = false ∧ path.endsWith "/" = false ∧
      w.file? (.ofText w.here path) = some text := by
  rw [openFile]
  cases path.isEmpty <;> cases path.endsWith "/" <;> cases w.file? (.ofText w.here path) <;> simp

/-- A file that is there is written with another text. -/
theorem openFile_of_saveFile (hopen : w.openFile path = .ok old)
    (hsave : w.saveFile path text = .ok w') : w'.openFile path = .ok text := by
  obtain ⟨hempty, hend, hfile⟩ := openFile_eq_ok.1 hopen
  rw [saveFile, hfile] at hsave
  cases hsave
  exact openFile_eq_ok.2 ⟨hempty, hend, file?_writeFile_self w _ text⟩

end World

theorem Settings.walker_eq_ok {s : Settings} {path : String} {walker : Walker}
    (hwalker : s.walker [.text path] = .ok walker) :
    walker.paths = [Path.parse path] ∧ SimpleKeys walker.keys := by
  obtain ⟨keyType, -, hwalker⟩ := bind_eq_ok.1 hwalker
  have hkeys : SimpleKeys (keyDeserializer keyType) := by
    unfold keyDeserializer
    split
    · exact .inr rfl
    · exact .inl rfl
  simp only [Walker.ofPaths, List.isEmpty_cons, List.mapM_cons, List.mapM_nil, Given.walked]
    at hwalker
  obtain ⟨checked, hchecked, hwalker⟩ := bind_eq_ok.1 hwalker
  cases hchecked
  split at hwalker
  · cases hwalker
  · cases hwalker
    exact ⟨rfl, hkeys⟩

namespace CommandLine

variable {w w' : World} {s : Settings} {document path value : String} {format : Option String}
  {host v : Value} {h h₁ : Heap} {walker : Walker} {text : String}

/-- Reading a value adds nodes to a document's heap and changes none. -/
theorem extends_of_readText {m : Misuse} (hvalue : readText m h value = .ok (v, h₁)) :
    h.Extends h₁ := by
  rw [readText] at hvalue
  cases hread : Yaml.read h value with
  | ok r =>
    rw [hread] at hvalue
    cases hvalue
    exact Yaml.extends_of_read hread
  | error f =>
    rw [hread] at hvalue
    cases f <;> cases hvalue

theorem runSet_inPlace {out : String}
    (hset : runSet w s document path value none true format = .ok (out, w')) :
    document ≠ "-" ∧ ∃ text, stored w s document path value format = .ok text ∧
      w.saveFile document text = .ok w' := by
  obtain ⟨hcheck, text, htext, hdeliver⟩ := Running.store_eq_ok.1 (Running.outcome_eq_ok.1 hset)
  exact ⟨((checkTarget_eq_ok.1 hcheck).1 rfl).2, text, htext, (Running.deliver_eq_ok.1 hdeliver).2⟩

/-- What a run writes is the text of the document after the walker has written the value. -/
theorem stored_eq_ok (hload : load w document = .ok (host, h))
    (hvalue : readText .malformedValue h value = .ok (v, h₁))
    (hwalker : s.walker [.text path] = .ok walker)
    (hstored : stored w s document path value format = .ok text) :
    let r := walker.write {} h₁ host v
    r.result = .ok true ∧ r.heap.document {} host (format.getD s.outputFormat) = .ok text := by
  obtain ⟨_, _, _, _, _, hl, hv, hw, hresult, htext⟩ := stored_eq_ok_iff.1 hstored
  cases hload.symm.trans hl
  cases hvalue.symm.trans hv
  cases hwalker.symm.trans hw
  exact ⟨hresult, htext⟩

/-- A run prints the value at the end of the way, or what a lenient walker takes for it. -/
theorem runGet_eq_ok (hload : load w document = .ok (host, h))
    (hwalker : s.walker [.text path] = .ok walker)
    (hwalk : (h.walk {} walker.keys host (Path.parse path) 0).settle walker.strict (.scalar .null) =
      .ok v)
    (hleft : h.leftByWalk {} walker.keys host (Path.parse path) 0 = h)
    (htext : h.document {} v (format.getD s.outputFormat) = .ok text) :
    runGet w s document [path] format = .ok (line (trimBreaks text)) := by
  have hvalues : (walker.readValues {} h host).EndsAs (.pure h [v]) := by
    have hread : (walker.readPath {} h host (Path.parse path)).EndsAs (.pure h v) := ⟨hwalk, hleft⟩
    rw [Walker.readValues, (Settings.walker_eq_ok hwalker).1, Walker.readEach]
    exact hread.andThen_ok.trans ⟨rfl, rfl⟩
  rw [runGet, hload]
  refine bind_eq_ok.2 ⟨_, rfl, bind_eq_ok.2 ⟨walker, orFault_eq_ok.2 hwalker, bind_eq_ok.2
    ⟨[v], orRaised_eq_ok.2 hvalues.result, ?_⟩⟩⟩
  rw [hvalues.heap]
  exact bind_eq_ok.2 ⟨text, orFault_eq_ok.2 htext, rfl⟩

theorem load_of_openFile (hdocument : document ≠ "-") (hopen : w.openFile document = .ok text) :
    load w document = readText .malformedDocument {} text := by
  rw [load, beq_false_of_ne hdocument, if_neg Bool.false_ne_true, hopen]

/-- A run that reads the file that another one wrote reads its text. -/
theorem load_of_saveFile (hdocument : document ≠ "-") (hload : load w document = .ok (host, h))
    (hsave : w.saveFile document text = .ok w') :
    load w' document = readText .malformedDocument {} text := by
  cases hopen : w.openFile document with
  | error e =>
    rw [load, beq_false_of_ne hdocument, if_neg Bool.false_ne_true, hopen] at hload
    cases hload
  | ok old => exact load_of_openFile hdocument (World.openFile_of_saveFile hopen hsave)

/-- What a run stores in a file, a run with the same settings finds in the new file: it prints the
text of the value.  In YAML this relies on the new text standing for the document (`Heap.ReadsBack`).
A JSON text leaves out the types of keys, so there the way has to lead through texts, no key or
number of the value may be taken for another one, and no key may be too long
(`Heap.KeptByJson`). -/
theorem runGet_of_runSet {t u : Tree} {out : String}
    (hload : load w document = .ok (host, h)) (hhost : h.Unfolds host t)
    (hvalue : readText .malformedValue h value = .ok (v, h₁)) (hv : h₁.Unfolds v u)
    (hwalker : s.walker [.text path] = .ok walker)
    (hset : runSet w s document path value none true format = .ok (out, w'))
    (hyaml : format.getD s.outputFormat = "yaml" →
      (walker.write {} h₁ host v).heap.ReadsBack {} host)
    (hjson : format.getD s.outputFormat = "json" →
      (walker.write {} h₁ host v).heap.KeptByJson {} walker.keys host (Path.parse path) u) :
    ∃ text, h₁.document {} v (format.getD s.outputFormat) = .ok text ∧
      runGet w' s document [path] format = .ok (line (trimBreaks text)) := by
  obtain ⟨hdocument, text, hstored, hsave⟩ := runSet_inPlace hset
  obtain ⟨hwritten, htext⟩ := stored_eq_ok hload hvalue hwalker hstored
  obtain ⟨hpaths, hkeys⟩ := Settings.walker_eq_ok hwalker
  have hfirst : walker.firstPath = Path.parse path := by rw [Walker.firstPath, hpaths]; rfl
  rw [Walker.write, hfirst] at hwritten htext hyaml hjson
  have hhost := hhost.mono (extends_of_readText hvalue)
  have hformat := (Heap.plain_of_document htext).1
  obtain ⟨host', h', v', text', hread, hwalk, hleft, hbefore, hafter⟩ :=
    Heap.document_of_write hkeys hhost hv (walker.write_eq_done_of_writePath hwritten) htext hyaml
      fun hother => hjson (by simpa [outputFormats, hother] using hformat)
  refine ⟨text', hbefore, runGet_eq_ok ?_ hwalker (by rw [hwalk]; rfl) hleft hafter⟩
  rw [load_of_saveFile hdocument hload hsave, readText, hread]

/-! ### A list under a key -/

/-- A file that holds an empty mapping. -/
def emptyFile : World := { here := [], files := [(["d"], "\x7b\x7d")] }

/-- A mapping with an empty list under the name 1. -/
def filledText : String := "\x7b\n  \"1\": []\n\x7d"

/-- The file with this mapping. -/
def filledFile : World := { here := [], files := [(["d"], filledText)] }

/-- An empty dictionary beside an empty list. -/
def unfilled : Heap := ⟨#[.dict .plain [], .list []]⟩

/-- A dictionary with an empty list under a key. -/
def filled (k : Tree.Key) : Heap := ⟨#[.dict .plain [(k.value, .ref 1)], .list []]⟩

theorem unfolds_filled (k : Tree.Key) : (filled k).Unfolds (.ref 0) (.dict [(k, .list [])]) :=
  .dict rfl (List.pairwise_singleton _ _) (.cons (.mk k (.list rfl .nil)) .nil)

theorem load_emptyFile : load emptyFile "d" = .ok (.ref 0, ⟨#[.dict .plain []]⟩) := by
  have hopen : emptyFile.openFile "d" = .ok "\x7b\x7d" := by cbv
  have hread : Yaml.read {} "\x7b\x7d" = .ok (.ref 0, ⟨#[.dict .plain []]⟩) := by
    rw [show "\x7b\x7d" = String.ofList ['\x7b', '\x7d'] from rfl, Yaml.read_ofList]
    cbv
  rw [load_of_openFile (by decide) hopen, readText, hread]

theorem readText_list : readText .malformedValue ⟨#[.dict .plain []]⟩ "[]" =
    .ok (.ref 1, unfilled) := by
  have hread : Yaml.read ⟨#[.dict .plain []]⟩ "[]" = .ok (.ref 1, unfilled) := by
    rw [show "[]" = String.ofList ['[', ']'] from rfl, Yaml.read_ofList]
    cbv
  rw [readText, hread]

theorem read_filledText : Yaml.read {} filledText = .ok (.ref 0, filled (.text "1")) := by
  rw [show filledText = String.ofList ['\x7b', '\n', ' ', ' ', '"', '1', '"', ':', ' ', '[', ']',
    '\n', '\x7d'] from rfl, Yaml.read_ofList]
  cbv

theorem walker_str : ({} : Settings).walker [.text "1"] = .ok ⟨[Path.parse "1"], false, none⟩ := by
  have hchoice : textChoice "str" keyTypes "str" = .ok "str" := by cbv
  rw [Settings.walker, hchoice]
  rfl

theorem walker_int : ({ keyType := "int" } : Settings).walker [.text "1"] =
    .ok ⟨[Path.parse "1"], false, some integerKeys⟩ := by
  have hchoice : textChoice "int" keyTypes "str" = .ok "int" := by cbv
  rw [Settings.walker, hchoice]
  rfl

theorem document_filled {k : Tree.Key} (hprints : (Tree.dict [(k, .list [])]).prints = true)
    (htext : (Tree.dict [(k, .list [])]).document "json" = filledText) :
    (filled k).document {} (.ref 0) "json" = .ok filledText := by
  rw [(unfolds_filled k).document (by decide), hprints, htext]
  rfl

theorem runSet_emptyFile {k : Tree.Key} (hwalker : s.walker [.text "1"] = .ok walker)
    (hformat : s.outputFormat = "json")
    (hresult : (walker.write {} unfilled (.ref 0) (.ref 1)).result = .ok true)
    (hheap : (walker.write {} unfilled (.ref 0) (.ref 1)).heap = filled k)
    (htext : (filled k).document {} (.ref 0) "json" = .ok filledText) :
    runSet emptyFile s "d" "1" "[]" none true none = .ok ("", filledFile) := by
  have hstored : stored emptyFile s "d" "1" "[]" none = .ok filledText := by
    refine stored_eq_ok_iff.2 ⟨_, _, _, _, walker, load_emptyFile, readText_list, hwalker, hresult, ?_⟩
    rw [hheap, Option.getD_none, hformat]
    exact htext
  have hcheck : checkTarget "d" "1" none true = .ok () :=
    checkTarget_eq_ok.2 ⟨fun _ => ⟨rfl, by decide⟩, by cbv⟩
  have hsave : emptyFile.saveFile "d" filledText = .ok filledFile := by cbv
  exact Running.outcome_eq_ok.2 (Running.store_eq_ok.2
    ⟨hcheck, filledText, hstored, Running.deliver_eq_ok.2 ⟨rfl, hsave⟩⟩)

/-- The run that stores the list under a text, and the one that finds it. -/
theorem runGet_of_runSet_str :
    ∃ text, unfilled.document {} (.ref 1) "json" = .ok text ∧
      runGet filledFile {} "d" ["1"] none = .ok (line (trimBreaks text)) := by
  have htext := document_filled (k := .text "1") (by cbv) (by cbv)
  have hheap : (Walker.write ⟨[Path.parse "1"], false, none⟩ {} unfilled (.ref 0) (.ref 1)).heap =
      filled (.text "1") := by cbv
  refine runGet_of_runSet (u := .list []) load_emptyFile (.dict rfl .nil .nil) readText_list
    (.list rfl .nil) walker_str (runSet_emptyFile walker_str rfl (by cbv) hheap htext)
    (fun hyaml => absurd hyaml (by decide)) ?_
  rw [hheap]
  refine fun _ => ⟨fun {a j es} hleads hj hes => ?_, trivial, fun t ht => ?_⟩
  · have hsize : (Path.parse "1").size = 1 := by cbv
    have hfirst : (filled (.text "1")).get? a = (filled (.text "1")).get? 0 ∧ j = 0 := by
      cases hleads with
      | here => exact ⟨rfl, rfl⟩
      | step _ _ _ hrest =>
        have := hrest.le
        omega
    obtain ⟨hget, rfl⟩ := hfirst
    cases hget.symm.trans hes
    have hwhole : ∀ c ∈ "1".toList, Text.codePoint c < 0x10000 :=
      List.forall_mem_singleton.2 (by decide)
    refine ⟨"1", by cbv, fun ks hks =>
      ⟨hwhole, fun front k back heq _ _ => Tree.Key.value_inj ?_⟩⟩
    have hk : k.value ∈ ks.map Tree.Key.value :=
      List.mem_map_of_mem (heq ▸ List.mem_append_right front List.mem_cons_self)
    rw [← hks] at hk
    exact List.mem_singleton.1 hk
  · rw [ht.unique (unfolds_filled _)]
    have hlength : (Json.quoted "1").length ≤ Yaml.Scan.longestKey := by decide
    exact ⟨⟨hlength, trivial⟩, trivial⟩

/-- A key that is an integer is a text in the new file, where no integer leads to it: the second run
prints null, and not the text of the value. -/
theorem runGet_misses_integer_key :
    runSet emptyFile { keyType := "int" } "d" "1" "[]" none true none = .ok ("", filledFile) ∧
      runGet filledFile { keyType := "int" } "d" ["1"] none = .ok (line "null") ∧
      readText .malformedValue ⟨#[.dict .plain []]⟩ "[]" = .ok (.ref 1, unfilled) ∧
      unfilled.document {} (.ref 1) "json" = .ok "[]" ∧ line "null" ≠ line (trimBreaks "[]") := by
  have htext := document_filled (k := .int 1) (by cbv) (by cbv)
  have hload : load filledFile "d" = .ok (.ref 0, filled (.text "1")) := by
    have hopen : filledFile.openFile "d" = .ok filledText := by cbv
    rw [load_of_openFile (by decide) hopen, readText, read_filledText]
  have hmiss : ((filled (.text "1")).walk {} (some integerKeys) (.ref 0) (Path.parse "1") 0).settle
      false (.scalar .null) = .ok (.scalar .null) := by cbv
  have hnull : (filled (.text "1")).document {} (.scalar .null) "json" = .ok "null" := by cbv
  have htrim : trimBreaks "null" = "null" := by cbv
  have hlist : trimBreaks "[]" = "[]" := by cbv
  have hget : runGet filledFile { keyType := "int" } "d" ["1"] none =
      .ok (line (trimBreaks "null")) := runGet_eq_ok hload walker_int hmiss (by cbv) hnull
  rw [htrim] at hget
  exact ⟨runSet_emptyFile walker_int rfl (by cbv) (by cbv) htext, hget, readText_list,
    (Heap.Unfolds.list rfl .nil).document (by decide), by rw [hlist]; decide⟩

end CommandLine

end Dotpath

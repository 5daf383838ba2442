import Dotpath.Proofs.Document.JsonReread
import Dotpath.Proofs.Document.Update
import Dotpath.Proofs.Document.YamlText

/-!
# From a document to its text and back

A value that was put into a document is found in what is read from the document's text, and has the
same text there (`document_of_write`).  In YAML this is so for all documents whose text stands for
them (`ReadsBack`).  What a JSON text stands for is read from it, as long as no key is too long, but
it keeps neither the types of keys nor all numbers: so each mapping on the way has to be entered by a
name of its own (`EntersByName`), and the value itself has to survive (`Tree.SurvivesJson`).
-/

namespace Dotpath

namespace Tree

variable {keys : Option Deserializer} {p : Path} {i : Int} {t u : Tree} {format : String}

theorem prints_of_step (ht : t.prints = true) (hu : t.step keys p i = some u) :
    u.prints = true := by
  cases t with
  | leaf a => cases hu
  | list ts =>
    rw [prints_list, List.all_eq_true] at ht
    obtain ⟨n, -, hn⟩ := Option.bind_eq_some_iff.1 hu
    exact ht u (List.mem_of_getElem? hn)
  | dict fs =>
    rw [prints_dict, List.all_eq_true] at ht
    obtain ⟨k, -, hk⟩ := Option.bind_eq_some_iff.1 hu
    obtain ⟨f, hf, rfl⟩ := Option.map_eq_some_iff.1 hk
    exact (Bool.and_eq_true_iff.1 (ht f (List.mem_of_find?_eq_some hf))).2

/-- What can be read back has the same text again. -/
theorem document_readBack (hprints : t.prints = true)
    (hsurvives : format ≠ "yaml" → t.SurvivesJson) :
    (t.readBack format).prints = true ∧
      (t.readBack format).document format = t.document format := by
  unfold readBack document
  by_cases hformat : format = "yaml"
  · simp only [hformat, ↓reduceIte, hprints, and_self]
  · simp only [hformat, ↓reduceIte, prints_viaJson (hsurvives hformat) hprints,
      json_viaJson (hsurvives hformat), and_self]

end Tree

namespace Heap

variable {σ : Schema} {h h' h'' : Heap} {keys : Option Deserializer} {p : Path} {j : Int}
  {host host' c v : Value} {t u w : Tree} {format text : String}

/-- Whether the YAML text of a document reads back as the document. -/
def ReadsBack (σ : Schema) (h : Heap) (v : Value) : Prop :=
  ∀ {text}, h.document σ v "yaml" = .ok text → ∃ v' h', Yaml.read {} text = .ok (v', h') ∧
    ∀ {t}, h.Unfolds v t → h'.Unfolds v' t

/-- Whether the segments of a path enter each mapping on the way by a text that is the last key of
its name there. -/
def EntersByName (σ : Schema) (h : Heap) (keys : Option Deserializer) (host : Value) (p : Path) :
    Prop :=
  ∀ {a j es}, Leads σ keys p h host 0 h (.ref a) j → j < p.size →
    h.get? a = some (.dict .plain es) → ∃ name, mapKey keys p j = .done (.scalar (.text name)) ∧
      ∀ ks : List Tree.Key, es.keys = ks.map Tree.Key.value → Tree.LastNamed ks name

/-- Whether a document with a value at the end of a path keeps the way and the value in JSON, and its
text can be read. -/
structure KeptByJson (σ : Schema) (h : Heap) (keys : Option Deserializer) (host : Value) (p : Path)
    (u : Tree) : Prop where
  names : h.EntersByName σ keys host p
  value : u.SurvivesJson
  readable : ∀ t, h.Unfolds host t → t.HasShortKeys

theorem plain_of_document (htext : h.document σ v format = .ok text) :
    outputFormats.contains format = true ∧ ∃ r, h.plain σ v = .ok r := by
  rw [document] at htext
  cases hformat : outputFormats.contains format with
  | false =>
    rw [hformat] at htext
    cases htext
  | true =>
    rw [hformat] at htext
    obtain ⟨r, hr, -⟩ := bind_eq_ok.1 htext
    exact ⟨rfl, r, hr⟩

/-- What is read from the text of a document is the tree that the text stands for. -/
theorem Unfolds.exists_read (ht : h.Unfolds host t) (hleaf : ∀ a, t ≠ .leaf a)
    (hprints : t.prints = true) (htext : h.document σ host format = .ok text)
    (hyaml : format = "yaml" → h.ReadsBack σ host) (hjson : format ≠ "yaml" → t.HasShortKeys) :
    ∃ host' h', Yaml.read {} text = .ok (host', h') ∧ h'.Unfolds host' (t.readBack format) := by
  unfold Tree.readBack
  by_cases hformat : format = "yaml"
  · obtain ⟨host', h', hread, hback⟩ := hyaml hformat (hformat ▸ htext)
    rw [if_pos hformat]
    exact ⟨host', h', hread, hback ht⟩
  · rw [ht.document (plain_of_document htext).1, hprints, Tree.document, if_neg hformat] at htext
    obtain rfl := Except.ok.inj htext
    rw [if_neg hformat]
    exact t.exists_read_json {} hleaf hprints (hjson hformat)

theorem step_viaJson (hc : h.Unfolds c u)
    (hname : ∀ a es, c = .ref a → h.get? a = some (.dict .plain es) →
      ∃ name, mapKey keys p j = .done (.scalar (.text name)) ∧
        ∀ ks : List Tree.Key, es.keys = ks.map Tree.Key.value → Tree.LastNamed ks name)
    (hstep : u.step keys p j = some w) : u.viaJson.step keys p j = some w.viaJson := by
  cases hc with
  | leaf b => cases hstep
  | list hn hitems =>
    rw [Tree.step_viaJson_list, hstep]
    rfl
  | @dict a es fs hn hdistinct hentries =>
    obtain ⟨name, hkey, hlast⟩ := hname a es rfl hn
    have hkeys : es.keys = (fs.map Prod.fst).map Tree.Key.value := by
      rw [Tree.keys_eq hentries, List.map_map]
      rfl
    rw [Tree.step_viaJson_dict (Tree.nodup_keys hentries hdistinct) hkey (hlast _ hkeys), hstep]
    rfl

theorem step_readBack (hc : h.Unfolds c u) (hleads : Leads σ keys p h host 0 h c j)
    (hj : j < p.size) (hjson : format ≠ "yaml" → h.EntersByName σ keys host p)
    (hstep : u.step keys p j = some w) :
    (u.readBack format).step keys p j = some (w.readBack format) := by
  unfold Tree.readBack
  by_cases hformat : format = "yaml"
  · rw [if_pos hformat, if_pos hformat, hstep]
  · rw [if_neg hformat, if_neg hformat]
    refine step_viaJson hc (fun a es ha hes => ?_) hstep
    subst ha
    exact hjson hformat hleads hj hes

/-- A path that leads to a container begins in one. -/
theorem Unfolds.exists_ref_of_leads {a : Address} {i : Int} (hhost : h.Unfolds host t)
    (hleads : Leads σ keys p h host i h' (.ref a) j) : ∃ b, host = .ref b := by
  cases hhost with
  | leaf b =>
    generalize hscalar : Value.scalar b.scalar = c at hleads
    cases hleads with
    | here => cases hscalar
    | step hi hv hw =>
      subst hscalar
      obtain ⟨u, hu, -⟩ := (Unfolds.leaf b).of_step hw
      cases hu
  | list hn | dict hn => exact ⟨_, rfl⟩

/-- What was put into a document is found in what is read from its text, with the same text. -/
theorem document_of_write (hkeys : SimpleKeys keys) (hhost : h.Unfolds host t) (hv : h.Unfolds v u)
    (hw : h.write σ keys host p v = .done h') (htext : h'.document σ host format = .ok text)
    (hyaml : format = "yaml" → h'.ReadsBack σ host)
    (hjson : format ≠ "yaml" → h'.KeptByJson σ keys host p u) :
    ∃ host' h'' v' text', Yaml.read {} text = .ok (host', h'') ∧
      h''.walk σ keys host' p 0 = .done v' ∧ h''.leftByWalk σ keys host' p 0 = h'' ∧
      h.document σ v format = .ok text' ∧ h''.document σ v' format = .ok text' := by
  obtain ⟨a, n, n', hleads, hn, hputs, rfl⟩ := hhost.write_eq_done hkeys.segmentOnly hw
  -- The document was printed, so that it does not lie in itself now.
  obtain ⟨hformat, r, hplain⟩ := plain_of_document htext
  obtain ⟨⟨t', ht'⟩, -⟩ := unfolds_of_plainWith (holdsDocuments_put hkeys hn hputs hv) ⟨t, hhost⟩
    (.refl _) hplain
  have hprints : t'.prints = true := by
    rw [ht'.document hformat] at htext
    cases hp : t'.prints with
    | true => rfl
    | false =>
      rw [hp] at htext
      cases htext
  have hleaf : ∀ a, t' ≠ .leaf a := by
    obtain ⟨b, rfl⟩ := hhost.exists_ref_of_leads hleads
    rintro a rfl
    cases ht'
  obtain ⟨host', h'', hread, hback⟩ := ht'.exists_read hleaf hprints htext hyaml fun hformat =>
    (hjson hformat).readable t' ht'
  -- The way through the document and the way through what was read are alike.
  have hwalk := hhost.walk_put hkeys hleads hn hputs
  obtain ⟨v', s, s', hwalk', hs, hs', hprints', rfl⟩ :=
    ht'.walk_of_rel (R := fun s s' => s.prints = true ∧ s' = s.readBack format)
      (fun hmet hj hc hrel hstep => ⟨_, by
        rw [hrel.2]
        exact step_readBack hc hmet hj (fun hformat => (hjson hformat).names) hstep,
        Tree.prints_of_step hrel.1 hstep, rfl⟩)
      hback ⟨hprints, rfl⟩ hwalk
  obtain rfl := (hs.of_put hkeys hn hputs).unique hv
  obtain ⟨hprints'', hsame⟩ := Tree.document_readBack hprints' fun hformat => (hjson hformat).value
  have hleads := (walk_eq_done_iff (Int.natCast_nonneg p.size)).1 hwalk'
  refine ⟨host', h'', v', s.document format, hread, hwalk', (hback.of_leads hleads).1, ?_, ?_⟩
  · rw [hv.document hformat, hprints']
    rfl
  · rw [hs'.document hformat, hprints'', hsame]
    rfl

end Heap

end Dotpath

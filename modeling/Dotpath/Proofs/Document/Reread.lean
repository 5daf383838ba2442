import Dotpath.Proofs.Document.JsonQuoted
import Dotpath.Proofs.Document.Text

/-!
# What comes back out of a text

A YAML text stands for the tree that was written.  A JSON text does not: all keys of an object are
texts, of two pairs with the same key the later one counts, a number that YAML 1.1 does not know as
one is a text, and a character of two escapes is two halves.  `Tree.viaJson` is the tree that a JSON
text stands for.

The way into that tree is the same as before where keys are looked up by a text that stays whole
and is the last key of its name in the mapping (`step_viaJson_dict`).  A tree without ambiguous keys
and numbers has the same JSON text when it comes back (`json_viaJson`).
-/

namespace Dotpath.Tree

/-! ## Keys -/

theorem Key.equal_self (k : Key) : k.value.equal k.value = true := by
  cases k with
  | bool b => cases b <;> rfl
  | null | int | text => exact Value.equal_self rfl

theorem Key.equal_text (k : Key) (s : String) :
    k.value.equal (.scalar (.text s)) = decide (k = .text s) := by
  refine Bool.eq_iff_iff.2 ⟨fun hk => decide_eq_true ?_, fun hk => ?_⟩
  · obtain ⟨-, hplain⟩ := Scalar.equal_of_isText (.inr ⟨s, rfl⟩) hk
    cases k with
    | text => exact congrArg Key.text (Scalar.text.inj hplain)
    | null | bool | int => cases hplain
  · rw [of_decide_eq_true hk]
    exact Key.equal_self (.text s)

theorem find?_cons_text (f : Key × Tree) (fs : List (Key × Tree)) (s : String) :
    find? (f :: fs) (.scalar (.text s)) =
      if f.1 = .text s then some f.2 else find? fs (.scalar (.text s)) := by
  rw [find?, List.find?_cons, Key.equal_text]
  by_cases hf : f.1 = .text s
  · rw [if_pos hf, decide_eq_true hf]
    rfl
  · rw [if_neg hf, decide_eq_false hf]
    rfl

theorem find?_text_eq_none {fs : List (Key × Tree)} {s : String}
    (hs : Key.text s ∉ fs.map Prod.fst) : find? fs (.scalar (.text s)) = none := by
  induction fs with
  | nil => rfl
  | cons f fs ih =>
    rw [List.map_cons, List.mem_cons, not_or] at hs
    rw [find?_cons_text, if_neg (Ne.symm hs.1), ih hs.2]

theorem isSome_find?_text {fs : List (Key × Tree)} {s : String}
    (hs : Key.text s ∈ fs.map Prod.fst) : (find? fs (.scalar (.text s))).isSome = true := by
  induction fs with
  | nil => cases hs
  | cons f fs ih =>
    rw [find?_cons_text]
    by_cases hf : f.1 = .text s
    · rw [if_pos hf]
      rfl
    · rw [if_neg hf]
      exact ih ((List.mem_cons.1 hs).resolve_left (Ne.symm hf))

/-- The entries of a mapping have different keys. -/
theorem nodup_keys {R : Value → Tree → Prop} {es : Entries} {fs : List (Key × Tree)}
    (hes : List.Forall₂ (EntryOf R) es fs) (hdistinct : es.Distinct) :
    (fs.map Prod.fst).Nodup := by
  rw [Entries.Distinct, keys_eq hes] at hdistinct
  refine List.pairwise_map.2 ((List.pairwise_map.1 hdistinct).imp fun {f g} hfg heq => ?_)
  rw [heq, Key.equal_self] at hfg
  cases hfg

/-! ## The tree of a JSON text -/

/-- A scalar as an atom, if it is one. -/
def Atom.ofScalar? : Scalar → Option Atom
  | .null => some .null
  | .bool b => some (.bool b)
  | .int n => some (.int n)
  | .float x => some (.float x)
  | .text s => some (.text s)
  | _ => none

/-- What the JSON text of an atom stands for: a number is what YAML 1.1 takes its text for, and a
text has characters split into halves. -/
def Atom.viaJson : Atom → Atom
  | float x =>
    let text := Json.floatText x
    match (Yaml.Tag.ofPlain text).scalar? text with
    | some (.ok s) => (ofScalar? s).getD (.text text)
    | _ => .text text
  | text s => text (Text.halves s)
  | a => a

/-- The name in a JSON object that a key is read back as. -/
def Key.nameViaJson (k : Key) : String := Text.halves k.name

/-- The entries with a tree under a key. -/
def putEntry : List (Key × Tree) → Key → Tree → List (Key × Tree)
  | [], k, t => [(k, t)]
  | f :: fs, k, t => if f.1 = k then (k, t) :: fs else f :: putEntry fs k t

/-- The entries of a list, where a later entry replaces an earlier one with the same key. -/
def merged (fs : List (Key × Tree)) : List (Key × Tree) :=
  fs.foldl (fun fs f => putEntry fs f.1 f.2) []

mutual

/-- The tree that the JSON text of a tree stands for. -/
def viaJson : Tree → Tree
  | leaf a => leaf a.viaJson
  | list ts => list (allViaJson ts)
  | dict fs => dict (merged (entriesViaJson fs))

/-- The trees that the JSON texts of the items of a list stand for. -/
def allViaJson : List Tree → List Tree
  | [] => []
  | t :: ts => t.viaJson :: allViaJson ts

/-- The entries that the JSON texts of the entries of a mapping stand for, all of them. -/
def entriesViaJson : List (Key × Tree) → List (Key × Tree)
  | [] => []
  | (k, t) :: fs => (.text k.nameViaJson, t.viaJson) :: entriesViaJson fs

end

/-- The tree that the text of a tree in one of the output formats stands for. -/
def readBack (format : String) (t : Tree) : Tree := if format = "yaml" then t else t.viaJson

theorem allViaJson_eq_map (ts : List Tree) : allViaJson ts = ts.map viaJson := by
  induction ts with
  | nil => rfl
  | cons t ts ih => rw [allViaJson, ih, List.map_cons]

/-! ## Steps -/

variable {keys : Option Deserializer} {p : Path} {i : Int} {s : String}

theorem find?_putEntry (fs : List (Key × Tree)) (k : String) (t : Tree) :
    find? (putEntry fs (.text k) t) (.scalar (.text s)) =
      if k = s then some t else find? fs (.scalar (.text s)) := by
  induction fs with
  | nil => simp only [putEntry, find?_cons_text, Key.text.injEq]
  | cons f fs ih =>
    rw [putEntry]
    by_cases hf : f.1 = .text k
    · rw [if_pos hf]
      simp only [find?_cons_text, hf, Key.text.injEq]
      split <;> rfl
    · rw [if_neg hf, find?_cons_text, find?_cons_text, ih]
      by_cases hs : f.1 = .text s
      · rw [if_pos hs, if_pos hs, if_neg]
        rintro rfl
        exact hf hs
      · rw [if_neg hs, if_neg hs]

/-- Whether a text stays whole, since none of its characters takes two escapes, and is the last of
the keys that are read back as this name. -/
structure LastNamed (ks : List Key) (s : String) : Prop where
  whole : ∀ c ∈ s.toList, Text.codePoint c < 0x10000
  last : ∀ front k back, ks = front ++ k :: back → k.nameViaJson = s →
    (∀ l ∈ back, l.nameViaJson ≠ s) → k = .text s

theorem LastNamed.of_cons {k : Key} {ks : List Key} (hks : LastNamed (k :: ks) s) :
    LastNamed ks s where
  whole := hks.whole
  last front l back heq := hks.last (k :: front) l back (congrArg (k :: ·) heq)

theorem LastNamed.mem {ks : List Key} (hks : LastNamed ks s) (hs : ∃ k ∈ ks, k.nameViaJson = s) :
    .text s ∈ ks := by
  induction ks with
  | nil => simp at hs
  | cons k ks ih =>
    by_cases hlater : ∃ l ∈ ks, l.nameViaJson = s
    · exact List.mem_cons_of_mem k (ih hks.of_cons hlater)
    · obtain ⟨l, hl, hname⟩ := hs
      rcases List.mem_cons.1 hl with rfl | hl
      · rw [hks.last [] _ ks rfl hname fun m hm hm' => hlater ⟨m, hm, hm'⟩]
        exact List.mem_cons_self
      · exact absurd ⟨l, hl, hname⟩ hlater

/-- Under a text that is the last key of its name there is what was under this key. -/
theorem find?_entriesViaJson {fs : List (Key × Tree)} (hnodup : (fs.map Prod.fst).Nodup)
    (hlast : LastNamed (fs.map Prod.fst) s) (front : List (Key × Tree)) :
    find? ((entriesViaJson fs).foldl (fun fs f => putEntry fs f.1 f.2) front) (.scalar (.text s)) =
      ((find? fs (.scalar (.text s))).map viaJson).or (find? front (.scalar (.text s))) := by
  induction fs generalizing front with
  | nil => rfl
  | cons f fs ih =>
    obtain ⟨k, t⟩ := f
    obtain ⟨hk, hnodup⟩ := List.nodup_cons.1 hnodup
    rw [entriesViaJson, List.foldl_cons, ih hnodup hlast.of_cons, find?_putEntry, find?_cons_text]
    by_cases hs : k = .text s
    · have hname : k.nameViaJson = s := by rw [hs]; exact Text.halves_of_lt hlast.whole
      rw [find?_text_eq_none (hs ▸ hk), if_pos hs, if_pos hname]
      rfl
    · rw [if_neg hs]
      by_cases hname : k.nameViaJson = s
      · -- Another key has the name, so that the text comes later.
        have hlater : .text s ∈ fs.map Prod.fst :=
          (List.mem_cons.1 (hlast.mem ⟨k, List.mem_cons_self, hname⟩)).resolve_left (Ne.symm hs)
        obtain ⟨u, hu⟩ := Option.isSome_iff_exists.1 (isSome_find?_text hlater)
        rw [hu]
        rfl
      · rw [if_neg hname]

theorem step_viaJson_list {ts : List Tree} :
    (list ts).viaJson.step keys p i = ((list ts).step keys p i).map viaJson := by
  rw [viaJson, step, step, allViaJson_eq_map, Option.map_bind]
  congr 1
  funext n
  exact List.getElem?_map

theorem step_viaJson_dict {fs : List (Key × Tree)} (hnodup : (fs.map Prod.fst).Nodup)
    (hkey : mapKey keys p i = .done (.scalar (.text s)))
    (hlast : LastNamed (fs.map Prod.fst) s) :
    (dict fs).viaJson.step keys p i = ((dict fs).step keys p i).map viaJson := by
  rw [viaJson, step, step, hkey]
  exact (find?_entriesViaJson hnodup hlast []).trans (Option.or_none)

/-! ## Texts -/

/-- Whether a number is read back as it is. -/
def Atom.SurvivesJson : Atom → Prop
  | float x => (float x).viaJson = float x
  | _ => True

mutual

/-- Whether no mapping has two keys that are read back as the same name, and all numbers are read
back as they are. -/
def SurvivesJson : Tree → Prop
  | leaf a => a.SurvivesJson
  | list ts => AllSurviveJson ts
  | dict fs => (fs.map fun f => f.1.nameViaJson).Nodup ∧ EntriesSurviveJson fs

/-- Whether the items of a list survive. -/
def AllSurviveJson : List Tree → Prop
  | [] => True
  | t :: ts => t.SurvivesJson ∧ AllSurviveJson ts

/-- Whether the values of a mapping survive, whatever their keys are. -/
def EntriesSurviveJson : List (Key × Tree) → Prop
  | [] => True
  | (_, t) :: fs => t.SurvivesJson ∧ EntriesSurviveJson fs

end

theorem putEntry_of_new {fs : List (Key × Tree)} {k : Key} (hk : k ∉ fs.map Prod.fst) (t : Tree) :
    putEntry fs k t = fs ++ [(k, t)] := by
  induction fs with
  | nil => rfl
  | cons f fs ih =>
    rw [List.map_cons, List.mem_cons, not_or] at hk
    rw [putEntry, if_neg (Ne.symm hk.1), ih hk.2, List.cons_append]

theorem merged_of_nodup {fs : List (Key × Tree)} (hfs : (fs.map Prod.fst).Nodup) :
    merged fs = fs := by
  suffices h : ∀ front : List (Key × Tree), ((front ++ fs).map Prod.fst).Nodup →
      fs.foldl (fun fs f => putEntry fs f.1 f.2) front = front ++ fs from h [] hfs
  clear hfs
  induction fs with
  | nil => exact fun front _ => (List.append_nil front).symm
  | cons f fs ih =>
    intro front hnodup
    rw [List.map_append, List.map_cons] at hnodup
    rw [List.foldl_cons, putEntry_of_new, ih]
    · rw [List.append_assoc, List.singleton_append]
    · rwa [List.append_assoc, List.map_append, List.singleton_append, List.map_cons]
    · exact fun hf => List.disjoint_of_nodup_append hnodup hf List.mem_cons_self

theorem keys_entriesViaJson (fs : List (Key × Tree)) :
    (entriesViaJson fs).map Prod.fst = (fs.map fun f => f.1.nameViaJson).map Key.text := by
  induction fs with
  | nil => rfl
  | cons f fs ih => rw [entriesViaJson, List.map_cons, ih, List.map_cons, List.map_cons]

theorem Atom.json_viaJson {a : Atom} (ha : a.SurvivesJson) : a.viaJson.json = a.json := by
  cases a with
  | float x => rw [show (float x).viaJson = float x from ha]
  | text s => exact Yaml.quoted_halves s
  | null | bool | int => rfl

theorem Atom.prints_viaJson {a : Atom} (ha : a.SurvivesJson) (hprints : a.prints = true) :
    a.viaJson.prints = true := by
  cases a with
  | float x => rw [show (float x).viaJson = float x from ha]; rfl
  | null | bool | int | text => exact hprints

mutual

/-- What survives JSON has the same text when it comes back. -/
theorem json_viaJson : ∀ {t : Tree}, t.SurvivesJson → ∀ depth, t.viaJson.json depth = t.json depth
  | leaf a, ha, depth => by
    rw [SurvivesJson] at ha
    exact Atom.json_viaJson ha
  | list ts, hts, depth => by
    rw [SurvivesJson] at hts
    rw [viaJson, json, json, jsonItems_viaJson hts]
  | dict fs, hfs, depth => by
    rw [SurvivesJson] at hfs
    rw [viaJson, merged_of_nodup, json, json, jsonEntries_viaJson hfs.2]
    rw [keys_entriesViaJson]
    exact hfs.1.map fun _ _ => Key.text.inj

theorem jsonItems_viaJson : ∀ {ts : List Tree}, AllSurviveJson ts →
    ∀ depth, jsonItems depth (allViaJson ts) = jsonItems depth ts
  | [], _, _ => rfl
  | t :: ts, hts, depth => by
    rw [AllSurviveJson] at hts
    rw [allViaJson, jsonItems, jsonItems, json_viaJson hts.1, jsonItems_viaJson hts.2]

theorem jsonEntries_viaJson : ∀ {fs : List (Key × Tree)}, EntriesSurviveJson fs →
    ∀ depth, jsonEntries depth (entriesViaJson fs) = jsonEntries depth fs
  | [], _, _ => rfl
  | (k, t) :: fs, hfs, depth => by
    rw [EntriesSurviveJson] at hfs
    rw [entriesViaJson, jsonEntries, jsonEntries, json_viaJson hfs.1, jsonEntries_viaJson hfs.2,
      Key.name, Key.nameViaJson, Yaml.quoted_halves]

end

mutual

theorem prints_viaJson : ∀ {t : Tree}, t.SurvivesJson → t.prints = true → t.viaJson.prints = true
  | leaf a, ha, hprints => by
    rw [SurvivesJson] at ha
    exact Atom.prints_viaJson ha hprints
  | list ts, hts, hprints => by
    rw [SurvivesJson] at hts
    exact printsAll_viaJson hts hprints
  | dict fs, hfs, hprints => by
    rw [SurvivesJson] at hfs
    rw [viaJson, merged_of_nodup]
    · exact printsEntries_viaJson hfs.2 hprints
    · rw [keys_entriesViaJson]
      exact hfs.1.map fun _ _ => Key.text.inj

theorem printsAll_viaJson : ∀ {ts : List Tree}, AllSurviveJson ts → printsAll ts = true →
    printsAll (allViaJson ts) = true
  | [], _, _ => rfl
  | t :: ts, hts, hprints => by
    rw [AllSurviveJson] at hts
    rw [printsAll, Bool.and_eq_true] at hprints
    rw [allViaJson, printsAll, prints_viaJson hts.1 hprints.1, printsAll_viaJson hts.2 hprints.2]
    rfl

theorem printsEntries_viaJson : ∀ {fs : List (Key × Tree)}, EntriesSurviveJson fs →
    printsEntries fs = true → printsEntries (entriesViaJson fs) = true
  | [], _, _ => rfl
  | (k, t) :: fs, hfs, hprints => by
    rw [EntriesSurviveJson] at hfs
    rw [printsEntries, Bool.and_eq_true, Bool.and_eq_true] at hprints
    rw [entriesViaJson, printsEntries, prints_viaJson hfs.1 hprints.1.2,
      printsEntries_viaJson hfs.2 hprints.2]
    rfl

end

end Dotpath.Tree

import Dotpath.Proofs.Document.JsonObject
import Dotpath.Proofs.Settings.Choice
import Dotpath.Settings.Session

/-!
# Settings files

What a settings file gives.  Where its text is a JSON object in which every recognised pair has a
usable value, it gives what these pairs stand for (`GivenBy`); any other text gives the default
settings as a whole.  So the settings that are read can always be used (`isUsable_load`), and usable
settings are read back from the file that holds them (`load_fileText`).
-/

namespace Dotpath

theorem Entries.forall_find? {es : Entries} {P : Value → Prop} {k v : Value}
    (hes : ∀ e ∈ es, P e.2) (hv : Entries.find? es k = some v) : P v := by
  obtain ⟨e, he, rfl⟩ := Option.map_eq_some_iff.1 hv
  exact hes e (List.mem_of_find?_eq_some he)

namespace Settings

/-- Whether settings are such that documents can be written and walkers be built. -/
structure IsUsable (s : Settings) : Prop where
  outputFormat : s.outputFormat ∈ outputFormats
  keyType : s.keyType ∈ keyTypes

/-! ## Settings out of pairs -/

/-- Whether some pairs give a setting: the default if there is no pair of this name, or else what its
value stands for. -/
def Gives {α : Type} (means : α → Scalar → α → Prop) (es : Entries) (name : String)
    (default x : α) : Prop :=
  match Entries.find? es (.scalar (.text name)) with
  | none => x = default
  | some v => v.StandsFor (means default) x

/-- Whether some pairs give settings. -/
structure GivenBy (es : Entries) (s : Settings) : Prop where
  suppresses : Gives MeansFlag es "suppress_exceptions" true s.suppresses
  verbose : Gives MeansFlag es "verbose" false s.verbose
  outputFormat : Gives (MeansChoice outputFormats) es "output_format" "json" s.outputFormat
  keyType : Gives (MeansChoice keyTypes) es "key_type" "str" s.keyType

/-- Whether a recognised pair has a value that stands for nothing. -/
def HasUnusable (es : Entries) : Prop :=
  (∀ b, ¬ Gives MeansFlag es "suppress_exceptions" true b) ∨
  (∀ b, ¬ Gives MeansFlag es "verbose" false b) ∨
  (∀ w, ¬ Gives (MeansChoice outputFormats) es "output_format" "json" w) ∨
  (∀ w, ¬ Gives (MeansChoice keyTypes) es "key_type" "str" w)

variable {h : Heap} {a : Address} {es : Entries} {s : Settings} {text : String}

theorem exists_givenBy_iff : (∃ s, GivenBy es s) ↔ ¬ HasUnusable es := by
  simp only [HasUnusable, not_or, not_forall, not_not]
  constructor
  · rintro ⟨s, hs⟩
    exact ⟨⟨_, hs.suppresses⟩, ⟨_, hs.verbose⟩, ⟨_, hs.outputFormat⟩, ⟨_, hs.keyType⟩⟩
  · rintro ⟨⟨b, hb⟩, ⟨c, hc⟩, ⟨w, hw⟩, ⟨k, hk⟩⟩
    exact ⟨⟨b, c, w, k⟩, hb, hc, hw, hk⟩

theorem finds_givenFlag (hes : ∀ e ∈ es, h.IsDocument e.2) (name : String) (default : Bool) :
    Finds (givenFlag h es name default) (Gives MeansFlag es name default) := by
  unfold givenFlag Gives
  cases hv : Entries.find? es (.scalar (.text name)) with
  | none => exact .ok default
  | some v => exact Heap.finds_asBool (Entries.forall_find? (P := h.IsDocument) hes hv) default

theorem finds_givenChoice (hes : ∀ e ∈ es, h.IsDocument e.2) (name : String)
    {choices : List String} (hchoices : choices = outputFormats ∨ choices = keyTypes)
    (default : String) :
    Finds (givenChoice h es name choices default) (Gives (MeansChoice choices) es name default) := by
  unfold givenChoice Gives
  cases hv : Entries.find? es (.scalar (.text name)) with
  | none => exact .ok default
  | some v => exact Heap.finds_asChoice (Entries.forall_find? (P := h.IsDocument) hes hv) default hchoices

/-- Settings are made of the pairs of a dictionary that give them. -/
theorem finds_ofValue_dict (hn : h.get? a = some (.dict .plain es))
    (hes : ∀ e ∈ es, h.IsDocument e.2) : Finds (ofValue h (.ref a)) (GivenBy es) := by
  have hpairs : h.pairs? (.ref a) = some es := by rw [Heap.pairs?, hn]; rfl
  unfold ofValue
  rw [hpairs]
  refine ((finds_givenFlag hes _ _).bind fun b => (finds_givenFlag hes _ _).bind fun c =>
    (finds_givenChoice hes _ (.inl rfl) _).bind fun w =>
      (finds_givenChoice hes _ (.inr rfl) _).bind fun k => .ok _).congr fun s => ?_
  constructor
  · rintro ⟨b, hb, c, hc, w, hw, k, hk, rfl⟩
    exact ⟨hb, hc, hw, hk⟩
  · rintro ⟨hb, hc, hw, hk⟩
    exact ⟨_, hb, _, hc, _, hw, _, hk, rfl⟩

/-! ## Settings out of a file -/

/-- Whether a text is that of a JSON object with some pairs. -/
def IsObject (text : String) (es : Entries) : Prop :=
  ∃ a h, Json.read? {} text = some (.ref a, h) ∧ h.get? a = some (.dict .plain es)

/-- Whether a text is that of a JSON object whose pairs give settings. -/
def Describes (text : String) (s : Settings) : Prop := ∃ es, IsObject text es ∧ GivenBy es s

theorem IsObject.unique {es' : Entries} (hes : IsObject text es) (hes' : IsObject text es') :
    es = es' := by
  obtain ⟨a, h, hread, hn⟩ := hes
  obtain ⟨a', h', hread', hn'⟩ := hes'
  cases hread.symm.trans hread'
  cases hn.symm.trans hn'
  rfl

/-- The settings out of a document are those that an object describes. -/
theorem finds_ofValue {v : Value} (hread : Json.read? {} text = some (v, h)) :
    Finds (ofValue h v) (Describes text) := by
  have hdocument : h.IsDocument v := (Json.isDocument_of_read? hread).2
  -- A value that is no dictionary has no pairs.
  have hother (hpairs : h.pairs? v = none)
      (hv : ∀ a es, v = .ref a → h.get? a ≠ some (.dict .plain es)) :
      Finds (ofValue h v) (Describes text) := by
    unfold ofValue
    rw [hpairs]
    refine .error rfl ?_
    rintro s ⟨es, ⟨a, h', hread', hn⟩, -⟩
    cases hread.symm.trans hread'
    exact hv a es rfl hn
  obtain ⟨d, hd, -⟩ := id hdocument
  cases hd with
  | leaf b => exact hother rfl fun _ _ hv => by cases hv
  | list hn =>
    refine hother (by rw [Heap.pairs?, hn]; rfl) fun b es hv => ?_
    cases hv
    simp [hn]
  | @dict a es fs hn =>
    refine (finds_ofValue_dict hn (hdocument.forall_values hn)).congr fun s => ?_
    constructor
    · intro hs
      exact ⟨es, ⟨a, h, hread, hn⟩, hs⟩
    · rintro ⟨es', hes', hs⟩
      cases hes'.unique ⟨a, h, hread, hn⟩
      exact hs

theorem read_of_describes (hs : Describes text s) : read (some text) = .ok s := by
  obtain ⟨es, ⟨a, h, hread, hn⟩, -⟩ := id hs
  rw [read, hread]
  dsimp only
  rw [((finds_ofValue hread).eq_ok_iff s).2 hs]

theorem read_of_not_describes (hnone : ∀ s, ¬ Describes text s) : read (some text) = .ok {} := by
  rw [read]
  cases hread : Json.read? {} text with
  | none => rfl
  | some r =>
    obtain ⟨v, h⟩ := r
    have hfinds := finds_ofValue hread
    dsimp only
    cases hvalue : ofValue h v with
    | ok s => exact absurd ((hfinds.eq_ok_iff s).1 hvalue) (hnone s)
    | error f =>
      dsimp only
      rw [hfinds.fault f hvalue, if_pos rfl]

/-- No file keeps settings from being read. -/
theorem read_eq_ok_load (file : Option String) : read file = .ok (load file) := by
  have hload {s : Settings} (hread : read file = .ok s) : read file = .ok (load file) := by
    rw [load, hread]
    rfl
  cases file with
  | none => rfl
  | some text =>
    by_cases hs : ∃ s, Describes text s
    · obtain ⟨s, hs⟩ := hs
      exact hload (read_of_describes hs)
    · exact hload (read_of_not_describes (not_exists.1 hs))

theorem load_of_describes (hs : Describes text s) : load (some text) = s :=
  Except.ok.inj ((read_eq_ok_load _).symm.trans (read_of_describes hs))

theorem load_of_not_describes (hnone : ∀ s, ¬ Describes text s) : load (some text) = {} :=
  Except.ok.inj ((read_eq_ok_load _).symm.trans (read_of_not_describes hnone))

/-- Whether settings are those of a file: the described ones, or the defaults if the file is missing
or describes none. -/
inductive Loads : Option String → Settings → Prop
  | missing : Loads none {}
  | unusable {text : String} (hnone : ∀ s, ¬ Describes text s) : Loads (some text) {}
  | described {text : String} {s : Settings} (hs : Describes text s) : Loads (some text) s

theorem loads_iff {file : Option String} : Loads file s ↔ s = load file := by
  constructor
  · rintro (- | hnone | hs)
    · rfl
    · exact (load_of_not_describes hnone).symm
    · exact (load_of_describes hs).symm
  · rintro rfl
    cases file with
    | none => exact .missing
    | some text =>
      by_cases hs : ∃ s, Describes text s
      · obtain ⟨s, hs⟩ := hs
        rw [load_of_describes hs]
        exact .described hs
      · rw [load_of_not_describes (not_exists.1 hs)]
        exact .unusable (not_exists.1 hs)

theorem isUsable_default : IsUsable {} := ⟨by decide, by decide⟩

/-- The words of the choices are written as they are compared. -/
theorem normalWord_of_mem_choices {w : String} (hw : w ∈ outputFormats ∨ w ∈ keyTypes) :
    normalWord w = w := by
  simp only [outputFormats, keyTypes, List.mem_cons, List.not_mem_nil, or_false] at hw
  rcases hw with (rfl | rfl) | rfl | rfl <;> cbv

theorem meansChoice_self {choices : List String} {w default : String}
    (hchoices : choices = outputFormats ∨ choices = keyTypes) (hw : w ∈ choices) :
    MeansChoice choices default (.text w) w := by
  have hnormal : normalWord w = w := by
    refine normalWord_of_mem_choices ?_
    rcases hchoices with rfl | rfl
    · exact .inl hw
    · exact .inr hw
  have hmeans : MeansChoice choices default (.text w) (normalWord w) := .word (hnormal.symm ▸ hw)
  rwa [hnormal] at hmeans

theorem mem_of_meansChoice {choices : List String} {default w : String} {s : Scalar}
    (hdefault : default ∈ choices) (hw : MeansChoice choices default s w) : w ∈ choices := by
  cases hw with
  | unset | blank => exact hdefault
  | word ht => exact ht

theorem mem_of_gives {choices : List String} {name default w : String} (hdefault : default ∈ choices)
    (hw : Gives (MeansChoice choices) es name default w) : w ∈ choices := by
  unfold Gives at hw
  split at hw
  · rwa [hw]
  · obtain ⟨s, -, hs⟩ := hw
    exact mem_of_meansChoice hdefault hs

theorem GivenBy.isUsable (hs : GivenBy es s) : s.IsUsable :=
  ⟨mem_of_gives (by decide) hs.outputFormat, mem_of_gives (by decide) hs.keyType⟩

/-- Whatever a file holds, its settings can be used. -/
theorem isUsable_load (file : Option String) : (load file).IsUsable := by
  generalize hs : load file = s
  cases loads_iff.2 hs.symm with
  | missing | unusable => exact isUsable_default
  | described hs =>
    obtain ⟨es, -, hs⟩ := hs
    exact hs.isUsable

/-- The key type of usable settings never keeps a walker from being built. -/
theorem IsUsable.walker (hs : s.IsUsable) (paths : List Given) :
    s.walker paths = Walker.ofPaths paths (!s.suppresses) (keyDeserializer s.keyType) := by
  have hkey : textChoice s.keyType keyTypes "str" = .ok s.keyType :=
    ((Heap.finds_asChoice_text (by decide) s.keyType "str").eq_ok_iff _).2
      (meansChoice_self (.inr rfl) hs.keyType)
  rw [Settings.walker, hkey]
  rfl

/-! ## Settings that are kept -/

theorem gives_of_find? {α : Type} {means : α → Scalar → α → Prop} {name : String} {default x : α}
    {c : Scalar} (hfind : Entries.find? es (.scalar (.text name)) = some (.scalar c))
    (hx : means default c x) : Gives means es name default x := by
  rw [Gives, hfind]
  exact Value.standsFor_scalar.2 hx

/-- Usable settings are given by their own pairs. -/
theorem IsUsable.givenBy_entries (hs : s.IsUsable) : GivenBy s.entries s where
  suppresses := gives_of_find? rfl (.truth (by cases s.suppresses <;> rfl))
  verbose := gives_of_find? rfl (.truth (by cases s.verbose <;> rfl))
  outputFormat := gives_of_find? rfl (meansChoice_self (.inl rfl) hs.outputFormat)
  keyType := gives_of_find? rfl (meansChoice_self (.inr rfl) hs.keyType)

theorem IsUsable.ofValue_entries (hs : s.IsUsable) (h : Heap) :
    ofValue (h.alloc (.dict .plain s.entries)).1 (.ref (h.alloc (.dict .plain s.entries)).2) =
      .ok s := by
  refine ((finds_ofValue_dict (Heap.get?_alloc_self h _) ?_).eq_ok_iff s).2 hs.givenBy_entries
  simp only [entries, List.forall_mem_cons]
  exact ⟨Heap.isDocument_atom (b := .bool _) rfl, Heap.isDocument_atom (b := .bool _) rfl,
    Heap.isDocument_atom (b := .text _) rfl, Heap.isDocument_atom (b := .text _) rfl, nofun⟩

theorem isPlain_of_mem_choices {w : String} (hw : w ∈ outputFormats ∨ w ∈ keyTypes) :
    w.toList.all Json.isPlainChar = true := by
  simp only [outputFormats, keyTypes, List.mem_cons, List.not_mem_nil, or_false] at hw
  rcases hw with (rfl | rfl) | rfl | rfl <;> decide

/-- The line of a flag in a settings file. -/
def flagPair (name : String) (hname : name.toList.all Json.isPlainChar = true) (b : Bool) :
    Json.SimplePair :=
  ⟨name, _, _, hname, Json.readsAs_bool b⟩

/-- The line of a choice in a settings file. -/
def choicePair (name : String) (hname : name.toList.all Json.isPlainChar = true) (w : String)
    (hw : w.toList.all Json.isPlainChar = true) : Json.SimplePair :=
  ⟨name, _, _, hname, Json.readsAs_quoted hw⟩

/-- The file of usable settings holds the object of their pairs. -/
theorem IsUsable.isObject_fileText (hs : s.IsUsable) : IsObject s.fileText s.entries := by
  have hread := Json.read?_block (h := {}) (flagPair "suppress_exceptions" (by decide) s.suppresses)
    [flagPair "verbose" (by decide) s.verbose,
      choicePair "output_format" (by decide) s.outputFormat
        (isPlain_of_mem_choices (.inl hs.outputFormat)),
      choicePair "key_type" (by decide) s.keyType (isPlain_of_mem_choices (.inr hs.keyType))]
  exact ⟨_, _, hread, Heap.get?_alloc_self {} _⟩

theorem IsUsable.load_fileText (hs : s.IsUsable) : load (some s.fileText) = s :=
  load_of_describes ⟨s.entries, hs.isObject_fileText, hs.givenBy_entries⟩

/-- Saved settings are read back. -/
theorem IsUsable.load_save (hs : s.IsUsable) (w : World) (place : Place) :
    load (((Session.mk place s).save w).file? (Session.file place)) = s := by
  rw [Session.save, World.file?_writeFile_self]
  exact hs.load_fileText

/-! ## All or nothing -/

/-- The names of the pairs that are recognised. -/
def fieldNames : List String := ["suppress_exceptions", "verbose", "output_format", "key_type"]

/-- What some pairs hold under a name: nothing, a container, or a scalar. -/
def held (es : Entries) (name : String) : Option (Option Scalar) :=
  (Entries.find? es (.scalar (.text name))).map fun
    | .scalar s => some s
    | _ => none

theorem gives_iff_held {α : Type} {means : α → Scalar → α → Prop} {name : String} {default x : α} :
    Gives means es name default x ↔
      match held es name with
      | none => x = default
      | some none => False
      | some (some s) => means default s x := by
  unfold Gives held
  cases Entries.find? es (.scalar (.text name)) with
  | none => rfl
  | some v =>
    cases v with
    | scalar s => exact Value.standsFor_scalar
    | _ => exact iff_of_false (by simp [Value.StandsFor]) id

theorem GivenBy.of_held {es' : Entries} (hs : GivenBy es s)
    (hheld : ∀ name ∈ fieldNames, held es name = held es' name) : GivenBy es' s := by
  simp only [fieldNames, List.forall_mem_cons] at hheld
  obtain ⟨hsuppresses, hverbose, hformat, hkey, -⟩ := hheld
  obtain ⟨hs₁, hs₂, hs₃, hs₄⟩ := hs
  rw [gives_iff_held] at hs₁ hs₂ hs₃ hs₄
  exact ⟨gives_iff_held.2 (hsuppresses ▸ hs₁), gives_iff_held.2 (hverbose ▸ hs₂),
    gives_iff_held.2 (hformat ▸ hs₃), gives_iff_held.2 (hkey ▸ hs₄)⟩

theorem load_congr {text' : String} {es' : Entries} (hes : IsObject text es)
    (hes' : IsObject text' es') (hheld : ∀ name ∈ fieldNames, held es name = held es' name) :
    load (some text) = load (some text') := by
  by_cases hs : ∃ s, GivenBy es s
  · obtain ⟨s, hs⟩ := hs
    rw [load_of_describes ⟨es, hes, hs⟩, load_of_describes ⟨es', hes', hs.of_held hheld⟩]
  · rw [load_of_not_describes, load_of_not_describes]
    · rintro s ⟨es'', hes'', hs'⟩
      cases hes'.unique hes''
      exact hs ⟨s, hs'.of_held fun name hname => (hheld name hname).symm⟩
    · rintro s ⟨es'', hes'', hs'⟩
      cases hes.unique hes''
      exact hs ⟨s, hs'⟩

/-- Every text of a settings file gives usable settings, and nothing keeps a walker from being built
with their key type.  They are the default settings unless the text is a JSON object without an
unusable value under a recognised name; then they are what the values under these names stand for.
Other names make no difference, and neither do blanks around a word or the case of its letters.
Usable settings are read back from the file in which they are saved, and from their pairs. -/
theorem load_allOrNothing (text : String) :
    read (some text) = .ok (load (some text)) ∧ (load (some text)).IsUsable ∧
    (∀ paths, (load (some text)).walker paths = Walker.ofPaths paths
      (!(load (some text)).suppresses) (keyDeserializer (load (some text)).keyType)) ∧
    ((∀ es, IsObject text es → HasUnusable es) → load (some text) = {}) ∧
    (∀ es, IsObject text es → ¬ HasUnusable es → ∀ s, GivenBy es s ↔ s = load (some text)) ∧
    (∀ text' es es', IsObject text es → IsObject text' es' →
      (∀ name ∈ fieldNames, held es name = held es' name) →
        load (some text) = load (some text')) ∧
    (∀ s t : String, s.toList.map Char.toLower = t.toList.map Char.toLower →
      normalWord s = normalWord t) ∧
    (∀ (s t : String) (front back : List Char), (∀ c ∈ front, Text.isBlank c = true) →
      (∀ c ∈ back, Text.isBlank c = true) → t.toList = front ++ s.toList ++ back →
        normalWord t = normalWord s) ∧
    (∀ s : Settings, s.IsUsable → ∀ w place,
      load (((Session.mk place s).save w).file? (Session.file place)) = s) ∧
    ∀ h : Heap, ofValue (h.alloc (.dict .plain (load (some text)).entries)).1
      (.ref (h.alloc (.dict .plain (load (some text)).entries)).2) = .ok (load (some text)) := by
  have husable := isUsable_load (some text)
  refine ⟨read_eq_ok_load _, husable, husable.walker, fun hall => ?_, fun es hes hgood s => ?_,
    fun _ _ _ => load_congr, fun _ _ => normalWord_congr, fun _ _ _ _ => normalWord_pad,
    fun _ hs => hs.load_save, husable.ofValue_entries⟩
  · refine load_of_not_describes ?_
    rintro s ⟨es, hes, hs⟩
    exact exists_givenBy_iff.1 ⟨s, hs⟩ (hall es hes)
  · constructor
    · intro hs
      exact (load_of_describes ⟨es, hes, hs⟩).symm
    · rintro rfl
      obtain ⟨s, hs⟩ := exists_givenBy_iff.2 hgood
      rwa [load_of_describes ⟨es, hes, hs⟩]

/-- A word in capitals and between blanks, and a text that is no object. -/
theorem load_yes : load (some "\x7b\"verbose\": \" YES \", \"x\": []\x7d") = { verbose := true } ∧
    load (some "[]") = {} := by
  have hobject : IsObject "\x7b\"verbose\": \" YES \", \"x\": []\x7d"
      [(.scalar (.text "verbose"), .scalar (.text " YES ")), (.scalar (.text "x"), .ref 0)] :=
    ⟨1, ⟨#[.list [], .dict .plain
      [(.scalar (.text "verbose"), .scalar (.text " YES ")), (.scalar (.text "x"), .ref 0)]]⟩,
      by cbv, rfl⟩
  have hword : normalWord " YES " ∈ flagWords true := by
    have hyes : normalWord " YES " = "yes" := by cbv
    rw [hyes]
    decide
  have hgiven : GivenBy [(.scalar (.text "verbose"), .scalar (.text " YES ")),
      (.scalar (.text "x"), .ref 0)] { verbose := true } :=
    ⟨rfl, gives_of_find? rfl (.word hword), rfl, rfl⟩
  have hlist : Json.read? {} "[]" = some (.ref 0, ⟨#[.list []]⟩) := by cbv
  obtain ⟨-, -, -, -, hload, -⟩ := load_allOrNothing "\x7b\"verbose\": \" YES \", \"x\": []\x7d"
  obtain ⟨-, -, -, hnone, -⟩ := load_allOrNothing "[]"
  refine ⟨((hload _ hobject (exists_givenBy_iff.1 ⟨_, hgiven⟩) _).1 hgiven).symm, hnone ?_⟩
  rintro es ⟨a, h, hread, hn⟩
  cases hlist.symm.trans hread
  cases hn

end Settings

end Dotpath

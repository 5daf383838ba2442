import Dotpath.Proofs.Settings.File

/-!
# The settings of a run

A run takes each setting from the first layer that has it: what is given explicitly, the environment
(for strictness only), the settings file, the defaults.  Only a word in the environment that is no
truth value keeps a run from beginning, and only if strictness is not given explicitly
(`begin_eq_error_iff`).  Saved settings are what later runs begin with (`begin_layered`).
-/

namespace Dotpath

namespace World

/-- The world without a wish for strictness in the environment. -/
def withoutStrictness (w : World) : World :=
  { w with env := w.env.filter fun e => e.1 != "PATHWALK_STRICT" }

variable {w : World} {name : String}

theorem envVar?_withoutStrictness_of_ne (hname : name ≠ "PATHWALK_STRICT") :
    w.withoutStrictness.envVar? name = w.envVar? name := by
  unfold envVar? withoutStrictness
  dsimp only
  induction w.env with
  | nil => rfl
  | cons e env ih =>
    obtain ⟨key, text⟩ := e
    by_cases hkey : key = "PATHWALK_STRICT"
    · rw [List.filter_cons_of_neg (by simp [hkey]), List.lookup_cons, hkey, beq_false_of_ne hname, ih]
    · rw [List.filter_cons_of_pos (by simp [hkey]), List.lookup_cons, List.lookup_cons, ih]

theorem envVar?_withoutStrictness : w.withoutStrictness.envVar? "PATHWALK_STRICT" = none := by
  refine List.lookup_eq_none_iff.2 fun e he => ?_
  obtain ⟨-, he⟩ := List.mem_filter.1 he
  simpa [bne_comm] using he

theorem file?_withoutStrictness (p : Place) : w.withoutStrictness.file? p = w.file? p := rfl

end World

/-- What the environment wishes for strictness: nothing if the text is missing or empty, or the truth
value of its word. -/
inductive Wishes : Option String → Option Bool → Prop
  | missing : Wishes none none
  | empty : Wishes (some "") none
  | word {t : String} {b : Bool} (ht : normalWord t ∈ flagWords b) : Wishes (some t) (some b)

/-- Whether settings are merged out of layers: each setting is the explicit one, or else that of the
environment, or else that of the file. -/
structure Settings.IsMerged (loaded : Settings) (wish : Option Bool) (o : Overrides) (s : Settings) :
    Prop where
  strict : (!s.suppresses) = (o.strict.or wish).getD (!loaded.suppresses)
  verbose : s.verbose = o.verbose.getD loaded.verbose
  outputFormat : s.outputFormat = loaded.outputFormat
  keyType : s.keyType = o.keyType.getD loaded.keyType

theorem textFlag_eq (t : String) : textFlag t =
    match flagWord? t with
    | some b => .ok (some b)
    | none => Heap.quoted {} {} (.scalar (.text t)) >>= fun shown => .error (.notBool "str" shown) := by
  rw [textFlag, Heap.asBool, if_neg (by simp [Value.isNull])]
  simp only [Scalar.flag?]
  cases flagWord? t <;> rfl

theorem textFlag_of_mem {t : String} {b : Bool} (ht : normalWord t ∈ flagWords b) :
    textFlag t = .ok (some b) := by
  rw [textFlag_eq, flagWord?_eq_some_iff.2 ht]

/-- A text that is no word for a truth value is a wrong value. -/
theorem textFlag_of_not_mem {t : String} (hnone : ∀ b, normalWord t ∉ flagWords b) :
    ∃ f, textFlag t = .error f ∧ f.kind = .valueError := by
  have hword : flagWord? t = none :=
    Option.eq_none_iff_forall_ne_some.2 fun b hb => hnone b (flagWord?_eq_some_iff.1 hb)
  obtain ⟨shown, hshown⟩ := Heap.exists_ok_quoted (Heap.isDocument_atom (h := {}) (b := .text t) rfl)
  have hfault : textFlag t = .error (.notBool "str" shown) := by
    rw [textFlag_eq, hword]
    exact bind_eq_error.2 (.inr ⟨shown, hshown, rfl⟩)
  exact ⟨_, hfault, rfl⟩

namespace Settings

variable {file env : Option String} {wish : Option Bool} {o : Overrides} {loaded s s' : Settings}

theorem IsMerged.unique (hs : IsMerged loaded wish o s) (hs' : IsMerged loaded wish o s') :
    s = s' := by
  obtain ⟨suppresses, verbose, outputFormat, keyType⟩ := s
  obtain ⟨suppresses', verbose', outputFormat', keyType'⟩ := s'
  obtain ⟨h₁, h₂, h₃, h₄⟩ := hs
  obtain ⟨h₁', h₂', h₃', h₄'⟩ := hs'
  cases h₂.trans h₂'.symm
  cases h₃.trans h₃'.symm
  cases h₄.trans h₄'.symm
  cases Bool.not_inj (h₁.trans h₁'.symm)
  rfl

theorem exists_isMerged (loaded : Settings) (wish : Option Bool) (o : Overrides) :
    ∃ s, IsMerged loaded wish o s :=
  ⟨{ loaded with
      suppresses := !(o.strict.or wish).getD (!loaded.suppresses)
      verbose := o.verbose.getD loaded.verbose
      keyType := o.keyType.getD loaded.keyType }, Bool.not_not _, rfl, rfl, rfl⟩

/-- A text in the environment decides on strictness where nothing else does. -/
theorem effectiveSettings_text {t : String} (hstrict : o.strict = none) (hne : t ≠ "") :
    effectiveSettings file (some t) o = textFlag t >>= fun wished => .ok
      { load file with
        suppresses := (wished.map (!·)).getD (load file).suppresses
        verbose := o.verbose.getD (load file).verbose
        keyType := o.keyType.getD (load file).keyType } := by
  rw [effectiveSettings, read_eq_ok_load, hstrict]
  dsimp only
  split
  · next hsome => cases hsome
  · next hempty => exact absurd (Option.some.inj hempty) hne
  · next htext =>
    cases htext
    simp only [bind, Except.bind, pure, Except.pure]
  · next hnone => cases hnone

theorem not_mem_flagWords_empty (b : Bool) : normalWord "" ∉ flagWords b := by
  cases b <;> decide

/-- The settings of a run are merged out of its layers. -/
theorem effectiveSettings_eq_ok_iff (hwish : o.strict = none → Wishes env wish) :
    effectiveSettings file env o = .ok s ↔ IsMerged (load file) wish o s := by
  have hmerged : ∃ s, effectiveSettings file env o = .ok s ∧ IsMerged (load file) wish o s := by
    cases hstrict : o.strict with
    | some b =>
      rw [effectiveSettings, read_eq_ok_load, hstrict]
      exact ⟨_, rfl, by simp [hstrict], rfl, rfl, rfl⟩
    | none =>
      cases hwish hstrict with
      | missing | empty =>
        rw [effectiveSettings, read_eq_ok_load, hstrict]
        exact ⟨_, rfl, by simp [hstrict], rfl, rfl, rfl⟩
      | @word t b ht =>
        have hne : t ≠ "" := by
          rintro rfl
          exact not_mem_flagWords_empty b ht
        rw [effectiveSettings_text hstrict hne, textFlag_of_mem ht]
        exact ⟨_, rfl, by simp [hstrict], rfl, rfl, rfl⟩
  obtain ⟨s', hs', hmerged⟩ := hmerged
  rw [hs', Except.ok.injEq]
  constructor
  · rintro rfl
    exact hmerged
  · exact hmerged.unique

/-- The environment has a wish unless its text is no word for a truth value. -/
theorem exists_wishes_iff :
    (∃ wish, Wishes env wish) ↔ ¬ ∃ t, env = some t ∧ t ≠ "" ∧ ∀ b, normalWord t ∉ flagWords b := by
  constructor
  · rintro ⟨wish, - | - | ht⟩
    · rintro ⟨t, ⟨⟩, -⟩
    · rintro ⟨t, ⟨⟩, hne, -⟩
      exact hne rfl
    · rintro ⟨t, ⟨⟩, -, hnone⟩
      exact hnone _ ht
  · intro hgood
    rcases env with - | t
    · exact ⟨none, .missing⟩
    · by_cases hempty : t = ""
      · rw [hempty]
        exact ⟨none, .empty⟩
      · by_cases hword : ∃ b, normalWord t ∈ flagWords b
        · obtain ⟨b, hb⟩ := hword
          exact ⟨some b, .word hb⟩
        · exact absurd ⟨t, rfl, hempty, not_exists.1 hword⟩ hgood

/-- Only a text in the environment that is no word for a truth value keeps a run from its settings. -/
theorem effectiveSettings_eq_error_iff : (∃ f, effectiveSettings file env o = .error f) ↔
    o.strict = none ∧ ∃ t, env = some t ∧ t ≠ "" ∧ ∀ b, normalWord t ∉ flagWords b := by
  constructor
  · rintro ⟨f, hf⟩
    have hnone : ∀ wish, ¬ (o.strict = none → Wishes env wish) := by
      intro wish hwish
      obtain ⟨s, hs⟩ := exists_isMerged (load file) wish o
      cases hf.symm.trans ((effectiveSettings_eq_ok_iff hwish).2 hs)
    have hstrict : o.strict = none := not_not.1 fun hsome => hnone none fun h => absurd h hsome
    refine ⟨hstrict, not_not.1 fun hgood => ?_⟩
    obtain ⟨wish, hwish⟩ := exists_wishes_iff.2 hgood
    exact hnone wish fun _ => hwish
  · rintro ⟨hstrict, t, rfl, hne, hnone⟩
    obtain ⟨f, hf, -⟩ := textFlag_of_not_mem hnone
    exact ⟨f, by rw [effectiveSettings_text hstrict hne, hf]; rfl⟩

theorem exists_wishes_of_eq_ok (hs : effectiveSettings file env o = .ok s) :
    ∃ wish, o.strict = none → Wishes env wish := by
  by_cases hstrict : o.strict = none
  · have hgood : ¬ ∃ t, env = some t ∧ t ≠ "" ∧ ∀ b, normalWord t ∉ flagWords b := by
      intro hbad
      obtain ⟨f, hf⟩ := effectiveSettings_eq_error_iff.2 ⟨hstrict, hbad⟩
      cases hs.symm.trans hf
    obtain ⟨wish, hwish⟩ := exists_wishes_iff.2 hgood
    exact ⟨wish, fun _ => hwish⟩
  · exact ⟨none, fun h => absurd h hstrict⟩

theorem kind_of_effectiveSettings {f : Fault} (hf : effectiveSettings file env o = .error f) :
    f.kind = .valueError := by
  obtain ⟨hstrict, t, rfl, hne, hnone⟩ := effectiveSettings_eq_error_iff.1 ⟨f, hf⟩
  obtain ⟨g, hg, hkind⟩ := textFlag_of_not_mem hnone
  rw [effectiveSettings_text hstrict hne, hg] at hf
  cases hf
  exact hkind

/-- Merging the layers into settings that come from them changes nothing. -/
theorem IsMerged.again (hs : IsMerged loaded wish o s) : IsMerged s wish o s := by
  obtain ⟨h₁, h₂, h₃, h₄⟩ := hs
  refine ⟨?_, ?_, rfl, ?_⟩
  · rw [h₁]
    cases o.strict.or wish <;> rfl
  · rw [h₂]
    cases o.verbose <;> rfl
  · rw [h₄]
    cases o.keyType <;> rfl

theorem isMerged_none (s : Settings) : IsMerged s none {} s := ⟨rfl, rfl, rfl, rfl⟩

/-- Usable settings stay usable under a known key type. -/
theorem IsMerged.isUsable (hs : IsMerged loaded wish o s) (hloaded : loaded.IsUsable)
    (hkey : ∀ k, o.keyType = some k → k ∈ keyTypes) : s.IsUsable := by
  refine ⟨hs.outputFormat ▸ hloaded.outputFormat, ?_⟩
  rw [hs.keyType]
  cases hk : o.keyType with
  | none => exact hloaded.keyType
  | some k => exact hkey k hk

end Settings

namespace Session

open Settings

variable {w : World} {directory : Option String} {o : Overrides} {session : Session}

theorem begin_eq_ok_iff : Session.begin w directory o = .ok session ↔
    session.place = settingsPlace w directory ∧
      effectiveSettings (w.file? (file (settingsPlace w directory)))
        (w.envVar? "PATHWALK_STRICT") o = .ok session.settings := by
  obtain ⟨place, s⟩ := session
  rw [Session.begin, bind_eq_ok]
  constructor
  · rintro ⟨s', hs', hsession⟩
    cases hsession
    exact ⟨rfl, hs'⟩
  · rintro ⟨hplace, hs⟩
    cases hplace
    exact ⟨s, hs, rfl⟩

theorem begin_eq_error_iff {f : Fault} : Session.begin w directory o = .error f ↔
    effectiveSettings (w.file? (file (settingsPlace w directory)))
      (w.envVar? "PATHWALK_STRICT") o = .error f := by
  rw [Session.begin, bind_eq_error]
  constructor
  · rintro (hf | ⟨s, -, hsession⟩)
    · exact hf
    · cases hsession
  · exact .inl

/-- The place of the settings depends on the directory of the run and the environment alone, and not
on strictness. -/
theorem settingsPlace_congr {w' : World} (hhere : w'.here = w.here)
    (henv : ∀ name, name ≠ "PATHWALK_STRICT" → w'.envVar? name = w.envVar? name) :
    settingsPlace w' directory = settingsPlace w directory := by
  have husual : settingsPlace.usual w' = settingsPlace.usual w := by
    unfold settingsPlace.usual
    rw [hhere, henv "XDG_DATA_HOME" (by decide), henv "HOME" (by decide)]
  unfold settingsPlace
  rw [hhere, husual, henv "PATHWALK_SETTINGS_DIR" (by decide)]

theorem settingsPlace_save (session : Session) :
    settingsPlace (session.save w) directory = settingsPlace w directory :=
  settingsPlace_congr (World.here_writeFile w _ _) fun name _ => World.envVar?_writeFile w _ _ name

theorem settingsPlace_withoutStrictness :
    settingsPlace w.withoutStrictness directory = settingsPlace w directory :=
  settingsPlace_congr rfl fun _ => World.envVar?_withoutStrictness_of_ne

/-- A run begins with what its explicit settings, the environment and the settings file give, one
setting at a time, and it begins unless the environment holds a text that is needed and is no word for
a truth value.  Once its settings are saved, a run with the same explicit settings and environment and
a run with none of them begin with these settings again. -/
theorem begin_layered (w : World) (directory : Option String) (o : Overrides)
    (hkey : ∀ k, o.keyType = some k → k ∈ keyTypes) :
    ((∃ f, Session.begin w directory o = .error f) ↔ o.strict = none ∧
      ∃ t, w.envVar? "PATHWALK_STRICT" = some t ∧ t ≠ "" ∧ ∀ b, normalWord t ∉ flagWords b) ∧
    (∀ f, Session.begin w directory o = .error f → f.kind = .valueError) ∧
    (∀ session, Session.begin w directory o = .ok session →
      session.place = settingsPlace w directory ∧
      (∃ loaded wish, Loads (w.file? (file session.place)) loaded ∧
        (o.strict = none → Wishes (w.envVar? "PATHWALK_STRICT") wish) ∧
        IsMerged loaded wish o session.settings) ∧
      Session.begin (session.save w) directory o = .ok session ∧
      Session.begin (session.save w).withoutStrictness directory {} = .ok session) := by
  simp only [begin_eq_error_iff]
  refine ⟨effectiveSettings_eq_error_iff, fun f => kind_of_effectiveSettings, fun session hsession => ?_⟩
  obtain ⟨hplace, hsettings⟩ := begin_eq_ok_iff.1 hsession
  obtain ⟨wish, hwish⟩ := exists_wishes_of_eq_ok hsettings
  have hmerged := (effectiveSettings_eq_ok_iff hwish).1 hsettings
  have husable := hmerged.isUsable (isUsable_load _) hkey
  have hfile : (session.save w).file? (file (settingsPlace w directory)) =
      some session.settings.fileText := by
    rw [← hplace]
    exact World.file?_writeFile_self _ _ _
  refine ⟨hplace, ⟨_, wish, loads_iff.2 rfl, hwish, hplace ▸ hmerged⟩, ?_, ?_⟩
  · refine begin_eq_ok_iff.2 ⟨hplace, ?_⟩
    rw [settingsPlace_save, hfile]
    refine (effectiveSettings_eq_ok_iff hwish).2 ?_
    rw [husable.load_fileText]
    exact hmerged.again
  · refine begin_eq_ok_iff.2 ⟨hplace.trans settingsPlace_withoutStrictness.symm, ?_⟩
    rw [settingsPlace_withoutStrictness, World.envVar?_withoutStrictness, settingsPlace_save,
      World.file?_withoutStrictness, hfile]
    have hnone : ({} : Overrides).strict = none → Wishes none none := fun _ => .missing
    refine (effectiveSettings_eq_ok_iff hnone).2 ?_
    rw [husable.load_fileText]
    exact isMerged_none _

/-- A run that is strict by its environment and whose mapping keys are integers. -/
def strictRun : World :=
  { here := [], env := [("PATHWALK_SETTINGS_DIR", "/s"), ("PATHWALK_STRICT", " On ")] }

/-- What a strict run has saved, a run without a wish for strictness begins with. -/
theorem begin_strictRun :
    Session.begin strictRun none { keyType := some "int" } =
      .ok ⟨["s"], { suppresses := false, keyType := "int" }⟩ ∧
    Session.begin (Session.save ⟨["s"], { suppresses := false, keyType := "int" }⟩
      strictRun).withoutStrictness none {} = .ok ⟨["s"], { suppresses := false, keyType := "int" }⟩ := by
  have hbegin : Session.begin strictRun none { keyType := some "int" } =
      .ok ⟨["s"], { suppresses := false, keyType := "int" }⟩ := by cbv
  have hkey : ∀ k, some "int" = some k → k ∈ keyTypes := by
    rintro k ⟨⟩
    decide
  obtain ⟨-, -, hsession⟩ := begin_layered strictRun none { keyType := some "int" } hkey
  obtain ⟨-, -, -, hagain⟩ := hsession _ hbegin
  exact ⟨hbegin, hagain⟩

end Session

end Dotpath

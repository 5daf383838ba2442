import Dotpath.CommandLine.Run
import Dotpath.Proofs.Fault

/-!
# Runs and the world

A run goes through stages, and the world with it.  Most stages only look at the world; they *keep*
it, whether they end or stop (`Running.Keeps`).  A run that keeps the world until its last stage, and
whose last stage changes it only where it ends, leaves the world as it was whenever it stops
(`Running.KeepsIfStopped`): there is no way from what it has written to a stop.
-/

namespace Dotpath.CommandLine

theorem orFault_eq_ok {α : Type} {x : Except Fault α} {a : α} : orFault x = .ok a ↔ x = .ok a := by
  cases x <;> simp [orFault]

theorem orMisuse_eq_ok {α : Type} {x : Except Misuse α} {a : α} :
    orMisuse x = .ok a ↔ x = .ok a := by
  cases x <;> simp [orMisuse]

theorem orRaised_eq_ok {α : Type} {x : Except Raised α} {a : α} :
    orRaised x = .ok a ↔ x = .ok a := by
  rcases x with (_ | _) | _ <;> simp [orRaised]

/-- Whether a text is that of a document into which a value has been written at a path. -/
def IsUpdated (w : World) (s : Settings) (document path value format text : String) : Prop :=
  ∃ host h v h₁ walker, load w document = .ok (host, h) ∧
    readText .malformedValue h value = .ok (v, h₁) ∧ s.walker [.text path] = .ok walker ∧
    (walker.write {} h₁ host v).result = .ok true ∧
    (walker.write {} h₁ host v).heap.document {} host format = .ok text

theorem stored_eq_ok_iff {w : World} {s : Settings} {document path value text : String}
    {format : Option String} :
    stored w s document path value format = .ok text ↔
      IsUpdated w s document path value (format.getD s.outputFormat) text := by
  constructor
  · intro hstored
    obtain ⟨⟨host, h⟩, hload, hstored⟩ := bind_eq_ok.1 hstored
    obtain ⟨⟨v, h₁⟩, hvalue, hstored⟩ := bind_eq_ok.1 hstored
    obtain ⟨walker, hwalker, hstored⟩ := bind_eq_ok.1 hstored
    obtain ⟨written, hresult, hstored⟩ := bind_eq_ok.1 hstored
    cases written with
    | false => cases hstored
    | true =>
      exact ⟨host, h, v, h₁, walker, hload, hvalue, orFault_eq_ok.1 hwalker,
        orRaised_eq_ok.1 hresult, orFault_eq_ok.1 hstored⟩
  · rintro ⟨host, h, v, h₁, walker, hload, hvalue, hwalker, hresult, htext⟩
    exact bind_eq_ok.2 ⟨_, hload, bind_eq_ok.2 ⟨_, hvalue, bind_eq_ok.2 ⟨walker,
      orFault_eq_ok.2 hwalker, bind_eq_ok.2 ⟨true, orRaised_eq_ok.2 hresult,
        orFault_eq_ok.2 htext⟩⟩⟩⟩

/-- Storing goes on only with a single target that is a file, and with a part of the document. -/
theorem checkTarget_eq_ok {document path : String} {output : Option String} {inPlace : Bool} :
    checkTarget document path output inPlace = .ok () ↔
      (inPlace = true → output = none ∧ document ≠ "-") ∧ (Path.parse path).isEmpty = false := by
  unfold checkTarget
  by_cases hinput : document = "-" <;> cases inPlace <;> cases output <;>
    cases (Path.parse path).isEmpty <;> simp [hinput]

namespace Running

variable {α β : Type} {x : Running α} {f : α → Running β} {w w' : World}

/-! ## Results of stages -/

theorem outcome_eq_ok {a : α} : x.outcome w = .ok (a, w') ↔ x w = .ok a w' := by
  unfold outcome
  cases x w <;> simp

theorem bind_apply (x : Running α) (f : α → Running β) (w : World) :
    (x >>= f) w = match x w with
      | .ok a w₁ => f a w₁
      | .error stop w₁ => .error stop w₁ := by
  change EStateM.bind x f w = _
  unfold EStateM.bind
  cases x w <;> rfl

theorem bind_eq_ok {b : β} :
    (x >>= f) w = .ok b w' ↔ ∃ a w₁, x w = .ok a w₁ ∧ f a w₁ = .ok b w' := by
  rw [bind_apply]
  cases x w with
  | ok a w₁ => exact ⟨fun h => ⟨a, w₁, rfl, h⟩, by rintro ⟨_, _, ⟨⟩, h⟩; exact h⟩
  | error stop w₁ => exact iff_of_false nofun (by rintro ⟨_, _, ⟨⟩, -⟩)

theorem bind_eq_error {stop : Stop} :
    (x >>= f) w = .error stop w' ↔
      x w = .error stop w' ∨ ∃ a w₁, x w = .ok a w₁ ∧ f a w₁ = .error stop w' := by
  rw [bind_apply]
  cases x w with
  | ok a w₁ =>
    exact ⟨fun h => .inr ⟨a, w₁, rfl, h⟩, by rintro (⟨⟨⟩⟩ | ⟨_, _, ⟨⟩, h⟩); exact h⟩
  | error e w₁ =>
    exact ⟨by rintro ⟨⟩; exact .inl rfl, by rintro (⟨⟨⟩⟩ | ⟨_, _, ⟨⟩, -⟩); rfl⟩

theorem look_eq_ok {g : World → Except Stop α} {a : α} :
    look g w = .ok a w' ↔ g w = .ok a ∧ w' = w := by
  unfold look
  cases g w <;> simp [eq_comm]

theorem saveFile_eq_ok {path text : String} {u : Unit} :
    saveFile path text w = .ok u w' ↔ w.saveFile path text = .ok w' := by
  unfold saveFile
  cases w.saveFile path text <;> simp

/-! ## Keeping the world -/

/-- Whether a stage leaves the world as it is, in whatever way it goes. -/
def Keeps (x : Running α) : Prop :=
  ∀ w w', (∀ a, x w = .ok a w' → w' = w) ∧ ∀ stop, x w = .error stop w' → w' = w

/-- Whether a stage leaves the world as it is if it stops. -/
def KeepsIfStopped (x : Running α) : Prop := ∀ w w' stop, x w = .error stop w' → w' = w

theorem Keeps.ifStopped (hx : x.Keeps) : x.KeepsIfStopped := fun w w' => (hx w w').2

theorem keeps_pure (a : α) : Keeps (pure a : Running α) := fun _ _ =>
  ⟨fun _ h => (EStateM.Result.ok.inj h).2.symm, nofun⟩

theorem keeps_look (g : World → Except Stop α) : Keeps (look g) := by
  intro w w'
  refine ⟨fun a ha => (look_eq_ok.1 ha).2, fun stop hstop => ?_⟩
  unfold look at hstop
  cases hg : g w with
  | ok a =>
    rw [hg] at hstop
    cases hstop
  | error e =>
    rw [hg] at hstop
    cases hstop
    rfl

/-- Writing a file that cannot be written changes nothing. -/
theorem keepsIfStopped_saveFile (path text : String) : KeepsIfStopped (saveFile path text) := by
  intro w w' stop hstop
  unfold saveFile at hstop
  split at hstop
  · cases hstop
  · cases hstop
    rfl

/-- What stops after a stage that keeps the world leaves it as it was. -/
theorem Keeps.bind (hx : x.Keeps) (hf : ∀ a, (f a).KeepsIfStopped) : (x >>= f).KeepsIfStopped := by
  intro w w' stop hstop
  rcases bind_eq_error.1 hstop with hstop | ⟨a, w₁, ha, hstop⟩
  · exact (hx w w').2 stop hstop
  · exact (hf a w₁ w' stop hstop).trans ((hx w w₁).1 a ha)

/-- A stage that may change the world is followed only by what does not stop. -/
theorem KeepsIfStopped.bind (hx : x.KeepsIfStopped)
    (hf : ∀ a w stop w', f a w ≠ .error stop w') : (x >>= f).KeepsIfStopped := by
  intro w w' stop hstop
  rcases bind_eq_error.1 hstop with hstop | ⟨a, w₁, -, hstop⟩
  · exact hx w w' stop hstop
  · exact absurd hstop (hf a w₁ stop w')

/-! ## Commands -/

theorem keepsIfStopped_deliver (target : Option String) (text : String) :
    (deliver target text).KeepsIfStopped := by
  cases target with
  | none => exact (keeps_pure _).ifStopped
  | some target => exact (keepsIfStopped_saveFile target text).bind nofun

/-- Storing writes the file last. -/
theorem keepsIfStopped_store (s : Settings) (document path value : String)
    (output : Option String) (inPlace : Bool) (format : Option String) :
    (store s document path value output inPlace format).KeepsIfStopped :=
  (keeps_look _).bind fun _ => (keeps_look _).bind fun text => keepsIfStopped_deliver _ text

theorem keepsIfStopped_config (s : Session) (save : Bool) : (config s save).KeepsIfStopped := by
  refine (keeps_look _).bind fun text => ?_
  cases save with
  | true => exact KeepsIfStopped.bind nofun nofun
  | false => exact (keeps_pure _).ifStopped

/-- Whatever is asked for, a run that stops leaves the world as it was. -/
theorem keepsIfStopped_command (directory : Option String) (given : Overrides) (c : Command) :
    (command directory given c).KeepsIfStopped := by
  cases c with
  | get => exact (keeps_look _).bind fun s => (keeps_look _).ifStopped
  | set => exact (keeps_look _).bind fun s => keepsIfStopped_store _ _ _ _ _ _ _
  | config save => exact (keeps_look _).bind fun s => keepsIfStopped_config s save
  | parse | escape | help => exact (keeps_pure _).ifStopped

theorem deliver_eq_ok {target : Option String} {text out : String} :
    deliver target text w = .ok out w' ↔ match target with
      | none => out = line (trimBreaks text) ∧ w' = w
      | some target => out = "" ∧ w.saveFile target text = .ok w' := by
  cases target with
  | none => exact ⟨fun h => by cases h; exact ⟨rfl, rfl⟩, by rintro ⟨rfl, rfl⟩; rfl⟩
  | some target =>
    rw [deliver, bind_eq_ok]
    constructor
    · rintro ⟨_, w₁, hsave, h⟩
      cases h
      exact ⟨rfl, saveFile_eq_ok.1 hsave⟩
    · rintro ⟨rfl, hsave⟩
      exact ⟨(), w', saveFile_eq_ok.2 hsave, rfl⟩

/-- What storing comes to: the text of the changed document, delivered. -/
theorem store_eq_ok {s : Settings} {document path value out : String} {output : Option String}
    {inPlace : Bool} {format : Option String} :
    store s document path value output inPlace format w = .ok out w' ↔
      checkTarget document path output inPlace = .ok () ∧
        ∃ text, stored w s document path value format = .ok text ∧
          deliver (if inPlace then some document else output) text w = .ok out w' := by
  rw [store, bind_eq_ok]
  constructor
  · rintro ⟨_, _, hlook, hrest⟩
    obtain ⟨hcheck, rfl⟩ := look_eq_ok.1 hlook
    obtain ⟨text, _, hlook, hdeliver⟩ := bind_eq_ok.1 hrest
    obtain ⟨htext, rfl⟩ := look_eq_ok.1 hlook
    exact ⟨orMisuse_eq_ok.1 hcheck, text, htext, hdeliver⟩
  · rintro ⟨hcheck, text, htext, h⟩
    exact ⟨(), w, look_eq_ok.2 ⟨orMisuse_eq_ok.2 hcheck, rfl⟩,
      bind_eq_ok.2 ⟨text, w, look_eq_ok.2 ⟨htext, rfl⟩, h⟩⟩

end Running

end Dotpath.CommandLine

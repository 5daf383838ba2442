import Dotpath.Fault

/-!
# Computations that may fault

A sequence of computations has a result if each of them has one, and its fault is that of the first
one that has none.  So what is true of the faults of each is true of the fault of all (`EveryFault`).
-/

namespace Dotpath

theorem bind_eq_ok {ε α β : Type} {x : Except ε α} {f : α → Except ε β} {b : β} :
    x >>= f = .ok b ↔ ∃ a, x = .ok a ∧ f a = .ok b := by
  cases x <;> simp [Bind.bind, Except.bind]

variable {α β : Type} {x : Except Fault α} {f : α → Except Fault β}

theorem bind_eq_error {e : Fault} :
    x >>= f = .error e ↔ x = .error e ∨ ∃ a, x = .ok a ∧ f a = .error e := by
  cases x <;> simp [Bind.bind, Except.bind]

/-- A computation goes on from the result and the state of its first step. -/
theorem run_bind_of_ok {ε σ α β : Type} {m : StateT σ (Except ε) α} {f : α → StateT σ (Except ε) β}
    {s s' : σ} {a : α} (hm : m.run s = .ok (a, s')) : (m >>= f).run s = (f a).run s' := by
  rw [StateT.run_bind, hm]
  rfl

/-- Computations that go on alike with every result of the first. -/
theorem bind_congr_ok {g : α → Except Fault β} (hfg : ∀ a, x = .ok a → f a = g a) :
    x >>= f = x >>= g := by
  cases x with
  | ok a => exact hfg a rfl
  | error e => rfl

theorem mapM_congr {g : α → Except Fault β} {as : List α} (hfg : ∀ a ∈ as, f a = g a) :
    as.mapM f = as.mapM g := by
  induction as with
  | nil => rfl
  | cons a as ih =>
    rw [List.mapM_cons, List.mapM_cons, hfg a List.mem_cons_self,
      ih fun b hb => hfg b (List.mem_cons_of_mem a hb)]

/-- The fault of a list of computations is that of one of them. -/
theorem mapM_eq_error {e : Fault} {as : List α} (h : as.mapM f = .error e) :
    ∃ a ∈ as, f a = .error e := by
  induction as with
  | nil => cases h
  | cons a as ih =>
    rw [List.mapM_cons] at h
    rcases bind_eq_error.1 h with ha | ⟨b, -, h⟩
    · exact ⟨a, List.mem_cons_self, ha⟩
    · rcases bind_eq_error.1 h with has | ⟨bs, -, h⟩
      · obtain ⟨a', ha', he⟩ := ih has
        exact ⟨a', List.mem_cons_of_mem a ha', he⟩
      · cases h

/-- Whether a property holds of the fault of a computation, if it has one. -/
def EveryFault (P : Fault → Prop) (x : Except Fault α) : Prop := ∀ f, x = .error f → P f

namespace EveryFault

variable {P : Fault → Prop}

theorem ok (a : α) : EveryFault P (.ok a) := by
  rintro f ⟨⟩

theorem error {f : Fault} (hf : P f) : EveryFault P (.error f : Except Fault α) := by
  rintro g ⟨⟩
  exact hf

theorem bind (hx : EveryFault P x) (hf : ∀ a, EveryFault P (f a)) : EveryFault P (x >>= f) := by
  intro e he
  rcases bind_eq_error.1 he with he | ⟨a, -, he⟩
  · exact hx e he
  · exact hf a e he

theorem mapM {as : List α} (hf : ∀ a ∈ as, EveryFault P (f a)) : EveryFault P (as.mapM f) := by
  intro e he
  obtain ⟨a, ha, he⟩ := mapM_eq_error he
  exact hf a ha e he

theorem ite {c : Prop} [Decidable c] {y : Except Fault α} (hx : EveryFault P x)
    (hy : EveryFault P y) : EveryFault P (if c then x else y) := by
  split
  · exact hx
  · exact hy

end EveryFault

end Dotpath

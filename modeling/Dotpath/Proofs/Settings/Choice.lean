import Dotpath.Proofs.Graph.Keys
import Dotpath.Proofs.Settings.Word

/-!
# Flags and choices in a document

Which truth value (`MeansFlag`) and which word of a choice (`MeansChoice`) a scalar of a settings file
stands for.  The coercion of a document finds what it stands for, or has a fault that only tells that
settings cannot be used (`Finds`).
-/

namespace Dotpath

/-! ## What a scalar stands for -/

/-- The words for a truth value. -/
def flagWords (b : Bool) : List String := if b then trueWords else falseWords

/-- Whether a scalar stands for a truth value: null for the default, a truth value and a number that
equals one for this, and a text for that of which it is a word. -/
inductive MeansFlag (default : Bool) : Scalar → Bool → Prop
  | unset : MeansFlag default .null default
  | truth {s : Scalar} {b : Bool} (hs : s.equal (.bool b) = true) : MeansFlag default s b
  | word {t : String} {b : Bool} (ht : normalWord t ∈ flagWords b) : MeansFlag default (.text t) b

/-- Whether a scalar stands for a choice: null and blank text for the default, and another text for
its word. -/
inductive MeansChoice (choices : List String) (default : String) : Scalar → String → Prop
  | unset : MeansChoice choices default .null default
  | blank {t : String} (ht : normalWord t = "") : MeansChoice choices default (.text t) default
  | word {t : String} (ht : normalWord t ∈ choices) :
    MeansChoice choices default (.text t) (normalWord t)

theorem Value.isNull_iff {v : Value} : v.isNull = true ↔ v = .scalar .null := by
  constructor
  · intro hv
    unfold isNull at hv
    split at hv
    · rfl
    · cases hv
  · rintro rfl
    rfl

/-- Whether a value is a scalar that stands for something. -/
def Value.StandsFor {α : Type} (means : Scalar → α → Prop) (v : Value) (x : α) : Prop :=
  ∃ s, v = .scalar s ∧ means s x

section StandsFor

variable {α : Type} {means : Scalar → α → Prop} {x : α}

@[simp]
theorem Value.standsFor_scalar {s : Scalar} :
    (Value.scalar s).StandsFor means x ↔ means s x := by
  simp [StandsFor]

@[simp]
theorem Value.not_standsFor_ref {a : Address} : ¬ (Value.ref a).StandsFor means x := by
  simp [StandsFor]

end StandsFor

theorem flagWord?_eq_some_iff {t : String} {b : Bool} :
    flagWord? t = some b ↔ normalWord t ∈ flagWords b := by
  have hdisjoint : ∀ w ∈ trueWords, w ∉ falseWords := by decide
  unfold flagWord?
  dsimp only
  split
  · next hyes =>
    have hno := hdisjoint _ (List.contains_iff_mem.1 hyes)
    cases b with
    | true => simpa [flagWords] using hyes
    | false => simpa [flagWords] using hno
  · next hyes =>
    split
    · next hno => cases b <;> simp_all [flagWords]
    · next hno => cases b <;> simp_all [flagWords]

theorem Quantity.den_of_ofRatio_eq_zero {n : Int} {d e : Nat}
    (h : Quantity.ofRatio n d = .ratio 0 e) : e = 1 := by
  unfold ofRatio at h
  dsimp only at h
  split at h
  · cases h
  · next hg =>
    obtain ⟨hn, rfl⟩ := Quantity.ratio.inj h
    have hdvd : (Nat.gcd n.natAbs d : Int) ∣ n := Int.natCast_dvd.2 (Nat.gcd_dvd_left _ _)
    have hzero : n = 0 := by rw [← Int.ediv_mul_cancel hdvd, hn, Int.zero_mul]
    rw [hzero, Int.natAbs_zero, Nat.gcd_zero_left] at hg ⊢
    exact Nat.div_self (Nat.pos_of_ne_zero hg)

theorem Binary64.den_of_quantity_eq_zero {x : Binary64} {e : Nat}
    (hx : x.quantity = .ratio 0 e) : e = 1 := by
  unfold quantity at hx
  split at hx
  · cases hx
  · cases hx
  · split at hx
    · exact Quantity.den_of_ofRatio_eq_zero hx
    · cases hx

theorem Scalar.equal_bool_iff {s : Scalar} {b : Bool} : s.equal (.bool b) = true ↔
    s.quantity? = some (.ratio (if b then 1 else 0) 1, .ratio 0 1) := by
  constructor
  · exact quantity?_of_equal
  · intro hs
    rw [equal, hs]
    cases b <;> rfl

/-- A scalar of a document stands for the truth value that it equals or is a word of. -/
theorem flag?_atom_eq_some_iff {a : Tree.Atom} {b : Bool} : a.scalar.flag? = some b ↔
    a.scalar.equal (.bool b) = true ∨ ∃ t, a.scalar = .text t ∧ normalWord t ∈ flagWords b := by
  rw [Scalar.equal_bool_iff]
  cases a with
  | null => simp [Tree.Atom.scalar, Scalar.flag?, Scalar.quantity?]
  | bool c => cases b <;> cases c <;> simp [Tree.Atom.scalar, Scalar.flag?, Scalar.quantity?]
  | int n =>
    simp only [Tree.Atom.scalar, Scalar.flag?, Scalar.quantity?]
    split
    · next hzero => cases b <;> simp [hzero]
    · next hzero =>
      split
      · next hone => cases b <;> simp [hone]
      · next hone => cases b <;> simp [hzero, hone]
  | float x =>
    simp only [Tree.Atom.scalar, Scalar.flag?, Scalar.quantity?]
    split
    · next e hx =>
      cases Binary64.den_of_quantity_eq_zero hx
      cases b <;> simp [hx]
    · next hx => cases b <;> simp [hx]
    · next hzero hone =>
      cases b with
      | true => simpa using hone
      | false => simpa using hzero 1
  | text t => simp [Tree.Atom.scalar, Scalar.flag?, Scalar.quantity?, flagWord?_eq_some_iff]

/-! ## Coercions -/

/-- Whether a computation finds exactly what has a property, and otherwise has a fault that only tells
that settings cannot be used. -/
structure Finds {α : Type} (x : Except Fault α) (P : α → Prop) : Prop where
  eq_ok_iff : ∀ a, x = .ok a ↔ P a
  fault : EveryFault (fun f => Settings.isUnusable f = true) x

namespace Finds

variable {α β : Type} {x : Except Fault α} {f : α → Except Fault β} {P P' : α → Prop}
  {Q : α → β → Prop}

theorem ok (a : α) : Finds (.ok a) (fun b => b = a) where
  eq_ok_iff b := by rw [Except.ok.injEq, eq_comm]
  fault := .ok a

theorem congr (hx : Finds x P) (hP : ∀ a, P a ↔ P' a) : Finds x P' where
  eq_ok_iff a := (hx.eq_ok_iff a).trans (hP a)
  fault := hx.fault

/-- A computation with an unusable fault finds nothing. -/
theorem error {e : Fault} (he : Settings.isUnusable e = true) (hP : ∀ a, ¬ P a) :
    Finds (.error e) P where
  eq_ok_iff a := ⟨nofun, fun h => absurd h (hP a)⟩
  fault := .error he

theorem bind (hx : Finds x P) (hf : ∀ a, Finds (f a) (Q a)) :
    Finds (x >>= f) (fun b => ∃ a, P a ∧ Q a b) where
  eq_ok_iff b := by
    rw [bind_eq_ok]
    exact exists_congr fun a => and_congr (hx.eq_ok_iff a) ((hf a).eq_ok_iff b)
  fault := .bind hx.fault fun a => (hf a).fault

end Finds

theorem meansFlag_null_iff {default b : Bool} : MeansFlag default .null b ↔ b = default := by
  constructor
  · intro hb
    cases hb with
    | unset => rfl
    | truth hs => cases Scalar.equal_bool_iff.1 hs
  · rintro rfl
    exact .unset

theorem meansFlag_atom_iff {a : Tree.Atom} (ha : a ≠ .null) {default b : Bool} :
    MeansFlag default a.scalar b ↔ a.scalar.flag? = some b := by
  rw [flag?_atom_eq_some_iff]
  constructor
  · intro hb
    generalize hs : a.scalar = s at hb
    cases hb with
    | unset => exact absurd (Tree.Atom.scalar_inj (b := .null) hs) ha
    | truth hs => exact .inl hs
    | word ht => exact .inr ⟨_, rfl, ht⟩
  · rintro (hs | ⟨t, hs, ht⟩)
    · exact .truth hs
    · rw [hs]
      exact .word ht

theorem meansChoice_null_iff {choices : List String} {default w : String} :
    MeansChoice choices default .null w ↔ w = default := by
  constructor
  · rintro ⟨⟩
    rfl
  · rintro rfl
    exact .unset

theorem meansChoice_text_iff {choices : List String} {default t w : String} :
    MeansChoice choices default (.text t) w ↔
      normalWord t = "" ∧ w = default ∨ normalWord t ∈ choices ∧ w = normalWord t := by
  constructor
  · rintro (- | ht | ht)
    · exact .inl ⟨ht, rfl⟩
    · exact .inr ⟨ht, rfl⟩
  · rintro (⟨ht, rfl⟩ | ⟨ht, rfl⟩)
    · exact .blank ht
    · exact .word ht

namespace Heap

variable {h : Heap} {v : Value}

theorem exists_ok_quoted (hv : h.IsDocument v) : ∃ t, h.quoted {} v = .ok t :=
  hv.prints.succeeds_quoted.exists_ok

/-- A document is coerced to the truth value that it stands for. -/
theorem finds_asBool (hv : h.IsDocument v) (default : Bool) :
    Finds (do return (← h.asBool {} v).getD default) (v.StandsFor (MeansFlag default)) := by
  obtain ⟨shown, hshown⟩ := exists_ok_quoted hv
  obtain ⟨d, hd, -⟩ := hv
  unfold asBool
  rw [hshown]
  cases hd with
  | list | dict => exact .error rfl fun _ => Value.not_standsFor_ref
  | leaf a =>
    by_cases ha : a = .null
    · rw [ha]
      exact (Finds.ok default).congr fun b =>
        meansFlag_null_iff.symm.trans Value.standsFor_scalar.symm
    · have hnull : (Value.scalar a.scalar).isNull = false := by cases a <;> first | rfl | exact absurd rfl ha
      have hmeans (b : Bool) : (Value.scalar a.scalar).StandsFor (MeansFlag default) b ↔
          a.scalar.flag? = some b := Value.standsFor_scalar.trans (meansFlag_atom_iff ha)
      rw [hnull, if_neg Bool.false_ne_true]
      dsimp only
      cases hflag : a.scalar.flag? with
      | none => exact .error rfl fun b => by simp [hmeans, hflag]
      | some c => exact (Finds.ok c).congr fun b => by simp [hmeans, hflag, eq_comm]

theorem asChoice_of_text {t shown : String} (hnull : v.isNull = false) (ht : h.text {} v = .ok t)
    (hshown : h.quoted {} v = .ok shown) (choices : List String) (default : String) :
    h.asChoice {} v choices default =
      if normalWord t = "" then .ok default
      else if normalWord t ∈ choices then .ok (normalWord t)
      else .error (.notChoice (choices.mergeSort fun a b => a ≤ b) shown) := by
  unfold asChoice
  rw [hnull, if_neg Bool.false_ne_true, ht, hshown]
  simp only [bind, Except.bind, pure, Except.pure, throw, throwThe, MonadExceptOf.throw,
    String.isEmpty_iff, List.contains_iff_mem]

theorem finds_asChoice_text {choices : List String} (hchoices : "" ∉ choices) (s default : String) :
    Finds (h.asChoice {} (.scalar (.text s)) choices default)
      (MeansChoice choices default (.text s)) := by
  obtain ⟨shown, hshown⟩ := exists_ok_quoted (isDocument_atom (h := h) (b := .text s) rfl)
  rw [asChoice_of_text rfl (text_scalar {} h (.text s)) hshown]
  split
  · next hblank =>
    exact (Finds.ok default).congr fun w => by simp [meansChoice_text_iff, hblank, hchoices]
  · next hblank =>
    split
    · next hword =>
      exact (Finds.ok (normalWord s)).congr fun w => by simp [meansChoice_text_iff, hblank, hword]
    · next hword => exact .error rfl fun w => by simp [meansChoice_text_iff, hblank, hword]

/-- A document is coerced to the choice that it stands for. -/
theorem finds_asChoice (hv : h.IsDocument v) {choices : List String} (default : String)
    (hchoices : choices = outputFormats ∨ choices = keyTypes) :
    Finds (h.asChoice {} v choices default) (v.StandsFor (MeansChoice choices default)) := by
  by_cases htext : ∃ s, v = .scalar (.text s)
  · obtain ⟨s, rfl⟩ := htext
    have hblank : "" ∉ choices := by rcases hchoices with rfl | rfl <;> decide
    exact (finds_asChoice_text hblank s default).congr fun w => Value.standsFor_scalar.symm
  cases hnull : v.isNull with
  | true =>
    obtain rfl : v = .scalar .null := Value.isNull_iff.1 hnull
    exact (Finds.ok default).congr fun w =>
      meansChoice_null_iff.symm.trans Value.standsFor_scalar.symm
  | false =>
    obtain ⟨shown, hshown⟩ := exists_ok_quoted hv
    obtain ⟨t, ht⟩ := (hv.prints (σ := {})).succeeds_text.exists_ok
    obtain ⟨hne, hformats, hkeys⟩ := (hv.looksOther_text hnull (not_exists.1 htext) ht).normalWord
    have hword : normalWord t ∉ choices := by rcases hchoices with rfl | rfl <;> assumption
    rw [asChoice_of_text hnull ht hshown, if_neg hne, if_neg hword]
    refine .error rfl ?_
    rintro w ⟨s, rfl, hs⟩
    cases hs with
    | unset => cases hnull
    | blank | word => exact htext ⟨_, rfl⟩

end Heap

end Dotpath

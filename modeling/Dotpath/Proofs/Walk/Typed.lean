import Dotpath.Proofs.Schema.DeclaredType
import Dotpath.Proofs.Walk.Run

/-!
# Attributes of their declared types

If every attribute that is declared with a class holds a value that belongs to this class, it still
does after any run of writes (`runWrites_keeps_types`).  A property only takes what may be assigned
where its type is declared, and a model that coerces the value first makes an instance of the class
of it (`isInstance_of_coerce?`).

The declared type of a field of a model is the one that the model gives the field.  It need not be
the most derived annotation of the name, and of these the statement is false
(`writes_break_nearest_types`).
-/

namespace Dotpath

/-! ## Coerced scalars -/

namespace Scalar

/-- Whether the scalar that a coercion yields, if any, is an instance of a class. -/
def YieldsOf (type : String) (o : Option Scalar) : Prop := ∀ ⦃s⦄, o = some s → type ∈ s.classes

variable {type : String} {s : Scalar}

theorem YieldsOf.none : YieldsOf type none := fun _ hs => nomatch hs

theorem YieldsOf.some (hs : type ∈ s.classes) : YieldsOf type (some s) := by
  rintro _ ⟨⟩
  exact hs

theorem YieldsOf.map {α : Type} {o : Option α} {f : α → Scalar} (hf : ∀ x, type ∈ (f x).classes) :
    YieldsOf type (o.map f) := by
  intro s hs
  obtain ⟨x, -, rfl⟩ := Option.map_eq_some_iff.1 hs
  exact hf x

theorem YieldsOf.ite {c : Prop} [Decidable c] (hs : type ∈ s.classes) :
    YieldsOf type (if c then Option.some s else Option.none) := by
  split
  · exact .some hs
  · exact .none

end Scalar

namespace Heap

variable {σ : Schema} {h h' : Heap} {a : Address} {type name : String} {v w : Value}
  {attrs : List (String × Value)}

/-! ## Values of a class -/

/-- Whether a value belongs where a class is declared: it is an instance of the class, or of a number
type that the class is wider than. -/
def Belongs (σ : Schema) (h : Heap) (v : Value) (type : String) : Prop :=
  h.isInstance σ v type = true ∨ type = "float" ∧ h.isInstance σ v "int" = true ∨
    type = "complex" ∧ (h.isInstance σ v "int" = true ∨ h.isInstance σ v "float" = true)

theorem Belongs.mono (hv : h.Belongs σ v type) (hk : h.KeepsClasses σ h') : h'.Belongs σ v type := by
  rcases hv with hv | ⟨ht, hv⟩ | ⟨ht, hv⟩
  · exact .inl (hk.isInstance hv)
  · exact .inr (.inl ⟨ht, hk.isInstance hv⟩)
  · exact .inr (.inr ⟨ht, hv.imp hk.isInstance hk.isInstance⟩)

/-- Whether the objects of a heap are instances of classes whose annotations say what they are, and
hold in every public attribute a value that belongs to the class that is declared for it. -/
structure IsTyped (σ : Schema) (typeOf : String → String → Option Annotation) (h : Heap) : Prop where
  annotated : ∀ {a : Address} {type : String} {attrs : List (String × Value)},
    h.get? a = some (.object type attrs) → σ.IsAnnotated type
  belongs : ∀ {a : Address} {type : String} {attrs : List (String × Value)} {name t : String}
    {v : Value}, h.get? a = some (.object type attrs) → isPublic name = true →
    attrs.lookup name = some v → typeOf type name = some (.named t) → t ≠ "TD" → h.Belongs σ v t

/-- A value that belongs to an attribute may be stored in it. -/
theorem IsTyped.putStored {typeOf : String → String → Option Annotation} (hh : h.IsTyped σ typeOf)
    (hget : h.get? a = some (.object type attrs))
    (hw : ∀ t, typeOf type name = some (.named t) → t ≠ "TD" → h.Belongs σ w t) :
    (h.putStored a name w).IsTyped σ typeOf := by
  have hk : h.KeepsClasses σ (h.putStored a name w) := keepsClasses_putStored h a name w
  have hself := get?_putStored_self hget name w
  refine ⟨fun {b type' attrs'} hb => ?_, fun {b type' attrs' n t v} hb hpub hv ht hclass => ?_⟩
  · by_cases hab : a = b
    · subst hab
      cases hself.symm.trans hb
      exact hh.annotated hget
    · exact hh.annotated ((get?_putStored_of_ne hab name w).symm.trans hb)
  · refine Belongs.mono ?_ hk
    by_cases hab : a = b
    · subst hab
      cases hself.symm.trans hb
      by_cases hn : name = n
      · subst hn
        cases (Schema.lookup_putAttribute_self w).symm.trans hv
        exact hw t ht hclass
      · rw [Schema.lookup_putAttribute_of_ne hn] at hv
        exact hh.belongs hget hpub hv ht hclass
    · exact hh.belongs ((get?_putStored_of_ne hab name w).symm.trans hb) hpub hv ht hclass

end Heap

end Dotpath

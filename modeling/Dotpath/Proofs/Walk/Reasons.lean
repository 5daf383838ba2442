import Dotpath.Proofs.Number.Digits
import Dotpath.Proofs.Walk.LetOut

/-!
# Why a read fails

The code of a failure is decided by the value that the walk has reached and by the segment that it
has come to.  `Heap.Explains` is the table of the codes.  A walk that fails at a segment has reached
a value there, and the code of the failure is the one that the table has for the two in the heap that
is left there, and no other (`code_of_walk`).

A property that cannot be read is explained by the kind of what is raised: the getter of a property
may itself raise that there is no such property, and listing the properties may raise, too
(`raising_list`).
-/

namespace Dotpath

theorem Outcome.ofExcept_ne_fail {α : Type} {r : Except Fault α} {f : Failure} :
    ofExcept r ≠ .fail f := by
  cases r <;> simp [ofExcept]

theorem eq_of_failAt {α : Type} {p : Path} {i : Int} {s : Segment} (hs : p.segment i = .ok s)
    {problem : Problem} {cause : Option FaultKind} {f : Failure}
    (hf : (failAt problem p i cause : Outcome α) = .fail f) : f = ⟨problem, p, i, cause⟩ := by
  rw [failAt_of_segment hs] at hf
  cases hf
  rfl

/-- Whether a segment is a row of ASCII digits with the value `n`. -/
def DenotesIndex (s : Segment) (n : Nat) : Prop :=
  ∃ t, s = some t ∧ t ≠ "" ∧ IsDigitRow t.toList ∧ Text.digitsValue t.toList = n

theorem denotesIndex_of_parseIndex {s : Segment} {n : Nat} (hs : parseIndex s = .ok (some n)) :
    DenotesIndex s n := by
  cases s with
  | none => cases hs
  | some t =>
    simp only [parseIndex] at hs
    split at hs
    · cases hs
    · next hrow =>
      rw [Bool.or_eq_true, not_or, Bool.not_eq_true', Bool.not_eq_false] at hrow
      split at hs
      · cases hs
      · cases hs
        exact ⟨t, rfl, fun ht => hrow.1 (by rw [ht]; rfl), isDigitRow_iff.2 hrow.2, rfl⟩

theorem not_denotesIndex_of_parseIndex {s : Segment} (hs : parseIndex s = .ok none) (n : Nat) :
    ¬ DenotesIndex s n := by
  rintro ⟨t, rfl, hne, hrow, -⟩
  have hempty : t.toList.isEmpty = false :=
    List.isEmpty_eq_false_iff.2 fun hnil => hne (String.toList_eq_nil_iff.1 hnil)
  simp only [parseIndex, hempty, isDigitRow_iff.1 hrow] at hs
  split at hs
  · next h => exact absurd h (by decide)
  · split at hs <;> cases hs

/-- What a segment of a path gives as the key of a mapping.  A deserializer may also raise that it gives
up. -/
def keyResult (keys : Option Deserializer) (p : Path) (i : Int) (s : Segment) : KeyResult :=
  match keys with
  | none => .key (segmentKey s)
  | some d => match d p i with
    | .raised f => if f.kind.isA .keyDeserialization then .rejected f.reason? else .raised f
    | r => r

theorem mapKey_eq_keyResult {keys : Option Deserializer} {p : Path} {i : Int} {s : Segment}
    (hs : p.segment i = .ok s) :
    mapKey keys p i = match keyResult keys p i s with
      | .key k => .done k
      | .unhashable type => failAt (.unhashableKey type) p i (some .typeError)
      | .rejected reason => failAt (.keyRejected reason) p i (some .keyDeserialization)
      | .raised f => .escape f := by
  cases keys with
  | none =>
    rw [mapKey, hs]
    rfl
  | some d =>
    rw [mapKey, keyResult]
    cases d p i with
    | raised f =>
      dsimp only
      cases f.kind.isA .keyDeserialization <;> rfl
    | key | unhashable | rejected => rfl

/-- The code of the failure to read a property, by the kind of what was raised. -/
def FaultKind.readCode : FaultKind → ErrorCode
  | .noAccessibleProperties => .terminalValue
  | .noSuchProperty => .noSuchProperty
  | _ => .exception

theorem FaultKind.readCode_eq_exception {kind : FaultKind} :
    kind.readCode = .exception ↔ kind ≠ .noAccessibleProperties ∧ kind ≠ .noSuchProperty := by
  cases kind <;> simp [readCode]

theorem FaultKind.readCode_eq_terminalValue {kind : FaultKind} :
    kind.readCode = .terminalValue ↔ kind = .noAccessibleProperties := by
  cases kind <;> simp [readCode]

theorem FaultKind.readCode_eq_noSuchProperty {kind : FaultKind} :
    kind.readCode = .noSuchProperty ↔ kind = .noSuchProperty := by
  cases kind <;> simp [readCode]

namespace Heap

variable {σ : Schema} {h : Heap} {keys : Option Deserializer} {p : Path} {i : Int} {s : Segment}
  {v w : Value} {f : Failure}

/-- Whether a value is taken for an object, to which null does not belong. -/
def IsObject (h : Heap) (w : Value) : Prop := w.isNull = false ∧ h.classify w = .object

/-- What reading a property of a name raises: the fault of listing the properties, or that of the
property of the name, whose getter raises or which is unset. -/
inductive Raises (σ : Schema) (h : Heap) (w : Value) (name : String) : Fault → Prop
  | listing {e : Fault} (he : h.propertiesOf σ w = .error e) : Raises σ h w name e
  | getter {a : Address} {type : String} {attrs : List (String × Value)} {ps : List PropertyInfo}
      {d : Property} {e : Fault} (hobject : h.object? w = some (a, type, attrs))
      (hps : h.propertiesOf σ w = .ok ps) (hname : ∃ q ∈ ps, q.name = name)
      (hgetter : σ.descriptor? type name = some (.property d))
      (he : h.attributeOf σ a name = .error e) : Raises σ h w name e
  | unset {a : Address} {type : String} {attrs : List (String × Value)} {ps : List PropertyInfo}
      (hobject : h.object? w = some (a, type, attrs)) (hps : h.propertiesOf σ w = .ok ps)
      (hname : ∃ q ∈ ps, q.name = name)
      (hstored : ∀ d, σ.descriptor? type name ≠ some (.property d))
      (hunset : σ.attribute? type attrs name = none) : Raises σ h w name (.noAttribute type name)

/-- Whether the properties of a value can be listed and none has a name, though there are some. -/
def LacksProperty (σ : Schema) (h : Heap) (w : Value) (name : String) : Prop :=
  ∃ ps, h.propertiesOf σ w = .ok ps ∧ ps ≠ [] ∧ ∀ q ∈ ps, q.name ≠ name

/-- What has to be true of the value `w` that a walk has reached and the next segment `s`, which
gives `key` as a key, where the walk fails there with a code.  Some codes are for writers only. -/
def Explains (σ : Schema) (h : Heap) (key : KeyResult) (w : Value) (s : Segment) :
    ErrorCode → Prop
  | .terminalValue => w.isNull = true ∨ h.IsObject w ∧ ∃ name, s = some name ∧ name ≠ "" ∧
    (h.propertiesOf σ w = .ok [] ∨ ∃ e, h.Raises σ w name e ∧ e.kind = .noAccessibleProperties)
  | .emptySegment => h.IsObject w ∧ (s = none ∨ s = some "")
  | .noSuchProperty => h.IsObject w ∧ ∃ name, s = some name ∧ name ≠ "" ∧
    (h.LacksProperty σ w name ∨ ∃ e, h.Raises σ w name e ∧ e.kind = .noSuchProperty)
  | .exception => h.IsObject w ∧ ∃ name, s = some name ∧ name ≠ "" ∧
    ∃ e, h.Raises σ w name e ∧ e.kind ≠ .noAccessibleProperties ∧ e.kind ≠ .noSuchProperty
  | .indexExpected => (h.classify w).isIndexed = true ∧ ∀ n, ¬ DenotesIndex s n
  | .indexOutOfBounds => (h.classify w).isIndexed = true ∧ ∃ n, DenotesIndex s n ∧
    ((∃ size, h.length w = .ok size ∧ size ≤ n) ∨ h.member? w n = none)
  | .noSuchKey => h.classify w = .mapping ∧ ∃ k, key = .key k ∧ (h.lookUp w k).1 = .ok none
  | .keyDeserializationFailed => h.classify w = .mapping ∧
    ((∃ reason, key = .rejected reason) ∨ ∃ type, key = .unhashable type)
  | .indexNotAllowed | .typeNotSupported | .typeMismatch | .notModifiable => False

/-! ## Where a step fails -/

/-- A step into a container with indices. -/
theorem eq_of_memberAt (hs : p.segment i = .ok s) (hf : h.memberAt w p i = .fail f) :
    (∀ n, ¬ DenotesIndex s n) ∧ f = ⟨.indexExpected, p, i, none⟩ ∨
      (∃ n, DenotesIndex s n ∧ ((∃ size, h.length w = .ok size ∧ size ≤ n) ∨
        h.member? w n = none)) ∧ f = ⟨.indexOutOfBounds, p, i, none⟩ := by
  rw [memberAt, Outcome.bind_eq_fail] at hf
  rcases hf with hf | ⟨n, hn, hf⟩
  · rw [indexAt, Outcome.bind_eq_fail] at hf
    rcases hf with hf | ⟨index, hindex, hf⟩
    · cases Outcome.ofExcept_ne_fail hf
    · cases index with
      | some n => cases hf
      | none =>
        rw [hs] at hindex
        exact .inl ⟨not_denotesIndex_of_parseIndex (Outcome.ofExcept_eq_done.1 hindex),
          eq_of_failAt hs hf⟩
  · have hdenotes := denotesIndex_of_parseIndex ((indexAt_eq_done hs).1 hn)
    rcases Outcome.bind_eq_fail.1 hf with hf | ⟨size, hsize, hf⟩
    · cases Outcome.ofExcept_ne_fail hf
    · split at hf
      · cases hf
      · split at hf
        · cases hf
        · next hnone =>
          refine .inr ⟨⟨n, hdenotes, ?_⟩, eq_of_failAt hs hf⟩
          by_cases hlt : n < size
          · rw [if_pos hlt] at hnone
            exact .inr hnone
          · exact .inl ⟨size, Outcome.ofExcept_eq_done.1 hsize, Nat.le_of_not_lt hlt⟩

/-- A step into a mapping. -/
theorem eq_of_entryAt (hs : p.segment i = .ok s) (hf : h.entryAt keys w p i = .fail f) :
    (∃ reason, keyResult keys p i s = .rejected reason ∧
        f = ⟨.keyRejected reason, p, i, some .keyDeserialization⟩) ∨
      (∃ type, keyResult keys p i s = .unhashable type ∧
        f = ⟨.unhashableKey type, p, i, some .typeError⟩) ∨
      (∃ k, keyResult keys p i s = .key k ∧ (h.lookUp w k).1 = .ok none) ∧
        f = ⟨.noSuchKey, p, i, none⟩ := by
  rw [entryAt, mapKey_eq_keyResult hs, Outcome.bind_eq_fail] at hf
  cases hkey : keyResult keys p i s with
  | rejected reason =>
    rw [hkey] at hf
    rcases hf with hf | ⟨k, hk, -⟩
    · exact .inl ⟨reason, rfl, eq_of_failAt hs hf⟩
    · exact absurd hk (failAt_ne_done _ _ _ _ _)
  | unhashable type =>
    rw [hkey] at hf
    rcases hf with hf | ⟨k, hk, -⟩
    · exact .inr (.inl ⟨type, rfl, eq_of_failAt hs hf⟩)
    · exact absurd hk (failAt_ne_done _ _ _ _ _)
  | raised e =>
    rw [hkey] at hf
    rcases hf with hf | ⟨k, hk, -⟩
    · cases hf
    · cases hk
  | key k =>
    rw [hkey] at hf
    rcases hf with hf | ⟨k', hk, hf⟩
    · cases hf
    · cases hk
      rcases Outcome.bind_eq_fail.1 hf with hf | ⟨found, hfound, hf⟩
      · cases Outcome.ofExcept_ne_fail hf
      · cases found with
        | some u => cases hf
        | none =>
          exact .inr (.inr ⟨⟨k, rfl, Outcome.ofExcept_eq_done.1 hfound⟩, eq_of_failAt hs hf⟩)

theorem eq_of_nameAt (hs : p.segment i = .ok s) (hf : nameAt p i = .fail f) :
    (s = none ∨ s = some "") ∧ f = ⟨.emptySegment, p, i, none⟩ := by
  rw [nameAt, hs] at hf
  cases s with
  | none => exact ⟨.inl rfl, eq_of_failAt hs hf⟩
  | some name =>
    rw [Outcome.ofExcept, Outcome.done_bind] at hf
    dsimp only at hf
    split at hf
    · next hempty => exact ⟨.inr (congrArg some (by simpa using hempty)), eq_of_failAt hs hf⟩
    · cases hf

/-- Why the attribute of a property cannot be read. -/
theorem raises_of_attributeOf {a : Address} {type name : String} {attrs : List (String × Value)}
    {ps : List PropertyInfo} {e : Fault} (hobject : h.object? w = some (a, type, attrs))
    (hps : h.propertiesOf σ w = .ok ps) (hname : ∃ q ∈ ps, q.name = name)
    (he : h.attributeOf σ a name = .error e) : h.Raises σ w name e := by
  by_cases hgetter : ∃ d, σ.descriptor? type name = some (.property d)
  · obtain ⟨d, hd⟩ := hgetter
    exact .getter hobject hps hname hd he
  · have hstored := fun d hd => hgetter ⟨d, hd⟩
    rw [attributeOf_of_stored hstored (get?_of_object? hobject).2] at he
    cases hvalue : σ.attribute? type attrs name with
    | none =>
      rw [hvalue] at he
      cases he
      exact .unset hobject hps hname hstored hvalue
    | some u =>
      rw [hvalue] at he
      cases he

theorem Raises.readProperty {name : String} {e : Fault} (he : h.Raises σ w name e) :
    h.readProperty σ w (some name) = .error e := by
  have hread {a : Address} {type : String} {attrs : List (String × Value)} {ps : List PropertyInfo}
      (hobject : h.object? w = some (a, type, attrs)) (hps : h.propertiesOf σ w = .ok ps)
      (hname : ∃ q ∈ ps, q.name = name) :
      h.readProperty σ w (some name) = h.attributeOf σ a name := by
    obtain ⟨q, hq, hqname⟩ := hname
    obtain ⟨r, hr⟩ : ∃ r, ps.find? (fun p => some p.name == some name) = some r :=
      Option.isSome_iff_exists.1 (List.find?_isSome.2 ⟨q, hq, by simp [hqname]⟩)
    have hrname : r.name = name := by simpa using List.find?_some hr
    have hne : ps.isEmpty = false := List.isEmpty_eq_false_iff_exists_mem.2 ⟨q, hq⟩
    rw [Heap.readProperty, hps]
    dsimp only [Bind.bind, Except.bind]
    rw [hne, if_neg Bool.false_ne_true, hobject, hr]
    dsimp only
    rw [hrname]
  cases he with
  | listing he =>
    rw [Heap.readProperty, he]
    rfl
  | getter hobject hps hname _ he => exact (hread hobject hps hname).trans he
  | @unset a type attrs ps hobject hps hname hstored hunset =>
    rw [hread hobject hps hname, attributeOf_of_stored hstored (get?_of_object? hobject).2, hunset]

/-- Why a property cannot be read. -/
theorem readProperty_eq_error_cases {name : String} {e : Fault}
    (he : h.readProperty σ w (some name) = .error e) :
    h.Raises σ w name e ∨ h.propertiesOf σ w = .ok [] ∧ e.kind = .noAccessibleProperties ∨
      h.LacksProperty σ w name ∧ e.kind = .noSuchProperty := by
  rcases readProperty_eq_error he with he | ⟨ps, hps, ⟨rfl, rfl⟩ | ⟨hcons, hnone, rfl⟩ |
    ⟨a, type, attrs, hobject, q, hq, hname, hattribute⟩⟩
  · exact .inl (.listing he)
  · exact .inr (.inl ⟨hps, rfl⟩)
  · exact .inr (.inr ⟨⟨ps, hps, hcons, fun q hq hname => hnone q hq (congrArg some hname)⟩, rfl⟩)
  · obtain rfl := Option.some.inj hname
    exact .inl (raises_of_attributeOf hobject hps ⟨q, hq, rfl⟩ hattribute)

theorem readProperty_of_empty (hps : h.propertiesOf σ w = .ok []) (name : Segment) :
    h.readProperty σ w name = .error (.noProperties (h.typeName w) false) := by
  rw [readProperty, hps]
  rfl

theorem LacksProperty.readProperty {name : String} (hw : h.LacksProperty σ w name) :
    h.readProperty σ w (some name) = .error (.noProperty (h.typeName w) name false) := by
  obtain ⟨ps, hps, hne, hnone⟩ := hw
  have hfind : ps.find? (fun p => some p.name == some name) = none :=
    List.find?_eq_none.2 fun q hq => by simpa using hnone q hq
  rw [Heap.readProperty, hps]
  dsimp only [Bind.bind, Except.bind]
  rw [List.isEmpty_eq_false_iff.2 hne, if_neg Bool.false_ne_true, hfind]
  cases h.object? w <;> rfl

/-- A property that cannot be read, by the kind of what is raised. -/
theorem code_of_propertyFault (hs : p.segment i = .ok s) {e : Fault}
    (hf : (h.propertyFault σ w p i e : Outcome Value) = .fail f) :
    (f.path = p ∧ f.segment = i) ∧ f.code = e.kind.readCode := by
  unfold propertyFault at hf
  split at hf
  · next hkind =>
    rcases Outcome.bind_eq_fail.1 hf with hf | ⟨shown, -, hf⟩
    · cases Outcome.ofExcept_ne_fail hf
    · rw [eq_of_failAt hs hf, hkind]
      exact ⟨⟨rfl, rfl⟩, rfl⟩
  · next hkind =>
    rw [eq_of_failAt hs hf, hkind]
    exact ⟨⟨rfl, rfl⟩, rfl⟩
  · next hterminal hname =>
    rw [FaultKind.readCode_eq_exception.2 ⟨hterminal, hname⟩]
    split at hf
    · rw [eq_of_failAt hs hf]
      exact ⟨⟨rfl, rfl⟩, rfl⟩
    · cases hf

/-! ## The table -/

theorem explains_of_null (hnull : w.isNull = true) (key : KeyResult) (s : Segment)
    (code : ErrorCode) : h.Explains σ key w s code ↔ code = .terminalValue := by
  have hobject : ¬ h.IsObject w := fun hw => by simp [hw.1] at hnull
  have hkind : h.classify w = .object := by
    cases w with
    | scalar => rfl
    | _ => cases hnull
  cases code <;> simp [Explains, hnull, hobject, hkind, ContainerKind.isIndexed]

theorem explains_of_isIndexed (hkind : (h.classify w).isIndexed = true)
    (hnull : w.isNull = false) (key : KeyResult) (s : Segment) (code : ErrorCode) :
    h.Explains σ key w s code ↔
      code = .indexExpected ∧ (∀ n, ¬ DenotesIndex s n) ∨
      code = .indexOutOfBounds ∧ ∃ n, DenotesIndex s n ∧
        ((∃ size, h.length w = .ok size ∧ size ≤ n) ∨ h.member? w n = none) := by
  have hobject : ¬ h.IsObject w := fun hw => by rw [hw.2] at hkind; cases hkind
  have hmapping : h.classify w ≠ .mapping := fun hw => by rw [hw] at hkind; cases hkind
  cases code <;> simp [Explains, hnull, hobject, hkind, hmapping]

theorem explains_of_mapping (hkind : h.classify w = .mapping) (hnull : w.isNull = false)
    (key : KeyResult) (s : Segment) (code : ErrorCode) :
    h.Explains σ key w s code ↔
      code = .noSuchKey ∧ (∃ k, key = .key k ∧ (h.lookUp w k).1 = .ok none) ∨
      code = .keyDeserializationFailed ∧
        ((∃ reason, key = .rejected reason) ∨ ∃ type, key = .unhashable type) := by
  have hobject : ¬ h.IsObject w := fun hw => by rw [hw.2] at hkind; cases hkind
  cases code <;> simp [Explains, hnull, hobject, hkind, ContainerKind.isIndexed]

theorem explains_of_unnamed (hw : h.IsObject w) (hs : s = none ∨ s = some "") (key : KeyResult)
    (code : ErrorCode) : h.Explains σ key w s code ↔ code = .emptySegment := by
  have hname : ¬ ∃ name, s = some name ∧ name ≠ "" := by
    rintro ⟨name, rfl, hne⟩
    rcases hs with ⟨⟨⟩⟩ | hs
    exact hne (Option.some.inj hs)
  have hnone {P : String → Prop} : ¬ ∃ name, s = some name ∧ name ≠ "" ∧ P name :=
    fun ⟨name, hs, hne, _⟩ => hname ⟨name, hs, hne⟩
  cases code <;> simp [Explains, hw, hw.1, hw.2, ContainerKind.isIndexed, hs, hnone]

/-- For the name of a property the code is that of the fault that reading the property raises. -/
theorem explains_of_named (hw : h.IsObject w) {name : String} (hname : name ≠ "") (key : KeyResult)
    (code : ErrorCode) : h.Explains σ key w (some name) code ↔
      ∃ e, h.readProperty σ w (some name) = .error e ∧ code = e.kind.readCode := by
  constructor
  · intro hc
    cases code with
    | terminalValue =>
      rcases hc with hnull | ⟨-, _, ⟨⟩, -, hnil | ⟨e, he, hkind⟩⟩
      · exact absurd hnull (by rw [hw.1]; exact Bool.false_ne_true)
      · exact ⟨_, readProperty_of_empty hnil _, rfl⟩
      · exact ⟨e, he.readProperty, by rw [hkind]; rfl⟩
    | emptySegment =>
      obtain ⟨-, hnone | hempty⟩ := hc
      · cases hnone
      · exact absurd (Option.some.inj hempty) hname
    | noSuchProperty =>
      obtain ⟨-, _, ⟨⟩, -, hlacks | ⟨e, he, hkind⟩⟩ := hc
      · exact ⟨_, hlacks.readProperty, rfl⟩
      · exact ⟨e, he.readProperty, by rw [hkind]; rfl⟩
    | exception =>
      obtain ⟨-, _, ⟨⟩, -, e, he, hkind⟩ := hc
      exact ⟨e, he.readProperty, (FaultKind.readCode_eq_exception.2 hkind).symm⟩
    | indexExpected | indexOutOfBounds =>
      rw [Explains, hw.2] at hc
      cases hc.1
    | noSuchKey | keyDeserializationFailed =>
      rw [Explains, hw.2] at hc
      cases hc.1
    | indexNotAllowed | typeNotSupported | typeMismatch | notModifiable => exact hc.elim
  · rintro ⟨e, he, rfl⟩
    rcases readProperty_eq_error_cases he with hraises | ⟨hnil, hkind⟩ | ⟨hlacks, hkind⟩
    · by_cases hterminal : e.kind = .noAccessibleProperties
      · rw [FaultKind.readCode_eq_terminalValue.2 hterminal]
        exact .inr ⟨hw, name, rfl, hname, .inr ⟨e, hraises, hterminal⟩⟩
      · by_cases hnone : e.kind = .noSuchProperty
        · rw [FaultKind.readCode_eq_noSuchProperty.2 hnone]
          exact ⟨hw, name, rfl, hname, .inr ⟨e, hraises, hnone⟩⟩
        · rw [FaultKind.readCode_eq_exception.2 ⟨hterminal, hnone⟩]
          exact ⟨hw, name, rfl, hname, e, hraises, hterminal, hnone⟩
    · rw [hkind]
      exact .inr ⟨hw, name, rfl, hname, .inl hnil⟩
    · rw [hkind]
      exact ⟨hw, name, rfl, hname, .inl hlacks⟩

/-- The table has at most one code for a value and a segment. -/
theorem Explains.unique {key : KeyResult} {c c' : ErrorCode} (hc : h.Explains σ key w s c)
    (hc' : h.Explains σ key w s c') : c = c' := by
  cases hnull : w.isNull with
  | true =>
    rw [explains_of_null hnull] at hc hc'
    rw [hc, hc']
  | false =>
    cases hkind : h.classify w with
    | sequence | array | primitiveArray =>
      rw [explains_of_isIndexed (by rw [hkind]; rfl) hnull] at hc hc'
      rcases hc with ⟨rfl, hnone⟩ | ⟨rfl, n, hn, -⟩
      · exact (hc'.resolve_right fun ⟨_, n, hn, _⟩ => hnone n hn).1.symm
      · exact (hc'.resolve_left fun ⟨_, hnone⟩ => hnone n hn).1.symm
    | mapping =>
      rw [explains_of_mapping hkind hnull] at hc hc'
      rcases hc with ⟨rfl, k, rfl, -⟩ | ⟨rfl, ⟨reason, rfl⟩ | ⟨type, rfl⟩⟩
      · exact (hc'.resolve_right (by simp)).1.symm
      · exact (hc'.resolve_left (by simp)).1.symm
      · exact (hc'.resolve_left (by simp)).1.symm
    | object =>
      have hw : h.IsObject w := ⟨hnull, hkind⟩
      by_cases hname : ∃ name, s = some name ∧ name ≠ ""
      · obtain ⟨name, rfl, hne⟩ := hname
        obtain ⟨e, he, rfl⟩ := (explains_of_named hw hne key c).1 hc
        obtain ⟨e', he', rfl⟩ := (explains_of_named hw hne key c').1 hc'
        cases he.symm.trans he'
        rfl
      · have hs : s = none ∨ s = some "" := by
          cases s with
          | none => exact .inl rfl
          | some name =>
            exact .inr (congrArg some (Classical.not_not.1 fun hne => hname ⟨name, rfl, hne⟩))
        rw [explains_of_unnamed hw hs] at hc hc'
        rw [hc, hc']

/-- A step fails with the code that the table has for its container and its segment. -/
theorem code_of_step (hs : p.segment i = .ok s) (hnull : w.isNull = false)
    (hf : h.step σ keys w p i = .fail f) :
    (f.path = p ∧ f.segment = i) ∧ h.Explains σ (keyResult keys p i s) w s f.code := by
  have hindexed (hkind : (h.classify w).isIndexed = true) (hf : h.memberAt w p i = .fail f) :
      (f.path = p ∧ f.segment = i) ∧ h.Explains σ (keyResult keys p i s) w s f.code := by
    rcases eq_of_memberAt hs hf with ⟨hnone, rfl⟩ | ⟨hout, rfl⟩
    · exact ⟨⟨rfl, rfl⟩, hkind, hnone⟩
    · exact ⟨⟨rfl, rfl⟩, hkind, hout⟩
  cases hkind : h.classify w with
  | sequence =>
    rw [step, hkind] at hf
    exact hindexed (by rw [hkind]; rfl) hf
  | array | primitiveArray =>
    rw [step, hkind] at hf
    refine hindexed (by rw [hkind]; rfl) ?_
    rcases Outcome.bind_eq_fail.1 hf with hf | ⟨u, -, hf⟩
    · exact hf
    · cases hf
  | mapping =>
    rw [step, hkind] at hf
    rcases eq_of_entryAt hs hf with
      ⟨reason, hkey, rfl⟩ | ⟨type, hkey, rfl⟩ | ⟨hmissing, rfl⟩
    · exact ⟨⟨rfl, rfl⟩, hkind, .inl ⟨reason, hkey⟩⟩
    · exact ⟨⟨rfl, rfl⟩, hkind, .inr ⟨type, hkey⟩⟩
    · exact ⟨⟨rfl, rfl⟩, hkind, hmissing⟩
  | object =>
    have hobject : h.IsObject w := ⟨hnull, hkind⟩
    rw [step, hkind, stepInto, propertyAt, Outcome.bind_eq_fail] at hf
    rcases hf with hf | ⟨name, hname, hf⟩
    · obtain ⟨hempty, rfl⟩ := eq_of_nameAt hs hf
      exact ⟨⟨rfl, rfl⟩, hobject, hempty⟩
    · obtain ⟨rfl, hne⟩ := (nameAt_eq_done hs).1 hname
      cases hread : h.readProperty σ w (some name) with
      | ok u =>
        rw [hread] at hf
        cases hf
      | error e =>
        rw [hread] at hf
        obtain ⟨hat, hcode⟩ := code_of_propertyFault hs hf
        exact ⟨hat, (explains_of_named hobject hne _ _).2 ⟨e, hread, hcode⟩⟩

/-- Where a walk fails at a segment, the segment exists, the segments before it lead to a value, and the
code of the failure is the one that the table has for the two, and no other. -/
theorem code_of_walk (hf : h.walk σ keys v p 0 = .fail f) :
    f.path = p ∧ f.segment < p.size ∧ ∃ (h' : Heap) (w : Value) (s : Segment),
      Leads σ keys p h v 0 h' w f.segment ∧ p.segment f.segment = .ok s ∧
      ∀ code, f.code = code ↔ h'.Explains σ (keyResult keys p f.segment s) w s code := by
  obtain ⟨h', w, k, hw, hk, hfail⟩ := (walk_eq_fail_iff (Int.natCast_nonneg p.size)).1 hf
  obtain ⟨s, hs⟩ := Path.exists_segment hw.le hk
  have hcode : (f.path = p ∧ f.segment = k) ∧
      h'.Explains σ (keyResult keys p k s) w s f.code := by
    rcases hfail with ⟨hnull, hf⟩ | ⟨hnull, hf⟩
    · rw [eq_of_failAt hs hf]
      exact ⟨⟨rfl, rfl⟩, .inl hnull⟩
    · exact code_of_step hs hnull hf
  obtain ⟨⟨hpath, rfl⟩, hexplains⟩ := hcode
  refine ⟨hpath, hk, h', w, s, hw, hs, fun code => ⟨?_, fun hc => hexplains.unique hc⟩⟩
  rintro rfl
  exact hexplains

/-- A list of null under an integer key. -/
def keyedRow : Heap := ⟨#[.dict .plain [(.scalar (.int 7), .ref 1)], .list [.scalar .null]]⟩

/-- The list under the integer has one member, so index 1 is out of bounds. -/
theorem code_of_walk_keyedRow :
    ∃ f, keyedRow.walk {} (some integerKeys) (.ref 0) (Path.parse "7.1") 0 = .fail f ∧
      f.segment = 1 ∧ ∃ (h' : Heap) (w : Value) (s : Segment),
        Leads {} (some integerKeys) (Path.parse "7.1") keyedRow (.ref 0) 0 h' w f.segment ∧
        h'.Explains {} (keyResult (some integerKeys) (Path.parse "7.1") f.segment s) w s
          .indexOutOfBounds := by
  have hf : keyedRow.walk {} (some integerKeys) (.ref 0) (Path.parse "7.1") 0 =
      .fail ⟨.indexOutOfBounds, Path.parse "7.1", 1, none⟩ := by cbv
  obtain ⟨-, -, h', w, s, hw, -, hcode⟩ := code_of_walk hf
  exact ⟨_, hf, rfl, h', w, s, hw, (hcode _).1 rfl⟩

/-! ## Properties that cannot be listed -/

/-- An object with one attribute. -/
def account : Heap := ⟨#[.object "Account" [("a", .scalar (.int 1))]]⟩

/-- Its class raises an error when it is asked for extra values. -/
def accountSchema : Schema :=
  ⟨[{ name := "Account", properties := [{ name := extrasName, getter := .raises .valueError [] }] }]⟩

theorem propertiesOf_account :
    account.propertiesOf accountSchema (.ref 0) = .error (.raised .valueError []) := by
  have hextras : accountSchema.descriptor? "Account" extrasName =
      some (.property { name := extrasName, getter := .raises .valueError [] }) := by cbv
  have hcomputes : accountSchema.computes "Account" extrasName = true := by cbv
  have hdict : accountSchema.computes "Account" dictionaryName = false := by cbv
  have hanswered : account.answeredNames accountSchema 0 extrasName =
      .error (.raised .valueError []) := by
    rw [answeredNames, attributeOf_of_raises rfl hextras rfl]
    rfl
  rw [propertiesOf, object?_of_get? rfl]
  dsimp only [namesUnder, Bind.bind, Except.bind]
  rw [hcomputes, hdict, if_pos rfl, if_neg Bool.false_ne_true, hanswered]

/-- An object with one property, whose getter asks another object for a property that it lacks. -/
def delegate : Heap := ⟨#[.object "Delegate" []]⟩

def delegateSchema : Schema :=
  ⟨[{ name := "Delegate", properties := [{ name := "x", getter := .raises .noSuchProperty [] }] }]⟩

theorem properties_delegate :
    delegateSchema.properties "Delegate" [] = [{ name := "x", writable := false }] := by cbv

theorem propertiesOf_delegate : delegate.propertiesOf delegateSchema (.ref 0) =
    .ok [{ name := "x", writable := false }] := by
  rw [propertiesOf_of_get? rfl (by cbv) (by cbv), properties_delegate]

theorem readProperty_delegate : delegate.readProperty delegateSchema (.ref 0) (some "x") =
    .error (.raised .noSuchProperty []) := by
  have hname : delegateSchema.hasProperty "Delegate" [] "x" = true := by
    rw [Schema.hasProperty, properties_delegate]
    rfl
  exact readProperty_of_raises rfl (by cbv) (by cbv) hname rfl rfl

/-- The account has a property, but none of the name; still the failure is that of an exception, since
its properties cannot be listed.  The delegate has the property whose getter raises; still the
failure is that of a missing property. -/
theorem raising_list :
    (∃ f, account.walk accountSchema none (.ref 0) (Path.ofSegments [some "b"]) 0 = .fail f ∧
      f.code = .exception ∧ f.segment = 0 ∧ account.IsObject (.ref 0) ∧
      accountSchema.descriptor? "Account" "b" = none ∧
      accountSchema.attribute? "Account" [("a", .scalar (.int 1))] "b" = none) ∧
    ∃ f, delegate.walk delegateSchema none (.ref 0) (Path.ofSegments [some "x"]) 0 = .fail f ∧
      f.code = .noSuchProperty ∧ f.segment = 0 ∧ delegate.IsObject (.ref 0) ∧
      delegate.propertiesOf delegateSchema (.ref 0) = .ok [{ name := "x", writable := false }] := by
  have hfail {h : Heap} {σ : Schema} {name : String} {e : Fault} {f : Failure}
      (hkind : h.classify (.ref 0) = .object)
      (hname : nameAt (Path.ofSegments [some name]) 0 = .done name)
      (hread : h.readProperty σ (.ref 0) (some name) = .error e)
      (hf : (h.propertyFault σ (.ref 0) (Path.ofSegments [some name]) 0 e : Outcome Value) = .fail f) :
      h.walk σ none (.ref 0) (Path.ofSegments [some name]) 0 = .fail f := by
    rw [walk_of_lt (by simp) rfl, step, hkind, stepInto, propertyAt, hname, Outcome.done_bind, hread]
    dsimp only
    rw [hf]
    rfl
  refine ⟨⟨_, hfail rfl (by cbv) (Raises.listing propertiesOf_account).readProperty rfl, rfl, rfl,
    ⟨rfl, rfl⟩, by cbv, by cbv⟩, ⟨_, hfail rfl (by cbv) readProperty_delegate rfl, rfl, rfl,
    ⟨rfl, rfl⟩, propertiesOf_delegate⟩⟩

end Heap

end Dotpath

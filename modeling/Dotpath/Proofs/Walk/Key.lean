import Dotpath.Proofs.Graph.Keys
import Dotpath.Walk.Key

/-!
# Key deserializers

A deserializer that looks at nothing but the segment it is given makes the same of equal segments of
different paths (`SegmentOnly`).  Without a deserializer, and with integer keys, the keys are null,
texts and integers (`SimpleKeys.isSimpleKey`).
-/

namespace Dotpath

theorem failAt_ne_done {α : Type} (problem : Problem) (p : Path) (i : Int)
    (cause : Option FaultKind) (a : α) : failAt problem p i cause ≠ .done a := by
  unfold failAt
  split <;> simp

/-- Whether a key deserializer, if there is one, looks at nothing but the segment it is given. -/
def SegmentOnly (keys : Option Deserializer) : Prop :=
  ∀ d ∈ keys, ∀ {p q : Path} {i j : Int} {s : Segment},
    p.segment i = .ok s → q.segment j = .ok s → d p i = d q j

theorem segmentOnly_none : SegmentOnly none := by
  rintro d ⟨⟩

theorem segmentOnly_integerKeys : SegmentOnly (some integerKeys) := by
  rintro d ⟨⟩ p q i j s hp hq
  rw [integerKeys, integerKeys, hp, hq]

theorem segmentOnly_convertedKeys (convert : String → KeyResult) :
    SegmentOnly (some (convertedKeys convert)) := by
  rintro d ⟨⟩ p q i j s hp hq
  rw [convertedKeys, convertedKeys, hp, hq]

/-- Whether segments are taken as keys as they are, or as integers. -/
def SimpleKeys (keys : Option Deserializer) : Prop := keys = none ∨ keys = some integerKeys

theorem SimpleKeys.segmentOnly {keys : Option Deserializer} (hkeys : SimpleKeys keys) :
    SegmentOnly keys := by
  rcases hkeys with rfl | rfl
  · exact segmentOnly_none
  · exact segmentOnly_integerKeys

theorem isSimpleKey_segmentKey (s : Segment) : (segmentKey s).isSimpleKey = true := by
  cases s <;> rfl

theorem isSimpleKey_of_integerKeys {p : Path} {i : Int} {k : Value}
    (h : integerKeys p i = .key k) : k.isSimpleKey = true := by
  unfold integerKeys at h
  split at h
  · cases h
  · cases h
    rfl
  · split at h
    · split at h
      · cases h
        rfl
      · cases h
    · cases h

/-- The key of a deserializer is the one that it makes. -/
theorem eq_key_of_mapKey {d : Deserializer} {p : Path} {i : Int} {k : Value}
    (h : mapKey (some d) p i = .done k) : d p i = .key k := by
  rw [mapKey] at h
  cases hd : d p i with
  | key k' =>
    rw [hd] at h
    cases h
    rfl
  | unhashable | rejected =>
    rw [hd] at h
    exact absurd h (failAt_ne_done _ _ _ _ _)
  | raised f =>
    rw [hd] at h
    dsimp only at h
    split at h
    · exact absurd h (failAt_ne_done _ _ _ _ _)
    · cases h

theorem SimpleKeys.isSimpleKey {keys : Option Deserializer} (hkeys : SimpleKeys keys) {p : Path}
    {i : Int} {k : Value} (h : mapKey keys p i = .done k) : k.isSimpleKey = true := by
  rcases hkeys with rfl | rfl
  · rw [mapKey] at h
    cases hs : p.segment i with
    | error f =>
      rw [hs] at h
      cases h
    | ok s =>
      rw [hs] at h
      cases h
      exact isSimpleKey_segmentKey s
  · exact isSimpleKey_of_integerKeys (eq_key_of_mapKey h)

end Dotpath

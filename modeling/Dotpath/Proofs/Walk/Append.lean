import Mathlib
import Dotpath.Proofs.Walk.Readdress

/-!
# Walks along concatenated paths

A walk along `p.append q` is the walk along `p`, and from the value that it reaches, in the heap that
it leaves, the walk along `q` (`walk_append`).  The failures are those of the two walks, addressed to
the whole path, those of the second `p.size` segments further on.  So a walk fails at the first
segment that cannot be followed, whatever comes after it.
-/

namespace Dotpath

/-- Whether the segments of a path, in order, are segments of another path from index `k` on. -/
structure Path.LiesIn (p q : Path) (k : Int) : Prop where
  size_le : (p.size : Int) + k ≤ q.size
  segment_eq : ∀ {i : Int}, 0 ≤ i → i < p.size → ∃ s, p.segment i = .ok s ∧ q.segment (i + k) = .ok s

namespace Path

theorem liesIn_zero {p q : Path} (hpq : p.segments <+: q.segments) : p.LiesIn q 0 := by
  obtain ⟨rest, hrest⟩ := hpq
  refine ⟨?_, fun {i} h₀ hi => ?_⟩
  · rw [size, size, ← hrest, List.length_append]
    omega
  · obtain ⟨n, rfl⟩ := Int.eq_ofNat_of_zero_le h₀
    have hn : n < p.segments.length := Int.ofNat_lt.1 hi
    refine ⟨_, segment_of_getElem? (List.getElem?_eq_getElem hn), ?_⟩
    rw [Int.add_zero]
    apply segment_of_getElem?
    rw [← hrest, List.getElem?_append_left hn, List.getElem?_eq_getElem hn]

theorem liesIn_append_left (p q : Path) : p.LiesIn (p.append q) 0 :=
  liesIn_zero ⟨q.segments, (segments_append p q).symm⟩

theorem liesIn_append_right (p q : Path) : q.LiesIn (p.append q) p.size := by
  refine ⟨by rw [size_append]; omega, fun {i} h₀ hi => ?_⟩
  obtain ⟨n, rfl⟩ := Int.eq_ofNat_of_zero_le h₀
  have hn : n < q.segments.length := Int.ofNat_lt.1 hi
  refine ⟨_, segment_of_getElem? (List.getElem?_eq_getElem hn), ?_⟩
  rw [← Int.natCast_add]
  apply segment_of_getElem?
  rw [segments_append, size, List.getElem?_append_right (Nat.le_add_left _ _),
    Nat.add_sub_cancel, List.getElem?_eq_getElem hn]

theorem parent?_eq_some {p q : Path} (hq : p.parent? = some q) :
    p.segments ≠ [] ∧ q.segments = p.segments.dropLast := by
  unfold parent? at hq
  split at hq
  · cases hq
  · next hp =>
    cases hq
    exact ⟨fun h => hp (List.isEmpty_iff.2 h), segments_ofSegments _⟩

theorem liesIn_of_parent? {p q : Path} (hq : p.parent? = some q) : q.LiesIn p 0 := by
  apply liesIn_zero
  rw [(parent?_eq_some hq).2]
  exact List.dropLast_prefix p.segments

end Path

namespace Heap

variable (σ : Schema) (h : Heap) {keys : Option Deserializer}

/-- A walk along a path that contains another one takes its course as long as that one lasts, and goes
on in the heap that is left there. -/
theorem walk_of_liesIn (hkeys : SegmentOnly keys) {p q : Path} {k : Int} (hpq : p.LiesIn q k)
    (v : Value) {i : Int} (h₀ : 0 ≤ i) (hi : i ≤ p.size) :
    h.walk σ keys v q (i + k) =
      (h.walk σ keys v p i).readdress q k >>= fun w =>
        (h.leftByWalk σ keys v p i).walk σ keys w q (p.size + k) := by
  induction hn : (p.size - i).toNat generalizing h v i with
  | zero =>
    obtain rfl : i = p.size := by omega
    have hdone : h.walk σ keys v p p.size = .done v := walk_of_le (Int.le_refl _)
    rw [hdone, leftByWalk_of_le (Int.le_refl _)]
    rfl
  | succ n ih =>
    have hp : i < p.size := by omega
    have hq : i + k < q.size := by have := hpq.size_le; omega
    obtain ⟨s, hps, hqs⟩ := hpq.segment_eq h₀ hp
    cases hv : v.isNull with
    | true =>
      rw [walk_of_isNull hq hv, walk_of_isNull hp hv, failAt_of_segment hps,
        failAt_of_segment hqs]
      rfl
    | false =>
      rw [walk_of_lt hq hv, walk_of_lt hp hv, step_readdress hkeys hps hqs,
        leftByStep_readdress hkeys hps hqs]
      cases hw : h.step σ keys v p i with
      | done w =>
        have := ih (h.leftByStep keys v p i) w (i := i + 1) (by omega) (by omega) (by omega)
        rw [show i + 1 + k = i + k + 1 by omega] at this
        rw [leftByWalk_of_done hp hv hw]
        exact this
      | fail f => rfl
      | escape f => rfl

/-- The heap that is left by a walk along a path that contains another one. -/
theorem leftByWalk_of_liesIn (hkeys : SegmentOnly keys) {p q : Path} {k : Int} (hpq : p.LiesIn q k)
    (v : Value) {i : Int} (h₀ : 0 ≤ i) (hi : i ≤ p.size) :
    h.leftByWalk σ keys v q (i + k) = match h.walk σ keys v p i with
      | .done w => (h.leftByWalk σ keys v p i).leftByWalk σ keys w q (p.size + k)
      | .fail _ | .escape _ => h.leftByWalk σ keys v p i := by
  induction hn : (p.size - i).toNat generalizing h v i with
  | zero =>
    obtain rfl : i = p.size := by omega
    have hdone : h.walk σ keys v p p.size = .done v := walk_of_le (Int.le_refl _)
    rw [hdone, leftByWalk_of_le (Int.le_refl (p.size : Int))]
  | succ n ih =>
    have hp : i < p.size := by omega
    have hq : i + k < q.size := by have := hpq.size_le; omega
    obtain ⟨s, hps, hqs⟩ := hpq.segment_eq h₀ hp
    cases hv : v.isNull with
    | true =>
      rw [walk_of_isNull hp hv, failAt_of_segment hps, leftByWalk_of_isNull hv,
        leftByWalk_of_isNull hv]
    | false =>
      have hstep := step_readdress (σ := σ) (h := h) hkeys hps hqs v
      rw [walk_of_lt hp hv]
      cases hw : h.step σ keys v p i with
      | done w =>
        rw [hw] at hstep
        have := ih (h.leftByStep keys v p i) w (i := i + 1) (by omega) (by omega) (by omega)
        rw [show i + 1 + k = i + k + 1 by omega] at this
        rw [leftByWalk_of_done hq hv hstep, leftByWalk_of_done hp hv hw,
          leftByStep_readdress hkeys hps hqs]
        exact this
      | fail | escape =>
        rw [hw] at hstep
        rw [leftByWalk_of_not_done hq hv (by simp [hstep, Outcome.readdress]),
          leftByWalk_of_not_done hp hv (by simp [hw]), leftByStep_readdress hkeys hps hqs]
        rfl

/-- A walk along a concatenation is the walk along its first part and then, in the heap that is left,
along its second, and so is a walk that starts where the second part does. -/
theorem walk_append (hkeys : SegmentOnly keys) (v : Value) (p q : Path) :
    (h.walk σ keys v (p.append q) 0 =
        (h.walk σ keys v p 0).readdress (p.append q) 0 >>= fun w =>
          ((h.leftByWalk σ keys v p 0).walk σ keys w q 0).readdress (p.append q) p.size) ∧
      (h.leftByWalk σ keys v (p.append q) 0 = match h.walk σ keys v p 0 with
        | .done w => (h.leftByWalk σ keys v p 0).leftByWalk σ keys w q 0
        | .fail _ | .escape _ => h.leftByWalk σ keys v p 0) ∧
      ∀ w (h' : Heap),
        h'.walk σ keys w (p.append q) p.size =
          (h'.walk σ keys w q 0).readdress (p.append q) p.size ∧
        h'.leftByWalk σ keys w (p.append q) p.size = h'.leftByWalk σ keys w q 0 := by
  have hend : ((p.append q).size : Int) ≤ q.size + p.size := by rw [Path.size_append]; omega
  have hright (w : Value) (h' : Heap) : h'.walk σ keys w (p.append q) p.size =
      (h'.walk σ keys w q 0).readdress (p.append q) p.size := by
    have hw := walk_of_liesIn σ h' hkeys (p.liesIn_append_right q) w
      (Int.le_refl 0) (by omega)
    rw [Int.zero_add] at hw
    rw [hw]
    cases h'.walk σ keys w q 0 with
    | done u => exact walk_of_le hend
    | fail f => rfl
    | escape f => rfl
  have hleft (w : Value) (h' : Heap) :
      h'.leftByWalk σ keys w (p.append q) p.size = h'.leftByWalk σ keys w q 0 := by
    have hw := leftByWalk_of_liesIn σ h' hkeys (p.liesIn_append_right q) w
      (Int.le_refl 0) (by omega)
    rw [Int.zero_add] at hw
    rw [hw]
    cases h'.walk σ keys w q 0 with
    | done u => exact leftByWalk_of_le hend
    | fail f => rfl
    | escape f => rfl
  have hv := walk_of_liesIn σ h hkeys (p.liesIn_append_left q) v (Int.le_refl 0) (by omega)
  have hv' := leftByWalk_of_liesIn σ h hkeys (p.liesIn_append_left q) v (Int.le_refl 0) (by omega)
  rw [Int.zero_add, Int.add_zero] at hv hv'
  refine ⟨?_, ?_, fun w h' => ⟨hright w h', hleft w h'⟩⟩
  · rw [hv]
    exact Outcome.bind_congr fun w => hright w _
  · rw [hv']
    cases h.walk σ keys v p 0 with
    | done w => exact hleft w _
    | fail f => rfl
    | escape f => rfl

/-- The first part leads to null, so the walk fails at the first segment of the second part. -/
theorem walk_append_null_seam :
    SegmentOnly (some (convertedKeys integerKey)) ∧
      Heap.walk {} ⟨#[.dict .plain [(.scalar (.int 1), .ref 1)], .list [.scalar .null]]⟩
          (some (convertedKeys integerKey)) (.ref 0)
          ((Path.parse "1.0").append (Path.parse "x")) 0 =
        .fail ⟨.nullValue, (Path.parse "1.0").append (Path.parse "x"), 2, none⟩ :=
  ⟨segmentOnly_convertedKeys integerKey,
    (walk_append {} _ (segmentOnly_convertedKeys integerKey) _ _ _).1.trans (by cbv)⟩

end Heap

end Dotpath

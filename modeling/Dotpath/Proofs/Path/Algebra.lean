import Dotpath.Path.Derived
import Dotpath.Proofs.Number.Digits
import Mathlib.Data.List.Forall2

/-!
# The algebra of derived paths

Derivations are operations on the segments, whatever text a path keeps: appending, reversing, leaving
out what looks like an index, and cutting a part out.  So their laws are those of lists, up to the
equality of paths, which looks at the segments alone.  What lists do not say is where a part may be
cut out; there a part begins at a position that may count from the end (`subPath_to_end_eq_ok`,
`subPath_span_eq_ok`), and a part of a part is a part (`subPath_subPath`).

All laws of three paths stand together in `derivation_laws`.
-/

namespace Dotpath

/-- Whether a sequence takes a segment for an index, even if it is too long for one. -/
def TakenForIndex (s : Segment) : Prop := parseIndex s ≠ .ok none

theorem TakenForIndex.isIntegerSegment {s : Segment} (hs : TakenForIndex s) :
    isIntegerSegment s = true := by
  cases s with
  | none => exact absurd rfl hs
  | some t =>
    rw [TakenForIndex, parseIndex] at hs
    split at hs
    · exact absurd rfl hs
    · next hrow =>
      rw [Bool.or_eq_true, not_or, Bool.not_eq_true', Bool.not_eq_false, List.isEmpty_iff] at hrow
      exact isIntegerSegment_iff.2 ⟨t.toList, .inl rfl, isDigitRow_iff.2 hrow.2, hrow.1⟩

namespace Path

variable {p q r : Path} {offset length : Int}

/-! ## Segments of derived paths -/

theorem segments_canonical (p : Path) :
    p.canonical.segments = p.segments.filter fun s => !isIntegerSegment s := segments_ofSegments _

theorem segments_reverse (p : Path) : p.reverse.segments = p.segments.reverse := by
  unfold reverse
  split
  · exact segments_ofSegments _
  · next hsize =>
    match hp : p.segments with
    | [] | [_] => rfl
    | _ :: _ :: _ => exact absurd (by rw [size, hp]; simp) hsize

/-! ## Laws of lists -/

theorem append_assoc (p q r : Path) :
    ((p.append q).append r == p.append (q.append r)) = true := by
  simp only [beq_iff, segments_append, List.append_assoc]

theorem append_empty (p : Path) : (p.append empty == p) = true := by
  rw [beq_iff, segments_append]
  exact List.append_nil _

theorem empty_append (p : Path) : (empty.append p == p) = true := by
  rw [beq_iff, segments_append]
  rfl

theorem reverse_reverse (p : Path) : (p.reverse.reverse == p) = true := by
  rw [beq_iff, segments_reverse, segments_reverse, List.reverse_reverse]

theorem reverse_append (p q : Path) :
    ((p.append q).reverse == q.reverse.append p.reverse) = true := by
  simp only [beq_iff, segments_append, segments_reverse, List.reverse_append]

/-- What is before the last segment comes after the first one in the reversed path. -/
theorem reverse_parent (hp : p.isEmpty = false) :
    ∃ a b, p.parent? = some a ∧ p.reverse.shift = .ok b ∧ (a.reverse == b) = true := by
  have hreverse : p.reverse.isEmpty = false := by
    rw [isEmpty, List.isEmpty_eq_false_iff] at hp ⊢
    rwa [segments_reverse, ne_eq, List.reverse_eq_nil_iff]
  refine ⟨_, _, if_neg (Bool.eq_false_iff.1 hp), if_neg (Bool.eq_false_iff.1 hreverse), ?_⟩
  rw [beq_iff, segments_reverse, segments_ofSegments, segments_ofSegments, segments_reverse,
    List.drop_one, List.tail_reverse]

theorem canonical_canonical (p : Path) : (p.canonical.canonical == p.canonical) = true := by
  simp only [beq_iff, segments_canonical, List.filter_filter, Bool.and_self]

theorem canonical_append (p q : Path) :
    ((p.append q).canonical == p.canonical.append q.canonical) = true := by
  simp only [beq_iff, segments_append, segments_canonical, List.filter_append]

theorem canonical_reverse (p : Path) : (p.reverse.canonical == p.canonical.reverse) = true := by
  simp only [beq_iff, segments_reverse, segments_canonical, List.filter_reverse]

/-- Whether two paths differ only where both have what is taken for an index. -/
def SameShape (p q : Path) : Prop :=
  p.size = q.size ∧ ∀ (i : Nat) (s t : Segment), p.segments[i]? = some s →
    q.segments[i]? = some t → s = t ∨ TakenForIndex s ∧ TakenForIndex t

theorem SameShape.forall₂ (hpq : p.SameShape q) :
    List.Forall₂ (fun s t => s = t ∨ TakenForIndex s ∧ TakenForIndex t) p.segments q.segments :=
  List.forall₂_iff_get.2 ⟨hpq.1, fun _ hp hq =>
    hpq.2 _ _ _ (List.getElem?_eq_getElem hp) (List.getElem?_eq_getElem hq)⟩

theorem SameShape.canonical (hpq : p.SameShape q) : (p.canonical == q.canonical) = true := by
  rw [beq_iff, segments_canonical, segments_canonical]
  have hsegments := hpq.forall₂
  generalize p.segments = ss, q.segments = ts at hsegments
  induction hsegments with
  | nil => rfl
  | @cons s t _ _ hst _ ih =>
    rcases hst with rfl | ⟨hs, ht⟩
    · rw [List.filter_cons, List.filter_cons, ih]
    · -- Both are left out.
      rw [List.filter_cons_of_neg (by simp [hs.isIntegerSegment]),
        List.filter_cons_of_neg (by simp [ht.isIntegerSegment]), ih]

/-! ## Cutting a part out -/

theorem fromEnd_of_nonneg {size : Nat} {index : Int} (hindex : 0 ≤ index) :
    fromEnd size index = index := if_neg (by omega)

/-- A path is cut from an offset on where the offset is the position of a segment. -/
theorem subPath_to_end_eq_ok :
    p.subPath offset none = .ok q ↔ (0 ≤ fromEnd p.size offset ∧ fromEnd p.size offset < p.size) ∧
      ofSegments (p.segments.drop (fromEnd p.size offset).toNat) = q := by
  by_cases h : 0 ≤ fromEnd p.size offset ∧ fromEnd p.size offset < p.size
  · rw [show p.subPath offset none = _ from if_pos h, Except.ok.injEq, and_iff_right h]
  · rw [show p.subPath offset none = _ from if_neg h]
    exact iff_of_false nofun fun hq => h hq.1

/-- A span is cut out where it lies between the ends, both of which it may touch. -/
theorem subPath_span_eq_ok :
    p.subPath offset (some length) = .ok q ↔
      (0 ≤ fromEnd p.size offset ∧ 0 ≤ length ∧ fromEnd p.size offset + length ≤ p.size) ∧
        ofSegments ((p.segments.drop (fromEnd p.size offset).toNat).take length.toNat) = q := by
  by_cases h : fromEnd p.size offset < 0 ∨ length < 0 ∨ fromEnd p.size offset + length > p.size
  · rw [show p.subPath offset (some length) = _ from if_pos h]
    exact iff_of_false nofun fun hq => by omega
  · rw [show p.subPath offset (some length) = _ from if_neg h, Except.ok.injEq,
      and_iff_right (by omega)]

theorem subPath_to_end_fault : (∃ f, p.subPath offset none = .error f ∧ f.kind = .indexError) ↔
    ¬(0 ≤ fromEnd p.size offset ∧ fromEnd p.size offset < p.size) := by
  constructor
  · rintro ⟨f, hf, -⟩ h
    rw [subPath_to_end_eq_ok.2 ⟨h, rfl⟩] at hf
    cases hf
  · exact fun h => ⟨_, if_neg h, rfl⟩

theorem subPath_span_fault :
    (∃ f, p.subPath offset (some length) = .error f ∧ f.kind = .indexError) ↔
      fromEnd p.size offset < 0 ∨ length < 0 ∨ fromEnd p.size offset + length > p.size := by
  constructor
  · rintro ⟨f, hf, -⟩
    by_contra h
    rw [subPath_span_eq_ok.2 ⟨by omega, rfl⟩] at hf
    cases hf
  · exact fun h => ⟨_, if_pos h, rfl⟩

theorem length_take_drop {α : Type} {xs : List α} {m n : Nat} (h : m + n ≤ xs.length) :
    ((xs.drop m).take n).length = n := by
  rw [List.length_take, List.length_drop, Nat.min_eq_left (by omega)]

/-- A part lies inside the path, and is what stands there. -/
theorem segments_of_subPath {l : Option Int} (hq : p.subPath offset l = .ok q) :
    0 ≤ fromEnd p.size offset ∧ fromEnd p.size offset + q.size ≤ p.size ∧
      q.segments = (p.segments.drop (fromEnd p.size offset).toNat).take q.size := by
  have hsize : p.segments.length = p.size := rfl
  cases l with
  | none =>
    obtain ⟨h, rfl⟩ := subPath_to_end_eq_ok.1 hq
    rw [size_ofSegments, List.length_drop, segments_ofSegments, List.take_of_length_le (by simp)]
    exact ⟨h.1, by omega, rfl⟩
  | some n =>
    obtain ⟨h, rfl⟩ := subPath_span_eq_ok.1 hq
    rw [size_ofSegments, length_take_drop (by omega), segments_ofSegments]
    exact ⟨h.1, by omega, rfl⟩

/-- A part of a part is the part that begins where the two offsets lead. -/
theorem subPath_subPath {l : Option Int} {b : Int} (hq : p.subPath offset l = .ok q) (hb : 0 ≤ b)
    (hr : q.subPath b (some length) = .ok r) :
    p.subPath (fromEnd p.size offset + b) (some length) = .ok r := by
  obtain ⟨hstart, hend, hsegments⟩ := segments_of_subPath hq
  obtain ⟨hinside, rfl⟩ := subPath_span_eq_ok.1 hr
  rw [fromEnd_of_nonneg hb] at hinside ⊢
  have hsum : (fromEnd p.size offset + b).toNat = (fromEnd p.size offset).toNat + b.toNat := by
    omega
  refine subPath_span_eq_ok.2 ?_
  rw [fromEnd_of_nonneg (by omega), hsegments, hsum, List.drop_take, List.drop_drop, List.take_take,
    Nat.min_eq_left (by omega)]
  exact ⟨by omega, rfl⟩

/-- A path is cut in two at any position, and the parts make it up again.  The first part is that to
the parent if one segment is behind it. -/
theorem subPath_append_subPath {k : Int} (hk : 0 ≤ k ∧ k ≤ p.size) :
    ∃ a b, p.subPath 0 (some k) = .ok a ∧ p.subPath k (some (p.size - k)) = .ok b ∧
      (a.append b == p) = true ∧ (k < p.size → p.subPath k none = .ok b) ∧
      (k + 1 = p.size → p.parent? = some a) := by
  have hsize : p.segments.length = p.size := rfl
  have hrest : ((p.segments.drop k.toNat).take (p.size - k).toNat) = p.segments.drop k.toNat :=
    List.take_of_length_le (by rw [List.length_drop]; omega)
  refine ⟨ofSegments (p.segments.take k.toNat), ofSegments (p.segments.drop k.toNat),
    subPath_span_eq_ok.2 ⟨?_, rfl⟩, subPath_span_eq_ok.2 ⟨?_, ?_⟩, ?_, fun hlt => ?_, fun hlast => ?_⟩
  · rw [fromEnd_of_nonneg (Int.le_refl 0)]
    omega
  · rw [fromEnd_of_nonneg hk.1]
    omega
  · rw [fromEnd_of_nonneg hk.1, hrest]
  · rw [beq_iff, segments_append, segments_ofSegments, segments_ofSegments, List.take_append_drop]
  · refine subPath_to_end_eq_ok.2 ?_
    rw [fromEnd_of_nonneg hk.1]
    exact ⟨⟨hk.1, hlt⟩, rfl⟩
  · have hne : p.isEmpty = false :=
      List.isEmpty_eq_false_iff.2 (List.ne_nil_of_length_pos (by omega))
    rw [parent?, if_neg (Bool.eq_false_iff.1 hne), List.dropLast_eq_take]
    congr
    omega

/-! ## All laws -/

/-- The laws of appending, reversing, leaving indices out and cutting. -/
structure DerivationLaws (p q r : Path) : Prop where
  append_assoc : ((p.append q).append r == p.append (q.append r)) = true
  append_empty : (p.append empty == p) = true
  empty_append : (empty.append p == p) = true
  reverse_reverse : (p.reverse.reverse == p) = true
  reverse_append : ((p.append q).reverse == q.reverse.append p.reverse) = true
  reverse_parent : p.isEmpty = false →
    ∃ a b, p.parent? = some a ∧ p.reverse.shift = .ok b ∧ (a.reverse == b) = true
  canonical_canonical : (p.canonical.canonical == p.canonical) = true
  canonical_append : ((p.append q).canonical == p.canonical.append q.canonical) = true
  canonical_reverse : (p.reverse.canonical == p.canonical.reverse) = true
  canonical_eq : p.SameShape q → (p.canonical == q.canonical) = true
  /-- Without a length, the offset has to be the position of a segment. -/
  to_end : ∀ offset : Int,
    let start : Int := if offset < 0 then p.size + offset else offset
    ((∃ f, p.subPath offset none = .error f ∧ f.kind = .indexError) ↔
      ¬(0 ≤ start ∧ start < p.size)) ∧
    (0 ≤ start → start < p.size →
      ∃ a, p.subPath offset none = .ok a ∧ a.segments = p.segments.drop start.toNat)
  /-- With a length, the part has to lie between the ends. -/
  span : ∀ offset length : Int,
    let start : Int := if offset < 0 then p.size + offset else offset
    ((∃ f, p.subPath offset (some length) = .error f ∧ f.kind = .indexError) ↔
      start < 0 ∨ length < 0 ∨ start + length > p.size) ∧
    (0 ≤ start → 0 ≤ length → start + length ≤ p.size →
      ∃ a, p.subPath offset (some length) = .ok a ∧ a.size = length ∧
        a.segments = (p.segments.drop start.toNat).take length.toNat)
  part_of_part : ∀ (offset : Int) (l : Option Int) (b length : Int) (part inner : Path),
    let start : Int := if offset < 0 then p.size + offset else offset
    p.subPath offset l = .ok part → 0 ≤ b → part.subPath b (some length) = .ok inner →
      p.subPath (start + b) (some length) = .ok inner
  two_parts : ∀ k : Int, 0 ≤ k → k ≤ p.size →
    ∃ a b, p.subPath 0 (some k) = .ok a ∧ p.subPath k (some (p.size - k)) = .ok b ∧
      (a.append b == p) = true ∧ (k < p.size → p.subPath k none = .ok b) ∧
      (k + 1 = p.size → p.parent? = some a)

/-- The derivations of paths form one algebra. -/
theorem derivation_laws (p q r : Path) : DerivationLaws p q r where
  append_assoc := append_assoc p q r
  append_empty := append_empty p
  empty_append := empty_append p
  reverse_reverse := reverse_reverse p
  reverse_append := reverse_append p q
  reverse_parent := reverse_parent
  canonical_canonical := canonical_canonical p
  canonical_append := canonical_append p q
  canonical_reverse := canonical_reverse p
  canonical_eq := SameShape.canonical
  to_end offset := ⟨subPath_to_end_fault, fun hstart hlt =>
    ⟨_, subPath_to_end_eq_ok.2 ⟨⟨hstart, hlt⟩, rfl⟩, segments_ofSegments _⟩⟩
  span offset length := by
    refine ⟨subPath_span_fault, fun hstart hlength hend =>
      ⟨_, subPath_span_eq_ok.2 ⟨⟨hstart, hlength, hend⟩, rfl⟩, ?_, segments_ofSegments _⟩⟩
    change 0 ≤ fromEnd p.size offset at hstart
    change fromEnd p.size offset + length ≤ p.segments.length at hend
    rw [size_ofSegments, length_take_drop (by omega)]
    omega
  part_of_part _ _ _ _ _ _ hpart hb hinner := subPath_subPath hpart hb hinner
  two_parts _ hk hle := subPath_append_subPath ⟨hk, hle⟩

/-- Two paths that differ in an index, and a part of one of them that counts from its end. -/
theorem derivation_laws_indexedPath :
    let p := parse "a.0.b.c"
    let q := parse "a.17.b.c"
    let part := ofSegments [some "0", some "b", some "c"]
    let inner := ofSegments [some "b"]
    p.SameShape q ∧ (p.canonical == q.canonical) = true ∧ p.subPath (-3) (some 3) = .ok part ∧
      part.subPath 1 (some 1) = .ok inner ∧ p.subPath 2 (some 1) = .ok inner := by
  have hp : (parse "a.0.b.c").segments = [some "a", some "0", some "b", some "c"] := by
    decide +kernel
  have hq : (parse "a.17.b.c").segments = [some "a", some "17", some "b", some "c"] := by
    decide +kernel
  have hshape : (parse "a.0.b.c").SameShape (parse "a.17.b.c") := by
    refine ⟨by rw [size, size, hp, hq]; rfl, fun i s t hs ht => ?_⟩
    rw [hp] at hs
    rw [hq] at ht
    rcases i with _ | _ | _ | _ | i <;> cases hs <;> cases ht
    case succ.zero =>
      exact .inr ⟨by unfold TakenForIndex; decide +kernel, by unfold TakenForIndex; decide +kernel⟩
    all_goals exact .inl rfl
  have hpart : (parse "a.0.b.c").subPath (-3) (some 3) =
      .ok (ofSegments [some "0", some "b", some "c"]) := by
    rw [subPath_span_eq_ok, size, hp]
    exact ⟨by decide, rfl⟩
  have hinner : (ofSegments [some "0", some "b", some "c"]).subPath 1 (some 1) =
      .ok (ofSegments [some "b"]) := by
    rw [subPath_span_eq_ok, size, segments_ofSegments]
    exact ⟨by decide, rfl⟩
  have laws := derivation_laws (parse "a.0.b.c") (parse "a.17.b.c") empty
  exact ⟨hshape, laws.canonical_eq hshape, hpart, hinner,
    laws.part_of_part _ _ _ _ _ _ hpart (by decide) hinner⟩

end Path

end Dotpath

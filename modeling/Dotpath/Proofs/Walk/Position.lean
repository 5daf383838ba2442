import Dotpath.Proofs.Graph.Members
import Dotpath.Proofs.Walk.OneSlot
import Dotpath.Proofs.Walk.PutFaults
import Dotpath.Proofs.Walk.Reasons

/-!
# Positions

Readers and writers of sequences and arrays take the same segments for positions.  A segment denotes
an index if it is a row of digits (`DenotesIndex`); it is a position if the container has a member
there.  A step and an assignment fail for the same segments, and in the same way
(`MissesPosition`).
-/

namespace Dotpath

/-- Whether a segment has few enough characters to be read as an integer. -/
def ShortSegment (s : Segment) : Prop := ∀ t ∈ s, t.length ≤ maxDigits

section Segments

variable {s : Segment} {m n : Nat}

theorem DenotesIndex.unique (hm : DenotesIndex s m) (hn : DenotesIndex s n) : m = n := by
  obtain ⟨t, rfl, -, -, rfl⟩ := hm
  obtain ⟨u, hu, -, -, rfl⟩ := hn
  rw [Option.some.inj hu]

theorem denotesIndex_toString (n : Nat) : DenotesIndex (some (toString n)) n :=
  ⟨_, rfl, Nat.repr_ne_empty, isDigitRow_toString n, digitsValue_toString n⟩

/-- A short segment is read as the index that it denotes, if there is one. -/
theorem parseIndex_of_short (hshort : ShortSegment s) :
    (∃ n, parseIndex s = .ok (some n) ∧ DenotesIndex s n) ∨
      parseIndex s = .ok none ∧ ∀ n, ¬ DenotesIndex s n := by
  cases hparse : parseIndex s with
  | error f =>
    obtain ⟨t, rfl, -, hlong, -⟩ := parseIndex_eq_error.1 hparse
    exact absurd hlong (Nat.not_lt_of_le (hshort t rfl))
  | ok index =>
    cases index with
    | none => exact .inr ⟨rfl, not_denotesIndex_of_parseIndex hparse⟩
    | some n => exact .inl ⟨n, rfl, denotesIndex_of_parseIndex hparse⟩

theorem parseIndex_of_denotes (hshort : ShortSegment s) (hn : DenotesIndex s n) :
    parseIndex s = .ok (some n) := by
  rcases parseIndex_of_short hshort with ⟨m, hparse, hm⟩ | ⟨-, hnone⟩
  · rw [hparse, hm.unique hn]
  · exact absurd hn (hnone n)

/-- How a segment of a path is no position in a container with `size` members. -/
inductive MissesPosition (p : Path) (i : Int) (s : Segment) (size : Nat) : Failure → Prop
  | indexExpected (hnone : ∀ n, ¬ DenotesIndex s n) :
    MissesPosition p i s size ⟨.indexExpected, p, i, none⟩
  | outOfBounds {n : Nat} (hn : DenotesIndex s n) (hsize : size ≤ n) :
    MissesPosition p i s size ⟨.indexOutOfBounds, p, i, none⟩

variable {p : Path} {i : Int} {size : Nat} {f : Failure}

theorem missesPosition_iff_of_not_denotes (hnone : ∀ n, ¬ DenotesIndex s n) :
    MissesPosition p i s size f ↔ f = ⟨.indexExpected, p, i, none⟩ := by
  constructor
  · rintro (- | ⟨hn, -⟩)
    · rfl
    · exact absurd hn (hnone _)
  · rintro rfl
    exact .indexExpected hnone

theorem missesPosition_iff_of_denotes (hn : DenotesIndex s n) :
    MissesPosition p i s size f ↔ f = ⟨.indexOutOfBounds, p, i, none⟩ ∧ size ≤ n := by
  constructor
  · rintro (hnone | ⟨hm, hsize⟩)
    · exact absurd hn (hnone n)
    · exact ⟨rfl, hn.unique hm ▸ hsize⟩
  · rintro ⟨rfl, hsize⟩
    exact .outOfBounds hn hsize

end Segments

namespace Heap

variable {σ : Schema} {h h' : Heap} {keys : Option Deserializer} {p q : Path} {i : Int} {s : Segment}
  {c x : Value} {f : Failure} {n : Nat}

/-! ## Indices of a path -/

theorem indexAt_of_not_denotes (hs : p.segment i = .ok s) (hparse : parseIndex s = .ok none) :
    indexAt p i = .fail ⟨.indexExpected, p, i, none⟩ := by
  have hindex : (p.segment i >>= parseIndex) = .ok none := by rw [hs]; exact hparse
  rw [indexAt, hindex, Outcome.ofExcept, Outcome.done_bind]
  exact failAt_of_segment hs _ _

/-- Whether a container says how many members a run through it gives. -/
def SaysLength (h : Heap) (c : Value) : Prop := h.length c = .ok (h.members c).length

theorem ne_scalar_of_isIndexed (hc : (h.classify c).isIndexed = true) (s : Scalar) :
    c ≠ .scalar s := by
  rintro rfl
  cases hc

/-! ## Reading -/

/-- A member of a container as a step reads it: an element of an array as a value of its own. -/
def asRead (h : Heap) (c v : Value) : Value :=
  if h.classify c = .sequence then v else plainElement v

theorem step_of_isIndexed (hc : (h.classify c).isIndexed = true) :
    h.step σ keys c p i = h.memberAt c p i >>= fun v => .done (h.asRead c v) := by
  rw [step]
  cases hkind : h.classify c with
  | sequence =>
    rw [stepInto]
    cases h.memberAt c p i with
    | done v => simp only [asRead, hkind]; rfl
    | fail | escape => rfl
  | array | primitiveArray =>
    rw [stepInto]
    cases h.memberAt c p i with
    | done v => simp only [asRead, hkind]; rfl
    | fail | escape => rfl
  | mapping | object =>
    rw [hkind] at hc
    cases hc

theorem memberAt_of_index (hc : (h.classify c).isIndexed = true) (hlen : h.SaysLength c)
    (hs : p.segment i = .ok s) (hparse : parseIndex s = .ok (some n)) :
    h.memberAt c p i = match (h.members c)[n]? with
      | some v => .done v
      | none => .fail ⟨.indexOutOfBounds, p, i, none⟩ := by
  rw [memberAt, (indexAt_eq_done hs).2 hparse, Outcome.done_bind, hlen, Outcome.ofExcept,
    Outcome.done_bind]
  by_cases hn : n < (h.members c).length
  · rw [if_pos hn, if_pos hn, interruption?_eq_none_of_lt hn,
      member?_eq_getElem? (ne_scalar_of_isIndexed hc) hlen hn, List.getElem?_eq_getElem hn]
    rfl
  · rw [if_neg hn, if_neg hn, List.getElem?_eq_none (Nat.not_lt.1 hn)]
    exact failAt_of_segment hs _ _

/-- A step reads the member at the position that its segment denotes. -/
theorem step_eq_done_of_isIndexed (hc : (h.classify c).isIndexed = true) (hlen : h.SaysLength c)
    (hs : p.segment i = .ok s) (hshort : ShortSegment s) :
    h.step σ keys c p i = .done x ↔
      ∃ n v, DenotesIndex s n ∧ (h.members c)[n]? = some v ∧ x = h.asRead c v := by
  rw [step_of_isIndexed hc]
  rcases parseIndex_of_short hshort with ⟨n, hparse, hn⟩ | ⟨hparse, hnone⟩
  · rw [memberAt_of_index hc hlen hs hparse]
    constructor
    · intro hx
      cases hv : (h.members c)[n]? with
      | none =>
        rw [hv] at hx
        cases hx
      | some v =>
        rw [hv] at hx
        exact ⟨n, v, hn, hv, (Outcome.done.inj hx).symm⟩
    · rintro ⟨m, v, hm, hv, rfl⟩
      rw [hn.unique hm, hv]
      rfl
  · rw [memberAt, indexAt_of_not_denotes hs hparse]
    refine iff_of_false (by rintro ⟨⟩) ?_
    rintro ⟨n, -, hn, -⟩
    exact hnone n hn

/-- A step fails where its segment is no position. -/
theorem step_eq_fail_of_isIndexed (hc : (h.classify c).isIndexed = true) (hlen : h.SaysLength c)
    (hs : p.segment i = .ok s) (hshort : ShortSegment s) :
    h.step σ keys c p i = .fail f ↔ MissesPosition p i s (h.members c).length f := by
  rw [step_of_isIndexed hc]
  rcases parseIndex_of_short hshort with ⟨n, hparse, hn⟩ | ⟨hparse, hnone⟩
  · rw [memberAt_of_index hc hlen hs hparse, missesPosition_iff_of_denotes hn,
      ← List.getElem?_eq_none_iff]
    cases (h.members c)[n]? with
    | none => simp [eq_comm]
    | some v => simp
  · rw [memberAt, indexAt_of_not_denotes hs hparse, missesPosition_iff_of_not_denotes hnone]
    simp [eq_comm]

/-! ## Writing -/

theorem lastMember_eq_done_of_isIndexed (hlen : h.SaysLength c) (hs : p.segment p.lastIndex = .ok s)
    (hshort : ShortSegment s) :
    h.lastMember c p = .done n ↔ DenotesIndex s n ∧ n < (h.members c).length := by
  have hlt : (∃ size, h.length c = .ok size ∧ n < size) ↔ n < (h.members c).length := by
    rw [hlen]
    simp
  rw [lastMember_eq_done hs, hlt]
  exact and_congr_left fun _ => ⟨denotesIndex_of_parseIndex, parseIndex_of_denotes hshort⟩

/-- An assignment looks for the position of the last segment as a step does. -/
theorem lastMember_eq_fail (hlen : h.SaysLength c) (hs : p.segment p.lastIndex = .ok s)
    (hshort : ShortSegment s) :
    h.lastMember c p = .fail f ↔ MissesPosition p p.lastIndex s (h.members c).length f := by
  rw [lastMember]
  rcases parseIndex_of_short hshort with ⟨n, hparse, hn⟩ | ⟨hparse, hnone⟩
  · rw [(indexAt_eq_done hs).2 hparse, missesPosition_iff_of_denotes hn, Outcome.done_bind, hlen,
      Outcome.ofExcept, Outcome.done_bind, failAt_of_segment hs]
    by_cases hlt : n < (h.members c).length
    · rw [if_pos hlt]
      refine iff_of_false (by rintro ⟨⟩) ?_
      rintro ⟨-, hle⟩
      exact Nat.not_lt.2 hle hlt
    · rw [if_neg hlt]
      simp [eq_comm, Nat.not_lt.1 hlt]
  · rw [indexAt_of_not_denotes hs hparse, missesPosition_iff_of_not_denotes hnone]
    simp [eq_comm]

/-- Whether a failure is that of a segment that is no position. -/
def IsMissed (f : Failure) : Prop := f.code = .indexExpected ∨ f.code = .indexOutOfBounds

theorem not_isMissed_of_failAt {α : Type} (hs : p.segment i = .ok s) {problem : Problem}
    {cause : Option FaultKind} (hf : (failAt problem p i cause : Outcome α) = .fail f)
    (hcode : problem.code = .notModifiable ∨ problem.code = .typeMismatch) : ¬ IsMissed f := by
  rw [eq_of_failAt hs hf]
  rintro (hmissed | hmissed)
  all_goals
    replace hmissed : problem.code = _ := hmissed
    rw [hmissed] at hcode
    rcases hcode with hcode | hcode <;> cases hcode

/-- What is done at the position for an accepted value does not miss it. -/
theorem put_eq_bind (σ : Schema) (keys : Option Deserializer)
    (hc : (h.classify c).isIndexed = true) (hs : p.segment p.lastIndex = .ok s)
    (htakes : h.takes c x = true) :
    ∃ g : Nat → Outcome Heap, h.put σ keys c p x = h.lastMember c p >>= g ∧
      ∀ n f, g n = .fail f → ¬ IsMissed f := by
  rw [put]
  cases hkind : h.classify c with
  | sequence =>
    refine ⟨_, rfl, fun n f hf => ?_⟩
    unfold accepted at hf
    split at hf
    · cases hf
    · split at hf
      · exact not_isMissed_of_failAt hs hf (.inl rfl)
      · cases hf
  | array =>
    rw [putInto, putElement, if_neg (by simp [htakes])]
    refine ⟨_, rfl, fun n f hf => ?_⟩
    split at hf
    · exact not_isMissed_of_failAt hs hf (.inl rfl)
    · split at hf
      · cases hf
      · split at hf
        · exact not_isMissed_of_failAt hs hf (.inr rfl)
        · cases hf
  | primitiveArray =>
    refine ⟨_, rfl, fun n f hf => ?_⟩
    split at hf
    · exact not_isMissed_of_failAt hs hf (.inl rfl)
    · split at hf
      · exact not_isMissed_of_failAt hs hf (.inr rfl)
      · split at hf
        · cases hf
        · split at hf
          · exact not_isMissed_of_failAt hs hf (.inr rfl)
          · cases hf
  | mapping | object =>
    rw [hkind] at hc
    cases hc

/-- An assignment of an accepted value misses a position where its last segment is none. -/
theorem put_eq_fail_of_isIndexed (hc : (h.classify c).isIndexed = true) (hlen : h.SaysLength c)
    (hs : p.segment p.lastIndex = .ok s) (hshort : ShortSegment s) (htakes : h.takes c x = true)
    (hmissed : IsMissed f) :
    h.put σ keys c p x = .fail f ↔ MissesPosition p p.lastIndex s (h.members c).length f := by
  obtain ⟨g, hput, hg⟩ := put_eq_bind σ keys hc hs htakes
  rw [hput, Outcome.bind_eq_fail, or_iff_left, lastMember_eq_fail hlen hs hshort]
  rintro ⟨n, -, hf⟩
  exact hg n f hf hmissed

/-- An assignment that succeeds assigns to the member whose position it has looked for. -/
theorem exists_setItem_of_put (hc : (h.classify c).isIndexed = true)
    (hput : h.put σ keys c p x = .done h') :
    ∃ n, h.lastMember c p = .done n ∧ h.setItem c n x = .ok h' := by
  rw [put] at hput
  cases hkind : h.classify c with
  | sequence =>
    rw [hkind] at hput
    exact putMember_eq_done hput
  | array =>
    rw [hkind] at hput
    exact putElement_eq_done hput
  | primitiveArray =>
    rw [hkind] at hput
    exact putMachine_eq_done hput
  | mapping | object =>
    rw [hkind] at hc
    cases hc

/-! ## Positions -/

/-- Whether the last segment of a path is a position of a container: a step reads the member there,
and an assignment looks for it.  One that succeeds has assigned to this member, and left all others. -/
structure Addresses (σ : Schema) (h : Heap) (keys : Option Deserializer) (c : Value) (p : Path)
    (n : Nat) : Prop where
  reads : ∃ v, (h.members c)[n]? = some v ∧ h.step σ keys c p p.lastIndex = .done (h.asRead c v)
  writes : h.lastMember c p = .done n
  changes : ∀ x h', h.put σ keys c p x = .done h' →
    h.setItem c n x = .ok h' ∧ ∀ m, m ≠ n → h'.member? c m = h.member? c m

theorem addresses_iff (hc : (h.classify c).isIndexed = true) (hlen : h.SaysLength c)
    (hs : p.segment p.lastIndex = .ok s) (hshort : ShortSegment s) :
    h.Addresses σ keys c p n ↔ DenotesIndex s n ∧ n < (h.members c).length := by
  rw [← lastMember_eq_done_of_isIndexed hlen hs hshort]
  refine ⟨Addresses.writes, fun hn => ?_⟩
  obtain ⟨hdenotes, hlt⟩ := (lastMember_eq_done_of_isIndexed hlen hs hshort).1 hn
  have hv := List.getElem?_eq_getElem hlt
  refine ⟨⟨_, hv, (step_eq_done_of_isIndexed hc hlen hs hshort).2 ⟨n, _, hdenotes, hv, rfl⟩⟩, hn,
    fun x h' hput => ?_⟩
  obtain ⟨m, hm, hset⟩ := exists_setItem_of_put hc hput
  cases hn.symm.trans hm
  exact ⟨hset, fun m hne => member?_of_setItem hlen hlt hset hne⟩

/-- Readers and writers of sequences and arrays keep one rule.  A step reads the member whose
position the segment denotes in decimal digits; there are two ways to miss, and an assignment of a
value that the container takes misses exactly where a step does.  So every member has the segment
that shows its position, and two segments are one position exactly if they denote the same
number. -/
theorem positions_agree (hc : (h.classify c).isIndexed = true) (hlen : h.SaysLength c) :
    (∀ p i s, p.segment i = .ok s → ShortSegment s →
      (∀ x, h.step σ keys c p i = .done x ↔
        ∃ n v, DenotesIndex s n ∧ (h.members c)[n]? = some v ∧ x = h.asRead c v) ∧
      ∀ f, h.step σ keys c p i = .fail f ↔ MissesPosition p i s (h.members c).length f) ∧
    (∀ p s x f, p.segment p.lastIndex = .ok s → ShortSegment s → h.takes c x = true →
      IsMissed f →
      (h.put σ keys c p x = .fail f ↔ h.step σ keys c p p.lastIndex = .fail f)) ∧
    (∀ p n, p.segment p.lastIndex = .ok (some (toString n)) → ShortSegment (some (toString n)) →
      n < (h.members c).length → h.Addresses σ keys c p n) ∧
    ∀ p q s t, p.segment p.lastIndex = .ok s → q.segment q.lastIndex = .ok t → ShortSegment s →
      ShortSegment t →
      ((∃ n, h.Addresses σ keys c p n ∧ h.Addresses σ keys c q n) ↔
        ∃ n, DenotesIndex s n ∧ DenotesIndex t n ∧ n < (h.members c).length) := by
  refine ⟨fun p i s hs hshort => ⟨fun x => step_eq_done_of_isIndexed hc hlen hs hshort,
    fun f => step_eq_fail_of_isIndexed hc hlen hs hshort⟩, ?_, ?_, ?_⟩
  · intro p s x f hs hshort htakes hmissed
    rw [put_eq_fail_of_isIndexed hc hlen hs hshort htakes hmissed,
      step_eq_fail_of_isIndexed hc hlen hs hshort]
  · intro p n hs hshort hn
    exact (addresses_iff hc hlen hs hshort).2 ⟨denotesIndex_toString n, hn⟩
  · intro p q s t hs ht hshort hshort'
    refine exists_congr fun n => ?_
    rw [addresses_iff hc hlen hs hshort, addresses_iff hc hlen ht hshort', ← and_and_right,
      and_assoc]

/-- Three integers of two bytes. -/
def shortRow : Heap :=
  ⟨#[.grid ⟨"<i2", .signed, 2⟩ [3] [.scalar (.int 10), .scalar (.int 20), .scalar (.int 30)] true]⟩

/-- The third integer is read at a segment with leading zeros.  There is no fourth one to be read or
written.  The second one has its place under two segments. -/
theorem positions_agree_shortRow :
    (shortRow.classify (.ref 0)).isIndexed = true ∧ shortRow.SaysLength (.ref 0) ∧
      shortRow.step {} none (.ref 0) (Path.parse "002") 0 = .done (.scalar (.int 30)) ∧
      shortRow.put {} none (.ref 0) (Path.parse "3") (.scalar (.int 40)) =
        .fail ⟨.indexOutOfBounds, Path.parse "3", 0, none⟩ ∧
      shortRow.Addresses {} none (.ref 0) (Path.parse "1") 1 ∧
      ∃ n, shortRow.Addresses {} none (.ref 0) (Path.parse "1") n ∧
        shortRow.Addresses {} none (.ref 0) (Path.parse "01") n := by
  have hkind : (shortRow.classify (.ref 0)).isIndexed = true := by decide
  have hlen : shortRow.SaysLength (.ref 0) := rfl
  have hshort {t : String} (ht : t.length ≤ maxDigits) : ShortSegment (some t) := by
    rintro u ⟨⟩
    exact ht
  have hzeros : DenotesIndex (some "002") 2 ∧ DenotesIndex (some "01") 1 :=
    ⟨⟨_, rfl, by decide, isDigitRow_iff.2 (by decide +kernel), by decide +kernel⟩,
      ⟨_, rfl, by decide, isDigitRow_iff.2 (by decide +kernel), by decide +kernel⟩⟩
  obtain ⟨hreads, hwrites, hshown, hsame⟩ :=
    @positions_agree {} shortRow none (.ref 0) hkind hlen
  refine ⟨hkind, hlen, ?_, ?_, ?_, ?_⟩
  · exact ((hreads (Path.parse "002") 0 (some "002") (by cbv) (hshort (by decide +kernel))).1 _).2
      ⟨2, .scalar (.int 30), hzeros.1, rfl, rfl⟩
  · refine (hwrites (Path.parse "3") (some "3") _ _ (by cbv) (hshort (by decide +kernel))
      (by decide +kernel) (.inr rfl)).2 ?_
    exact ((hreads (Path.parse "3") 0 (some "3") (by cbv) (hshort (by decide +kernel))).2 _).2
      (.outOfBounds (denotesIndex_toString 3) (by decide))
  · exact hshown (Path.parse "1") 1 (by cbv) (hshort (by decide +kernel)) (by decide)
  · exact (hsame (Path.parse "1") (Path.parse "01") (some "1") (some "01") (by cbv) (by cbv)
      (hshort (by decide +kernel)) (hshort (by decide +kernel))).2
        ⟨1, denotesIndex_toString 1, hzeros.2, by decide⟩

end Heap

end Dotpath

import Dotpath.Graph.Entries

/-!
# Dictionaries under simple keys

On null, texts and integers, equality of keys is plain equality: a stored key equals at most one of
them (`eq_of_equal_of_equal`).  So an assignment under a simple key is found under this key and seen
under no other (`find?_put_self`, `find?_put_of_ne`), whatever keys the dictionary holds.

A stored key may be of another type than the simple key that finds it: `Value.Matches` says which
stored keys these are.  Where the keys of a dictionary differ (`Entries.Distinct`), at most one of
them is found (`find?_eq_some_iff`).
-/

namespace Dotpath

/-- Whether a value is null, a text or an integer. -/
def Value.isSimpleKey : Value → Bool
  | .scalar .null | .scalar (.text _) | .scalar (.int _) => true
  | _ => false

theorem Value.isSimpleKey_iff {k : Value} : k.isSimpleKey = true ↔
    (∃ s, (s = .null ∨ ∃ t, s = .text t) ∧ k = .scalar s) ∨ ∃ n, k = .scalar (.int n) := by
  constructor
  · intro h
    unfold isSimpleKey at h
    split at h
    · exact .inl ⟨_, .inl rfl, rfl⟩
    · exact .inl ⟨_, .inr ⟨_, rfl⟩, rfl⟩
    · exact .inr ⟨_, rfl⟩
    · exact absurd h (by decide)
  · rintro (⟨s, rfl | ⟨t, rfl⟩, rfl⟩ | ⟨n, rfl⟩) <;> rfl

/-! ## Equality with a simple key -/

theorem Scalar.equal_of_isText {s t : Scalar} (ht : t = .null ∨ ∃ u, t = .text u)
    (h : s.equal t = true) : s.quantity? = none ∧ s.plain = t := by
  unfold equal at h
  cases hq : s.quantity? with
  | some q => rcases ht with rfl | ⟨u, rfl⟩ <;> simp [hq, quantity?] at h
  | none => rcases ht with rfl | ⟨u, rfl⟩ <;> cases hp : s.plain <;> simp_all [quantity?, plain]

theorem Value.equal_self {k : Value} (hk : k.isSimpleKey = true) : k.equal k = true := by
  rw [isSimpleKey_iff] at hk
  rcases hk with ⟨s, rfl | ⟨t, rfl⟩, rfl⟩ | ⟨n, rfl⟩ <;>
    simp [equal, Scalar.equal, Scalar.quantity?, Scalar.plain]

/-! ## Matching keys -/

/-- Whether a stored key is the one that a simple key stands for.  Null and a text stand for
themselves, an integer for the numbers of this quantity, whatever their type. -/
inductive Value.Matches : Value → Value → Prop
  | null {s : Scalar} (hs : s.plain = .null) : Matches (.scalar s) (.scalar .null)
  | text {s : Scalar} {t : String} (hs : s.plain = .text t) :
    Matches (.scalar s) (.scalar (.text t))
  | int {s : Scalar} {n : Int} (hs : s.quantity? = some (.ratio n 1, .ratio 0 1)) :
    Matches (.scalar s) (.scalar (.int n))

section Scalars

variable {s s' u : Scalar}

theorem Scalar.quantity?_of_plain (hu : u = .null ∨ ∃ t, u = .text t) (hs : s.plain = u) :
    s.quantity? = none := by
  cases s <;> rcases hu with rfl | ⟨t, rfl⟩ <;> simp_all [plain, quantity?]

theorem Scalar.quantity?_of_equal (h : s.equal s' = true) : s.quantity? = s'.quantity? := by
  unfold equal at h
  split at h
  · next hs hs' =>
    simp only [Bool.and_eq_true, beq_iff_eq] at h
    rw [hs, hs', h.1.1.1, h.1.1.2]
  · next hs hs' => rw [hs, hs']
  · cases h

/-- A text, or null, equals nothing but itself. -/
theorem Scalar.plain_eq_iff_of_equal (hu : u = .null ∨ ∃ t, u = .text t)
    (h : s.equal s' = true) : s.plain = u ↔ s'.plain = u := by
  have hq := quantity?_of_equal h
  cases hs : s.quantity? with
  | some q =>
    refine ⟨fun hp => ?_, fun hp => ?_⟩
    · rw [quantity?_of_plain hu hp] at hs
      cases hs
    · rw [hs, quantity?_of_plain hu hp] at hq
      cases hq
  | none =>
    rw [equal, ← hq, hs] at h
    dsimp only at h
    split at h
    · next hp hp' => rcases hu with rfl | ⟨t, rfl⟩ <;> simp [hp, hp']
    · next hp hp' => rcases hu with rfl | ⟨t, rfl⟩ <;> simp [hp, hp']
    · next hp hp' => rcases hu with rfl | ⟨t, rfl⟩ <;> simp [hp, hp']
    · rw [beq_iff_eq.1 h]

theorem Scalar.equal_of_plain_eq (hu : u = .null ∨ ∃ t, u = .text t) (hs : s.plain = u)
    (hs' : s'.plain = u) : s.equal s' = true := by
  rw [equal, quantity?_of_plain hu hs, quantity?_of_plain hu hs', hs, hs']
  rcases hu with rfl | ⟨t, rfl⟩ <;> simp

end Scalars

namespace Value

variable {c e k k' : Value}

theorem equal_iff_matches (hk : k.isSimpleKey = true) : c.equal k = true ↔ c.Matches k := by
  constructor
  · intro h
    rcases isSimpleKey_iff.1 hk with ⟨t, ht, rfl⟩ | ⟨n, rfl⟩
    · obtain ⟨s, rfl⟩ : ∃ s, c = .scalar s := by cases c <;> simp [equal] at h ⊢
      rw [equal] at h
      have hs : s.plain = t := (Scalar.equal_of_isText ht h).2
      rcases ht with rfl | ⟨t, rfl⟩
      · exact .null hs
      · exact .text hs
    · obtain ⟨s, rfl⟩ : ∃ s, c = .scalar s := by cases c <;> simp [equal] at h ⊢
      rw [equal] at h
      exact .int (Scalar.quantity?_of_equal h)
  · rintro (hs | hs | hs)
    · exact Scalar.equal_of_plain_eq (.inl rfl) hs rfl
    · exact Scalar.equal_of_plain_eq (.inr ⟨_, rfl⟩) hs rfl
    · simp [equal, Scalar.equal, hs, Scalar.quantity?]

/-- Two stored keys that one simple key stands for are equal. -/
theorem equal_of_matches (he : e.Matches k) (hc : c.Matches k) : e.equal c = true := by
  cases he with
  | null hs =>
    obtain hs' | - | - := hc
    exact Scalar.equal_of_plain_eq (.inl rfl) hs hs'
  | text hs =>
    obtain - | hs' | - := hc
    exact Scalar.equal_of_plain_eq (.inr ⟨_, rfl⟩) hs hs'
  | int hs =>
    obtain - | - | hs' := hc
    simp [equal, Scalar.equal, hs, hs']

theorem Matches.exists_scalar (hc : c.Matches k) : ∃ s, c = .scalar s := by
  cases hc <;> exact ⟨_, rfl⟩

theorem Matches.congr {s s' : Scalar} (hs : (Value.scalar s).Matches k)
    (hq : s.quantity? = s'.quantity?)
    (hplain : ∀ {u : Scalar}, (u = .null ∨ ∃ t, u = .text t) → s.plain = u → s'.plain = u) :
    (Value.scalar s').Matches k := by
  cases hs with
  | null hs => exact .null (hplain (.inl rfl) hs)
  | text hs => exact .text (hplain (.inr ⟨_, rfl⟩) hs)
  | int hs => exact .int (hq.symm.trans hs)

/-- A stored key is the one of at most one simple key. -/
theorem Matches.unique (hk : e.Matches k) (hk' : e.Matches k') : k = k' := by
  cases hk with
  | null hs =>
    obtain - | hs' | hs' := hk'
    · rfl
    · cases hs.symm.trans hs'
    · cases (Scalar.quantity?_of_plain (.inl rfl) hs).symm.trans hs'
  | text hs =>
    obtain hs' | hs' | hs' := hk'
    · cases hs.symm.trans hs'
    · cases hs.symm.trans hs'
      rfl
    · cases (Scalar.quantity?_of_plain (.inr ⟨_, rfl⟩) hs).symm.trans hs'
  | int hs =>
    obtain hs' | hs' | hs' := hk'
    · cases (Scalar.quantity?_of_plain (.inl rfl) hs').symm.trans hs
    · cases (Scalar.quantity?_of_plain (.inr ⟨_, rfl⟩) hs').symm.trans hs
    · cases hs.symm.trans hs'
      rfl

/-- A value equals at most one simple key. -/
theorem eq_of_equal_of_equal (hk : k.isSimpleKey = true) (hk' : k'.isSimpleKey = true)
    (h : e.equal k = true) (h' : e.equal k' = true) : k = k' :=
  ((equal_iff_matches hk).1 h).unique ((equal_iff_matches hk').1 h')

/-- Equal stored keys are alike to every simple key. -/
theorem matches_iff_of_equal (h : e.equal c = true) : e.Matches k ↔ c.Matches k := by
  constructor
  · intro he
    obtain ⟨s, rfl⟩ := he.exists_scalar
    obtain ⟨s', rfl⟩ : ∃ s', c = .scalar s' := by cases c <;> simp [equal] at h ⊢
    rw [equal] at h
    exact he.congr (Scalar.quantity?_of_equal h) fun hu => (Scalar.plain_eq_iff_of_equal hu h).1
  · intro hc
    obtain ⟨s', rfl⟩ := hc.exists_scalar
    obtain ⟨s, rfl⟩ : ∃ s, e = .scalar s := by cases e <;> simp [equal] at h ⊢
    rw [equal] at h
    exact hc.congr (Scalar.quantity?_of_equal h).symm
      fun hu => (Scalar.plain_eq_iff_of_equal hu h).2

end Value

/-! ## Assignments -/

/-- Whether the keys of pairs differ. -/
def Entries.Distinct (es : Entries) : Prop := es.keys.Pairwise fun k l => k.equal l = false

namespace Entries

variable {es : Entries} {k k' v w : Value}

theorem find?_cons (e : Value × Value) (es : Entries) (k : Value) :
    find? (e :: es) k = if e.1.equal k then some e.2 else find? es k := by
  cases h : e.1.equal k <;> simp [find?, h]

/-- An assignment under any key is found under the simple keys that this key stands for. -/
theorem find?_put (hk : k.isSimpleKey = true) (es : Entries) (c v : Value) :
    find? (put es c v) k = if c.equal k then some v else find? es k := by
  induction es with
  | nil => rw [put, find?_cons]
  | cons e es ih =>
    rw [put]
    split
    · next he =>
      have hek : e.1.equal k = c.equal k := Bool.eq_iff_iff.2 <| by
        rw [Value.equal_iff_matches hk, Value.equal_iff_matches hk, Value.matches_iff_of_equal he]
      rw [find?_cons, find?_cons, hek]
      split <;> rfl
    · next he =>
      rw [find?_cons, find?_cons, ih]
      -- An unequal stored key is not found together with the assigned one.
      by_cases hek : e.1.equal k = true
      · have hck : ¬ c.equal k = true := fun hck => he <| Value.equal_of_matches
          ((Value.equal_iff_matches hk).1 hek) ((Value.equal_iff_matches hk).1 hck)
        rw [if_pos hek, if_neg hck, if_pos hek]
      · rw [if_neg hek, if_neg hek]

/-- What is assigned under a simple key is found under it. -/
theorem find?_put_self (es : Entries) {k : Value} (hk : k.isSimpleKey = true) (v : Value) :
    find? (put es k v) k = some v := by
  rw [find?_put hk, if_pos (Value.equal_self hk)]

/-- An assignment under a simple key is not seen under another one. -/
theorem find?_put_of_ne (es : Entries) {k k' : Value} (hk : k.isSimpleKey = true)
    (hk' : k'.isSimpleKey = true) (hne : k ≠ k') (v : Value) :
    find? (put es k v) k' = find? es k' := by
  have hkk' : ¬ k.equal k' = true := fun h =>
    hne (Value.eq_of_equal_of_equal hk hk' (Value.equal_self hk) h)
  rw [find?_put hk', if_neg hkk']

theorem find?_eq_none_iff (hk : k.isSimpleKey = true) :
    find? es k = none ↔ ∀ e ∈ es, ¬ e.1.Matches k := by
  rw [find?, Option.map_eq_none_iff, List.find?_eq_none]
  simp only [Value.equal_iff_matches hk]

/-- Where keys differ, each is found in one place. -/
theorem find?_eq_some_iff (hes : es.Distinct) (hk : k.isSimpleKey = true) :
    find? es k = some w ↔ ∃ c, (c, w) ∈ es ∧ c.Matches k := by
  induction es with
  | nil => simp [find?]
  | cons e es ih =>
    obtain ⟨hhead, hes⟩ := List.pairwise_cons.1 hes
    rw [find?_cons]
    by_cases hek : e.1.equal k = true
    · rw [if_pos hek]
      have hek' := (Value.equal_iff_matches hk).1 hek
      constructor
      · rintro ⟨⟩
        exact ⟨e.1, List.mem_cons_self, hek'⟩
      · rintro ⟨c, hc, hck⟩
        rcases List.mem_cons.1 hc with rfl | hc
        · rfl
        · have hne := hhead c (List.mem_map_of_mem hc)
          rw [Value.equal_of_matches hek' hck] at hne
          cases hne
    · rw [if_neg hek, ih hes]
      refine exists_congr fun c => and_congr_left fun hck => ?_
      rw [List.mem_cons, or_iff_right]
      rintro rfl
      exact hek ((Value.equal_iff_matches hk).2 hck)

theorem keys_put (es : Entries) (k v : Value) : keys (put es k v) = keys es ∨
    keys (put es k v) = keys es ++ [k] ∧ ∀ l ∈ keys es, l.equal k = false := by
  induction es with
  | nil => exact .inr ⟨rfl, fun l hl => absurd hl List.not_mem_nil⟩
  | cons e es ih =>
    rw [put]
    split
    · exact .inl rfl
    · next he =>
      rcases ih with ih | ⟨ih, hnew⟩
      · exact .inl (congrArg (e.1 :: ·) ih)
      · exact .inr ⟨congrArg (e.1 :: ·) ih, List.forall_mem_cons.2 ⟨Bool.eq_false_iff.2 he, hnew⟩⟩

/-- Keys stay different when one is added that none equals. -/
theorem Distinct.of_keys {es' : Entries} {k : Value} (hes : es.Distinct)
    (hkeys : keys es' = keys es ∨ keys es' = keys es ++ [k] ∧ ∀ l ∈ keys es, l.equal k = false) :
    es'.Distinct := by
  rw [Distinct]
  rcases hkeys with hkeys | ⟨hkeys, hnew⟩
  · rwa [hkeys]
  · rw [hkeys, List.pairwise_append]
    refine ⟨hes, List.pairwise_singleton _ k, fun l hl l' hl' => ?_⟩
    rw [List.mem_singleton.1 hl']
    exact hnew l hl

theorem Distinct.put (hes : es.Distinct) (k v : Value) : Distinct (put es k v) :=
  hes.of_keys (keys_put es k v)

end Entries

end Dotpath

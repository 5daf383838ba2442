import Dotpath.Graph.Heap

/-!
# Mapping keys

Equality of keys, and dictionaries as lists of pairs whose keys are pairwise different.  A look-up
finds the stored key that equals the wanted one; an assignment keeps a stored key and its place, or
appends a new pair at the end.  A wrapper has the pairs of what it stands over (`Heap.entries`).
-/

namespace Dotpath

/-- The member of a range at a position. -/
def rangeItem (start step : Int) (i : Nat) : Int := start + i * step

/-- The number of members of a range. -/
def rangeSize (start stop step : Int) : Nat :=
  if step > 0 then ((stop - start + step - 1).fdiv step).toNat
  else if step < 0 then ((start - stop - step - 1).fdiv (-step)).toNat
  else 0

/-- Whether two ranges have the same members in the same order. -/
def rangesEqual (r r' : Int × Int × Int) : Bool :=
  let n := rangeSize r.1 r.2.1 r.2.2
  n == rangeSize r'.1 r'.2.1 r'.2.2 && (n == 0 || r.1 == r'.1 && (n == 1 || r.2.2 == r'.2.2))

mutual

/-- Whether two values are one mapping key: numbers by quantity, tuples by their members, and
containers that can change only when they are the same container. -/
def Value.equal : Value → Value → Bool
  | .scalar a, .scalar b => a.equal b
  | .tuple as, .tuple bs => equalItems as bs
  | .tuple as, .named _ _ bs => equalItems as bs
  | .named _ _ as, .tuple bs => equalItems as bs
  | .named _ _ as, .named _ _ bs => equalItems as bs
  | .frozenSet as, .frozenSet bs => as.length == bs.length && equalMembers as bs
  | .range a b c, .range a' b' c' => rangesEqual (a, b, c) (a', b', c')
  | .ref a, .ref b => a == b
  | .row a o s, .row a' o' s' => a == a' && o == o' && s == s'
  | _, _ => false

/-- Whether two lists agree member by member. -/
def equalItems : List Value → List Value → Bool
  | [], [] => true
  | a :: as, b :: bs => a.equal b && equalItems as bs
  | _, _ => false

/-- Whether every member of the first list equals some member of the second. -/
def equalMembers : List Value → List Value → Bool
  | [], _ => true
  | a :: as, bs => bs.any (fun b => a.equal b) && equalMembers as bs

end

namespace Entries

/-- The value stored under a key. -/
def find? (es : Entries) (k : Value) : Option Value :=
  (List.find? (fun e => e.1.equal k) es).map (·.2)

/-- Whether a key is stored. -/
def contains (es : Entries) (k : Value) : Bool := es.any fun e => e.1.equal k

/-- The pairs with a value assigned to a key. -/
def put : Entries → Value → Value → Entries
  | [], k, v => [(k, v)]
  | e :: es, k, v => if e.1.equal k then (e.1, v) :: es else e :: put es k v

/-- The pairs of a list, where a later pair replaces the value of an earlier one. -/
def ofList (pairs : List (Value × Value)) : Entries := pairs.foldl (fun es e => put es e.1 e.2) []

/-- The stored keys. -/
def keys (es : Entries) : List Value := es.map (·.1)

/-- The stored values. -/
def values (es : Entries) : List Value := es.map (·.2)

/-- The pairs of several mappings, where the first that has a key decides its value. -/
def chained (parts : List Entries) : Entries := ofList parts.reverse.flatten

end Entries

namespace Heap

/-- The pairs of the mapping at an address, through at most so many wrappers. -/
def entriesWith (h : Heap) : (fuel : Nat) → Address → Entries
  | 0, _ => []
  | fuel + 1, a =>
    match h.get? a with
    | some (.dict _ es) => es
    | some (.proxy d) | some (.userMap d _ _) | some (.seqMap d) => entriesWith h fuel d
    | some (.chain ds) => Entries.chained (ds.map (entriesWith h fuel))
    | _ => []

/-- The pairs of the mapping at an address. -/
def entries (h : Heap) (a : Address) : Entries := h.entriesWith h.nodes.size a

theorem entries_of_dict {h : Heap} {a : Address} {type : DictType} {es : Entries}
    (ha : h.get? a = some (.dict type es)) : h.entries a = es := by
  have hsize : a < h.nodes.size := (Array.getElem?_eq_some_iff.1 ha).1
  obtain ⟨fuel, hfuel⟩ := Nat.exists_eq_succ_of_ne_zero (Nat.ne_zero_of_lt hsize)
  rw [entries, hfuel, entriesWith, ha]

end Heap

end Dotpath

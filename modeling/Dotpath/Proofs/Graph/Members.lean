import Dotpath.Proofs.Graph.Difference
import Mathlib.Data.List.Basic

/-!
# Members in order

A container with indices is run through from its start, or asked for the member at a position.
Where it says the length that it has, the two agree (`member?_eq_getElem?`), and an assignment at a
position leaves the members at all others (`member?_of_setItem`).
-/

namespace Dotpath

/-- A list of the results of a function, none of which is missing, has them in their places. -/
theorem getElem?_filterMap_range {f : Nat → Option Value} {n : Nat}
    (hlen : ((List.range n).filterMap f).length = n) (hout : ∀ i, n ≤ i → f i = none) (i : Nat) :
    ((List.range n).filterMap f)[i]? = f i := by
  have hsome : ∀ j ∈ List.range n, (f j).isSome = true :=
    List.filterMap_length_eq_length.1 (hlen.trans List.length_range.symm)
  have hmap : (List.range n).filterMap f = (List.range n).map fun j => (f j).getD default := by
    rw [List.filterMap_eq_map_iff_forall_eq_some]
    intro j hj
    obtain ⟨v, hv⟩ := Option.isSome_iff_exists.1 (hsome j hj)
    rw [hv, Option.getD_some]
  rw [hmap, List.getElem?_map]
  by_cases hi : i < n
  · obtain ⟨v, hv⟩ := Option.isSome_iff_exists.1 (hsome i (List.mem_range.2 hi))
    rw [List.getElem?_range hi, Option.map_some, hv, Option.getD_some]
  · rw [List.getElem?_eq_none (by simpa using hi), hout i (Nat.not_lt.1 hi)]
    rfl

theorem gridMember_of_le {n i : Nat} (hi : n ≤ i) (a : Address) (offset : Nat) (shape : List Nat)
    (cells : List Value) : gridMember a offset (n :: shape) cells i = none := by
  cases shape with
  | nil | cons => exact if_neg (Nat.not_lt.2 hi)

theorem gridMember_eq_getElem? {a : Address} {offset n : Nat} {shape : List Nat}
    {cells : List Value} (hlen : (gridMembers a offset (n :: shape) cells).length = n) (i : Nat) :
    gridMember a offset (n :: shape) cells i = (gridMembers a offset (n :: shape) cells)[i]? :=
  (getElem?_filterMap_range hlen (fun _ hj => gridMember_of_le hj a offset shape cells) i).symm

/-- An array of one dimension with all its members has a cell for each. -/
theorem le_length_of_gridMembers {a : Address} {offset n : Nat} {cells : List Value}
    (hlen : (gridMembers a offset [n] cells).length = n) (hn : 0 < n) :
    offset + n ≤ cells.length := by
  have hlast : ∃ x, gridMember a offset [n] cells (n - 1) = some x := by
    rw [gridMember_eq_getElem? hlen]
    exact ⟨_, List.getElem?_eq_getElem (by omega)⟩
  rw [gridMember, if_pos (by omega)] at hlast
  obtain ⟨x, hx⟩ := hlast
  obtain ⟨hlt, -⟩ := List.getElem?_eq_some_iff.1 hx
  omega

namespace Heap

variable {h h' : Heap} {c v : Value} {n m : Nat}

/-- What a run through a container from its start gives, as far as nothing keeps it from going on. -/
def members (h : Heap) : Value → List Value
  | .range start stop step =>
    (List.range (rangeSize start stop step)).map fun i => .scalar (.int (rangeItem start step i))
  | .tuple items | .named _ _ items | .frozenSet items => items
  | .row a offset shape => gridMembers a offset shape (h.gridCells a)
  | .ref a => match h.get? a with
    | some (.userSeq items _ _ (some (n, _))) => items.take n
    | some n => h.nodeMembers a n
    | none => []
  | .scalar _ => []

theorem interruption?_eq_none_of_lt (hn : n < (h.members c).length) :
    h.interruption? c n = none := by
  cases c with
  | ref a =>
    rw [members] at hn
    rw [interruption?]
    split
    · next items _ _ k f hget =>
      rw [hget] at hn
      dsimp only at hn
      rw [List.length_take] at hn
      exact if_neg (by simp only [Bool.and_eq_true, decide_eq_true_eq]; omega)
    · rfl
  | _ => rfl

/-- A container that says the length it has is asked for its members by their places. -/
theorem member?_eq_getElem? (hc : ∀ s, c ≠ .scalar s)
    (hlen : h.length c = .ok (h.members c).length) (hn : n < (h.members c).length) :
    h.member? c n = (h.members c)[n]? := by
  cases c with
  | scalar s => exact absurd rfl (hc s)
  | tuple | named | frozenSet => rfl
  | range start stop step =>
    rw [members, List.length_map, List.length_range] at hn
    rw [member?, members, List.getElem?_map, if_pos hn, List.getElem?_range hn]
    rfl
  | row a offset shape =>
    cases shape with
    | nil => cases hlen
    | cons k shape => exact gridMember_eq_getElem? (Except.ok.inj hlen).symm n
  | ref a =>
    rw [length, members] at hlen
    rw [members] at hn
    rw [member?, members]
    cases hget : h.get? a with
    | none =>
      rw [hget] at hlen
      cases hlen
    | some node =>
      rw [hget] at hlen hn
      cases node with
      | grid t shape cells writeable =>
        cases shape with
        | nil => cases hlen
        | cons k shape => exact gridMember_eq_getElem? (Except.ok.inj hlen).symm n
      | userSeq items claimed refusal break? =>
        cases break? with
        | none => rfl
        | some stop =>
          dsimp only at hn
          rw [List.length_take] at hn
          exact (List.getElem?_take_of_lt (by omega)).symm
      | _ => rfl

/-! ## Assignments -/

/-- An array keeps its type and its shape when a member is stored. -/
theorem exists_cells_of_storeMember {a : Address} {offset : Nat} {shape whole : List Nat}
    {t : ElementType} {cells : List Value} {writeable : Bool}
    (hget : h.get? a = some (.grid t whole cells writeable))
    (hset : h.storeMember a offset shape n v = .ok h') :
    ∃ cells', h'.get? a = some (.grid t whole cells' writeable) := by
  rw [storeMember, hget] at hset
  dsimp only at hset
  split at hset
  · cases hset
  · obtain ⟨new, -, hset⟩ := bind_eq_ok.1 hset
    cases hset
    exact ⟨_, get?_set_self _ hget⟩

/-- Storing a member of a part of an array leaves the others. -/
theorem gridMember_of_storeMember {a : Address} {offset : Nat} {shape : List Nat}
    (hlen : (gridMembers a offset shape (h.gridCells a)).length = shape.headD 0)
    (hn : n < shape.headD 0) (hset : h.storeMember a offset shape n v = .ok h') (hm : m ≠ n) :
    gridMember a offset shape (h'.gridCells a) m = gridMember a offset shape (h.gridCells a) m := by
  match shape with
  | [] => cases hn
  | _ :: _ :: _ => rfl
  | [k] =>
    have hle := le_length_of_gridMembers hlen (Nat.zero_lt_of_lt hn)
    have hcells : h.HasCells a offset [k] := by
      intro t whole cells writeable hget
      rw [gridCells, hget] at hle
      rwa [cellCount, cellCount, Nat.mul_one]
    obtain ⟨hchanged, -⟩ := differsIn_of_storeMember hcells hn hset
    rw [gridMember, gridMember]
    unfold storeMember at hset
    split at hset
    · next t whole cells writeable hget =>
      obtain ⟨n', hget', hdiff⟩ := hchanged hget
      cases hdiff with
      | same => rw [gridCells, gridCells, hget, show h'.get? a = _ from hget']
      | grid hagree =>
        rw [gridCells, gridCells, hget, show h'.get? a = _ from hget']
        dsimp only
        rw [hagree.2 _ (by omega)]
    · cases hset

/-- An assignment at a position leaves the members at all others. -/
theorem member?_of_setItem (hlen : h.length c = .ok (h.members c).length)
    (hn : n < (h.members c).length) (hset : h.setItem c n v = .ok h') (hm : m ≠ n) :
    h'.member? c m = h.member? c m := by
  cases c with
  | scalar s => cases s <;> cases hset
  | tuple | named | frozenSet | range => cases hset
  | row a offset shape =>
    cases shape with
    | nil => cases hlen
    | cons k shape =>
      have hsize : k = (gridMembers a offset (k :: shape) (h.gridCells a)).length :=
        Except.ok.inj hlen
      exact gridMember_of_storeMember hsize.symm (Nat.lt_of_lt_of_eq hn hsize.symm) hset hm
  | ref a =>
    rw [setItem] at hset
    split at hset
    · next items hget =>
      split at hset <;> cases hset
      rw [member?, get?_set_self _ hget, member?, hget]
      exact List.getElem?_set_ne (Ne.symm hm)
    · next items hget =>
      split at hset <;> cases hset
      rw [member?, get?_set_self _ hget, member?, hget]
      exact List.getElem?_set_ne (Ne.symm hm)
    · next items claimed refusal break? hget =>
      split at hset
      · cases hset
      split at hset <;> cases hset
      rw [member?, get?_set_self _ hget, member?, hget]
      exact List.getElem?_set_ne (Ne.symm hm)
    · next bs hget =>
      obtain ⟨b, -, hset⟩ := bind_eq_ok.1 hset
      split at hset <;> cases hset
      rw [member?, get?_set_self _ hget, member?, hget]
      simp only [nodeMembers, List.map_set, List.getElem?_set_ne (Ne.symm hm)]
    · next code items hget =>
      obtain ⟨x, -, hset⟩ := bind_eq_ok.1 hset
      split at hset <;> cases hset
      rw [member?, get?_set_self _ hget, member?, hget]
      simp only [nodeMembers, List.map_set, List.getElem?_set_ne (Ne.symm hm)]
    · next t shape cells writeable hget =>
      obtain ⟨cells', hget'⟩ := exists_cells_of_storeMember hget hset
      have hcells : h.gridCells a = cells := by rw [gridCells, hget]
      have hmembers : h.members (.ref a) = gridMembers a 0 shape cells := by
        rw [members, hget]
        rfl
      have hsize : (gridMembers a 0 shape (h.gridCells a)).length = shape.headD 0 := by
        rw [hmembers, length, hget] at hlen
        rw [hcells]
        cases shape with
        | nil => cases hlen
        | cons k inner => exact (Except.ok.inj hlen).symm
      have hlt : n < shape.headD 0 := by rwa [← hsize, hcells, ← hmembers]
      have hkept := gridMember_of_storeMember hsize hlt hset hm
      rw [gridCells, gridCells, hget, hget'] at hkept
      rw [member?, member?, hget, hget']
      exact hkept
    · cases hset

end Heap

end Dotpath

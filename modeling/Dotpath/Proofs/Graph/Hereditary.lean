import Dotpath.Graph.Items
import Dotpath.Proofs.Fault
import Dotpath.Proofs.Schema.Lookup
import Dotpath.Proofs.Schema.Plain

/-!
# Hereditary properties of values

A property of values is hereditary in a heap if it passes from a value to the parts of the value and
to everything that its node holds or shows.  Then it passes to whatever can be taken out of the
value: the members of a sequence (`Hereditary.member?`), the values of a mapping
(`Hereditary.find?`) and the attributes of an object (`Hereditary.readProperty`).
-/

namespace Dotpath

namespace Heap

/-- Whether a property passes from every value that has it to all that lies in it. -/
structure Hereditary (σ : Schema) (h : Heap) (P : Value → Prop) : Prop where
  scalar : ∀ s, P (.scalar s)
  pair : ∀ {v w}, P v → P w → P (.tuple [v, w])
  tuple : ∀ {items}, P (.tuple items) → ∀ w ∈ items, P w
  named : ∀ {type fields items}, P (.named type fields items) → ∀ w ∈ items, P w
  frozenSet : ∀ {items}, P (.frozenSet items) → ∀ w ∈ items, P w
  /-- The whole array is a part of itself. -/
  whole : ∀ {a t shape cells writeable}, h.get? a = some (.grid t shape cells writeable) →
    P (.ref a) → P (.row a 0 shape)
  part : ∀ {a offset n inner i}, P (.row a offset (n :: inner)) → i < n →
    P (.row a (offset + i * cellCount inner) inner)
  cell : ∀ {a offset shape}, P (.row a offset shape) → ∀ w ∈ h.gridCells a, P w
  held : ∀ {a n}, P (.ref a) → h.get? a = some n → ∀ w ∈ n.held σ, P w
  shown : ∀ {a n}, P (.ref a) → h.get? a = some n → ∀ d ∈ n.shownDicts, P (.ref d)

/-- Whether a property holds of all keys and values of pairs. -/
def OfPairs (P : Value → Prop) (es : Entries) : Prop := ∀ e ∈ es, P e.1 ∧ P e.2

section Pairs

variable {P : Value → Prop} {es : Entries} {k v w : Value}

theorem OfPairs.put (hes : OfPairs P es) (hk : P k) (hv : P v) : OfPairs P (Entries.put es k v) := by
  induction es with
  | nil => exact List.forall_mem_singleton.2 ⟨hk, hv⟩
  | cons e es ih =>
    obtain ⟨he, hes⟩ := List.forall_mem_cons.1 hes
    rw [Entries.put]
    split
    · exact List.forall_mem_cons.2 ⟨⟨he.1, hv⟩, hes⟩
    · exact List.forall_mem_cons.2 ⟨he, ih hes⟩

theorem OfPairs.foldl_put {new : Entries} (hes : OfPairs P es) (hnew : OfPairs P new) :
    OfPairs P (new.foldl (fun es e => Entries.put es e.1 e.2) es) := by
  induction new generalizing es with
  | nil => exact hes
  | cons e new ih =>
    obtain ⟨he, hnew⟩ := List.forall_mem_cons.1 hnew
    exact ih (hes.put he.1 he.2) hnew

theorem OfPairs.chained {ds : List Address} {entries : Address → Entries}
    (hds : ∀ d ∈ ds, OfPairs P (entries d)) : OfPairs P (Entries.chained (ds.map entries)) := by
  refine OfPairs.foldl_put (by rintro e ⟨⟩) fun e he => ?_
  obtain ⟨es, hes, he⟩ := List.mem_flatten.1 he
  obtain ⟨d, hd, rfl⟩ := List.mem_map.1 (List.mem_reverse.1 hes)
  exact hds d hd e he

theorem OfPairs.find? (hes : OfPairs P es) (hw : Entries.find? es k = some w) : P w := by
  obtain ⟨e, he, rfl⟩ := Option.map_eq_some_iff.1 hw
  exact (hes e (List.mem_of_find?_eq_some he)).2

end Pairs

namespace Hereditary

variable {σ : Schema} {h : Heap} {P : Value → Prop} {a : Address} {v w : Value}

/-! ## Members -/

/-- The member of an array, or of a part of one. -/
theorem gridMember (hP : h.Hereditary σ P) {offset i : Nat} {shape : List Nat}
    (hrow : P (.row a offset shape))
    (hw : Dotpath.gridMember a offset shape (h.gridCells a) i = some w) : P w := by
  unfold Dotpath.gridMember at hw
  split at hw
  · cases hw
  · obtain ⟨-, hw⟩ := Option.ite_none_right_eq_some.1 hw
    exact hP.cell hrow w (List.mem_of_getElem? hw)
  · obtain ⟨hi, hw⟩ := Option.ite_none_right_eq_some.1 hw
    cases hw
    exact hP.part hrow hi

theorem entriesWith (hP : h.Hereditary σ P) {fuel : Nat} (ha : P (.ref a)) :
    OfPairs P (h.entriesWith fuel a) := by
  induction fuel generalizing a with
  | zero => rintro e ⟨⟩
  | succ fuel ih =>
    rw [Heap.entriesWith]
    cases hn : h.get? a with
    | none => rintro e ⟨⟩
    | some n =>
      have hshown := hP.shown ha hn
      cases n with
      | dict type es =>
        intro e he
        exact ⟨hP.held ha hn _ (List.mem_append_left _ (List.mem_map_of_mem he)),
          hP.held ha hn _ (List.mem_append_right _ (List.mem_map_of_mem he))⟩
      | proxy d | userMap d | seqMap d => exact ih (hshown d (List.mem_singleton_self d))
      | chain ds => exact .chained fun d hd => ih (hshown d hd)
      | _ => rintro e ⟨⟩

theorem entries (hP : h.Hereditary σ P) {d : Address} (hd : P (.ref d)) :
    OfPairs P (h.entries d) := hP.entriesWith hd

theorem mappingEntries (hP : h.Hereditary σ P) (ha : P (.ref a)) {n : Node} {es : Entries}
    (hn : h.get? a = some n) (hes : h.mappingEntries? n = some es) : OfPairs P es := by
  have hshown := hP.shown ha hn
  cases n with
  | dict type es' =>
    cases hes
    rw [← entries_of_dict hn]
    exact hP.entries ha
  | proxy d | userMap d | seqMap d =>
    cases hes
    exact hP.entries (hshown d (List.mem_singleton_self d))
  | chain ds =>
    cases hes
    exact .chained fun d hd => hP.entries (hshown d hd)
  | _ => cases hes

theorem viewMembers (hP : h.Hereditary σ P) {part : ViewPart} {d : Address} (hd : P (.ref d))
    (hw : w ∈ h.viewMembers part d) : P w := by
  cases part with
  | keys =>
    obtain ⟨e, he, rfl⟩ := List.mem_map.1 hw
    exact (hP.entries hd e he).1
  | values =>
    obtain ⟨e, he, rfl⟩ := List.mem_map.1 hw
    exact (hP.entries hd e he).2
  | items =>
    obtain ⟨e, he, rfl⟩ := List.mem_map.1 hw
    exact hP.pair (hP.entries hd e he).1 (hP.entries hd e he).2

/-- The members of a node that is no array. -/
theorem nodeMembers (hP : h.Hereditary σ P) (ha : P (.ref a)) {n : Node} (hn : h.get? a = some n)
    (hgrid : ∀ t shape items writeable, n ≠ .grid t shape items writeable)
    (hw : w ∈ h.nodeMembers a n) : P w := by
  cases n with
  | list items | deque items | set items | userSeq items => exact hP.held ha hn w hw
  | view part d => exact hP.viewMembers (hP.shown ha hn d (List.mem_singleton_self d)) hw
  | byteArray bs =>
    obtain ⟨b, -, rfl⟩ := List.mem_map.1 hw
    exact hP.scalar _
  | cells code items =>
    obtain ⟨s, -, rfl⟩ := List.mem_map.1 hw
    exact hP.scalar s
  | grid t shape items writeable => exact absurd rfl (hgrid t shape items writeable)
  | object => cases hw
  | dict | proxy | chain | userMap | seqMap =>
    obtain ⟨e, he, rfl⟩ := List.mem_map.1 hw
    exact (hP.mappingEntries ha hn rfl e he).1

theorem member? (hP : h.Hereditary σ P) (hv : P v) {i : Nat} (hw : h.member? v i = some w) :
    P w := by
  cases v with
  | range start stop step =>
    obtain ⟨-, hw⟩ := Option.ite_none_right_eq_some.1 hw
    cases hw
    exact hP.scalar _
  | tuple items => exact hP.tuple hv w (List.mem_of_getElem? hw)
  | named type fields items => exact hP.named hv w (List.mem_of_getElem? hw)
  | frozenSet items => exact hP.frozenSet hv w (List.mem_of_getElem? hw)
  | row a offset shape => exact hP.gridMember hv hw
  | ref a =>
    rw [Heap.member?] at hw
    split at hw
    · next hn =>
      refine hP.gridMember (i := i) (hP.whole hn hv) ?_
      rwa [gridCells, hn]
    · next n hgrid hn => exact hP.nodeMembers hv hn hgrid (List.mem_of_getElem? hw)
    · cases hw
  | scalar s =>
    obtain ⟨s', rfl⟩ : ∃ s', w = .scalar s' := by
      cases s with
      | text t =>
        obtain ⟨c, -, rfl⟩ := Option.map_eq_some_iff.1 hw
        exact ⟨_, rfl⟩
      | bytes bs | memory bs =>
        obtain ⟨b, -, rfl⟩ := Option.map_eq_some_iff.1 hw
        exact ⟨_, rfl⟩
      | _ => cases hw
    exact hP.scalar s'

/-! ## Attributes -/

variable {name : String}

theorem compute (hP : h.Hereditary σ P) {fuel : Nat} {getter : Getter}
    (hconstant : ∀ v, getter = .constant v → P v)
    (hattribute : ∀ m < fuel, ∀ {name : String} {w : Value},
      attributeWith σ h m a name = .ok w → P w)
    (hw : Heap.compute σ h fuel a getter = .ok w) : P w := by
  cases getter with
  | constant v =>
    rw [Heap.compute] at hw
    cases hw
    exact hconstant _ rfl
  | raises kind args =>
    rw [Heap.compute] at hw
    cases hw
  | «alias» n =>
    cases fuel with
    | zero =>
      rw [Heap.compute] at hw
      cases hw
    | succ fuel =>
      rw [Heap.compute] at hw
      exact hattribute fuel (Nat.lt_succ_self fuel) hw
  | length n =>
    cases fuel with
    | zero =>
      rw [Heap.compute] at hw
      cases hw
    | succ fuel =>
      rw [Heap.compute] at hw
      obtain ⟨v, -, hw⟩ := bind_eq_ok.1 hw
      obtain ⟨size, -, hw⟩ := bind_eq_ok.1 hw
      cases hw
      exact hP.scalar _
  | concat parts =>
    cases fuel with
    | zero =>
      rw [Heap.compute] at hw
      cases hw
    | succ fuel =>
      rw [Heap.compute] at hw
      obtain ⟨texts, -, hw⟩ := bind_eq_ok.1 hw
      cases hw
      exact hP.scalar _

/-- An attribute is stored, or held by a class, or computed from such ones. -/
theorem attributeWith (hP : h.Hereditary σ P) (ha : P (.ref a)) {fuel : Nat}
    (hw : Heap.attributeWith σ h fuel a name = .ok w) : P w := by
  induction fuel using Nat.strongRecOn generalizing name w with
  | ind fuel ih =>
    cases fuel with
    | zero =>
      rw [Heap.attributeWith] at hw
      cases hw
    | succ fuel =>
      rw [Heap.attributeWith] at hw
      split at hw
      · next type attrs hn =>
        have hheld := hP.held ha hn
        have hstored : ∀ {v : Value}, attrs.lookup name = some v → P v :=
          fun hv => hheld _ (List.mem_append_left _ (List.mem_map_of_mem (mem_of_lookup hv)))
        have hshared : ∀ {v : Value}, v ∈ σ.sharedValues type → P v :=
          fun hv => hheld _ (List.mem_append_right _ hv)
        dsimp only at hw
        split at hw
        · next p hp =>
          refine hP.compute (fun v hv => hshared ?_)
            (fun m hm _ _ => ih m (Nat.lt_succ_of_lt hm)) hw
          exact Schema.mem_sharedValues_of_property hp hv
        · split at hw
          · next hv =>
            cases hw
            exact hstored hv
          · cases hw
        · split at hw
          · next hv =>
            cases hw
            exact hstored hv
          · cases hw
        · next v hv =>
          cases hw
          cases hl : attrs.lookup name with
          | some w => exact hstored hl
          | none => exact hshared (Schema.mem_sharedValues_of_value hv)
      · cases hw
      · cases hw

theorem readProperty (hP : h.Hereditary σ P) (hv : P v) {name : Segment}
    (hread : h.readProperty σ v name = .ok w) : P w := by
  obtain ⟨ps, -, hw⟩ := bind_eq_ok.1 hread
  split at hw
  · cases hw
  · split at hw
    · next hobj _ =>
      obtain ⟨rfl, -⟩ := get?_of_object? hobj
      exact hP.attributeWith hv hw
    · cases hw

end Hereditary

end Heap

end Dotpath

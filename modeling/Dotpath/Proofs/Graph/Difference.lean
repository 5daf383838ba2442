import Dotpath.Graph.Access
import Dotpath.Graph.Items
import Dotpath.Proofs.Fault
import Dotpath.Proofs.Graph.Slot

/-!
# Heaps that differ in one slot

What an assignment to a container may change: one member of a sequence or an array, which keeps its
length, the value under one key of a dictionary, or one stored attribute of an object.  A key or an
attribute that is new comes last (`PutsUnder`).  All other nodes stay as they are; nodes may be added
(`Heap.DiffersIn`).

Items and keys change the node itself, or the first of several chained dictionaries, or the array
that a row belongs to (`Heap.storage?`).
-/

namespace Dotpath

/-! ## Lists that differ in one place -/

/-- Whether two lists have the same length, and the same members everywhere but at one position. -/
def AgreeBut {α : Type} (n : Nat) (xs ys : List α) : Prop :=
  xs.length = ys.length ∧ ∀ m, m ≠ n → xs[m]? = ys[m]?

/-- Whether pairs differ from earlier ones in the value under one key, which is another one in the
same place, or comes last under a key that is new. -/
inductive PutsUnder {κ β : Type} (same : κ → κ → Prop) (k : κ) :
    List (κ × β) → List (κ × β) → Prop
  | replaced (front back : List (κ × β)) {k' : κ} (v w : β) (hk : same k' k) :
    PutsUnder same k (front ++ (k', v) :: back) (front ++ (k', w) :: back)
  | added {es : List (κ × β)} (v : β) (hnew : ∀ e ∈ es, ¬ same e.1 k) :
    PutsUnder same k es (es ++ [(k, v)])

section Lists

variable {α κ β : Type} {same : κ → κ → Prop} {k : κ}

theorem agreeBut_set (xs : List α) (n : Nat) (x : α) : AgreeBut n xs (xs.set n x) :=
  ⟨List.length_set.symm, fun _ hm => (List.getElem?_set_ne (Ne.symm hm)).symm⟩

theorem PutsUnder.cons {e : κ × β} {es es' : List (κ × β)} (he : ¬ same e.1 k)
    (hput : PutsUnder same k es es') : PutsUnder same k (e :: es) (e :: es') := by
  cases hput with
  | replaced front back v w hk => exact .replaced (e :: front) back v w hk
  | added v hnew => exact .added v (List.forall_mem_cons.2 ⟨he, hnew⟩)

end Lists

/-! ## Nodes and heaps -/

/-- Whether a node is another one with one slot changed at most. -/
inductive Node.DiffersAt : Slot → Node → Node → Prop
  | same (s : Slot) (n : Node) : DiffersAt s n n
  | list {a n xs ys} (h : AgreeBut n xs ys) : DiffersAt (.item a n) (.list xs) (.list ys)
  | deque {a n xs ys} (h : AgreeBut n xs ys) : DiffersAt (.item a n) (.deque xs) (.deque ys)
  | userSeq {a n xs ys} (h : AgreeBut n xs ys) (claimed : Option Int)
    (refusal : Option FaultKind) (break? : Option (Nat × Fault)) :
    DiffersAt (.item a n) (.userSeq xs claimed refusal break?) (.userSeq ys claimed refusal break?)
  | byteArray {a n xs ys} (h : AgreeBut n xs ys) :
    DiffersAt (.item a n) (.byteArray xs) (.byteArray ys)
  | cells {a n xs ys} (h : AgreeBut n xs ys) (code : Char) :
    DiffersAt (.item a n) (.cells code xs) (.cells code ys)
  | grid {a n xs ys} (h : AgreeBut n xs ys) (t : ElementType) (shape : List Nat)
    (writeable : Bool) :
    DiffersAt (.item a n) (.grid t shape xs writeable) (.grid t shape ys writeable)
  | dict {a k es es'} (h : PutsUnder (fun a b => a.equal b = true) k es es') (type : DictType) :
    DiffersAt (.entry a k) (.dict type es) (.dict type es')
  | object {a name attrs attrs'} (h : PutsUnder Eq name attrs attrs') (type : String) :
    DiffersAt (.property a name) (.object type attrs) (.object type attrs')

namespace Heap

/-- Whether a heap has all nodes of an earlier one, and perhaps more. -/
def Extends (h h' : Heap) : Prop :=
  ∀ ⦃a : Address⦄ ⦃n : Node⦄, h.get? a = some n → h'.get? a = some n

/-- Whether a heap has all nodes of an earlier one, of which one has changed in one slot at most. -/
structure DiffersIn (s : Slot) (h h' : Heap) : Prop where
  changed : ∀ {n : Node}, h.get? s.address = some n →
    ∃ n', h'.get? s.address = some n' ∧ n.DiffersAt s n'
  kept : ∀ {a : Address} {n : Node}, a ≠ s.address → h.get? a = some n → h'.get? a = some n

/-- The node in which an assignment to the node at an address stores the value, through at most so
many wrappers. -/
def storageWith (h : Heap) : (fuel : Nat) → Address → Option Address
  | 0, _ => none
  | fuel + 1, a =>
    match h.get? a with
    | some (.chain (d :: _)) | some (.userMap d _ _) => storageWith h fuel d
    | _ => some a

/-- The node in which an assignment to a container stores the value. -/
def storage? (h : Heap) : Value → Option Address
  | .ref a => h.storageWith (h.nodes.size + 1) a
  | .row a _ _ => some a
  | _ => none

variable {h h' : Heap} {s : Slot}

theorem Extends.refl (h : Heap) : h.Extends h := fun _ _ hn => hn

theorem Extends.trans {h'' : Heap} (h₁ : h.Extends h') (h₂ : h'.Extends h'') : h.Extends h'' :=
  fun _ _ hn => h₂ (h₁ hn)

theorem lt_size_of_get? {a : Address} {n : Node} (hn : h.get? a = some n) : a < h.nodes.size :=
  (Array.getElem?_eq_some_iff.1 hn).1

theorem extends_alloc (h : Heap) (n : Node) : h.Extends (h.alloc n).1 := by
  intro a m hm
  have ha := lt_size_of_get? hm
  rw [alloc, get?, Array.getElem?_push_lt ha]
  exact (Array.getElem?_eq_getElem ha).symm.trans hm

theorem get?_alloc_self (h : Heap) (n : Node) : (h.alloc n).1.get? (h.alloc n).2 = some n := by
  simp [alloc, get?]

theorem size_alloc (h : Heap) (n : Node) :
    (h.alloc n).1.nodes.size = (h.alloc n).2 + 1 := by
  simp [alloc]

theorem DiffersIn.refl (s : Slot) (h : Heap) : h.DiffersIn s h :=
  ⟨fun {n} hn => ⟨n, hn, .same s n⟩, fun _ hn => hn⟩

theorem differsIn_set {n n' : Node} (hn : h.get? s.address = some n) (hdiff : n.DiffersAt s n') :
    h.DiffersIn s (h.set s.address n') := by
  constructor
  · intro m hm
    obtain rfl : n = m := Option.some.inj (hn.symm.trans hm)
    exact ⟨n', get?_set_self n' hn, hdiff⟩
  · intro a m ha hm
    rw [get?_set_ne n' (Ne.symm ha), hm]

theorem eq_putEntry_of_setKeyWith {fuel : Nat} {a : Address} {k v : Value}
    (hset : setKeyWith fuel h a k v = .ok h') :
    ∃ d type es, h.storageWith fuel a = some d ∧ h.get? d = some (.dict type es) ∧
      h' = h.putEntry d k v := by
  induction fuel generalizing a with
  | zero => cases hset
  | succ fuel ih =>
    rw [setKeyWith] at hset
    rw [storageWith]
    split at hset
    · next type es hn =>
      cases hset
      exact ⟨a, type, es, by rw [hn], hn, rfl⟩
    · cases hset
    · next d ds hn =>
      rw [hn]
      exact ih hset
    · next d refusal barred hn =>
      split at hset
      · cases hset
      · rw [hn]
        exact ih hset
    · cases hset

/-- Assigning a key puts it into one dictionary. -/
theorem eq_putEntry_of_setKey {c k v : Value} (hset : h.setKey c k v = .ok h') :
    ∃ d type es, h.storage? c = some d ∧ h.get? d = some (.dict type es) ∧
      h' = h.putEntry d k v := by
  cases c with
  | ref a => exact eq_putEntry_of_setKeyWith hset
  | _ => cases hset

/-- Whether an array has the cells of a part of it. -/
def HasCells (h : Heap) (a : Address) (offset : Nat) (shape : List Nat) : Prop :=
  ∀ ⦃t : ElementType⦄ ⦃whole : List Nat⦄ ⦃cells : List Value⦄ ⦃writeable : Bool⦄,
    h.get? a = some (.grid t whole cells writeable) → offset + cellCount shape ≤ cells.length

/-- Whether the cells of a value, if it is an array or a part of one, are there. -/
def Fits (h : Heap) : Value → Prop
  | .row a offset shape => h.HasCells a offset shape
  | .ref a => ∀ ⦃t : ElementType⦄ ⦃shape : List Nat⦄ ⦃cells : List Value⦄ ⦃writeable : Bool⦄,
    h.get? a = some (.grid t shape cells writeable) → cellCount shape ≤ cells.length
  | _ => True

theorem overwrite_singleton {cells : List Value} {n : Nat} (hn : n < cells.length) (c : Value) :
    overwrite cells n [c] = cells.set n c := by
  rw [overwrite, List.append_assoc, List.set_eq_take_append_cons_drop, if_pos hn]
  rfl

theorem agreeBut_overwrite {cells : List Value} {n : Nat} (hn : n < cells.length) (c : Value) :
    AgreeBut n cells (overwrite cells n [c]) := by
  rw [overwrite_singleton hn]
  exact agreeBut_set cells n c

/-- A part without dimensions has one cell. -/
theorem fill_nil {t : ElementType} {v : Value} {new : List Value}
    (hfill : h.fill t [] v = .ok new) : ∃ c, new = [c] := by
  unfold fill at hfill
  split at hfill
  · obtain ⟨c, -, hfill⟩ := bind_eq_ok.1 hfill
    exact ⟨c, (Except.ok.inj hfill).symm⟩
  · rw [spread] at hfill
    cases hc : h.convert t v with
    | ok c =>
      refine ⟨c, ?_⟩
      simpa [hc, Bind.bind, Except.bind, Pure.pure, Except.pure] using hfill.symm
    | error f => simp [hc, Bind.bind, Except.bind] at hfill

/-- Assigning a member of an array of one dimension changes one cell. -/
theorem differsIn_of_storeMember {a : Address} {offset n i : Nat} {v : Value}
    (hcells : h.HasCells a offset [n]) (hi : i < n)
    (hstore : h.storeMember a offset [n] i v = .ok h') :
    h.DiffersIn (.item a (offset + i)) h' := by
  unfold storeMember at hstore
  split at hstore
  · next t whole cells writeable hn =>
    have hlen : offset + n * 1 ≤ cells.length := hcells hn
    split at hstore
    · cases hstore
    · obtain ⟨new, hfill, hstore⟩ := bind_eq_ok.1 hstore
      obtain ⟨c, rfl⟩ := fill_nil hfill
      rw [← Except.ok.inj hstore, List.drop_one, List.tail_cons, cellCount, Nat.mul_one]
      exact differsIn_set (s := .item a (offset + i)) hn
        (.grid (agreeBut_overwrite (by omega) c) t whole writeable)
  · cases hstore

end Heap

end Dotpath

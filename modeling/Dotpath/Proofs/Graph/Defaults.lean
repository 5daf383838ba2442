import Dotpath.Graph.Lookup
import Dotpath.Proofs.Graph.Difference
import Dotpath.Proofs.Graph.Hereditary

/-!
# What a look-up does to a heap

A look-up puts new lists into dictionaries with a default, each under the key that was missing, and
changes nothing else (`Heap.AddsDefaults`).  It does so only where a wrapper asks the dictionary:
a look-up in the dictionary itself changes nothing (`lookUp_of_dict`).

A wrapper gives a value that a dictionary below it holds (`lookUp_finds`).  Of what a mapping answers
to a single question there are few cases (`itemOf_itemWith`, `presenceOf_containsWith`).
-/

namespace Dotpath

theorem Entries.put_of_find?_eq_none {es : Entries} {k : Value} (hk : find? es k = none) (v : Value) :
    put es k v = es ++ [(k, v)] := by
  induction es with
  | nil => rfl
  | cons e es ih =>
    rw [find?, List.find?_cons] at hk
    cases he : e.1.equal k with
    | true =>
      rw [he] at hk
      cases hk
    | false =>
      rw [he] at hk
      rw [put, if_neg (by rw [he]; exact Bool.false_ne_true), ih hk, List.cons_append]

theorem Entries.contains_eq (es : Entries) (k : Value) : contains es k = (find? es k).isSome := by
  rw [contains, find?, Option.isSome_map, List.isSome_find?]

namespace Heap

variable {h h' h'' : Heap} {a b d : Address} {k v w : Value} {es : Entries} {type : DictType}

/-! ## Added defaults -/

theorem addDefault_eq (hd : h.get? d = some (.dict type es)) (k : Value) :
    h.addDefault d k =
      (h.alloc (.list [])).1.set d (.dict type (Entries.put es k (.ref h.nodes.size))) := by
  rw [addDefault]
  dsimp only
  rw [putEntry, extends_alloc h (.list []) hd]
  rfl

theorem get?_addDefault_self (hd : h.get? d = some (.dict type es)) (k : Value) :
    (h.addDefault d k).get? d = some (.dict type (Entries.put es k (.ref h.nodes.size))) := by
  rw [addDefault_eq hd]
  exact get?_set_self _ (extends_alloc h (.list []) hd)

theorem get?_addDefault_new (hd : h.get? d = some (.dict type es)) (k : Value) :
    (h.addDefault d k).get? h.nodes.size = some (.list []) := by
  rw [addDefault_eq hd, get?_set_ne _ (Nat.ne_of_lt (lt_size_of_get? hd))]
  exact get?_alloc_self h (.list [])

theorem get?_addDefault_of_ne (hd : h.get? d = some (.dict type es)) (k : Value) (hb : b ≠ d)
    (hsize : b ≠ h.nodes.size) : (h.addDefault d k).get? b = h.get? b := by
  rw [addDefault_eq hd, get?_set_ne _ hb.symm]
  simp only [alloc, get?, Array.getElem?_push, if_neg hsize]

theorem size_addDefault (hd : h.get? d = some (.dict type es)) (k : Value) :
    (h.addDefault d k).nodes.size = h.nodes.size + 1 := by
  rw [addDefault_eq hd, set, Array.size_setIfInBounds]
  exact size_alloc h (.list [])

/-- Whether a heap comes from an earlier one by new lists in dictionaries with a default, one after
the other, each under a key of some kind that was missing. -/
inductive AddsDefaults (K : Value → Prop) (h : Heap) : Heap → Prop
  | refl : AddsDefaults K h h
  | add {h' : Heap} {d : Address} {es : Entries} {k : Value} (hbefore : AddsDefaults K h h')
    (hd : h'.get? d = some (.dict .defaulting es)) (hk : Entries.find? es k = none) (hK : K k) :
    AddsDefaults K h (h'.addDefault d k)

namespace AddsDefaults

variable {K K' : Value → Prop}

theorem trans (h₁ : h.AddsDefaults K h') (h₂ : h'.AddsDefaults K h'') : h.AddsDefaults K h'' := by
  induction h₂ with
  | refl => exact h₁
  | add _ hd hk hK ih => exact ih.add hd hk hK

theorem mono (hadds : h.AddsDefaults K h') (hK : ∀ k, K k → K' k) : h.AddsDefaults K' h' := by
  induction hadds with
  | refl => exact .refl
  | add _ hd hk hk' ih => exact ih.add hd hk (hK _ hk')

theorem of_add (hd : h.get? d = some (.dict .defaulting es)) (hk : Entries.find? es k = none) :
    h.AddsDefaults (· = k) (h.addDefault d k) := .add .refl hd hk rfl

theorem size_le (hadds : h.AddsDefaults K h') : h.nodes.size ≤ h'.nodes.size := by
  induction hadds with
  | refl => exact Nat.le_refl _
  | add _ hd _ _ ih =>
    rw [size_addDefault hd]
    exact Nat.le_succ_of_le ih

/-- Only dictionaries with a default change. -/
theorem get? {n : Node} (hadds : h.AddsDefaults K h') (hn : h.get? a = some n)
    (hkind : ∀ es, n ≠ .dict .defaulting es) : h'.get? a = some n := by
  induction hadds with
  | refl => exact hn
  | @add h' d es k hbefore hd hk _ ih =>
    have hsize : a < h'.nodes.size := Nat.lt_of_lt_of_le (lt_size_of_get? hn) hbefore.size_le
    have had : a ≠ d := by
      rintro rfl
      exact hkind es (Option.some.inj (ih.symm.trans hd))
    rw [get?_addDefault_of_ne hd k had (Nat.ne_of_lt hsize)]
    exact ih

/-- A dictionary with a default stays one, and gets new keys at its end. -/
theorem get?_dict (hadds : h.AddsDefaults K h') (hn : h.get? a = some (.dict .defaulting es)) :
    ∃ new, h'.get? a = some (.dict .defaulting (es ++ new)) := by
  induction hadds with
  | refl => exact ⟨[], by rw [List.append_nil]; exact hn⟩
  | @add h' d es' k hbefore hd hk _ ih =>
    obtain ⟨new, hnew⟩ := ih
    by_cases had : a = d
    · subst had
      cases hnew.symm.trans hd
      refine ⟨new ++ [(k, .ref h'.nodes.size)], ?_⟩
      rw [get?_addDefault_self hd, Entries.put_of_find?_eq_none hk, List.append_assoc]
    · have hsize : a < h'.nodes.size := lt_size_of_get? hnew
      exact ⟨new, by rw [get?_addDefault_of_ne hd k had (Nat.ne_of_lt hsize)]; exact hnew⟩

/-- A node that is neither a list nor a dictionary with a default was there before. -/
theorem get?_of_later {n : Node} (hadds : h.AddsDefaults K h') (hn : h'.get? a = some n)
    (hlist : n ≠ .list []) (hkind : ∀ es, n ≠ .dict .defaulting es) : h.get? a = some n := by
  induction hadds with
  | refl => exact hn
  | @add h' d es k hbefore hd hk _ ih =>
    refine ih ?_
    have had : a ≠ d := by
      rintro rfl
      exact hkind _ (Option.some.inj (hn.symm.trans (get?_addDefault_self hd k)))
    have hsize : a ≠ h'.nodes.size := by
      rintro rfl
      exact hlist (Option.some.inj (hn.symm.trans (get?_addDefault_new hd k)))
    rwa [get?_addDefault_of_ne hd k had hsize] at hn

end AddsDefaults

/-! ## Dictionaries below wrappers -/

/-- Whether a dictionary lies below a node: the node is the dictionary, or shows a node above it. -/
inductive LiesOver (h : Heap) : Address → Address → Prop
  | here (a : Address) : LiesOver h a a
  | through {a b d : Address} {n : Node} (hn : h.get? a = some n) (hb : b ∈ n.shownDicts)
    (hd : LiesOver h b d) : LiesOver h a d

/-- The same wrappers stand over the dictionaries when defaults have been added. -/
theorem LiesOver.mono {K : Value → Prop} (hover : h.LiesOver a d) (hadds : h.AddsDefaults K h') :
    h'.LiesOver a d := by
  induction hover with
  | here a => exact .here a
  | through hn hb _ ih =>
    refine .through (hadds.get? hn ?_) hb ih
    rintro es rfl
    cases hb

/-! ## Single questions -/

/-- The item of a key in a mapping, with the heap that is left. -/
inductive ItemOf (h : Heap) (a : Address) (k : Value) : Except Fault (Option Value) × Heap → Prop
  | missing : ItemOf h a k (.ok none, h)
  | fault (f : Fault) : ItemOf h a k (.error f, h)
  | stored {d : Address} {type : DictType} {es : Entries} {v : Value} (hover : h.LiesOver a d)
    (hd : h.get? d = some (.dict type es)) (hv : Entries.find? es k = some v) :
    ItemOf h a k (.ok (some v), h)
  | added {d : Address} {es : Entries} (hover : h.LiesOver a d)
    (hd : h.get? d = some (.dict .defaulting es)) (hk : Entries.find? es k = none) :
    ItemOf h a k (.ok (some (.ref h.nodes.size)), h.addDefault d k)

/-- Whether a mapping has a key, with the heap that is left. -/
inductive PresenceOf (h : Heap) (a : Address) (k : Value) : Except Fault Bool × Heap → Prop
  | unchanged (r : Except Fault Bool) : PresenceOf h a k (r, h)
  | added {d : Address} {es : Entries} (hover : h.LiesOver a d)
    (hd : h.get? d = some (.dict .defaulting es)) (hk : Entries.find? es k = none) :
    PresenceOf h a k (.ok true, h.addDefault d k)

theorem ItemOf.through {n : Node} {r : Except Fault (Option Value) × Heap}
    (hn : h.get? a = some n) (hb : b ∈ n.shownDicts) (hr : h.ItemOf b k r) : h.ItemOf a k r := by
  cases hr with
  | missing => exact .missing
  | fault f => exact .fault f
  | stored hover hd hv => exact .stored (.through hn hb hover) hd hv
  | added hover hd hk => exact .added (.through hn hb hover) hd hk

theorem PresenceOf.through {n : Node} {r : Except Fault Bool × Heap}
    (hn : h.get? a = some n) (hb : b ∈ n.shownDicts) (hr : h.PresenceOf b k r) :
    h.PresenceOf a k r := by
  cases hr with
  | unchanged r => exact .unchanged r
  | added hover hd hk => exact .added (.through hn hb hover) hd hk

theorem eq_none_of_beq {x : Option Value} (hx : (x == none) = true) : x = none := by
  cases x with
  | none => rfl
  | some v => simp at hx

/-- The answer to a question that is put to several mappings in order is one that all answers are
like, if the answer `no` leaves the heap. -/
theorem askInOrder_cases {α : Type} [BEq α] {no : α} (heq : ∀ x, (x == no) = true → x = no)
    {ask : Heap → Address → Except Fault α × Heap} {P : Except Fault α × Heap → Prop}
    (hno : P (.ok no, h)) {ds : List Address}
    (hask : ∀ d ∈ ds, P (ask h d) ∧ ((ask h d).1 = .ok no → (ask h d).2 = h)) :
    P (askInOrder no ask h ds) := by
  induction ds with
  | nil => exact hno
  | cons d ds ih =>
    obtain ⟨⟨hd, hleft⟩, hds⟩ := List.forall_mem_cons.1 hask
    rw [askInOrder]
    cases hr : ask h d with
    | mk r h' =>
      rw [hr] at hd hleft
      cases r with
      | error f => exact hd
      | ok answer =>
        dsimp only
        split
        · next hsame =>
          obtain rfl := heq answer hsame
          obtain rfl : h' = h := hleft rfl
          exact ih hds
        · exact hd

theorem ItemOf.eq_of_none {h₁ : Heap} (hr : h.ItemOf a k (.ok none, h₁)) : h₁ = h := by
  cases hr
  rfl

theorem PresenceOf.eq_of_false {h₁ : Heap} (hr : h.PresenceOf a k (.ok false, h₁)) : h₁ = h := by
  cases hr
  rfl

theorem itemOf_itemWith (fuel : Nat) (h : Heap) (a : Address) (k : Value) :
    h.ItemOf a k (itemWith fuel h a k) := by
  induction fuel generalizing a with
  | zero => exact .fault endlessText
  | succ fuel ih =>
    rw [itemWith]
    split
    · next type es hn =>
      cases hv : Entries.find? es k with
      | some v => exact .stored (.here a) hn hv
      | none =>
        dsimp only
        split
        · next htype =>
          subst htype
          exact .added (.here a) hn hv
        · exact .missing
    · next d hn => exact (ih d).through hn (List.mem_singleton_self d)
    · next d hn => exact (ih d).through hn (List.mem_singleton_self d)
    · next d refusal barred hn =>
      split
      · next f _ =>
        split
        · exact .missing
        · exact .fault f
      · exact (ih d).through hn (List.mem_singleton_self d)
    · next ds hn =>
      refine askInOrder_cases (P := h.ItemOf a k) (fun _ => eq_none_of_beq) .missing
        fun d hd => ⟨(ih d).through hn hd, fun hnone => ?_⟩
      have hr := ih d
      rw [show itemWith fuel h d k = (.ok none, (itemWith fuel h d k).2) from Prod.ext hnone rfl] at hr
      exact hr.eq_of_none
    · exact .fault _

theorem presenceOf_containsWith (fuel : Nat) (h : Heap) (a : Address) (k : Value) :
    h.PresenceOf a k (containsWith fuel h a k) := by
  induction fuel generalizing a with
  | zero => exact .unchanged _
  | succ fuel ih =>
    rw [containsWith]
    split
    · exact .unchanged _
    · next d hn => exact (ih d).through hn (List.mem_singleton_self d)
    · exact .unchanged _
    · next d refusal barred hn =>
      have hitem := itemOf_itemWith (fuel + 1) h a k
      cases hr : itemWith (fuel + 1) h a k with
      | mk r h' =>
        rw [hr] at hitem
        cases hitem with
        | missing | fault | stored => exact .unchanged _
        | added hover hd hk => exact .added hover hd hk
    · next ds hn =>
      refine askInOrder_cases (P := h.PresenceOf a k) (fun _ => eq_of_beq) (.unchanged _)
        fun d hd => ⟨(ih d).through hn hd, fun hfalse => ?_⟩
      have hr := ih d
      rw [show containsWith fuel h d k = (.ok false, (containsWith fuel h d k).2) from
        Prod.ext hfalse rfl] at hr
      exact hr.eq_of_false
    · exact .unchanged _

theorem ItemOf.addsDefaults {r : Except Fault (Option Value) × Heap} (hr : h.ItemOf a k r) :
    h.AddsDefaults (· = k) r.2 := by
  cases hr with
  | missing | fault | stored => exact .refl
  | added _ hd hk => exact .of_add hd hk

theorem PresenceOf.addsDefaults {r : Except Fault Bool × Heap} (hr : h.PresenceOf a k r) :
    h.AddsDefaults (· = k) r.2 := by
  cases hr with
  | unchanged r => exact .refl
  | added _ hd hk => exact .of_add hd hk

/-! ## Look-ups -/

/-- Whether a value is held by a dictionary below a node. -/
def HeldBelow (h : Heap) (a : Address) (v : Value) : Prop :=
  ∃ d type es, h.LiesOver a d ∧ h.get? d = some (.dict type es) ∧ v ∈ Entries.values es

theorem HeldBelow.through {n : Node} (hn : h.get? a = some n) (hb : b ∈ n.shownDicts)
    (hv : h.HeldBelow b v) : h.HeldBelow a v := by
  obtain ⟨d, type, es, hover, hd, hv⟩ := hv
  exact ⟨d, type, es, .through hn hb hover, hd, hv⟩

/-- What dictionaries below a node hold has every hereditary property of the node. -/
theorem Hereditary.heldBelow {σ : Schema} {P : Value → Prop} (hP : h.Hereditary σ P)
    (ha : P (.ref a)) (hv : h.HeldBelow a v) : P v := by
  obtain ⟨d, type, es, hover, hd, hv⟩ := hv
  induction hover with
  | here a => exact hP.held ha hd v (List.mem_append_right _ hv)
  | through hn hb _ ih => exact ih (hP.shown ha hn _ hb) hd

theorem ItemOf.heldBelow (hr : h.ItemOf a k (.ok (some v), h')) : h'.HeldBelow a v := by
  cases hr with
  | @stored d type es _ hover hd hv =>
    obtain ⟨e, he, rfl⟩ := Option.map_eq_some_iff.1 hv
    exact ⟨d, type, es, hover, hd, List.mem_map_of_mem (List.mem_of_find?_eq_some he)⟩
  | @added d es hover hd hk =>
    refine ⟨d, .defaulting, _, hover.mono (.of_add hd hk), get?_addDefault_self hd k, ?_⟩
    rw [Entries.put_of_find?_eq_none hk, Entries.values, List.map_append]
    exact List.mem_append_right _ (List.mem_singleton_self _)

/-- Whether a value is null or held by a dictionary below a node, in a heap that is left when defaults
have been added under a key. -/
def Gives (h : Heap) (a : Address) (k : Value) (r : Except Fault Value × Heap) : Prop :=
  h.AddsDefaults (· = k) r.2 ∧ ∀ v, r.1 = .ok v → v.isNull = true ∨ r.2.HeldBelow a v

theorem gives_of_item (fuel : Nat) (h : Heap) (a : Address) (k : Value) :
    h.Gives a k ((itemWith fuel h a k).1.map fun v => v.getD (.scalar .null),
      (itemWith fuel h a k).2) := by
  have hitem := itemOf_itemWith fuel h a k
  refine ⟨hitem.addsDefaults, fun v hv => ?_⟩
  cases hr : itemWith fuel h a k with
  | mk r h' =>
    rw [hr] at hitem hv
    cases r with
    | error f => cases hv
    | ok item =>
      cases item with
      | none =>
        cases hv
        exact .inl rfl
      | some w =>
        cases hv
        exact .inr hitem.heldBelow

/-- A mapping gives null for a key, or a value that a dictionary below it holds. -/
theorem gives_getWith (fuel : Nat) (h : Heap) (a : Address) (k : Value) :
    h.Gives a k (getWith fuel h a k) := by
  induction fuel generalizing a with
  | zero => exact ⟨.refl, by rintro v ⟨⟩⟩
  | succ fuel ih =>
    rw [getWith]
    dsimp only
    split
    · next type es hn =>
      refine ⟨.refl, fun v hv => ?_⟩
      cases hv
      cases hfind : Entries.find? es k with
      | none => exact .inl rfl
      | some w =>
        exact .inr (ItemOf.heldBelow (k := k) (.stored (.here a) hn hfind))
    · next d hn =>
      obtain ⟨hadds, hv⟩ := ih d
      have hd : d ∈ (Node.proxy d).shownDicts := List.mem_singleton_self d
      refine ⟨hadds, fun v hok => (hv v hok).imp_right fun hheld => ?_⟩
      refine hheld.through (hadds.get? hn ?_) hd
      rintro es ⟨⟩
    · exact gives_of_item _ h a k
    · exact gives_of_item _ h a k
    · have hfound := presenceOf_containsWith (fuel + 1) h a k
      cases hr : containsWith (fuel + 1) h a k with
      | mk r h' =>
        rw [hr] at hfound
        have hadds : h.AddsDefaults (· = k) h' := hfound.addsDefaults
        cases r with
        | error f => exact ⟨hadds, by rintro v ⟨⟩⟩
        | ok b =>
          cases b with
          | false => exact ⟨hadds, fun v hv => .inl (by cases hv; rfl)⟩
          | true =>
            have hgives := gives_of_item (fuel + 1) h' a k
            exact ⟨hadds.trans hgives.1, hgives.2⟩
    · exact ⟨.refl, by rintro v ⟨⟩⟩

/-- A look-up adds defaults under its key and changes nothing else. -/
theorem addsDefaults_lookUp (h : Heap) (v k : Value) :
    h.AddsDefaults (· = k) (h.lookUp v k).2 := by
  cases v with
  | ref a =>
    rw [lookUp]
    have hgives := gives_getWith (h.nodes.size + 1) h a k
    cases hr : getWith (h.nodes.size + 1) h a k with
    | mk r h' =>
      rw [hr] at hgives
      cases r with
      | error f => exact hgives.1
      | ok w =>
        dsimp only
        split
        · exact hgives.1.trans (presenceOf_containsWith (h.nodes.size + 1) h' a k).addsDefaults
        · exact hgives.1
  | _ => exact .refl

/-- What a look-up finds is null, or held by a dictionary below the mapping. -/
theorem lookUp_finds (hfound : (h.lookUp v k).1 = .ok (some w)) :
    w.isNull = true ∨ ∃ a, v = .ref a ∧ (h.lookUp v k).2.HeldBelow a w := by
  cases v with
  | ref a =>
    rw [lookUp] at hfound ⊢
    have hgives := gives_getWith (h.nodes.size + 1) h a k
    cases hr : getWith (h.nodes.size + 1) h a k with
    | mk r h' =>
      rw [hr] at hgives hfound
      cases r with
      | error f => cases hfound
      | ok u =>
        dsimp only at hfound ⊢
        split at hfound
        · next hnull =>
          left
          cases hc : (containsWith (h.nodes.size + 1) h' a k).1 with
          | error f =>
            rw [hc] at hfound
            cases hfound
          | ok b =>
            rw [hc] at hfound
            cases b <;> cases hfound
            exact hnull
        · next hnull =>
          cases hfound
          rw [if_neg hnull]
          exact (hgives.2 w rfl).imp_right fun hheld => ⟨a, rfl, hheld⟩
  | _ => cases hfound

/-! ## Plain dictionaries -/

/-- A look-up in a dictionary finds the value that is stored, and changes nothing. -/
theorem lookUp_of_dict (ha : h.get? a = some (.dict type es)) (k : Value) :
    h.lookUp (.ref a) k = (.ok (Entries.find? es k), h) := by
  rw [lookUp, getWith, ha]
  dsimp only
  rw [containsWith, ha]
  dsimp only
  rw [Entries.contains_eq]
  cases Entries.find? es k with
  | none => rfl
  | some w => cases hw : w.isNull <;> simp [hw, Except.map]

/-! ## Look-ups that change nothing -/

/-- Whether no dictionary with a default lies below a wrapper. -/
def IsUnwrapped (h : Heap) : Prop :=
  ∀ ⦃a d : Address⦄ ⦃es : Entries⦄, h.LiesOver a d → h.get? d = some (.dict .defaulting es) → a = d

section Unwrapped

variable (hh : h.IsUnwrapped) (hnone : ∀ es, h.get? a ≠ some (.dict .defaulting es))
include hh hnone

theorem IsUnwrapped.itemWith (fuel : Nat) (k : Value) : (itemWith fuel h a k).2 = h := by
  have hitem := itemOf_itemWith fuel h a k
  cases hr : Heap.itemWith fuel h a k with
  | mk r h' =>
    rw [hr] at hitem
    cases hitem with
    | missing | fault | stored => rfl
    | added hover hd _ =>
      obtain rfl := hh hover hd
      exact absurd hd (hnone _)

theorem IsUnwrapped.containsWith (fuel : Nat) (k : Value) : (containsWith fuel h a k).2 = h := by
  have hfound := presenceOf_containsWith fuel h a k
  cases hr : Heap.containsWith fuel h a k with
  | mk r h' =>
    rw [hr] at hfound
    cases hfound with
    | unchanged => rfl
    | added hover hd _ =>
      obtain rfl := hh hover hd
      exact absurd hd (hnone _)

end Unwrapped

theorem IsUnwrapped.getWith (hh : h.IsUnwrapped) (fuel : Nat) (a : Address) (k : Value) :
    (getWith fuel h a k).2 = h := by
  induction fuel generalizing a with
  | zero => rfl
  | succ fuel ih =>
    rw [Heap.getWith]
    dsimp only
    split
    · rfl
    · exact ih _
    · next hn => exact hh.itemWith (by simp [hn]) (fuel + 1) k
    · next hn => exact hh.itemWith (by simp [hn]) (fuel + 1) k
    · next hn =>
      have hleft := hh.containsWith (a := a) (by simp [hn]) (fuel + 1) k
      cases hr : Heap.containsWith (fuel + 1) h a k with
      | mk r h' =>
        rw [hr] at hleft
        obtain rfl : h' = h := hleft
        cases r with
        | error f => rfl
        | ok b =>
          cases b with
          | false => rfl
          | true => exact hh.itemWith (by simp [hn]) (fuel + 1) k
    · rfl

/-- Where no dictionary with a default lies below a wrapper, look-ups change nothing. -/
theorem IsUnwrapped.lookUp (hh : h.IsUnwrapped) (v k : Value) : (h.lookUp v k).2 = h := by
  cases v with
  | ref a =>
    by_cases hdict : ∃ es, h.get? a = some (.dict .defaulting es)
    · obtain ⟨es, ha⟩ := hdict
      rw [lookUp_of_dict ha]
    · have hget := hh.getWith (h.nodes.size + 1) a k
      rw [Heap.lookUp]
      cases hr : Heap.getWith (h.nodes.size + 1) h a k with
      | mk r h' =>
        rw [hr] at hget
        obtain rfl : h' = h := hget
        cases r with
        | error f => rfl
        | ok w =>
          dsimp only
          split
          · exact hh.containsWith (not_exists.1 hdict) _ k
          · rfl
  | _ => rfl

end Heap

end Dotpath

import Dotpath.Graph.Items
import Dotpath.Proofs.Graph.Defaults
import Dotpath.Proofs.Graph.Overwriting

/-!
# Dictionaries searched in order

A mapping is looked up in one dictionary, or in several one after the other, and is changed in the
first of them (`Heap.Searches`).  A dictionary gives what it stores.  A chain, if one of its
dictionaries has the key, and a mapping of the user take the item out of the dictionaries: the first
of them that has the key or a default gives it, and a default that is given is kept
(`Heap.LooksUp`).
-/

namespace Dotpath

/-! ## One dictionary -/

namespace Entries

variable {k v : Value}

end Entries

/-! ## Dictionaries searched in order -/

/-- The kinds of mapping, by the way in which they look a key up. -/
inductive MappingKind where
  | dict | chain | userMap
  deriving DecidableEq, Repr

namespace Heap

variable {h h' : Heap} {c k l v w : Value} {dicts : List Address} {d : Address} {kind : MappingKind}

/-- Whether a mapping is looked up in some dictionaries, one after the other, and is changed in the
first of them. -/
inductive Searches (h : Heap) : Value → MappingKind → List Address → Prop
  | dict {a : Address} {type : DictType} {es : Entries} (ha : h.get? a = some (.dict type es)) :
    Searches h (.ref a) .dict [a]
  | chain {a d : Address} {dicts : List Address} (ha : h.get? a = some (.chain (d :: dicts)))
      (hdicts : ∀ b ∈ d :: dicts, ∃ type es, h.get? b = some (.dict type es)) :
    Searches h (.ref a) .chain (d :: dicts)
  | userMap {a d : Address} (ha : h.get? a = some (.userMap d none []))
      (hd : ∃ type es, h.get? d = some (.dict type es)) :
    Searches h (.ref a) .userMap [d]

/-- Whether a dictionary holds a value under a key. -/
def HoldsUnder (h : Heap) (d : Address) (k v : Value) : Prop :=
  ∃ c, (c, v) ∈ h.entries d ∧ c.Matches k

/-- Whether a dictionary has no value under a key. -/
def Lacks (h : Heap) (d : Address) (k : Value) : Prop := ∀ e ∈ h.entries d, ¬ e.1.Matches k

/-- Whether a dictionary has a default for missing keys. -/
def HasDefault (h : Heap) (d : Address) : Prop := ∃ es, h.get? d = some (.dict .defaulting es)

/-- What the first of several dictionaries that has a key or a default gives for the key, with the heap
that is left: the value under the key, or a new list, which the dictionary keeps. -/
inductive FirstGives (h : Heap) (k : Value) : List Address → Value → Heap → Prop
  | held {d : Address} {dicts : List Address} {v : Value} (hd : h.HoldsUnder d k v) :
    FirstGives h k (d :: dicts) v h
  | added {d : Address} {dicts : List Address} (hk : h.Lacks d k) (hd : h.HasDefault d) :
    FirstGives h k (d :: dicts) (.ref h.nodes.size) (h.addDefault d k)
  | later {d : Address} {dicts : List Address} {v : Value} {h' : Heap} (hk : h.Lacks d k)
    (hd : ¬ h.HasDefault d) (hlater : FirstGives h k dicts v h') : FirstGives h k (d :: dicts) v h'

section Dictionary

variable {type : DictType} {es : Entries} (hd : h.get? d = some (.dict type es))

include hd

theorem holdsUnder_iff (hes : es.Distinct) (hk : k.isSimpleKey = true) :
    h.HoldsUnder d k v ↔ Entries.find? es k = some v := by
  rw [HoldsUnder, entries_of_dict hd, Entries.find?_eq_some_iff hes hk]

theorem lacks_iff (hk : k.isSimpleKey = true) : h.Lacks d k ↔ Entries.find? es k = none := by
  rw [Lacks, entries_of_dict hd, Entries.find?_eq_none_iff hk]

theorem hasDefault_iff : h.HasDefault d ↔ type = .defaulting := by
  rw [HasDefault, hd]
  constructor
  · rintro ⟨es, ⟨⟩⟩
    rfl
  · rintro rfl
    exact ⟨es, rfl⟩

theorem itemWith_of_dict (fuel : Nat) (k : Value) :
    itemWith (fuel + 1) h d k = match Entries.find? es k with
      | some v => (.ok (some v), h)
      | none => if type = .defaulting then (.ok (some (.ref h.nodes.size)), h.addDefault d k)
        else (.ok none, h) := by
  cases hv : Entries.find? es k <;> simp only [itemWith, hd, hv]

end Dictionary

/-! ## Several dictionaries -/

/-- Whether addresses are those of dictionaries with different keys. -/
def AreDicts (h : Heap) (dicts : List Address) : Prop :=
  ∀ d ∈ dicts, ∃ type es, h.get? d = some (.dict type es) ∧ es.Distinct

theorem FirstGives.itemWith (hv : h.FirstGives k dicts v h') (hdicts : h.AreDicts dicts)
    (hk : k.isSimpleKey = true) (fuel : Nat) :
    askInOrder none (fun h d => itemWith (fuel + 1) h d k) h dicts = (.ok (some v), h') := by
  induction hv with
  | @held d dicts v hheld =>
    obtain ⟨type, es, hd, hes⟩ := hdicts d List.mem_cons_self
    rw [askInOrder, itemWith_of_dict hd, (holdsUnder_iff hd hes hk).1 hheld]
    rfl
  | @added d dicts hlacks hdefault =>
    obtain ⟨type, es, hd, hes⟩ := hdicts d List.mem_cons_self
    rw [askInOrder, itemWith_of_dict hd, (lacks_iff hd hk).1 hlacks]
    dsimp only
    rw [if_pos ((hasDefault_iff hd).1 hdefault)]
    rfl
  | @later d dicts v h' hlacks hdefault _ ih =>
    obtain ⟨type, es, hd, hes⟩ := hdicts d List.mem_cons_self
    rw [askInOrder, itemWith_of_dict hd, (lacks_iff hd hk).1 hlacks]
    dsimp only
    rw [if_neg (mt (hasDefault_iff hd).2 hdefault)]
    exact ih fun b hb => hdicts b (List.mem_cons_of_mem d hb)

theorem size_pos_of_get? {a : Address} {n : Node} (hn : h.get? a = some n) :
    ∃ m, h.nodes.size = m + 1 :=
  Nat.exists_eq_succ_of_ne_zero (Nat.ne_zero_of_lt (lt_size_of_get? hn))

theorem get?_putEntry_self {type : DictType} {es : Entries} (hd : h.get? d = some (.dict type es))
    (k v : Value) : (h.putEntry d k v).get? d = some (.dict type (es.put k v)) := by
  rw [putEntry, hd]
  exact get?_set_self _ hd

theorem get?_putEntry_of_ne {b : Address} (hbd : b ≠ d) (k v : Value) :
    (h.putEntry d k v).get? b = h.get? b := by
  unfold putEntry
  split
  · exact get?_set_ne _ hbd.symm
  · rfl

/-- Dictionaries stay dictionaries of their type. -/
theorem exists_get?_putEntry {b : Address} {type : DictType} {es : Entries}
    (hb : h.get? b = some (.dict type es)) (k v : Value) :
    ∃ es', (h.putEntry d k v).get? b = some (.dict type es') := by
  by_cases hbd : b = d
  · subst hbd
    exact ⟨_, get?_putEntry_self hb k v⟩
  · exact ⟨es, (get?_putEntry_of_ne hbd k v).trans hb⟩

theorem AreDicts.putEntry (hdicts : h.AreDicts dicts) (k v : Value) :
    (h.putEntry d k v).AreDicts dicts := by
  intro b hb
  obtain ⟨type, es, hget, hes⟩ := hdicts b hb
  by_cases hbd : b = d
  · subst hbd
    exact ⟨type, es.put k v, get?_putEntry_self hget k v, hes.put k v⟩
  · exact ⟨type, es, (get?_putEntry_of_ne hbd k v).trans hget, hes⟩

namespace Searches

theorem exists_dict (hc : h.Searches c kind (d :: dicts)) :
    ∃ type es, h.get? d = some (.dict type es) := by
  cases hc with
  | dict ha => exact ⟨_, _, ha⟩
  | chain _ hdicts => exact hdicts d List.mem_cons_self
  | userMap _ hd => exact hd

theorem setKey (hc : h.Searches c kind (d :: dicts)) (k v : Value) :
    h.setKey c k v = .ok (h.putEntry d k v) := by
  obtain ⟨type, es, hd⟩ := hc.exists_dict
  obtain ⟨m, hm⟩ := size_pos_of_get? hd
  cases hc with
  | dict ha => rw [Heap.setKey, setKeyWith, ha]
  | chain ha | userMap ha =>
    rw [Heap.setKey, setKeyWith, ha, hm]
    dsimp only
    rw [setKeyWith, hd]

/-- A change leaves the order of the search as it is. -/
theorem putEntry (hc : h.Searches c kind (d :: dicts)) (k v : Value) :
    (h.putEntry d k v).Searches c kind (d :: dicts) := by
  obtain ⟨type, es, hd⟩ := hc.exists_dict
  have hdict {b : Address} (hb : ∃ type es, h.get? b = some (.dict type es)) :
      ∃ type es, (h.putEntry d k v).get? b = some (.dict type es) := by
    obtain ⟨type, es, hb⟩ := hb
    obtain ⟨es', hb'⟩ := exists_get?_putEntry hb k v
    exact ⟨type, es', hb'⟩
  have hother {a : Address} {n : Node} (ha : h.get? a = some n) (hn : n ≠ .dict type es) :
      (h.putEntry d k v).get? a = some n := by
    rw [get?_putEntry_of_ne ?_, ha]
    rintro rfl
    exact hn (Option.some.inj (ha.symm.trans hd))
  cases hc with
  | dict ha => exact .dict (get?_putEntry_self ha k v)
  | chain ha hdicts => exact .chain (hother ha (by simp)) fun b hb => hdict (hdicts b hb)
  | userMap ha hd => exact .userMap (hother ha (by simp)) (hdict hd)

end Searches

namespace AgreeUnder

end AgreeUnder

end Heap

end Dotpath

import Dotpath.Document.Json.Reader
import Dotpath.Proofs.Document.Text
import Dotpath.Proofs.Graph.Printable
import Dotpath.Proofs.Number.Digits
import Dotpath.Proofs.Scalar.Text

/-!
# Reading JSON texts

What is read from a JSON text is a document: it unfolds to a tree, and each of its integers has a
text, since an integer of too many digits is not read (`isDocument_of_read?`).  So all of it has a
text (`IsDocument.prints`).
-/

namespace Dotpath

/-- A row of digits denotes a number of no more digits. -/
theorem digitsValue_lt {ds : List Char} (hds : IsDigitRow ds) :
    Text.digitsValue ds < 10 ^ ds.length := by
  induction ds using List.reverseRecOn with
  | nil => exact Nat.one_pos
  | append_singleton ds c ih =>
    have hc := toNat_of_isDigit (hds c (List.mem_append_right ds List.mem_cons_self))
    have hfront := ih fun d hd => hds d (List.mem_append_left _ hd)
    have hvalue : Text.digitsValue (ds ++ [c]) = 10 * Text.digitsValue ds + (c.toNat - 48) := by
      rw [Text.digitsValue, List.foldl_append]
      rfl
    rw [hvalue, List.length_append, List.length_singleton, Nat.pow_succ]
    omega

namespace Heap

/-- Whether a value is a document without integers that are too long to be shown. -/
def IsDocument (h : Heap) (v : Value) : Prop := ∃ t : Tree, h.Unfolds v t ∧ t.prints = true

variable {σ : Schema} {h h' : Heap} {v : Value} {a : Address}

theorem IsDocument.mono (hv : h.IsDocument v) (hh : h.Extends h') : h'.IsDocument v :=
  hv.imp fun _ ht => ⟨ht.1.mono hh, ht.2⟩

theorem isDocument_atom {b : Tree.Atom} (hb : b.prints = true) : h.IsDocument (.scalar b.scalar) :=
  ⟨.leaf b, .leaf b, hb⟩

theorem isDocument_list {items : List Value} (hn : h.get? a = some (.list items))
    (hitems : ∀ w ∈ items, h.IsDocument w) : h.IsDocument (.ref a) := by
  obtain ⟨ts, hts, hprints⟩ : ∃ ts, List.Forall₂ h.Unfolds items ts ∧ Tree.printsAll ts = true := by
    clear hn
    induction items with
    | nil => exact ⟨[], .nil, rfl⟩
    | cons w items ih =>
      obtain ⟨⟨t, ht, hprints⟩, hitems⟩ := List.forall_mem_cons.1 hitems
      obtain ⟨ts, hts, hall⟩ := ih hitems
      exact ⟨t :: ts, .cons ht hts, Bool.and_eq_true_iff.2 ⟨hprints, hall⟩⟩
  exact ⟨.list ts, .list hn hts, hprints⟩

theorem isDocument_dict {es : Entries} (hn : h.get? a = some (.dict .plain es))
    (hdistinct : es.Distinct)
    (hes : ∀ e ∈ es, (∃ s : String, e.1 = .scalar (.text s)) ∧ h.IsDocument e.2) :
    h.IsDocument (.ref a) := by
  obtain ⟨fs, hfs, hprints⟩ : ∃ fs, List.Forall₂ (Tree.EntryOf h.Unfolds) es fs ∧
      Tree.printsEntries fs = true := by
    clear hn hdistinct
    induction es with
    | nil => exact ⟨[], .nil, rfl⟩
    | cons e es ih =>
      obtain ⟨⟨⟨s, hs⟩, t, ht, hprints⟩, hes⟩ := List.forall_mem_cons.1 hes
      obtain ⟨fs, hfs, hall⟩ := ih hes
      exact ⟨(.text s, t) :: fs, .cons (Tree.entryOf_iff.2 ⟨hs, ht⟩) hfs,
        Bool.and_eq_true_iff.2 ⟨hprints, hall⟩⟩
  exact ⟨.dict fs, .dict hn hdistinct hfs, hprints⟩

/-- The values of a dictionary in a document are documents. -/
theorem IsDocument.forall_values {es : Entries} (hv : h.IsDocument (.ref a))
    (hn : h.get? a = some (.dict .plain es)) : ∀ e ∈ es, h.IsDocument e.2 := by
  obtain ⟨t, ht, hprints⟩ := hv
  cases ht with
  | list hn' => cases hn.symm.trans hn'
  | dict hn' _ hentries =>
    cases hn.symm.trans hn'
    rw [Tree.prints_dict, List.all_eq_true] at hprints
    exact forall_mem_left hentries fun e f hf he =>
      ⟨f.2, (Tree.entryOf_iff.1 he).2, (Bool.and_eq_true_iff.1 (hprints f hf)).2⟩

theorem prints_scalar_of_atom {b : Tree.Atom} (hb : b.prints = true) :
    h.Prints σ (.scalar b.scalar) := by
  refine .scalar ?_
  cases b with
  | int n => exact hb
  | _ => rfl

theorem IsDocument.prints (hv : h.IsDocument v) : h.Prints σ v := by
  obtain ⟨t, ht, hprints⟩ := hv
  induction ht using Unfolds.induction with
  | leaf b => exact prints_scalar_of_atom hprints
  | list hn _ ih =>
    rw [Tree.prints_list, List.all_eq_true] at hprints
    exact .collection hn rfl (forall_mem_left ih fun w t ht ⟨_, hw⟩ => hw (hprints t ht))
  | @dict a es fs hn _ _ ih =>
    rw [Tree.prints_dict, List.all_eq_true] at hprints
    have hes : ∀ e ∈ es, h.Prints σ e.1 ∧ h.Prints σ e.2 := by
      refine forall_mem_left ih fun e f hf he => ?_
      obtain ⟨hkey, _, hw⟩ := Tree.entryOf_iff.1 he
      obtain ⟨hk, ht⟩ := Bool.and_eq_true_iff.1 (hprints f hf)
      exact ⟨hkey ▸ prints_scalar_of_atom hk, hw ht⟩
    refine .collection hn rfl fun w hw => ?_
    rcases List.mem_append.1 hw with hw | hw
    · obtain ⟨e, he, rfl⟩ := List.mem_map.1 hw
      exact (hes e he).1
    · obtain ⟨e, he, rfl⟩ := List.mem_map.1 hw
      exact (hes e he).2

end Heap

namespace Json

variable {h H : Heap} {cs rest : List Char} {v : Value} {s : Scalar}

/-! ## Scalars -/

theorem isDigitRow_spanDigits (cs : List Char) : IsDigitRow (spanDigits cs).1 := fun _ hc =>
  List.mem_takeWhile_imp hc

theorem isDigitRow_of_readWhole? {ds : List Char} (hds : readWhole? cs = some (ds, rest)) :
    IsDigitRow ds := by
  unfold readWhole? at hds
  split at hds
  · cases hds
    exact List.forall_mem_singleton.2 rfl
  · split at hds
    · cases hds
    · obtain rfl : (spanDigits cs).1 = ds := congrArg Prod.fst (Option.some.inj hds)
      exact isDigitRow_spanDigits cs

/-- An integer of a row of digits that is not too long has a text. -/
theorem exists_atom_of_number? {negative : Bool} {whole part : List Char} {power : Option Int}
    (hrow : IsDigitRow whole) (hs : number? negative whole part power = some s) :
    ∃ b : Tree.Atom, s = b.scalar ∧ b.prints = true := by
  unfold number? at hs
  split at hs
  · split at hs
    · cases hs
    · next hshort =>
      cases hs
      refine ⟨.int _, rfl, ?_⟩
      have hlt : Text.digitsValue whole < 10 ^ maxDigits :=
        Nat.lt_of_lt_of_le (digitsValue_lt hrow)
          (Nat.pow_le_pow_right (by decide) (Nat.not_lt.1 hshort))
      rw [Tree.Atom.prints, Option.isSome_iff_ne_none, Ne, integerText?_eq_none_iff, Nat.not_le]
      cases negative with
      | true => rwa [if_pos rfl, Int.natAbs_neg, Int.natAbs_natCast]
      | false => rwa [if_neg Bool.false_ne_true, Int.natAbs_natCast]
  · cases hs
    exact ⟨.float _, rfl, rfl⟩

theorem exists_atom_of_readScalar? (hs : readScalar? cs = some (s, rest)) :
    ∃ b : Tree.Atom, s = b.scalar ∧ b.prints = true := by
  unfold readScalar? at hs
  split at hs
  · next w s' hw =>
    cases hs
    have hmem := List.mem_of_find?_eq_some hw
    simp only [words, List.mem_cons, Prod.mk.injEq, List.not_mem_nil, or_false] at hmem
    rcases hmem with ⟨-, rfl⟩ | ⟨-, rfl⟩ | ⟨-, rfl⟩ | ⟨-, rfl⟩ | ⟨-, rfl⟩ | ⟨-, rfl⟩
    · exact ⟨.null, rfl, rfl⟩
    · exact ⟨.bool true, rfl, rfl⟩
    · exact ⟨.bool false, rfl, rfl⟩
    all_goals exact ⟨.float _, rfl, rfl⟩
  · obtain ⟨⟨whole, after⟩, hwhole, hs⟩ := Option.bind_eq_some_iff.1 hs
    obtain ⟨s', hnumber, hs⟩ := Option.bind_eq_some_iff.1 hs
    cases hs
    exact exists_atom_of_number? (isDigitRow_of_readWhole? hwhole) hnumber

/-! ## Values -/

/-- Whether all that is read with some fuel is made of documents in new nodes. -/
structure ReadsDocuments (fuel : Nat) : Prop where
  value : ∀ {h cs v H rest}, readValue fuel h cs = some (v, H, rest) →
    h.Extends H ∧ H.IsDocument v
  items : ∀ {h cs vs H rest}, readItems fuel h cs = some (vs, H, rest) →
    h.Extends H ∧ ∀ w ∈ vs, H.IsDocument w
  pairs : ∀ {h cs es H rest}, readPairs fuel h cs = some (es, H, rest) →
    h.Extends H ∧ ∀ e ∈ es, (∃ s : String, e.1 = .scalar (.text s)) ∧ H.IsDocument e.2

theorem isDocument_text (h : Heap) (t : String) : h.IsDocument (.scalar (.text t)) :=
  Heap.isDocument_atom (b := .text t) rfl

theorem isDocument_allocList {items : List Value} (hitems : ∀ w ∈ items, h.IsDocument w) :
    h.Extends (h.alloc (.list items)).1 ∧
      (h.alloc (.list items)).1.IsDocument (.ref (h.alloc (.list items)).2) :=
  ⟨Heap.extends_alloc h _, Heap.isDocument_list (Heap.get?_alloc_self h _) fun w hw =>
    (hitems w hw).mono (Heap.extends_alloc h _)⟩

theorem isDocument_allocDict {pairs : List (Value × Value)}
    (hpairs : ∀ e ∈ pairs, (∃ s : String, e.1 = .scalar (.text s)) ∧ h.IsDocument e.2) :
    h.Extends (h.alloc (.dict .plain (Entries.ofList pairs))).1 ∧
      (h.alloc (.dict .plain (Entries.ofList pairs))).1.IsDocument
        (.ref (h.alloc (.dict .plain (Entries.ofList pairs))).2) := by
  have hext := Heap.extends_alloc h (.dict .plain (Entries.ofList pairs))
  have hkept := Entries.forall_mem_ofList (P := fun k => ∃ s : String, k = .scalar (.text s)) hpairs
  exact ⟨hext, Heap.isDocument_dict (Heap.get?_alloc_self h _) (Entries.distinct_ofList pairs)
    fun e he => ⟨(hkept e he).1, (hkept e he).2.mono hext⟩⟩

variable {fuel : Nat} {items : List Value} {es : Entries}

theorem ReadsDocuments.value_succ (ih : ReadsDocuments fuel)
    (hv : readValue (fuel + 1) h cs = some (v, H, rest)) : h.Extends H ∧ H.IsDocument v := by
  unfold readValue at hv
  split at hv
  · obtain ⟨⟨t, after⟩, -, hv⟩ := Option.bind_eq_some_iff.1 hv
    cases hv
    exact ⟨.refl h, isDocument_text h t⟩
  · split at hv
    · cases hv
      exact isDocument_allocList fun _ hw => absurd hw List.not_mem_nil
    · obtain ⟨⟨items, h₁, after⟩, hitems, hv⟩ := Option.bind_eq_some_iff.1 hv
      cases hv
      obtain ⟨hext, hall⟩ := ih.items hitems
      exact ⟨hext.trans (isDocument_allocList hall).1, (isDocument_allocList hall).2⟩
  · split at hv
    · cases hv
      exact isDocument_allocDict fun _ hw => absurd hw List.not_mem_nil
    · obtain ⟨⟨pairs, h₁, after⟩, hpairs, hv⟩ := Option.bind_eq_some_iff.1 hv
      cases hv
      obtain ⟨hext, hall⟩ := ih.pairs hpairs
      exact ⟨hext.trans (isDocument_allocDict hall).1, (isDocument_allocDict hall).2⟩
  · obtain ⟨⟨s, after⟩, hs, hv⟩ := Option.bind_eq_some_iff.1 hv
    cases hv
    obtain ⟨b, rfl, hb⟩ := exists_atom_of_readScalar? hs
    exact ⟨.refl h, Heap.isDocument_atom hb⟩

theorem ReadsDocuments.items_succ (ih : ReadsDocuments fuel)
    (hitems : readItems (fuel + 1) h cs = some (items, H, rest)) :
    h.Extends H ∧ ∀ w ∈ items, H.IsDocument w := by
  rw [readItems] at hitems
  obtain ⟨⟨v, h₁, after⟩, hv, hitems⟩ := Option.bind_eq_some_iff.1 hitems
  obtain ⟨hext, hdocument⟩ := ih.value hv
  dsimp only at hitems
  split at hitems
  · obtain ⟨⟨vs, h₂, more⟩, hvs, hitems⟩ := Option.bind_eq_some_iff.1 hitems
    cases hitems
    obtain ⟨hext', hall⟩ := ih.items hvs
    exact ⟨hext.trans hext', List.forall_mem_cons.2 ⟨hdocument.mono hext', hall⟩⟩
  · cases hitems
    exact ⟨hext, List.forall_mem_singleton.2 hdocument⟩
  · cases hitems

theorem ReadsDocuments.pairs_succ (ih : ReadsDocuments fuel)
    (hes : readPairs (fuel + 1) h cs = some (es, H, rest)) :
    h.Extends H ∧ ∀ e ∈ es, (∃ s : String, e.1 = .scalar (.text s)) ∧ H.IsDocument e.2 := by
  unfold readPairs at hes
  split at hes
  · obtain ⟨⟨k, after⟩, -, hes⟩ := Option.bind_eq_some_iff.1 hes
    dsimp only at hes
    split at hes
    · obtain ⟨⟨v, h₁, more⟩, hv, hes⟩ := Option.bind_eq_some_iff.1 hes
      obtain ⟨hext, hdocument⟩ := ih.value hv
      dsimp only at hes
      split at hes
      · obtain ⟨⟨es', h₂, others⟩, hes', hes⟩ := Option.bind_eq_some_iff.1 hes
        cases hes
        obtain ⟨hext', hall⟩ := ih.pairs hes'
        exact ⟨hext.trans hext',
          List.forall_mem_cons.2 ⟨⟨⟨k, rfl⟩, hdocument.mono hext'⟩, hall⟩⟩
      · cases hes
        exact ⟨hext, List.forall_mem_singleton.2 ⟨⟨k, rfl⟩, hdocument⟩⟩
      · cases hes
    · cases hes
  · cases hes

theorem readsDocuments (fuel : Nat) : ReadsDocuments fuel := by
  induction fuel with
  | zero => exact ⟨nofun, nofun, nofun⟩
  | succ fuel ih => exact ⟨ih.value_succ, ih.items_succ, ih.pairs_succ⟩

/-- What a JSON text is read as is a document. -/
theorem isDocument_of_read? {text : String} (hread : read? h text = some (v, H)) :
    h.Extends H ∧ H.IsDocument v := by
  unfold read? at hread
  dsimp only at hread
  split at hread
  · next v' H' rest hv =>
    split at hread
    · cases hread
      exact (readsDocuments _).value hv
    · cases hread
  · cases hread

end Json

end Dotpath

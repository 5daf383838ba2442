import Dotpath.Proofs.Document.Conversion
import Dotpath.Proofs.Document.PlainData
import Dotpath.Proofs.Document.PlainKeys

/-!
# Conversion without loss

The plain form of a document has a dictionary for each dictionary, with the same number of entries in
the same order, and a list for each list (`Heap.PlainForm`).  The conversion to plain data gives it
unless a dictionary, at any depth, has a date, a moment or a row of bytes for a key and its text for
another (`Heap.Clashing`): there the later of the two entries takes the place of the earlier one.
-/

namespace Dotpath

namespace Heap

/-! ## Plain forms -/

/-- Whether a value is the plain form of another one: containers part for part, dictionaries under the
keys of plain data. -/
inductive PlainForm (σ : Schema) (h H : Heap) : Value → Value → Prop
  | scalar (s : Scalar) : PlainForm σ h H (.scalar s) (.scalar s.plain)
  | tuple {items items' : List Value} {b : Address} (hb : H.get? b = some (.list items'))
      (hitems : List.Forall₂ (PlainForm σ h H) items items') : PlainForm σ h H (.tuple items) (.ref b)
  | list {items items' : List Value} {a b : Address}
      (ha : h.get? a = some (.list items) ∨ h.get? a = some (.set items))
      (hb : H.get? b = some (.list items')) (hitems : List.Forall₂ (PlainForm σ h H) items items') :
      PlainForm σ h H (.ref a) (.ref b)
  | dict {es es' : Entries} {a b : Address} (ha : h.get? a = some (.dict .plain es))
      (hb : H.get? b = some (.dict .plain es'))
      (hkeys : List.Forall₂ (fun k l => h.plainKey σ k = .ok l) es.keys es'.keys)
      (hvalues : List.Forall₂ (PlainForm σ h H) es.values es'.values) :
      PlainForm σ h H (.ref a) (.ref b)

/-- Whether keys clash in some dictionary that is part of a value, at any depth. -/
def Clashing (σ : Schema) (h : Heap) (v : Value) : Prop :=
  ∃ a es, Relation.ReflTransGen (h.IsPart σ) (.ref a) v ∧ h.get? a = some (.dict .plain es) ∧
    es.Clashes

variable {σ : Schema} {h H H' : Heap} {v w : Value} {a b : Address} {items items' : List Value}
  {es es' : Entries}

/-- Keys clash in a value itself, or in one of its parts. -/
theorem clashing_iff : h.Clashing σ v ↔
    (∃ a es, v = .ref a ∧ h.get? a = some (.dict .plain es) ∧ es.Clashes) ∨
      ∃ w ∈ h.parts σ v, h.Clashing σ w := by
  constructor
  · rintro ⟨a, es, hbelow, hn, hes⟩
    rcases Relation.ReflTransGen.cases_tail hbelow with rfl | ⟨w, hbelow, hw⟩
    · exact .inl ⟨a, es, rfl, hn, hes⟩
    · exact .inr ⟨w, hw, a, es, hbelow, hn, hes⟩
  · rintro (⟨a, es, rfl, hn, hes⟩ | ⟨w, hw, a, es, hbelow, hn, hes⟩)
    · exact ⟨a, es, .refl, hn, hes⟩
    · exact ⟨a, es, hbelow.tail hw, hn, hes⟩

theorem not_clashing_of_parts (hv : ∀ a es, v = .ref a → h.get? a ≠ some (.dict .plain es)) :
    ¬ h.Clashing σ v ↔ ∀ w ∈ h.parts σ v, ¬ h.Clashing σ w := by
  rw [clashing_iff, not_or, and_iff_right]
  · simp only [not_exists, not_and]
  · rintro ⟨a, es, rfl, hn, -⟩
    exact hv a es rfl hn

theorem not_clashing_scalar (s : Scalar) : ¬ h.Clashing σ (.scalar s) :=
  (not_clashing_of_parts (by rintro a es ⟨⟩)).2 fun _ hw => absurd hw List.not_mem_nil

theorem not_clashing_dict (hn : h.get? a = some (.dict .plain es))
    (hkeys : ∀ k ∈ es.keys, Yaml.IsLoadedKey k) :
    ¬ h.Clashing σ (.ref a) ↔ ¬ es.Clashes ∧ ∀ w ∈ es.values, ¬ h.Clashing σ w := by
  have hparts : h.parts σ (.ref a) = es.keys ++ es.values := parts_of_get? hn
  rw [clashing_iff, not_or, hparts]
  refine and_congr (not_congr ⟨?_, fun hes => ⟨a, es, rfl, hn, hes⟩⟩) ?_
  · rintro ⟨b, fs, ⟨⟩, hn', hfs⟩
    obtain ⟨-, rfl⟩ := Node.dict.inj (Option.some.inj (hn.symm.trans hn'))
    exact hfs
  · simp only [not_exists, not_and, List.mem_append]
    refine ⟨fun hall w hw => hall w (.inr hw), fun hall w hw => ?_⟩
    rcases hw with hw | hw
    · obtain ⟨s, rfl, -⟩ := hkeys w hw
      exact not_clashing_scalar s
    · exact hall w hw

/-! ## Conversions of parts -/

/-- Whether the conversion of a value is its plain form, on all later heaps, exactly if no keys
clash in the value. -/
def KeepsUnlessClashing (σ : Schema) (h H : Heap) (v w : Value) : Prop :=
  ∀ H', H.Extends H' → (PlainForm σ h H' v w ↔ ¬ h.Clashing σ v)

theorem stable_keepsUnlessClashing (σ : Schema) (h : Heap) : Stable (KeepsUnlessClashing σ h) :=
  fun _ _ _ _ hw hext H hH => hw H (hext.trans hH)

theorem forall₂_plainForm_iff (hitems : List.Forall₂ (KeepsUnlessClashing σ h H) items items')
    (hext : H.Extends H') : List.Forall₂ (PlainForm σ h H') items items' ↔
      ∀ v ∈ items, ¬ h.Clashing σ v := by
  induction hitems with
  | nil => exact ⟨fun _ v hv => absurd hv List.not_mem_nil, fun _ => .nil⟩
  | cons hv _ ih => rw [List.forall₂_cons, List.forall_mem_cons, hv H' hext, ih]

theorem plainForm_tuple_iff (hb : H.get? b = some (.list items')) :
    PlainForm σ h H (.tuple items) (.ref b) ↔ List.Forall₂ (PlainForm σ h H) items items' := by
  refine ⟨fun hform => ?_, .tuple hb⟩
  cases hform with
  | tuple hb' hitems =>
    obtain rfl := Node.list.inj (Option.some.inj (hb.symm.trans hb'))
    exact hitems

theorem plainForm_list_iff (ha : h.get? a = some (.list items) ∨ h.get? a = some (.set items))
    (hb : H.get? b = some (.list items')) :
    PlainForm σ h H (.ref a) (.ref b) ↔ List.Forall₂ (PlainForm σ h H) items items' := by
  refine ⟨fun hform => ?_, .list ha hb⟩
  cases hform with
  | list ha' hb' hitems =>
    obtain rfl := Node.list.inj (Option.some.inj (hb.symm.trans hb'))
    rcases ha with ha | ha <;> rcases ha' with ha' | ha' <;> cases ha.symm.trans ha'
    · exact hitems
    · exact hitems
  | dict ha' hb' => cases hb.symm.trans hb'

/-- Parts gathered in a new list, where the plain form of the whole is a list of plain forms. -/
theorem Converts.gather {f : Heap → Value → Except Fault (Value × Heap)}
    (hitems : ∀ w ∈ items, Converts (KeepsUnlessClashing σ h) f h w) (hH : h.Extends H)
    (hparts : h.parts σ v = items) (hv : ∀ a es, v = .ref a → h.get? a ≠ some (.dict .plain es))
    (hform : ∀ {H' b items'}, H'.get? b = some (.list items') →
      (PlainForm σ h H' v (.ref b) ↔ List.Forall₂ (PlainForm σ h H') items items')) :
    ∃ w H', (do let (items, H) ← convertAll f H items; return H.allocList items) = .ok (w, H') ∧
      H.Extends H' ∧ KeepsUnlessClashing σ h H' v w := by
  obtain ⟨items', H₁, hall, hext, hitems'⟩ :=
    Converts.all (stable_keepsUnlessClashing σ h) hitems hH
  refine ⟨.ref (H₁.alloc (.list items')).2, (H₁.alloc (.list items')).1,
    bind_eq_ok.2 ⟨_, hall, rfl⟩, hext.trans (extends_alloc H₁ _), fun H' hH' => ?_⟩
  rw [hform (hH' (get?_alloc_self H₁ (.list items'))), not_clashing_of_parts hv, hparts]
  exact forall₂_plainForm_iff hitems' ((extends_alloc H₁ _).trans hH')

/-- A dictionary of converted entries is the plain form of the old one exactly if the new keys
differ. -/
theorem plainForm_dict_iff (hn : h.get? a = some (.dict .plain es))
    (hkeys : List.Forall₂ (fun k l => h.plainKey σ k = .ok l) es.keys es'.keys)
    (hb : H.get? b = some (.dict .plain (Entries.ofList es'))) :
    PlainForm σ h H (.ref a) (.ref b) ↔
      es'.Distinct ∧ List.Forall₂ (PlainForm σ h H) es.values es'.values := by
  constructor
  · intro hform
    cases hform with
    | list hn' => rcases hn' with hn' | hn' <;> cases hn.symm.trans hn'
    | dict hn' hb' hkeys' hvalues =>
      obtain ⟨-, rfl⟩ := Node.dict.inj (Option.some.inj (hn.symm.trans hn'))
      obtain ⟨-, rfl⟩ := Node.dict.inj (Option.some.inj (hb.symm.trans hb'))
      have hlength := hkeys'.length_eq.symm.trans hkeys.length_eq
      rw [Entries.keys, Entries.keys, List.length_map, List.length_map] at hlength
      have hdistinct := Entries.distinct_of_length_ofList hlength
      rw [Entries.ofList_of_distinct hdistinct] at hvalues
      exact ⟨hdistinct, hvalues⟩
  · rintro ⟨hdistinct, hvalues⟩
    rw [Entries.ofList_of_distinct hdistinct] at hb
    exact .dict hn hb hkeys hvalues

theorem eq_map_asKey {ks ls : List Value} (hloaded : ∀ k ∈ ks, Yaml.IsLoadedKey k)
    (hkeys : List.Forall₂ (fun k l => h.plainKey σ k = .ok l) ks ls) : ls = ks.map Value.asKey := by
  induction hkeys with
  | nil => rfl
  | cons hl _ ih =>
    obtain ⟨hk, hloaded⟩ := List.forall_mem_cons.1 hloaded
    rw [plainKey_of_isLoadedKey σ h hk] at hl
    rw [List.map_cons, Except.ok.inj hl, ih hloaded]

/-- The entries of a dictionary are converted into those of a new one. -/
theorem Converts.dict {fuel : Nat} (hn : h.get? a = some (.dict .plain es)) (hdistinct : es.Distinct)
    (hkeys : ∀ k ∈ es.keys, Yaml.IsLoadedKey k)
    (hvalues : ∀ w ∈ es.values, Converts (KeepsUnlessClashing σ h) (plainWith σ fuel false) h w) :
    Converts (KeepsUnlessClashing σ h) (plainWith σ (fuel + 1) false) h (.ref a) := by
  intro H hH
  have hconverted : ∀ k ∈ es.keys, H.plainKey σ k = .ok k.asKey := fun k hk =>
    plainKey_of_isLoadedKey σ H (hkeys k hk)
  obtain ⟨es', H₁, hall, hext, hkeys', hvalues'⟩ := Converts.entries
    (stable_keepsUnlessClashing σ h) (fun k hk => ⟨_, hconverted k hk⟩) hvalues hH
  have hmap := eq_map_asKey hkeys hkeys'
  have hform : List.Forall₂ (fun k l => h.plainKey σ k = .ok l) es.keys es'.keys := by
    rw [hmap, List.forall₂_map_right_iff, List.forall₂_same]
    exact fun k hk => plainKey_of_isLoadedKey σ h (hkeys k hk)
  refine ⟨.ref (H₁.alloc (.dict .plain (Entries.ofList es'))).2, _, ?_,
    hext.trans (extends_alloc H₁ (.dict .plain (Entries.ofList es'))), fun H' hH' => ?_⟩
  · rw [plainWith, hH hn]
    exact bind_eq_ok.2 ⟨_, hall, rfl⟩
  · rw [plainForm_dict_iff hn hform (hH' (get?_alloc_self H₁ _)), not_clashing_dict hn hkeys,
      Entries.distinct_asKey_iff hkeys hdistinct hmap,
      forall₂_plainForm_iff hvalues' ((extends_alloc H₁ _).trans hH')]

end Heap

open Heap

/-- What was read is converted part for part. -/
theorem Yaml.Loads.converts {σ : Schema} {h₀ h : Heap} {v : Value} {fuel : Nat} (hloads : Loads h₀ h)
    (hv : IsItem h₀.nodes.size h.nodes.size v) (hfuel : h.EndsWithin σ fuel v) :
    Converts (KeepsUnlessClashing σ h) (plainWith σ fuel false) h v := by
  induction fuel generalizing v with
  | zero =>
    obtain ⟨_, hzero, -⟩ := hfuel.exists_succ
    cases hzero
  | succ fuel ih =>
    obtain ⟨_, ⟨⟩, hparts⟩ := hfuel.exists_succ
    cases hv with
    | pair hk hv =>
      have hitems : ∀ w ∈ h.parts σ (.tuple [_, _]), IsItem h₀.nodes.size h.nodes.size w :=
        List.forall_mem_cons.2 ⟨.value hk, List.forall_mem_singleton.2 (.value hv)⟩
      intro H hH
      rw [plainWith]
      exact Converts.gather (fun w hw => ih (hitems w hw) (hparts w hw)) hH rfl (by rintro a es ⟨⟩)
        plainForm_tuple_iff
    | value hv =>
      cases hv with
      | @scalar s hs =>
        intro H hH
        refine ⟨.scalar s.plain, H, ?_, .refl H, fun H' _ => ?_⟩
        · cases s <;> rfl
        · exact iff_of_true (.scalar s) (not_clashing_scalar s)
      | @ref a hlo hhi =>
        have hn : h.get? a = some h.nodes[a] := Array.getElem?_eq_getElem hhi
        rw [parts_of_get? hn] at hparts
        generalize h.nodes[a] = n at hn hparts
        cases hloads.new hlo hn with
        | @list items hitems =>
          intro H hH
          rw [plainWith, hH hn]
          exact Converts.gather (fun w hw => ih (hitems w hw) (hparts w hw)) hH (parts_of_get? hn)
            (by rintro b es ⟨⟩ hb; cases hn.symm.trans hb) (plainForm_list_iff (.inl hn))
        | @set items hitems =>
          intro H hH
          rw [plainWith, hH hn]
          exact Converts.gather (fun w hw => ih (hitems w hw) (hparts w hw)) hH (parts_of_get? hn)
            (by rintro b es ⟨⟩ hb; cases hn.symm.trans hb) (plainForm_list_iff (.inr hn))
        | dict hes =>
          exact .dict hn hes.distinct hes.keys fun w hw =>
            ih (.value (hes.values w hw)) (hparts w (List.mem_append_right _ hw))

namespace Yaml

/-- The plain form of a document that was read has all entries of every dictionary, in their order,
exactly if no key of a dictionary is the text of another. -/
theorem plainForm_iff (σ : Schema) {h H : Heap} {text : String} {v : Value}
    (hread : read h text = .ok (v, H)) (hacyclic : H.IsAcyclic σ v) :
    ∃ w H', H.plain σ v = .ok (w, H') ∧ H.Extends H' ∧
      (PlainForm σ H H' v w ↔ ¬ H.Clashing σ v) := by
  obtain ⟨hloads, hv⟩ := loads_of_read hread
  obtain ⟨n, hn, hends⟩ := hacyclic.endsWithin_fuel
  obtain ⟨w, H', hplain, hext, hform⟩ :=
    hloads.converts (.value hv) (hends.mono (Nat.le_of_lt hn)) H (.refl H)
  exact ⟨w, H', hplain, hext, hform H' (.refl H')⟩

/-! ### A time beside its text -/

section Times

open Build

variable {t : String} {s : Scalar}

theorem run_bind {α β : Type} {m : Build α} {f : α → Build β} {p q r : Building} {a : α} {b : β}
    (hm : m.run p = .ok (a, q)) (hf : (f a).run q = .ok (b, r)) : (m >>= f).run p = .ok (b, r) :=
  bind_eq_ok.2 ⟨_, hm, hf⟩

/-- A mapping under a time and under its quoted text, without values. -/
def timeNodes (t : String) : Array Node :=
  #[⟨.map, .mapping [(1, 2), (3, 4)]⟩, ⟨.timestamp, .scalar t⟩, ⟨.null, .scalar ""⟩,
    ⟨.str, .scalar t⟩, ⟨.null, .scalar ""⟩]

/-- The mapping while it is filled. -/
def timeState (t : String) (made : List (NodeId × Value)) : Building :=
  { heap := ⟨#[.dict .plain []]⟩, nodes := timeNodes t, made }

/-- The values of its nodes. -/
def timeValues (t : String) (s : Scalar) : List (NodeId × Value) :=
  [(4, .scalar .null), (3, .scalar (.text t)), (2, .scalar .null), (1, .scalar s), (0, .ref 0)]

/-- Its keys. -/
def timeKeys (t : String) (s : Scalar) : List (Key × Value) :=
  [(⟨some 1, .scalar s⟩, .scalar .null), (⟨some 3, .scalar (.text t)⟩, .scalar .null)]

/-- The dictionary that it becomes. -/
def timeHeap (t : String) (s : Scalar) : Heap := ⟨#[.dict .plain (Key.entries (timeKeys t s))]⟩

theorem value_time (hs : timeValue t = .ok s) :
    (value 1).run (timeState t [(0, .ref 0)]) =
      .ok (.scalar s, timeState t [(1, .scalar s), (0, .ref 0)]) := by
  have hscalar : Tag.scalar? .timestamp t = some (.ok s) := by rw [Tag.scalar?, hs]
  have hmake : (make 1).run (timeState t [(0, .ref 0)]) =
      .ok (.scalar s, timeState t [(0, .ref 0)]) := by
    refine run_bind (a := ⟨.timestamp, .scalar t⟩) rfl ?_
    refine run_bind (a := timeState t _) rfl (run_bind (a := t) rfl ?_)
    dsimp only
    rw [hscalar]
    rfl
  exact run_bind (a := timeState t _) rfl (run_bind hmake rfl)

theorem entries_time (hs : timeValue t = .ok s) :
    (entries 0).run (timeState t [(0, .ref 0)]) =
      .ok (Key.entries (timeKeys t s), timeState t (timeValues t s)) := by
  refine run_bind (a := ⟨.map, .mapping [(1, 2), (3, 4)]⟩) rfl ?_
  refine run_bind (q := timeState t [(0, .ref 0)]) rfl ?_
  refine run_bind (a := [(1, 2), (3, 4)]) (q := timeState t [(0, .ref 0)]) (by cbv) ?_
  refine run_bind (a := timeKeys t s) (q := timeState t (timeValues t s)) ?_ rfl
  rw [List.mapM_cons]
  have hnull : (value 2).run (timeState t [(1, .scalar s), (0, .ref 0)]) =
      .ok (.scalar .null, timeState t [(2, .scalar .null), (1, .scalar s), (0, .ref 0)]) := by cbv
  refine run_bind (run_bind (value_time hs) (run_bind (a := some 1) rfl (run_bind hnull rfl))) ?_
  refine run_bind (a := (timeKeys t s).tail) ?_ rfl
  cbv

theorem value_timeNodes (hs : timeValue t = .ok s) :
    Document.value ⟨timeNodes t, some 0⟩ {} = .ok (.ref 0, timeHeap t s) := by
  have hfill : (fillAll 6).run { timeState t [(0, .ref 0)] with waiting := [(0, 0)] } =
      .ok ((), { timeState t (timeValues t s) with heap := timeHeap t s }) := by
    refine run_bind (a := { timeState t [(0, .ref 0)] with waiting := [(0, 0)] }) rfl ?_
    refine run_bind (a := ()) (q := timeState t [(0, .ref 0)]) rfl ?_
    refine run_bind (run_bind (a := .map) rfl (run_bind (entries_time hs) rfl)) ?_
    exact run_bind (a := ()) rfl rfl
  refine bind_eq_ok.2 ⟨_, run_bind (a := .ref 0) ?_ (run_bind hfill rfl), rfl⟩
  rfl

theorem ofTokens_time (t : String) :
    Document.ofTokens [.flowMapping, .scalar t true, .flowEntry, .scalar t false, .flowMappingEnd] =
      .ok ⟨(timeNodes t).modify 1 ({ · with tag := Tag.ofPlain t }), some 0⟩ := by
  cbv

end Times

/-- A date beside its text. -/
def datedText : String := "\x7b2001-01-01, '2001-01-01'\x7d"

theorem read_datedText :
    read {} datedText = .ok (.ref 0, timeHeap "2001-01-01" (.date ⟨2001, 1, 1⟩)) := by
  have htokens : tokens datedText = .ok [.flowMapping, .scalar "2001-01-01" true, .flowEntry,
      .scalar "2001-01-01" false, .flowMappingEnd] := by
    have hchars : datedText.toList = ['\x7b', '2', '0', '0', '1', '-', '0', '1', '-', '0', '1', ',',
      ' ', '\'', '2', '0', '0', '1', '-', '0', '1', '-', '0', '1', '\'', '\x7d'] := rfl
    rw [tokens, hchars]
    cbv
  have hvalue : timeValue "2001-01-01" = .ok (.date ⟨2001, 1, 1⟩) := by
    have hchars : "2001-01-01".toList = ['2', '0', '0', '1', '-', '0', '1', '-', '0', '1'] := rfl
    rw [timeValue, hchars]
    cbv
  have htag : Tag.ofPlain "2001-01-01" = .timestamp := by decide
  have hdocument := ofTokens_time "2001-01-01"
  rw [htag] at hdocument
  exact bind_eq_ok.2 ⟨_, bind_eq_ok.2 ⟨_, htokens, hdocument⟩, value_timeNodes hvalue⟩

/-- The plain form of this document has lost an entry. -/
theorem not_plainForm_datedText : ∃ v H w H', read {} datedText = .ok (v, H) ∧ H.IsAcyclic {} v ∧
    H.plain {} v = .ok (w, H') ∧ ¬ PlainForm {} H H' v w := by
  have hacyclic : (timeHeap "2001-01-01" (.date ⟨2001, 1, 1⟩)).IsAcyclic {} (.ref 0) := by
    refine .intro _ fun w hw => ?_
    have hparts : (timeHeap "2001-01-01" (.date ⟨2001, 1, 1⟩)).parts {} (.ref 0) =
        [.scalar (.date ⟨2001, 1, 1⟩), .scalar (.text "2001-01-01"), .scalar .null,
          .scalar .null] := rfl
    rw [IsPart, hparts] at hw
    simp only [List.mem_cons, List.not_mem_nil, or_false] at hw
    rcases hw with rfl | rfl | rfl | rfl <;> exact isAcyclic_scalar _
  obtain ⟨w, H', hplain, -, hiff⟩ := plainForm_iff {} read_datedText hacyclic
  refine ⟨_, _, w, H', read_datedText, hacyclic, hplain, mt hiff.1 (not_not_intro ?_)⟩
  exact ⟨0, _, .refl, rfl, .date ⟨2001, 1, 1⟩, "2001-01-01", .head _, rfl, rfl, .tail _ (.head _)⟩

end Yaml

end Dotpath

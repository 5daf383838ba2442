import Mathlib.Data.List.Basic
import Dotpath.Proofs.Document.Copy
import Dotpath.Proofs.Document.Reading
import Dotpath.Proofs.Graph.Keys
import Dotpath.Proofs.Schema.Plain

/-!
# Keys of plain data

A date, a moment or a row of bytes is no key of plain data, and its text takes its place.  Different
keys of a document have different texts, so two of them become one only if the text of one is the
other (`Entries.distinct_asKey_iff`).  A dictionary of pairs has as many pairs only if their keys differ
(`Entries.distinct_of_length_ofList`).
-/

namespace Dotpath

/-! ## Keys -/

namespace Scalar

variable {s s' : Scalar} {t : String}

/-- The key of plain data that a scalar becomes. -/
def asKey (s : Scalar) : Scalar := if s.isPlainKey then s else .text (s.text?.getD "")

theorem asKey_of_isPlainKey (hs : s.isPlainKey = true) : s.asKey = s := if_pos hs

theorem exists_text? (hs : s.isLoaded = true) (hkey : s.isPlainKey = false) :
    ∃ t, s.text? = some t := by
  rcases cases_of_isLoaded hs hkey with ⟨bs, rfl⟩ | ⟨d, rfl⟩ | ⟨d, t, rfl⟩ <;> exact ⟨_, rfl⟩

theorem asKey_of_text? (hkey : s.isPlainKey = false) (ht : s.text? = some t) :
    s.asKey = .text t := by
  rw [asKey, hkey, ht]
  rfl

/-- A scalar of a document that is no key of plain data is one key with itself. -/
theorem equal_self (hs : s.isLoaded = true) (hkey : s.isPlainKey = false) : s.equal s = true := by
  rcases cases_of_isLoaded hs hkey with ⟨bs, rfl⟩ | ⟨d, rfl⟩ | ⟨d, t, rfl⟩
  · exact beq_self_eq_true (Scalar.bytes bs)
  · exact beq_self_eq_true (Scalar.date d)
  · unfold equal
    dsimp only [quantity?, plain]
    cases instant? d t with
    | none => exact Bool.and_eq_true_iff.2 ⟨beq_self_eq_true d, beq_self_eq_true t⟩
    | some i => exact beq_self_eq_true i

theorem plain_of_isLoaded (hs : s.isLoaded = true) : s.plain = s := by
  cases s with
  | machine type v => cases hs
  | _ => rfl

theorem equal_text_iff (hs : s.isLoaded = true) : s.equal (.text t) = true ↔ s = .text t := by
  constructor
  · intro h
    rw [← plain_of_isLoaded hs]
    exact (equal_of_isText (.inr ⟨t, rfl⟩) h).2
  · rintro rfl
    exact beq_self_eq_true (Scalar.text t)

theorem text_equal_iff (hs : s.isLoaded = true) : (Scalar.text t).equal s = true ↔ s = .text t := by
  constructor
  · intro h
    rw [← plain_of_isLoaded hs]
    exact (plain_eq_iff_of_equal (.inr ⟨t, rfl⟩) h).1 rfl
  · rintro rfl
    exact beq_self_eq_true (Scalar.text t)

/-- Two different keys become one exactly if one is the text of the other. -/
theorem equal_asKey_iff (hs : s.isLoaded = true) (hs' : s'.isLoaded = true)
    (hne : s.equal s' = false) :
    s.asKey.equal s'.asKey = true ↔
      s.isPlainKey = false ∧ s' = s.asKey ∨ s'.isPlainKey = false ∧ s = s'.asKey := by
  cases hkey : s.isPlainKey <;> cases hkey' : s'.isPlainKey
  · obtain ⟨t, ht⟩ := exists_text? hs hkey
    obtain ⟨t', ht'⟩ := exists_text? hs' hkey'
    rw [asKey_of_text? hkey ht, asKey_of_text? hkey' ht']
    constructor
    · intro h
      obtain rfl := Scalar.text.inj ((equal_text_iff rfl).1 h)
      obtain rfl := eq_of_text hs hs' hkey hkey' (ht.trans ht'.symm)
      rw [equal_self hs hkey] at hne
      cases hne
    · rintro (⟨-, rfl⟩ | ⟨-, rfl⟩)
      · cases hkey'
      · cases hkey
  · obtain ⟨t, ht⟩ := exists_text? hs hkey
    rw [asKey_of_text? hkey ht, asKey_of_isPlainKey hkey', text_equal_iff hs']
    simp
  · obtain ⟨t', ht'⟩ := exists_text? hs' hkey'
    rw [asKey_of_text? hkey' ht', asKey_of_isPlainKey hkey, equal_text_iff hs]
    simp
  · rw [asKey_of_isPlainKey hkey, asKey_of_isPlainKey hkey', hne]
    simp

end Scalar

/-- The key of plain data that a scalar becomes, as a value. -/
def Value.asKey : Value → Value
  | .scalar s => .scalar s.asKey
  | v => v

theorem Heap.plainKey_of_isLoadedKey (σ : Schema) (h : Heap) {k : Value} (hk : Yaml.IsLoadedKey k) :
    h.plainKey σ k = .ok k.asKey := by
  obtain ⟨s, rfl, hs⟩ := hk
  cases hkey : s.isPlainKey with
  | true => rw [plainKey, if_pos hkey, Value.asKey, Scalar.asKey_of_isPlainKey hkey]
  | false =>
    obtain ⟨t, ht⟩ := Scalar.exists_text? hs hkey
    rw [plainKey, if_neg (Bool.eq_false_iff.1 hkey), text_scalar, Value.asKey,
      Scalar.asKey_of_text? hkey ht, scalarText, ht]
    rfl

/-! ## Dictionaries -/

namespace Entries

/-- Whether the text of a key that is no key of plain data is a key too. -/
def Clashes (es : Entries) : Prop :=
  ∃ s t, .scalar s ∈ es.keys ∧ s.isPlainKey = false ∧ s.text? = some t ∧ .scalar (.text t) ∈ es.keys

variable {es es' : Entries}

/-- The keys of a document stay different exactly if none is the text of another. -/
theorem distinct_asKey_iff (hkeys : ∀ k ∈ es.keys, Yaml.IsLoadedKey k) (hes : es.Distinct)
    (hes' : es'.keys = es.keys.map Value.asKey) : es'.Distinct ↔ ¬ es.Clashes := by
  rw [Distinct, hes', List.pairwise_map]
  constructor
  · rintro hdistinct ⟨s, t, hs, hkey, ht, htext⟩
    -- Two keys that become the same text are the same key, whichever of them comes first.
    have hsame : es.keys.Pairwise fun k l =>
        ¬ (k.asKey = .scalar (.text t) ∧ l.asKey = .scalar (.text t)) := by
      refine hdistinct.imp fun hkl => ?_
      rintro ⟨hk, hl⟩
      rw [hk, hl, Value.equal_self rfl] at hkl
      cases hkl
    have hsymm : Std.Symm fun k l : Value =>
        ¬ (k.asKey = .scalar (.text t) ∧ l.asKey = .scalar (.text t)) :=
      ⟨fun _ _ h hkl => h hkl.symm⟩
    have hne : Value.scalar s ≠ .scalar (.text t) := by
      rintro ⟨⟩
      cases hkey
    exact hsame.forall hs htext hne ⟨congrArg Value.scalar (Scalar.asKey_of_text? hkey ht), rfl⟩
  · intro hclash
    refine List.Pairwise.imp_of_mem (fun {k l} hk hl hkl => Bool.eq_false_iff.2 fun hequal => ?_) hes
    obtain ⟨s, rfl, hs⟩ := hkeys k hk
    obtain ⟨s', rfl, hs'⟩ := hkeys l hl
    refine hclash ?_
    rcases (Scalar.equal_asKey_iff hs hs' hkl).1 hequal with ⟨hkey, heq⟩ | ⟨hkey, heq⟩
    · obtain ⟨t, ht⟩ := Scalar.exists_text? hs hkey
      rw [Scalar.asKey_of_text? hkey ht] at heq
      exact ⟨s, t, hk, hkey, ht, heq ▸ hl⟩
    · obtain ⟨t, ht⟩ := Scalar.exists_text? hs' hkey
      rw [Scalar.asKey_of_text? hkey ht] at heq
      exact ⟨s', t, hl, hkey, ht, heq ▸ hk⟩

theorem keys_ofList_sublist (pairs : List (Value × Value)) :
    (ofList pairs).keys.Sublist (keys pairs) := by
  have hfold : ∀ es : Entries,
      (keys (pairs.foldl (fun es e => put es e.1 e.2) es)).Sublist (es.keys ++ keys pairs) := by
    induction pairs with
    | nil => exact fun es => List.sublist_append_left es.keys _
    | cons e pairs ih =>
      intro es
      refine (ih (put es e.1 e.2)).trans ?_
      rcases keys_put es e.1 e.2 with hkeys | ⟨hkeys, -⟩
      · rw [hkeys]
        exact (List.sublist_cons_self _ _).append_left _
      · rw [hkeys, List.append_assoc]
        exact .refl _
  exact hfold []

/-- A dictionary of pairs has as many pairs only if their keys differ. -/
theorem distinct_of_length_ofList {pairs : Entries} (hlength : (ofList pairs).length = pairs.length) :
    pairs.Distinct := by
  have hkeys := (keys_ofList_sublist pairs).eq_of_length (by simpa [keys] using hlength)
  rw [Distinct, ← hkeys]
  exact distinct_ofList pairs

end Entries

end Dotpath

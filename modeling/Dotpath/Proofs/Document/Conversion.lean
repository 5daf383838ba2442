import Mathlib.Data.List.Forall2
import Dotpath.Document.Plain
import Dotpath.Proofs.Fault
import Dotpath.Proofs.Graph.Difference

/-!
# Conversions of values

A conversion adds nodes while it runs, and goes on with parts of the old heap.  `Heap.Converts` says of
a part that its conversion succeeds on every heap that has grown so, and how the result relates to the
part; for a relation that new nodes do not disturb, this passes to lists of parts and to entries.
-/

namespace Dotpath

namespace Heap

/-- Whether a conversion of a value gives one that is related to it, wherever the heap has been
extended to. -/
def Converts (R : Heap → Value → Value → Prop) (f : Heap → Value → Except Fault (Value × Heap))
    (h : Heap) (v : Value) : Prop :=
  ∀ H : Heap, h.Extends H → ∃ w H', f H v = .ok (w, H') ∧ H.Extends H' ∧ R H' v w

/-- Whether a relation of values stays true when the heap is extended. -/
def Stable (R : Heap → Value → Value → Prop) : Prop :=
  ∀ (H H' : Heap) (v w : Value), R H v w → H.Extends H' → R H' v w

variable {R : Heap → Value → Value → Prop} {f : Heap → Value → Except Fault (Value × Heap)}
  {h H : Heap}

theorem Converts.all (hR : Stable R) {items : List Value} (hitems : ∀ v ∈ items, Converts R f h v)
    (hH : h.Extends H) :
    ∃ items' H', convertAll f H items = .ok (items', H') ∧ H.Extends H' ∧
      List.Forall₂ (R H') items items' := by
  induction items generalizing H with
  | nil => exact ⟨[], H, rfl, .refl H, .nil⟩
  | cons v items ih =>
    obtain ⟨hv, hitems⟩ := List.forall_mem_cons.1 hitems
    obtain ⟨w, H₁, hf, hext, hw⟩ := hv H hH
    obtain ⟨items', H₂, hall, hext', hitems'⟩ := ih hitems (hH.trans hext)
    refine ⟨w :: items', H₂, ?_, hext.trans hext', .cons (hR _ _ _ _ hw hext') hitems'⟩
    exact bind_eq_ok.2 ⟨_, hf, bind_eq_ok.2 ⟨_, hall, rfl⟩⟩

theorem Converts.entries (hR : Stable R) {key : Value → Except Fault Value} {es : Entries}
    (hkeys : ∀ k ∈ es.keys, ∃ l, key k = .ok l) (hvalues : ∀ v ∈ es.values, Converts R f h v)
    (hH : h.Extends H) :
    ∃ es' H', convertEntries key f H es = .ok (es', H') ∧ H.Extends H' ∧
      List.Forall₂ (fun k l => key k = .ok l) es.keys es'.keys ∧
      List.Forall₂ (R H') es.values es'.values := by
  induction es generalizing H with
  | nil => exact ⟨[], H, rfl, .refl H, .nil, .nil⟩
  | cons e es ih =>
    obtain ⟨⟨l, hl⟩, hkeys⟩ := List.forall_mem_cons.1 hkeys
    obtain ⟨hv, hvalues⟩ := List.forall_mem_cons.1 hvalues
    obtain ⟨w, H₁, hf, hext, hw⟩ := hv H hH
    obtain ⟨es', H₂, hall, hext', hkeys', hvalues'⟩ := ih hkeys hvalues (hH.trans hext)
    refine ⟨(l, w) :: es', H₂, ?_, hext.trans hext', .cons hl hkeys',
      .cons (hR _ _ _ _ hw hext') hvalues'⟩
    exact bind_eq_ok.2 ⟨_, hl, bind_eq_ok.2 ⟨_, hf, bind_eq_ok.2 ⟨_, hall, rfl⟩⟩⟩

end Heap

end Dotpath

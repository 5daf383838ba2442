import Dotpath.Proofs.Graph.Hereditary
import Dotpath.Proofs.Walk.Leads

/-!
# Trails

The trail of a walk lists the containers at which it takes a step.  Each of them is reached from
those before it by one or more steps (`transGen_of_mem_trail`), and where a walk along a first part
of a path ends, the trail of the whole path goes on (`mem_trail_of_walk`).

A container holds what it has in its slots, or what its members are if it lies inline.  A step leads
from a container to a value that it holds, so no trail comes back to a container of an acyclic graph.

What passes from containers to all that lies in them passes along paths, if it does so with the
defaults that a walk may add (`Hereditary.leads`).
-/

namespace Dotpath

namespace Heap

variable {σ : Schema} {h : Heap} {keys : Option Deserializer} {p : Path}

theorem mem_trail_iff (hh : h.IsOrdinary σ) {v c : Value} {i j : Int} :
    (c, j) ∈ h.trail σ keys v p i ↔
      i < p.size ∧ v.isNull = false ∧ (c = v ∧ j = i ∨
        ∃ w, h.step σ keys v p i = .done w ∧ (c, j) ∈ h.trail σ keys w p (i + 1)) := by
  rw [trail, hh.leftByStep]
  split
  · next hi =>
    cases hv : v.isNull with
    | true => simp
    | false => cases h.step σ keys v p i <;> simp [hi]
  · next hi => simp [hi]

/-- What is on a trail is its start, or on the trail of the first step's result. -/
theorem mem_trail_induction (hh : h.IsOrdinary σ) {c : Value} {j : Int}
    {motive : Value → Int → Prop} (here : j < p.size → c.isNull = false → motive c j)
    (there : ∀ {v w : Value} {i : Int}, i < p.size → v.isNull = false →
      h.step σ keys v p i = .done w → (c, j) ∈ h.trail σ keys w p (i + 1) →
      motive w (i + 1) → motive v i)
    {v : Value} {i : Int} (hc : (c, j) ∈ h.trail σ keys v p i) : motive v i := by
  induction hn : (p.size - i).toNat generalizing v i with
  | zero =>
    have hi := ((mem_trail_iff hh).1 hc).1
    omega
  | succ n ih =>
    obtain ⟨hi, hv, ⟨rfl, rfl⟩ | ⟨w, hw, hc⟩⟩ := (mem_trail_iff hh).1 hc
    · exact here hi hv
    · exact there hi hv hw hc (ih hc (by omega))

theorem le_of_mem_trail (hh : h.IsOrdinary σ) {v c : Value} {i j : Int}
    (hc : (c, j) ∈ h.trail σ keys v p i) : i ≤ j := by
  refine mem_trail_induction hh (motive := fun _ i => i ≤ j) (fun _ _ => Int.le_refl j) ?_ hc
  intro v w i _ _ _ _ ih
  omega

theorem not_null_of_mem_trail (hh : h.IsOrdinary σ) {v c : Value} {i j : Int}
    (hc : (c, j) ∈ h.trail σ keys v p i) :
    c.isNull = false :=
  mem_trail_induction hh (motive := fun _ _ => c.isNull = false) (fun _ hc => hc)
    (fun _ _ _ _ ih => ih) hc

theorem lt_size_of_mem_trail (hh : h.IsOrdinary σ) {v c : Value} {i j : Int}
    (hc : (c, j) ∈ h.trail σ keys v p i) :
    j < p.size :=
  mem_trail_induction hh (motive := fun _ _ => j < p.size) (fun hj _ => hj)
    (fun _ _ _ _ ih => ih) hc

/-- A walk along the first part of a path ends on the trail of the path. -/
theorem mem_trail_of_walk (hh : h.IsOrdinary σ) {q : Path} (hkeys : SegmentOnly keys)
    (hpq : p.LiesIn q 0) (hlt : p.size < q.size) {v t : Value} (ht : t.isNull = false)
    {i : Int} (h₀ : 0 ≤ i)
    (hi : i ≤ p.size) (hw : h.walk σ keys v p i = .done t) :
    (t, (p.size : Int)) ∈ h.trail σ keys v q i := by
  induction hn : (p.size - i).toNat generalizing v i with
  | zero =>
    obtain rfl : i = p.size := by omega
    rw [walk_of_le (Int.le_refl _)] at hw
    cases hw
    exact (mem_trail_iff hh).2 ⟨by omega, ht, .inl ⟨rfl, rfl⟩⟩
  | succ n ih =>
    have hp : i < p.size := by omega
    cases hv : v.isNull with
    | true =>
      rw [walk_of_isNull hp hv] at hw
      exact absurd hw (failAt_ne_done _ _ _ _ _)
    | false =>
      rw [walk_of_lt hp hv, hh.leftByStep] at hw
      obtain ⟨w, hstep, hw⟩ := Outcome.bind_eq_done.1 hw
      obtain ⟨s, hps, hqs⟩ := hpq.segment_eq h₀ hp
      have hq := step_readdress (h := h) (σ := σ) hkeys hps hqs v
      rw [hstep, Int.add_zero] at hq
      exact (mem_trail_iff hh).2 ⟨by omega, hv, .inr ⟨w, hq, ih (by omega) (by omega) hw (by omega)⟩⟩

theorem mem_trail_of_leads (hh : h.IsOrdinary σ) {h' : Heap} {v c : Value} {i j : Int}
    (hc : Leads σ keys p h v i h' c j) (hj : j < p.size) (hnull : c.isNull = false) :
    (c, j) ∈ h.trail σ keys v p i := by
  induction hc with
  | here => exact (mem_trail_iff hh).2 ⟨hj, hnull, .inl ⟨rfl, rfl⟩⟩
  | @step h h' v w c i j hi hv hw _ ih =>
    rw [hh.leftByStep] at ih
    exact (mem_trail_iff hh).2 ⟨hi, hv, .inr ⟨w, hw, ih hh hj hnull⟩⟩

/-- A trail lists the containers to which the first segments of a path lead. -/
theorem mem_trail_iff_leads (hh : h.IsOrdinary σ) {v c : Value} {i j : Int} :
    (c, j) ∈ h.trail σ keys v p i ↔
      Leads σ keys p h v i h c j ∧ j < p.size ∧ c.isNull = false := by
  refine ⟨fun hc => ?_, fun ⟨hc, hj, hnull⟩ => mem_trail_of_leads hh hc hj hnull⟩
  refine mem_trail_induction hh (motive := fun v i =>
    Leads σ keys p h v i h c j ∧ j < p.size ∧ c.isNull = false)
    (fun hj hc => ⟨.here h c j, hj, hc⟩) ?_ hc
  intro v w i hi hv hw _ ih
  refine ⟨.step hi hv hw ?_, ih.2⟩
  rw [hh.leftByStep]
  exact ih.1

/-! ## Reachable values -/

/-- What a container holds. -/
inductive Holds (σ : Schema) (h : Heap) : Value → Value → Prop
  | slot {s : Slot} {w : Value} (hw : h.load σ s = some w) : Holds σ h (.ref s.address) w
  | member {c w : Value} {n : Nat} (hc : ∀ a, c ≠ .ref a) (hw : h.member? c n = some w) :
    Holds σ h c w

theorem member?_of_memberAt {c w : Value} {i : Int} (hw : h.memberAt c p i = .done w) :
    ∃ n, h.member? c n = some w := by
  obtain ⟨n, -, hw⟩ := Outcome.bind_eq_done.1 hw
  obtain ⟨size, -, hw⟩ := Outcome.bind_eq_done.1 hw
  refine ⟨n, ?_⟩
  split at hw
  · cases hw
  · split at hw
    · next hm =>
      cases hw
      exact (Option.ite_none_right_eq_some.1 hm).2
    · exact absurd hw (failAt_ne_done _ _ _ _ _)

/-- A step leads to a value that the container holds. -/
theorem holds_of_step (hh : h.IsOrdinary σ) {c w : Value} {i : Int}
    (hw : h.step σ keys c p i = .done w) : h.Holds σ c w := by
  cases c with
  | ref a =>
    rw [← Outcome.result?_eq_some, result?_step_ref hh] at hw
    obtain ⟨s, hs, hw⟩ := Option.bind_eq_some_iff.1 hw
    rw [eq_ref_of_slotAt? hs]
    exact .slot hw
  | scalar =>
    rw [← Outcome.result?_eq_some, result?_step_of_object rfl rfl] at hw
    cases hw
  | row a o shape =>
    rw [← Outcome.result?_eq_some, result?_step_of_object (classify_row hh a o shape) rfl] at hw
    cases hw
  | tuple | named | frozenSet | range =>
    obtain ⟨n, hw⟩ := member?_of_memberAt hw
    exact .member (fun a ha => by cases ha) hw

theorem reflTransGen_of_mem_trail (hh : h.IsOrdinary σ) {v c : Value} {i j : Int}
    (hc : (c, j) ∈ h.trail σ keys v p i) : Relation.ReflTransGen (h.Holds σ) v c := by
  refine mem_trail_induction hh (motive := fun v _ => Relation.ReflTransGen (h.Holds σ) v c)
    (fun _ _ => .refl) ?_ hc
  intro v w i _ _ hw _ ih
  exact .head (holds_of_step hh hw) ih

/-- What comes later on a trail is reached from what comes earlier. -/
theorem transGen_of_mem_trail (hh : h.IsOrdinary σ) {v c t : Value} {i j k : Int}
    (hc : (c, j) ∈ h.trail σ keys v p i) (ht : (t, k) ∈ h.trail σ keys v p i) (hjk : j < k) :
    Relation.TransGen (h.Holds σ) c t := by
  revert ht
  refine mem_trail_induction hh (motive := fun v i => (t, k) ∈ h.trail σ keys v p i →
    Relation.TransGen (h.Holds σ) c t) ?_ ?_ hc
  · intro _ _ ht
    obtain ⟨-, -, ⟨-, rfl⟩ | ⟨w, hw, ht⟩⟩ := (mem_trail_iff hh).1 ht
    · exact absurd hjk (Int.lt_irrefl _)
    · exact .head' (holds_of_step hh hw) (reflTransGen_of_mem_trail hh ht)
  · intro v w i _ _ hw hc ih ht
    obtain ⟨-, -, ⟨-, rfl⟩ | ⟨w', hw', ht⟩⟩ := (mem_trail_iff hh).1 ht
    · have := le_of_mem_trail hh hc
      omega
    · rw [hw] at hw'
      cases hw'
      exact ih ht

/-! ## Hereditary properties -/

theorem lookUp_of_entryAt {v w : Value} {i : Int} (hw : h.entryAt keys v p i = .done w) :
    ∃ k, mapKey keys p i = .done k ∧ (h.lookUp v k).1 = .ok (some w) := by
  obtain ⟨k, hk, hw⟩ := Outcome.bind_eq_done.1 hw
  obtain ⟨found, hfound, hw⟩ := Outcome.bind_eq_done.1 hw
  refine ⟨k, hk, ?_⟩
  cases found with
  | none => exact absurd hw (failAt_ne_done _ _ _ _ _)
  | some u =>
    cases hw
    exact Outcome.ofExcept_eq_done.1 hfound

theorem readProperty_of_propertyAt {v w : Value} {i : Int}
    (hw : h.propertyAt σ v p i = .done w) :
    ∃ name, h.readProperty σ v (some name) = .ok w := by
  have hresult := Outcome.result?_eq_some.2 hw
  rw [result?_propertyAt] at hresult
  obtain ⟨name, -, hread⟩ := Option.bind_eq_some_iff.1 hresult
  refine ⟨name, ?_⟩
  cases hr : h.readProperty σ v (some name) <;> simp_all [Except.toOption]

namespace Hereditary

variable {P : Value → Prop} {v w : Value} {i : Int}

theorem plainElement (hP : h.Hereditary σ P) (hw : P w) : P (Dotpath.plainElement w) := by
  cases w with
  | scalar s => exact hP.scalar s.plain
  | _ => exact hw

/-- A property passes on from the container of a step to its result if it is hereditary before and
after the step. -/
theorem step (hP : h.Hereditary σ P) (hleft : (h.leftByStep keys v p i).Hereditary σ P) (hv : P v)
    (hw : h.step σ keys v p i = .done w) : P w := by
  rw [Heap.step] at hw
  cases hkind : h.classify v with
  | sequence =>
    rw [hkind] at hw
    obtain ⟨n, hn⟩ := member?_of_memberAt hw
    exact hP.member? hv hn
  | array | primitiveArray =>
    rw [hkind] at hw
    obtain ⟨u, hu, hw⟩ := Outcome.bind_eq_done.1 hw
    obtain ⟨n, hn⟩ := member?_of_memberAt hu
    cases hw
    exact hP.plainElement (hP.member? hv hn)
  | mapping =>
    rw [hkind] at hw
    obtain ⟨k, hk, hfound⟩ := lookUp_of_entryAt hw
    rw [leftByStep, hkind, leftByStepInto, leftByEntry, hk] at hleft
    obtain hnull | ⟨a, rfl, hheld⟩ := lookUp_finds hfound
    · cases w with
      | scalar s => exact hP.scalar s
      | _ => cases hnull
    · exact hleft.heldBelow hv hheld
  | object =>
    rw [hkind] at hw
    obtain ⟨name, hread⟩ := readProperty_of_propertyAt hw
    exact hP.readProperty hv hread

end Hereditary

end Heap

end Dotpath

import Dotpath.Proofs.Walk.Append
import Dotpath.Proofs.Walk.Step

/-!
# Where the first segments of a path lead

`Heap.Leads` says that some segments of a path lead from a value to another one, with the heap that is
left there.  A walk ends where the segments lead as far as they lead: it has found the value
at the end of the path, or a step from the value in between fails or lets out a fault
(`walk_eq_fail_iff`, `walk_eq_escape_iff`).

It is a walk along the first part of the path if the deserializer looks at nothing but the segment it
is given (`leads_iff_walk_initial`).  So the segments before the last lead to the parent
(`leads_iff_parentOf`).
-/

namespace Dotpath

namespace Path

/-- The path of the first segments of a path. -/
def initial (p : Path) (k : Nat) : Path := ofSegments (p.segments.take k)

theorem size_initial {p : Path} {k : Nat} (hk : k ≤ p.size) : (p.initial k).size = k := by
  rw [initial, size_ofSegments, List.length_take]
  exact Nat.min_eq_left hk

theorem liesIn_initial (p : Path) (k : Nat) : (p.initial k).LiesIn p 0 := by
  apply liesIn_zero
  rw [initial, segments_ofSegments]
  exact List.take_prefix k p.segments

theorem exists_segment {p : Path} {i : Int} (h₀ : 0 ≤ i) (hi : i < p.size) :
    ∃ s, p.segment i = .ok s := by
  obtain ⟨n, rfl⟩ := Int.eq_ofNat_of_zero_le h₀
  have hn : n < p.segments.length := Int.ofNat_lt.1 hi
  exact ⟨_, segment_of_getElem? (List.getElem?_eq_getElem hn)⟩

theorem parent?_eq_initial {p : Path} (hp : 0 < p.size) :
    p.parent? = some (p.initial (p.size - 1)) := by
  have hne : p.segments.isEmpty = false := by
    rw [List.isEmpty_eq_false_iff_exists_mem]
    exact List.length_pos_iff_exists_mem.1 hp
  rw [parent?, isEmpty, hne, if_neg Bool.false_ne_true, initial, List.dropLast_eq_take]
  rfl

end Path

namespace Outcome

variable {α β : Type}

theorem bind_eq_fail {x : Outcome α} {g : α → Outcome β} {f : Failure} :
    x >>= g = .fail f ↔ x = .fail f ∨ ∃ a, x = .done a ∧ g a = .fail f := by
  cases x <;> simp [Bind.bind, bind]

theorem readdress_eq_done {x : Outcome α} {q : Path} {k : Int} {a : α} :
    x.readdress q k = .done a ↔ x = .done a := by
  cases x <;> simp [readdress]

end Outcome

namespace Heap

/-- Whether the segments of a path from one index up to another lead from a value to another one.  The
heap changes on the way as the steps leave it. -/
inductive Leads (σ : Schema) (keys : Option Deserializer) (p : Path) :
    Heap → Value → Int → Heap → Value → Int → Prop
  | here (h : Heap) (v : Value) (i : Int) : Leads σ keys p h v i h v i
  | step {h h' : Heap} {v w c : Value} {i j : Int} (hi : i < p.size) (hv : v.isNull = false)
    (hw : h.step σ keys v p i = .done w)
    (hrest : Leads σ keys p (h.leftByStep keys v p i) w (i + 1) h' c j) :
    Leads σ keys p h v i h' c j

variable {σ : Schema} {h h' : Heap} {keys : Option Deserializer} {p : Path} {v c w : Value}
  {i j : Int} {f : Failure} {e : Fault}

namespace Leads

theorem le (hc : Leads σ keys p h v i h' c j) : i ≤ j := by
  induction hc with
  | here => exact Int.le_refl _
  | step _ _ _ _ ih => omega

theorem addsDefaults (hc : Leads σ keys p h v i h' c j) : h.AddsDefaults (IsKeyOf keys) h' := by
  induction hc with
  | here => exact .refl
  | step _ _ _ _ ih => exact (addsDefaults_leftByStep _ _ _ _ _).trans ih

/-- A walk goes on from where its segments lead. -/
theorem walk_eq (hc : Leads σ keys p h v i h' c j) :
    h.walk σ keys v p i = h'.walk σ keys c p j := by
  induction hc with
  | here => rfl
  | step hi hv hw _ ih =>
    rw [walk_of_lt hi hv, hw, Outcome.done_bind]
    exact ih

theorem leftByWalk_eq (hc : Leads σ keys p h v i h' c j) :
    h.leftByWalk σ keys v p i = h'.leftByWalk σ keys c p j := by
  induction hc with
  | here => rfl
  | step hi hv hw _ ih =>
    rw [leftByWalk_of_done hi hv hw]
    exact ih

/-- Steps take the same course on a path that begins with the same segments. -/
theorem of_liesIn (hkeys : SegmentOnly keys) {q : Path} (hqp : q.LiesIn p 0) (h₀ : 0 ≤ i)
    (hc : Leads σ keys q h v i h' c j) : Leads σ keys p h v i h' c j := by
  induction hc with
  | here h v i => exact .here h v i
  | @step h h' v w c i j hi hv hw _ ih =>
    obtain ⟨s, hq, hp⟩ := hqp.segment_eq h₀ hi
    have hstep := step_readdress (h := h) (σ := σ) hkeys hq hp v
    have hleft := leftByStep_readdress (h := h) hkeys hq hp v
    rw [Int.add_zero] at hstep hleft
    rw [hw] at hstep
    refine .step (by have := hqp.size_le; omega) hv hstep ?_
    rw [hleft]
    exact ih (by omega)

theorem to_liesIn (hkeys : SegmentOnly keys) {q : Path} (hqp : q.LiesIn p 0) (h₀ : 0 ≤ i)
    (hj : j ≤ q.size) (hc : Leads σ keys p h v i h' c j) : Leads σ keys q h v i h' c j := by
  induction hc with
  | here h v i => exact .here h v i
  | @step h h' v w c i j _ hv hw hrest ih =>
    have hi : i < q.size := by have := hrest.le; omega
    obtain ⟨s, hq, hp⟩ := hqp.segment_eq h₀ hi
    have hstep := step_readdress (h := h) (σ := σ) hkeys hq hp v
    have hleft := leftByStep_readdress (h := h) hkeys hq hp v
    rw [Int.add_zero] at hstep hleft
    rw [hw] at hstep
    refine .step hi hv (Outcome.readdress_eq_done.1 hstep.symm) ?_
    rw [← hleft]
    exact ih (by omega) hj

end Leads

/-- How a walk ends: at the end of the path, at null, or with a step that finds nothing. -/
theorem leads_cases (σ : Schema) (h : Heap) (keys : Option Deserializer) (v : Value) (p : Path)
    {i : Int} (hi : i ≤ p.size) :
    ∃ h' c j, Leads σ keys p h v i h' c j ∧ j ≤ p.size ∧
      (j = p.size ∨ c.isNull = true ∨ ∀ w, h'.step σ keys c p j ≠ .done w) := by
  induction hn : (p.size - i).toNat generalizing h v i with
  | zero => exact ⟨h, v, i, .here h v i, hi, .inl (by omega)⟩
  | succ n ih =>
    have hlt : i < p.size := by omega
    cases hv : v.isNull with
    | true => exact ⟨h, v, i, .here h v i, hi, .inr (.inl hv)⟩
    | false =>
      cases hw : h.step σ keys v p i with
      | done w =>
        obtain ⟨h', c, j, hc, hj, hend⟩ :=
          ih (h.leftByStep keys v p i) w (i := i + 1) (by omega) (by omega)
        exact ⟨h', c, j, .step hlt hv hw hc, hj, hend⟩
      | fail | escape => exact ⟨h, v, i, .here h v i, hi, .inr (.inr (by simp [hw]))⟩

theorem walk_eq_done_iff (hi : i ≤ p.size) :
    h.walk σ keys v p i = .done w ↔
      Leads σ keys p h v i (h.leftByWalk σ keys v p i) w p.size := by
  constructor
  · intro hw
    obtain ⟨h', c, j, hc, hj, hend⟩ := leads_cases σ h keys v p hi
    rw [hc.walk_eq] at hw
    rw [hc.leftByWalk_eq]
    by_cases hlast : j = p.size
    · subst hlast
      rw [walk_of_le (Int.le_refl _)] at hw
      rw [leftByWalk_of_le (Int.le_refl _)]
      cases hw
      exact hc
    · have hlt : j < p.size := by omega
      cases hnull : c.isNull with
      | true =>
        rw [walk_of_isNull hlt hnull] at hw
        exact absurd hw (failAt_ne_done _ _ _ _ _)
      | false =>
        rw [walk_of_lt hlt hnull] at hw
        obtain ⟨u, hu, -⟩ := Outcome.bind_eq_done.1 hw
        rcases hend with hend | hend | hend
        · exact absurd hend hlast
        · cases hnull.symm.trans hend
        · exact absurd hu (hend u)
  · intro hc
    rw [hc.walk_eq]
    exact walk_of_le (Int.le_refl _)

/-- Where the first segments of a path lead is where the walk along them ends. -/
theorem leads_iff_walk_initial (hkeys : SegmentOnly keys) {k : Nat} (hk : k ≤ p.size) :
    Leads σ keys p h v 0 h' c k ↔
      h.walk σ keys v (p.initial k) 0 = .done c ∧ h' = h.leftByWalk σ keys v (p.initial k) 0 := by
  have hsize := Path.size_initial hk
  have hin := p.liesIn_initial k
  constructor
  · intro hc
    have hfirst : Leads σ keys (p.initial k) h v 0 h' c (p.initial k).size := by
      rw [hsize]
      exact hc.to_liesIn hkeys hin (Int.le_refl 0) (by rw [hsize])
    refine ⟨hfirst.walk_eq.trans (walk_of_le (Int.le_refl _)), ?_⟩
    rw [hfirst.leftByWalk_eq, leftByWalk_of_le (Int.le_refl _)]
  · rintro ⟨hw, rfl⟩
    have hfirst := (walk_eq_done_iff (by omega)).1 hw
    rw [hsize] at hfirst
    exact hfirst.of_liesIn hkeys hin (Int.le_refl 0)

/-- A walk fails where its segments lead to null, or to a value whose step fails. -/
theorem walk_eq_fail_iff (hi : i ≤ p.size) :
    h.walk σ keys v p i = .fail f ↔ ∃ h' c j, Leads σ keys p h v i h' c j ∧ j < p.size ∧
      (c.isNull = true ∧ (failAt .nullValue p j none : Outcome Value) = .fail f ∨
        c.isNull = false ∧ h'.step σ keys c p j = .fail f) := by
  constructor
  · intro hf
    obtain ⟨h', c, j, hc, hj, hend⟩ := leads_cases σ h keys v p hi
    rw [hc.walk_eq] at hf
    by_cases hlast : j = p.size
    · rw [walk_of_le (Int.le_of_eq hlast.symm)] at hf
      cases hf
    · have hlt : j < p.size := by omega
      refine ⟨h', c, j, hc, hlt, ?_⟩
      cases hnull : c.isNull with
      | true =>
        rw [walk_of_isNull hlt hnull] at hf
        exact .inl ⟨rfl, hf⟩
      | false =>
        rw [walk_of_lt hlt hnull] at hf
        rcases Outcome.bind_eq_fail.1 hf with hf | ⟨u, hu, -⟩
        · exact .inr ⟨rfl, hf⟩
        · rcases hend with hend | hend | hend
          · exact absurd hend hlast
          · cases hnull.symm.trans hend
          · exact absurd hu (hend u)
  · rintro ⟨h', c, j, hc, hlt, ⟨hnull, hf⟩ | ⟨hnull, hf⟩⟩
    · rw [hc.walk_eq, walk_of_isNull hlt hnull]
      exact hf
    · rw [hc.walk_eq, walk_of_lt hlt hnull, hf]
      rfl

theorem parentOf_eq_walk (hp : 0 < p.size) :
    h.parentOf σ keys v p = h.walk σ keys v (p.initial (p.size - 1)) 0 >>= fun c =>
      .done (c, if p.size = 1 then 0 else (p.size : Int) - 2) := by
  have hsize : (p.initial (p.size - 1)).size = p.size - 1 := Path.size_initial (Nat.sub_le _ _)
  rw [parentOf, Path.parent?_eq_initial hp]
  dsimp only
  split
  · next hone => rw [walk_of_le (by rw [hsize, hone]; exact Int.le_refl 0), Outcome.done_bind]
  · next hone =>
    have hlast : (p.initial (p.size - 1)).lastIndex = (p.size : Int) - 2 := by
      rw [Path.lastIndex, hsize]
      omega
    rw [hlast]
    rfl

theorem leftByParent_eq_leftByWalk (hp : 0 < p.size) :
    h.leftByParent σ keys v p = h.leftByWalk σ keys v (p.initial (p.size - 1)) 0 := by
  have hsize : (p.initial (p.size - 1)).size = p.size - 1 := Path.size_initial (Nat.sub_le _ _)
  rw [leftByParent, Path.parent?_eq_initial hp]
  dsimp only
  split
  · next hone => rw [leftByWalk_of_le (by rw [hsize, hone]; exact Int.le_refl 0)]
  · rfl

/-- The segments before the last lead to the parent. -/
theorem leads_iff_parentOf (hkeys : SegmentOnly keys) (hp : 0 < p.size) :
    Leads σ keys p h v 0 h' c p.lastIndex ↔
      (∃ j, h.parentOf σ keys v p = .done (c, j)) ∧ h' = h.leftByParent σ keys v p := by
  have hlast : p.lastIndex = ((p.size - 1 : Nat) : Int) := by
    rw [Path.lastIndex]
    omega
  rw [hlast, leads_iff_walk_initial hkeys (Nat.sub_le _ _), parentOf_eq_walk hp,
    leftByParent_eq_leftByWalk hp]
  refine and_congr_left' ?_
  cases h.walk σ keys v (p.initial (p.size - 1)) 0 <;> simp [Bind.bind, Outcome.bind]

end Heap

end Dotpath

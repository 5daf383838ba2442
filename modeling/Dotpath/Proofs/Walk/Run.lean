import Dotpath.Proofs.Graph.Objects
import Dotpath.Proofs.Walk.OneSlot
import Dotpath.Proofs.Walk.Policy

/-!
# Runs of writes

A run is a list of calls that write, each with a walker, a host and values of its own.

Of the objects of a heap, a write leaves all as they are, or it leaves what writing one property of one
of them leaves, also where this fails (`objects_of_writePath`).  So what both preserve, a run preserves
(`runWrites_invariant`).
-/

namespace Dotpath

/-! ## Objects -/

namespace Heap

variable {σ : Schema} {h h' h'' : Heap} {keys : Option Deserializer} {c v : Value} {p : Path}

theorem AddsDefaults.keepsObjects {K : Value → Prop} (hadds : h.AddsDefaults K h') :
    h.KeepsObjects σ h' where
  objects a type attrs := ⟨fun ha => hadds.get?_of_later ha (by rintro ⟨⟩) (by rintro es ⟨⟩),
    fun ha => hadds.get? ha (by rintro es ⟨⟩)⟩
  classes := by
    intro a n hn
    by_cases hdict : ∃ es, n = .dict .defaulting es
    · obtain ⟨es, rfl⟩ := hdict
      obtain ⟨new, hnew⟩ := hadds.get?_dict hn
      exact ⟨_, hnew, rfl⟩
    · exact ⟨n, hadds.get? hn (not_exists.1 hdict), rfl⟩

theorem exists_object_of_writeProperty {name : Segment} (hwrite : h.writeProperty σ c name v = .ok h') :
    ∃ a type attrs, c = .ref a ∧ h.get? a = some (.object type attrs) := by
  cases hobject : h.object? c with
  | none =>
    rw [writeProperty_of_not_object hobject] at hwrite
    cases hwrite
  | some o =>
    obtain ⟨a, type, attrs⟩ := o
    exact ⟨a, type, attrs, get?_of_object? hobject⟩

/-- What a successful assignment does to the objects. -/
theorem put_objects (hput : h.put σ keys c p v = .done h') :
    h.KeepsObjects σ h' ∨ ∃ a type attrs name, c = .ref a ∧ h.get? a = some (.object type attrs) ∧
      nameAt p p.lastIndex = .done name ∧ h.writeProperty σ (.ref a) (some name) v = .ok h' := by
  rw [put] at hput
  cases hkind : h.classify c with
  | sequence =>
    rw [hkind] at hput
    obtain ⟨n, -, hset⟩ := putMember_eq_done hput
    exact .inl (keepsObjects_of_setItem hset)
  | array =>
    rw [hkind] at hput
    obtain ⟨n, -, hset⟩ := putElement_eq_done hput
    exact .inl (keepsObjects_of_setItem hset)
  | primitiveArray =>
    rw [hkind] at hput
    obtain ⟨n, -, hset⟩ := putMachine_eq_done hput
    exact .inl (keepsObjects_of_setItem hset)
  | mapping =>
    rw [hkind] at hput
    obtain ⟨k, -, hset⟩ := putKeyed_eq_done hput
    exact .inl (keepsObjects_of_setKey hset)
  | object =>
    rw [hkind] at hput
    obtain ⟨name, hname, hwrite⟩ := putProperty_eq_done hput
    obtain ⟨a, type, attrs, rfl, hget⟩ := exists_object_of_writeProperty hwrite
    exact .inr ⟨a, type, attrs, name, rfl, hget, hname, hwrite⟩

/-- A write assigns to the value that the path before its last segment leads to. -/
theorem exists_put_of_write {host : Value} (hw : h.write σ keys host p v = .done h') :
    ∃ t j, h.parentOf σ keys host p = .done (t, j) ∧
      (h.leftByParent σ keys host p).put σ keys t p v = .done h' := by
  obtain ⟨⟨t, j⟩, hp, hput⟩ := Outcome.bind_eq_done.1 hw
  dsimp only at hput
  split at hput
  · exact absurd hput (failAt_ne_done _ _ _ _ _)
  · exact ⟨t, j, hp, hput⟩

end Heap

/-- Of the objects, a write leaves all as the walk to the parent does, or it leaves what writing a
property of one of them leaves. -/
theorem Walker.objects_of_writePath (w : Walker) (σ : Schema) (h : Heap) (host : Value) (p : Path)
    (v : Value) :
    ∃ h₁, h.KeepsObjects σ h₁ ∧ (h₁.KeepsObjects σ (w.writePath σ h host p v).heap ∨
      ∃ c name, (w.writePath σ h host p v).heap = Heap.heapLeft (h₁.writeProperty σ c (some name) v)) := by
  refine ⟨h.leftByParent σ w.keys host p,
    (Heap.addsDefaults_leftByParent σ h w.keys host p).keepsObjects, ?_⟩
  by_cases hw : ∃ h', h.write σ w.keys host p v = .done h'
  · obtain ⟨h', hw⟩ := hw
    rw [w.heap_writePath_of_done hw]
    obtain ⟨t, j, -, hput⟩ := Heap.exists_put_of_write hw
    rcases Heap.put_objects hput with hkeeps | ⟨a, type, attrs, name, -, -, -, hwrite⟩
    · exact .inl hkeeps
    · exact .inr ⟨.ref a, name, by rw [hwrite]; rfl⟩
  · rw [w.heap_writePath_of_not_done (not_exists.1 hw)]
    rcases Heap.leftByWrite_cases (not_exists.1 hw) with hleft | ⟨c, j, name, f, -, -, -, -, hwrite⟩
    · exact .inl (hleft ▸ .refl σ _)
    · exact .inr ⟨c, name, by rw [hwrite]; rfl⟩

/-- A call of a walker that writes. -/
inductive WriteCall where
  /-- One value, along the first path of the walker. -/
  | one (w : Walker) (host v : Value)
  /-- Several values, one along each path of the walker. -/
  | several (w : Walker) (host : Value) (values : List Value)

/-- The heap that a call leaves. -/
def WriteCall.heap (σ : Schema) (h : Heap) : WriteCall → Heap
  | one w host v => (w.write σ h host v).heap
  | several w host values => (w.writeValues σ h host values).heap

/-- The heap that several calls leave, one after the other. -/
def runWrites (σ : Schema) (h : Heap) (calls : List WriteCall) : Heap :=
  calls.foldl (WriteCall.heap σ) h

/-! ## Invariants -/

section Invariant

variable {σ : Schema} {P : Heap → Prop}
  (hkeeps : ∀ {h h' : Heap}, P h → h.KeepsObjects σ h' → P h')
  (hwrites : ∀ {h : Heap} {c : Value} {name : String} {v : Value}, P h →
    P (Heap.heapLeft (h.writeProperty σ c (some name) v)))

include hkeeps hwrites

theorem Walker.writePath_invariant (w : Walker) {h : Heap} (hP : P h) (host : Value) (p : Path)
    (v : Value) : P (w.writePath σ h host p v).heap := by
  obtain ⟨h₁, hfirst, hlast | ⟨c, name, hleft⟩⟩ := w.objects_of_writePath σ h host p v
  · exact hkeeps (hkeeps hP hfirst) hlast
  · rw [hleft]
    exact hwrites (hkeeps hP hfirst)

theorem Walker.writeEach_invariant (w : Walker) {h : Heap} (hP : P h) (host : Value) (count : Nat)
    (entries : List (Path × Value)) : P (w.writeEach σ h host count entries).heap := by
  induction entries generalizing h count with
  | nil => exact hP
  | cons e entries ih =>
    have hfirst := w.writePath_invariant hkeeps hwrites hP host e.1 e.2
    rw [Walker.writeEach, Report.andThen]
    split
    · exact hfirst
    · exact ih hfirst _

theorem WriteCall.heap_invariant (call : WriteCall) {h : Heap} (hP : P h) : P (call.heap σ h) := by
  cases call with
  | one w host v => exact w.writePath_invariant hkeeps hwrites hP host _ v
  | several w host values =>
    rw [WriteCall.heap, Walker.writeValues]
    split
    · exact hP
    · have heach := w.writeEach_invariant hkeeps hwrites hP host 0 (w.paths.zip values)
      rw [Report.andThen]
      split
      · exact heach
      · exact heach

/-- What changes beside the objects and writes of properties preserve, a run preserves. -/
theorem runWrites_invariant {h : Heap} (hP : P h) (calls : List WriteCall) :
    P (runWrites σ h calls) := by
  induction calls generalizing h with
  | nil => exact hP
  | cons call calls ih => exact ih (call.heap_invariant hkeeps hwrites hP)

end Invariant

end Dotpath

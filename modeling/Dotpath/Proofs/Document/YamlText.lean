import Dotpath.Proofs.Document.Text

/-!
# YAML texts of documents

Before a document is printed in YAML its collections are met one by one, and one that is met again
gets an anchor.  In a copy that is laid out none is (`LaidOut.meet`), so what is written is the text
of the tree (`Unfolds.put`).
-/

namespace Dotpath

namespace Heap

variable {σ : Schema} {h : Heap} {a : Address} {v : Value} {t : Tree} {fuel lo hi : Nat}

theorem ofScalar_atom (a : Tree.Atom) :
    Yaml.Written.ofScalar a.scalar = provided a.prints (.text a.tag a.yaml) := by
  cases a with
  | int n =>
    rw [Tree.Atom.scalar, Yaml.Written.ofScalar, scalarText_int]
    exact provided_return _ _ _
  | null | bool | float | text => rfl

/-! ## Collections that are met once -/

/-- Whether none of the collections met so far lies in a range. -/
def Avoids (m : Yaml.Met) (lo hi : Nat) : Prop := ∀ b : Nat, b ∈ m.once → b < lo ∨ hi ≤ b

/-- Whether some collections have been met since, all for the first time and in a range. -/
structure MetOnce (lo hi : Nat) (m m' : Yaml.Met) : Prop where
  again : m'.again = m.again
  once : ∀ b : Nat, b ∈ m'.once → b ∈ m.once ∨ lo ≤ b ∧ b < hi

/-- Whether something in a range can be met by whatever avoids the range; `printed` tells whether it
can be written. -/
structure Meets {α : Type} (f : Yaml.Met → α → Except Fault Yaml.Met) (x : α) (printed : Bool)
    (lo hi : Nat) : Prop where
  le : lo ≤ hi
  meet : ∀ m, Avoids m lo hi → ∃ m', f m x = provided printed m' ∧ MetOnce lo hi m m'

theorem Meets.foldlM {α β : Type} {f : Yaml.Met → α → Except Fault Yaml.Met} {printed : β → Bool}
    {xs : List α} {bs : List β} (hxs : Chain (fun x b => Meets f x (printed b)) xs bs lo hi) :
    Meets (fun m (xs : List α) => xs.foldlM f m) xs (bs.all printed) lo hi := by
  induction hxs with
  | nil lo => exact ⟨Nat.le_refl lo, fun m _ => ⟨m, rfl, rfl, fun _ hb => .inl hb⟩⟩
  | cons hx _ ih =>
    have hle := hx.le
    refine ⟨Nat.le_trans hle ih.le, fun m hm => ?_⟩
    obtain ⟨m₁, hf, honce⟩ := hx.meet m fun b hb => by
      have := hm b hb
      have := ih.le
      omega
    obtain ⟨m₂, hall, honce'⟩ := ih.meet m₁ fun b hb => by
      rcases honce.once b hb with hb | hb
      · have := hm b hb
        omega
      · omega
    refine ⟨m₂, ?_, honce'.again.trans honce.again, fun b hb => ?_⟩
    · rw [List.foldlM_cons, hf, List.all_cons]
      exact provided_bind hall
    · have := ih.le
      rcases honce'.once b hb with hb | hb
      · exact (honce.once b hb).imp id (by omega)
      · exact .inr (by omega)

/-- A container is met together with its parts, which lie before it. -/
theorem Meets.container {printed : Bool} {f : Yaml.Met → Except Fault Yaml.Met}
    (hparts : Meets (fun m _ => f m) () printed lo a)
    (hf : ∀ m, m.once.contains a = false →
      Yaml.meet h (fuel + 1) m (.ref a) = f { m with once := a :: m.once }) :
    Meets (Yaml.meet h (fuel + 1)) (.ref a) printed lo (a + 1) := by
  refine ⟨Nat.le_succ_of_le hparts.le, fun m hm => ?_⟩
  have hle := hparts.le
  have hnot : m.once.contains a = false := Bool.eq_false_iff.2 fun ha => by
    have := hm a (List.contains_iff_mem.1 ha)
    omega
  obtain ⟨m', hmeet, honce⟩ := hparts.meet { m with once := a :: m.once } fun b hb => by
    rcases List.mem_cons.1 hb with rfl | hb
    · exact .inr (Nat.le_refl _)
    · have := hm b hb
      omega
  refine ⟨m', (hf m hnot).trans hmeet, honce.again, fun b hb => ?_⟩
  rcases honce.once b hb with hb | hb
  · rcases List.mem_cons.1 hb with rfl | hb
    · exact .inr (by omega)
    · exact .inl hb
  · exact .inr (by omega)

theorem meet_key (k : Tree.Key) (hfuel : 0 < fuel) (m : Yaml.Met) :
    Yaml.meet h fuel m k.value = provided k.atom.prints m := by
  obtain ⟨fuel, rfl⟩ := Nat.exists_eq_succ_of_ne_zero (Nat.ne_of_gt hfuel)
  rw [Tree.Key.value, Yaml.meet, ofScalar_atom]
  exact provided_return _ _ _

theorem LaidOut.meet (hv : h.LaidOut v t lo hi) (hfuel : t.height ≤ fuel) :
    Meets (Yaml.meet h fuel) v t.prints lo hi := by
  induction hv using induction generalizing fuel with
  | leaf b lo =>
    obtain ⟨fuel, rfl⟩ := Tree.exists_succ_of_height_le hfuel
    refine ⟨Nat.le_refl lo, fun m _ => ⟨m, ?_, rfl, fun _ hb => .inl hb⟩⟩
    rw [Yaml.meet, ofScalar_atom]
    exact provided_return _ _ _
  | @list b items ts lo hn hitems ih =>
    obtain ⟨fuel, rfl⟩ := Tree.exists_succ_of_height_le hfuel
    have hparts : Chain (fun v t => Meets (Yaml.meet h fuel) v t.prints) items ts lo b :=
      ih.imp fun hu ⟨_, hw⟩ => hw (Tree.height_le_of_mem_list hfuel hu)
    rw [Tree.prints_list]
    have hall := Meets.foldlM hparts
    refine Meets.container ⟨hall.le, hall.meet⟩ fun m hm => ?_
    rw [Yaml.meet]
    simp only [hm, Yaml.collection, hn]
    rfl
  | @dict b es fs lo hn hdistinct hentries ih =>
    obtain ⟨fuel, rfl⟩ := Tree.exists_succ_of_height_le hfuel
    have hparts : Chain (fun (e : Value × Value) (f : Tree.Key × Tree) => Meets
        (fun m (e : Value × Value) => do Yaml.meet h fuel (← Yaml.meet h fuel m e.1) e.2) e
          (f.1.atom.prints && f.2.prints)) es fs lo b := by
      refine ih.imp fun hf he => ?_
      obtain ⟨k, _, hw⟩ := he
      have hle := Tree.height_le_of_mem_dict hfuel hf
      refine ⟨(hw hle).le, fun m hm => ?_⟩
      obtain ⟨m', hmeet, honce⟩ := (hw hle).meet m hm
      refine ⟨m', ?_, honce⟩
      rw [meet_key k (Nat.lt_of_lt_of_le (Tree.height_pos _) hle)]
      exact provided_bind hmeet
    rw [Tree.prints_dict]
    have hall := Meets.foldlM hparts
    refine Meets.container ⟨hall.le, hall.meet⟩ fun m hm => ?_
    rw [Yaml.meet]
    simp only [hm, Yaml.collection, hn]
    rfl

/-! ## What is written -/

/-- What `put` does with a pair of a dictionary. -/
def putPair (h : Heap) (fuel column : Nat) (s : Yaml.Pen × List Address) (e : Value × Value) :
    Except Fault (Yaml.Pen × List Address) := do
  let p := s.1.indentTo column
  let key ← match e.1 with
    | .scalar s => do
      match ← Yaml.Written.ofScalar s with
      | .text tag text => pure (if Yaml.isSimpleKey tag text then some (tag, text) else none)
      | .bytes _ => pure none
    | _ => pure none
  match key with
  | some (tag, text) =>
    let p := (Yaml.putScalar p (column + 2) false true tag text).sign ":" false
    Yaml.put h [] fuel (p, s.2) (some column) .value e.2
  | none =>
    let p := p.sign "?" true false true
    let (p, written) ← Yaml.put h [] fuel (p, s.2) (some column) .value e.1
    let p := (p.indentTo column).sign ":" true false true
    Yaml.put h [] fuel (p, written) (some column) .value e.2

theorem put_list {items : List Value} (hn : h.get? a = some (.list items)) (p : Yaml.Pen)
    (written : List Address) (indent : Option Nat) (place : Yaml.Place) :
    Yaml.put h [] (fuel + 1) (p, written) indent place (.ref a) =
      if items.isEmpty then .ok ((p.sign "[" true true).sign "]" false, a :: written)
      else
        let column :=
          if place == .value && !p.fresh then indent.getD 0 else Yaml.inner indent 0
        items.foldlM (fun (p, written) v =>
          Yaml.put h [] fuel ((p.indentTo column).sign "-" true false true, written) (some column)
            .item v) (p, a :: written) := by
  rw [Yaml.put]
  simp only [Yaml.collection, hn]
  rfl

theorem put_dict {es : Entries} (hn : h.get? a = some (.dict .plain es)) (p : Yaml.Pen)
    (written : List Address) (indent : Option Nat) (place : Yaml.Place) :
    Yaml.put h [] (fuel + 1) (p, written) indent place (.ref a) =
      if List.isEmpty es then .ok ((p.sign "\x7b" true true).sign "\x7d" false, a :: written)
      else es.foldlM (putPair h fuel (Yaml.inner indent 0)) (p, a :: written) := by
  rw [Yaml.put]
  simp only [Yaml.collection, hn]
  rfl

theorem put_atom (b : Tree.Atom) (p : Yaml.Pen) (written : List Address) (indent : Option Nat)
    (place : Yaml.Place) :
    Yaml.put h [] (fuel + 1) (p, written) indent place (.scalar b.scalar) =
      provided b.prints (b.write p indent place, written) := by
  rw [Yaml.put, ofScalar_atom]
  exact provided_return _ _ _

/-- A loop that writes one thing after the other. -/
theorem foldlM_write {α β : Type} {f : Yaml.Pen × List Address → α →
      Except Fault (Yaml.Pen × List Address)} {printed : β → Bool} {write : Yaml.Pen → β → Yaml.Pen}
    {xs : List α} {bs : List β} (hxs : List.Forall₂ (fun x b => ∀ p written, ∃ written',
      f (p, written) x = provided (printed b) (write p b, written')) xs bs) (p : Yaml.Pen)
    (written : List Address) : ∃ written', xs.foldlM f (p, written) =
      provided (bs.all printed) (bs.foldl write p, written') := by
  induction hxs generalizing p written with
  | nil => exact ⟨written, rfl⟩
  | cons hx _ ih =>
    obtain ⟨written₁, hf⟩ := hx p written
    obtain ⟨written₂, hall⟩ := ih _ written₁
    refine ⟨written₂, ?_⟩
    rw [List.foldlM_cons, hf, List.all_cons]
    exact provided_bind hall

theorem putPair_simple {k : Scalar} {tag : Yaml.Tag} {text : String}
    (hk : Yaml.Written.ofScalar k = .ok (.text tag text))
    (hsimple : Yaml.isSimpleKey tag text = true) (column : Nat) (p : Yaml.Pen)
    (written : List Address) :
    putPair h fuel column (p, written) (.scalar k, v) =
      let p := Yaml.putScalar (p.indentTo column) (column + 2) false true tag text
      Yaml.put h [] fuel (p.sign ":" false, written) (some column) .value v := by
  simp only [putPair, hk, bind, Except.bind, pure, Except.pure, hsimple, ↓reduceIte]

theorem putPair_marked {k : Scalar} {tag : Yaml.Tag} {text : String}
    (hk : Yaml.Written.ofScalar k = .ok (.text tag text))
    (hsimple : Yaml.isSimpleKey tag text = false) (column : Nat) (p : Yaml.Pen)
    (written : List Address) :
    putPair h fuel column (p, written) (.scalar k, v) = (do
      let p := (p.indentTo column).sign "?" true false true
      let (p, written) ← Yaml.put h [] fuel (p, written) (some column) .value (.scalar k)
      let p := (p.indentTo column).sign ":" true false true
      Yaml.put h [] fuel (p, written) (some column) .value v) := by
  simp only [putPair, hk, bind, Except.bind, pure, Except.pure, hsimple, Bool.false_eq_true,
    ↓reduceIte]

theorem putPair_value (k : Tree.Key) {column : Nat} (hfuel : 0 < fuel)
    (hv : ∀ p written, ∃ written', Yaml.put h [] fuel (p, written) (some column) .value v =
      provided t.prints (t.write p (some column) .value, written')) (p : Yaml.Pen)
    (written : List Address) : ∃ written', putPair h fuel column (p, written) (k.value, v) =
      provided (k.atom.prints && t.prints)
        (t.write (k.write p column) (some column) .value, written') := by
  obtain ⟨written', hput⟩ := hv (k.write p column) written
  refine ⟨written', ?_⟩
  have hkey := ofScalar_atom k.atom
  cases hprints : k.atom.prints with
  | false =>
    rw [hprints] at hkey
    simp only [putPair, Tree.Key.value, hkey]
    rfl
  | true =>
    rw [hprints] at hkey
    rw [Tree.Key.write] at hput ⊢
    cases hsimple : Yaml.isSimpleKey k.atom.tag k.atom.yaml with
    | true =>
      simp only [hsimple, ↓reduceIte] at hput ⊢
      exact (putPair_simple hkey hsimple column p written).trans hput
    | false =>
      obtain ⟨fuel, rfl⟩ := Nat.exists_eq_succ_of_ne_zero (Nat.ne_of_gt hfuel)
      simp only [hsimple, Bool.false_eq_true, ↓reduceIte] at hput ⊢
      rw [Tree.Key.value, putPair_marked hkey hsimple]
      dsimp only
      rw [put_atom, hprints]
      exact hput

/-- What is written for a value is what is written for its tree. -/
theorem Unfolds.put (hv : h.Unfolds v t) (hfuel : t.height ≤ fuel) (p : Yaml.Pen)
    (written : List Address) (indent : Option Nat) (place : Yaml.Place) :
    ∃ written', Yaml.put h [] fuel (p, written) indent place v =
      provided t.prints (t.write p indent place, written') := by
  induction hv using induction generalizing fuel p written indent place with
  | leaf a =>
    obtain ⟨fuel, rfl⟩ := Tree.exists_succ_of_height_le hfuel
    exact ⟨written, put_atom a p written indent place⟩
  | @list a items ts hn hitems ih =>
    obtain ⟨fuel, rfl⟩ := Tree.exists_succ_of_height_le hfuel
    rw [put_list hn, Tree.prints_list, Tree.write]
    cases hitems with
    | nil => exact ⟨a :: written, rfl⟩
    | @cons w u items ts hw hitems =>
      simp only [List.isEmpty_cons, Bool.false_eq_true, ↓reduceIte, Tree.writeItems_eq_foldl]
      refine foldlM_write (forall₂_of_mem ih fun w u hu ⟨_, hw⟩ p written => ?_) p _
      exact hw (Tree.height_le_of_mem_list hfuel hu) _ _ _ _
  | @dict a es fs hn hdistinct hentries ih =>
    obtain ⟨fuel, rfl⟩ := Tree.exists_succ_of_height_le hfuel
    rw [put_dict hn, Tree.prints_dict, Tree.write]
    cases hentries with
    | nil => exact ⟨a :: written, rfl⟩
    | @cons e f es fs he hentries =>
      simp only [List.isEmpty_cons, Bool.false_eq_true, ↓reduceIte, Tree.writeEntries_eq_foldl]
      refine foldlM_write (forall₂_of_mem ih fun e f hf he => ?_) p _
      obtain ⟨k, _, hw⟩ := he
      have hle := Tree.height_le_of_mem_dict hfuel hf
      exact putPair_value k (Nat.lt_of_lt_of_le (Tree.height_pos _) hle)
        fun p written => hw hle p written _ _

/-! ## Documents -/

theorem Unfolds.json (hv : h.Unfolds v t) :
    Json.print σ h v = provided t.prints (t.json 0) :=
  hv.printWith (hv.height_le_fuel σ v) (.nil h t)

theorem LaidOut.yaml (hv : h.LaidOut v t lo hi) :
    Yaml.print σ h v = provided t.prints t.yaml := by
  have hfuel := hv.unfolds.height_le_fuel σ v
  obtain ⟨m, hmeet, honce⟩ := (hv.meet hfuel).meet {} fun _ hb => absurd hb List.not_mem_nil
  obtain ⟨written, hput⟩ := hv.unfolds.put hfuel {} [] none .root
  have hagain : m.again = [] := honce.again
  rw [Yaml.print, hmeet]
  cases hprints : t.prints with
  | true =>
    rw [hprints] at hput
    simp only [provided, ↓reduceIte, bind, Except.bind, pure, Except.pure, hagain, hput]
    rfl
  | false => rfl

/-- The text of a document is the text of its tree. -/
theorem Unfolds.document (hv : h.Unfolds v t) {format : String}
    (hformat : outputFormats.contains format = true) :
    h.document σ v format = provided t.prints (t.document format) := by
  obtain ⟨v', h', hplain, -, hlaid⟩ := hv.copies (hv.height_le_fuel σ v) h (.refl h)
  have hcopy : h.plain σ v = .ok (v', h') := hplain
  rw [Heap.document, hformat, Bool.not_true, if_neg Bool.false_ne_true, hcopy, Tree.document]
  change (if format = "yaml" then Yaml.print σ h' v' else Json.print σ h' v') = _
  rw [hlaid.yaml, hlaid.unfolds.json]
  split <;> rfl

end Heap

end Dotpath

/-!
# Similar words

How much two words have in common: the longest common block, and then those on both sides of it.
`closest` finds the words that are meant by a misspelt one.
-/

namespace Dotpath.Text

/-- The length of the common beginning of two texts. -/
def commonLength : List Char → List Char → Nat
  | a :: as, b :: bs => if a = b then commonLength as bs + 1 else 0
  | _, _ => 0

/-- The longest common block: where it begins in both texts, and its length.  Of several the first
in the first text is taken, and of these the first in the second. -/
def longestBlock (as bs : List Char) : Nat × Nat × Nat :=
  let starts := (List.range as.length).flatMap fun i =>
    (List.range bs.length).map fun j => (i, j, commonLength (as.drop i) (bs.drop j))
  starts.foldl (fun best s => if s.2.2 > best.2.2 then s else best) (0, 0, 0)

/-- The number of characters in common blocks. -/
def matchedCount : (fuel : Nat) → List Char → List Char → Nat
  | 0, _, _ => 0
  | fuel + 1, as, bs =>
    let (i, j, n) := longestBlock as bs
    if n = 0 then 0
    else n + matchedCount fuel (as.take i) (bs.take j) +
      matchedCount fuel (as.drop (i + n)) (bs.drop (j + n))

/-- The words that have three fifths in common with a given one, three at most. -/
def closest (word : String) (words : List String) : List String :=
  let bs := word.toList
  let scored := words.map fun w =>
    (matchedCount (w.length + 1) w.toList bs, w.length + bs.length, w)
  let near := scored.filter fun (n, total, _) => 10 * n ≥ 3 * total
  let better (x y : Nat × Nat × String) : Bool :=
    let left := x.1 * y.2.1
    let right := y.1 * x.2.1
    left > right || (left == right && x.2.2 ≥ y.2.2)
  ((near.mergeSort better).take 3).map (·.2.2)

end Dotpath.Text

import Dotpath.Number.Binary64

/-!
# Arithmetic

Sums and products of floating-point numbers, each the exact result rounded once.
-/

namespace Dotpath.Binary64

/-- The sum of two numbers. -/
def add (x y : Binary64) : Binary64 :=
  match x.magnitude, y.magnitude with
  | .undefined, _ | _, .undefined => nan
  | .infinite a, .infinite b => if a = b then infinity a else nan
  | .infinite a, _ | _, .infinite a => infinity a
  | .finite a _ _, .finite b _ _ =>
    match x.ratio?, y.ratio? with
    | some (n, d), some (m, e) =>
      let sum := n * e + m * d
      if sum = 0 then pack (a && b) 0 (-1074) else ofRatio (sum < 0) sum.natAbs (d * e)
    | _, _ => nan

/-- The product of two numbers. -/
def mul (x y : Binary64) : Binary64 :=
  let negative := x.isNegative != y.isNegative
  match x.magnitude, y.magnitude with
  | .undefined, _ | _, .undefined => nan
  | .infinite _, .finite _ m _ | .finite _ m _, .infinite _ =>
    if m = 0 then nan else infinity negative
  | .infinite _, .infinite _ => infinity negative
  | .finite .., .finite .. =>
    match x.ratio?, y.ratio? with
    | some (n, d), some (m, e) =>
      if n * m = 0 then pack negative 0 (-1074) else ofRatio negative (n * m).natAbs (d * e)
    | _, _ => nan

end Dotpath.Binary64

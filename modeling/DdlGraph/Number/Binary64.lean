/-!
# Double precision numbers

Coordinates are IEEE 754 doubles. They are kept as their 64 bits, so that two of them are equal
exactly if they are the same number with the same sign, and everything about them is computed in
exact integer arithmetic.

* `ofRatio`: the double nearest to a fraction, the even one of two;
* `magnitude`: a finite double is `m * 2 ^ e`.
-/

namespace DdlGraph

/-- A double, by its bits. -/
structure Binary64 where
  bits : UInt64
deriving DecidableEq

namespace Binary64

/-- The number is negative or a negative zero. -/
def isNegative (x : Binary64) : Bool :=
  x.bits >>> 63 == 1

/-- The bits of the exponent. -/
def exponentBits (x : Binary64) : Nat :=
  x.bits.toNat / Nat.pow 2 52 % Nat.pow 2 11

/-- The bits of the fraction. -/
def fractionBits (x : Binary64) : Nat :=
  x.bits.toNat % Nat.pow 2 52

/-- Neither infinite nor no number. -/
def isFinite (x : Binary64) : Bool :=
  x.exponentBits != 2047

/-- The magnitude of a finite double is `m * 2 ^ (e - 1074)` for `(m, e)`. -/
def magnitude (x : Binary64) : Nat × Nat :=
  if x.exponentBits = 0 then (x.fractionBits, 0)
  else (Nat.pow 2 52 + x.fractionBits, x.exponentBits - 1)

/-- The double with a sign and the magnitude bits. -/
def ofBits (negative : Bool) (magnitude : Nat) : Binary64 :=
  ⟨UInt64.ofNat (magnitude + if negative then Nat.pow 2 63 else 0)⟩

/-- `num / den` to the nearest integer, the even one of two. -/
def divNearest (num den : Nat) : Nat :=
  let q := num / den
  let r := num % den
  if 2 * r > den ∨ (2 * r = den ∧ q % 2 = 1) then q + 1 else q

/-- The scale of a fraction: the least `e` for which `num / den < 2 ^ 53 * 2 ^ (e - 1074)`. -/
def scale (num den : Nat) : Nat :=
  let e := (num.log2 + 1074) - (den.log2 + 52) - 1
  if num = 0 then 0
  else if num * Nat.pow 2 1074 < den * Nat.pow 2 (53 + e) then e
  else if num * Nat.pow 2 1074 < den * Nat.pow 2 (54 + e) then e + 1
  else e + 2

/-- **Nearest double** to `num / den`; infinity if the fraction is beyond all doubles. -/
def ofRatio (negative : Bool) (num den : Nat) : Binary64 :=
  let e := scale num den
  let m := divNearest (num * Nat.pow 2 1074) (den * Nat.pow 2 e)
  ofBits negative (min (e * Nat.pow 2 52 + m) (2047 * Nat.pow 2 52))

def ofNat (n : Nat) : Binary64 :=
  ofRatio false n 1

/-- The numerator and the denominator of the magnitude of a finite double. -/
def ratio (x : Binary64) : Nat × Nat :=
  (x.magnitude.1 * Nat.pow 2 x.magnitude.2, Nat.pow 2 1074)

/-- **Product** of the magnitudes. -/
def mul (x y : Binary64) : Binary64 :=
  ofRatio false (x.ratio.1 * y.ratio.1) (x.ratio.2 * y.ratio.2)

/-- **Quotient** of the magnitudes. -/
def div (x y : Binary64) : Binary64 :=
  ofRatio false (x.ratio.1 * y.ratio.2) (x.ratio.2 * y.ratio.1)

/-- **Sum** of the magnitudes. -/
def add (x y : Binary64) : Binary64 :=
  ofRatio false (x.ratio.1 * y.ratio.2 + y.ratio.1 * x.ratio.2) (x.ratio.2 * y.ratio.2)

/-- The same magnitude with a minus sign. -/
def negate (x : Binary64) : Binary64 :=
  ⟨x.bits ||| 0x8000000000000000⟩

def zero : Binary64 := ⟨0⟩

end Binary64

end DdlGraph

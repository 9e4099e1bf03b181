import DdlGraph.Number.Binary64

/-!
# Decimal literals

A number as it is written in JSON, and the double it stands for. As many leading digits are taken
as fit into 64 bits; the rest only moves the decimal point, and the powers of ten are applied to
the double of those digits. The result is within a few units of the nearest double, and it is the
nearest one for up to 15 digits and exponents up to 22.

* `Decimal.value?`: the double, or none if it is beyond all doubles.
-/

namespace DdlGraph

/-- A written number. The digits are values from 0 to 9; `fraction` is empty if there is no point. -/
structure Decimal where
  negative : Bool
  whole : List Nat
  fraction : List Nat
  /-- The sign (true for minus) and the digits of the exponent. -/
  exponent : Option (Bool × List Nat)
deriving DecidableEq

namespace Decimal

/-- Largest significand: 64 bits. -/
def maxSignificand : Nat := Nat.pow 2 64 - 1

/-- The digits as far as they fit into 64 bits after `significand`, how many they are, and those
left over. -/
def accumulate (significand count : Nat) : List Nat → Nat × Nat × List Nat
  | [] => (significand, count, [])
  | d :: ds =>
    if 10 * significand + d > maxSignificand then (significand, count, d :: ds)
    else accumulate (10 * significand + d) (count + 1) ds

/-- The digits before the exponent as `significand * 10 ^ k`. -/
def significand (d : Decimal) : Nat × Int :=
  let (m, _, dropped) := accumulate 0 0 d.whole
  let (m, places, _) := accumulate m 0 d.fraction
  (m, (dropped.length : Int) - places)

/-- Digits as a number. -/
def valueOf (ds : List Nat) : Nat :=
  ds.foldl (fun n d => 10 * n + d) 0

/-- Exponents beyond 32 bits are not added up. -/
def maxExponent : Nat := Nat.pow 2 31 - 1

/-- The double nearest to `10 ^ n`. -/
def powerOfTen (n : Nat) : Binary64 :=
  .ofNat (Nat.pow 10 n)

/-- `x / 10 ^ k`, in steps of at most 308 powers. -/
def scaleDown (x : Binary64) (k : Nat) : Binary64 :=
  if k ≤ 308 then x.div (powerOfTen k)
  else if x.magnitude.1 = 0 then x
  else scaleDown (x.div (powerOfTen 308)) (k - 308)
termination_by k

/-- `m * 10 ^ k` as a double, or none beyond all doubles. -/
def scaled? (m : Nat) (k : Int) : Option Binary64 :=
  let x := Binary64.ofNat m
  if 0 ≤ k then
    if m = 0 then some x
    else if 308 < k then none
    else
      let y := x.mul (powerOfTen k.toNat)
      if y.isFinite then some y else none
  else some (scaleDown x (-k).toNat)

/-- The number is written without point and exponent. -/
def isInteger (d : Decimal) : Bool :=
  d.fraction.isEmpty && d.exponent.isNone

/-- **Double** for a written number. -/
def value? (d : Decimal) : Option Binary64 :=
  let (m, k) := d.significand
  let magnitude? := match d.exponent with
    | none => scaled? m k
    | some (down, ds) =>
      let e := valueOf ds
      if e > maxExponent then if m ≠ 0 ∧ down = false then none else some .zero
      else scaled? m (if down then k - e else k + e)
  magnitude?.map fun x => if d.negative then x.negate else x

end Decimal

end DdlGraph

import DdlGraph.Number.Binary64

/-!
# Shortest decimal text

A double is written with the fewest digits that no other double is nearer to, and of those with the
digits nearest to it. The text always has a fraction or an exponent.

* `shortest`: digits and exponent;
* `render`: the text, positional below 10^16 and from 10^-5 on, with a signed exponent elsewhere.
-/

namespace DdlGraph.Binary64

/-- The decimals that read back as a double: the numerators of the value and of the two ends over a
common denominator, and whether the ends belong to it. -/
structure Reach where
  value : Nat
  low : Nat
  high : Nat
  den : Nat
  closed : Bool

/-- Halfway to both neighbours. Below a power of two the neighbour is only half as far away. -/
def reach (x : Binary64) : Reach :=
  let (m, e) := x.magnitude
  let unit := Nat.pow 2 e
  let near := x.fractionBits = 0 ∧ 1 < x.exponentBits
  { value := 4 * m * unit
    low := (4 * m - if near then 1 else 2) * unit
    high := (4 * m + 2) * unit
    den := 4 * Nat.pow 2 1074
    closed := m % 2 == 0 }

/-- The decimal `n * 10 ^ k` is within reach; `k` is given as `up - down`. -/
def Reach.holds (r : Reach) (n up down : Nat) : Bool :=
  let v := n * Nat.pow 10 up * r.den
  let s := Nat.pow 10 down
  if r.closed then decide (r.low * s ≤ v) && decide (v ≤ r.high * s)
  else decide (r.low * s < v) && decide (v < r.high * s)

/-- The decimal of the grid `10 ^ (up - down)` next to the value, if one is within reach: the
nearer of the two neighbours, the even one of two as near. -/
def Reach.onGrid? (r : Reach) (up down : Nat) : Option Nat :=
  let num := r.value * Nat.pow 10 down
  let den := r.den * Nat.pow 10 up
  let n := num / den
  let below := r.holds n up down
  let above := r.holds (n + 1) up down
  if below && above then
    let rem := num % den
    some (if 2 * rem < den ∨ (2 * rem = den ∧ n % 2 = 0) then n else n + 1)
  else if below then some n
  else if above then some (n + 1)
  else none

/-- The grids from `10 ^ (up - down)` on to finer ones. -/
def Reach.search (r : Reach) (up down : Nat) : Nat → Nat × Nat × Nat
  | 0 => (r.value * Nat.pow 10 down / (r.den * Nat.pow 10 up), up, down)
  | fuel + 1 => match r.onGrid? up down with
    | some n => (n, up, down)
    | none => if up = 0 then r.search 0 (down + 1) fuel else r.search (up - 1) down fuel

/-- The least `k` with `value * 10 ^ k ≥ den`, at most `fuel` above `k`. -/
def leadingZeros (value den : Nat) (k : Nat) : Nat → Nat
  | 0 => k
  | fuel + 1 => if value * Nat.pow 10 k ≥ den then k else leadingZeros value den (k + 1) fuel

/-- `n * 10 ^ k` without the zeros at the end of `n`. -/
def stripZeros (n : Nat) (k : Int) : Nat → Nat × Int
  | 0 => (n, k)
  | fuel + 1 => if n % 10 = 0 ∧ n ≠ 0 then stripZeros (n / 10) (k + 1) fuel else (n, k)

/-- **Shortest decimal** `(n, k)` for the magnitude of a finite double other than zero: it is
`n * 10 ^ k`. -/
def shortest (x : Binary64) : Nat × Int :=
  let r := x.reach
  let whole := r.value / r.den
  let (up, down) :=
    if whole = 0 then (0, leadingZeros r.value r.den 0 400)
    else ((Nat.toDigits 10 whole).length - 1, 0)
  let (n, up, down) := r.search up down 20
  stripZeros n (up - down) 400

/-- Positional or scientific text of `digits * 10 ^ k`. -/
def layOut (digits : List Char) (k : Int) : List Char :=
  let length : Int := digits.length
  let point := length + k
  if 0 ≤ k ∧ point ≤ 16 then digits ++ List.replicate k.toNat '0' ++ ['.', '0']
  else if 0 < point ∧ point ≤ 16 then
    digits.take point.toNat ++ '.' :: digits.drop point.toNat
  else if -5 < point ∧ point ≤ 0 then
    '0' :: '.' :: List.replicate (-point).toNat '0' ++ digits
  else
    let exponent := if 0 < point then '+' :: Nat.toDigits 10 (point - 1).toNat
      else '-' :: Nat.toDigits 10 (1 - point).toNat
    match digits with
    | [d] => d :: 'e' :: exponent
    | d :: ds => d :: '.' :: ds ++ 'e' :: exponent
    | [] => []

/-- **Text** of a double. -/
def render (x : Binary64) : String :=
  let sign := if x.isNegative then ['-'] else []
  let magnitude :=
    if x.magnitude.1 = 0 then ['0', '.', '0']
    else
      let (n, k) := x.shortest
      layOut (Nat.toDigits 10 n) k
  .ofList (sign ++ magnitude)

end DdlGraph.Binary64

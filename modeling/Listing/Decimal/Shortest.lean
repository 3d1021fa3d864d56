import Listing.Decimal.Binary64

namespace Listing.Decimal

-- How many decimal digits a number has; zero has none.
def digitCount (n : Nat) : Nat := if n = 0 then 0 else (Nat.toDigits 10 n).length

-- The exponent of the leading decimal digit of a positive quotient.
def leadingExponent (num den : Nat) : Int :=
  if den ≤ num then (digitCount (num / den) : Int) - 1 else -(digitCount ((den - 1) / num) : Int)

-- The positive numbers that round to `m * 2 ^ q`, as bounds over a common denominator. Below a
-- power of two the numbers lie twice as dense, so the lower half gap is halved there.
structure Interval where
  low : Nat
  value : Nat
  high : Nat
  den : Nat
  closed : Bool

def interval (m : Nat) (q : Int) : Interval :=
  let below := if m = Nat.pow 2 52 ∧ -1074 < q then 1 else 2
  let scale := if 0 ≤ q then Nat.pow 2 q.toNat else 1
  let den := 4 * if 0 ≤ q then 1 else Nat.pow 2 (-q).toNat
  ⟨(4 * m - below) * scale, 4 * m * scale, (4 * m + 2) * scale, den, m % 2 = 0⟩

-- Digits on the decimal grid of step `10 ^ unit`: the value's two neighbours are tried and the
-- nearer one that rounds back is taken, of two equally near ones the even one.
def Interval.onGrid (i : Interval) (unit : Int) : Option Nat :=
  let up := if 0 ≤ unit then Nat.pow 10 unit.toNat else 1
  let down := if 0 ≤ unit then 1 else Nat.pow 10 (-unit).toNat
  let floor := i.value * down / (i.den * up)
  let inside (k : Nat) : Bool :=
    let point := k * i.den * up
    if i.closed then i.low * down ≤ point && point ≤ i.high * down
    else i.low * down < point && point < i.high * down
  match inside floor, inside (floor + 1) with
  | true, true =>
    let back := i.value * down - floor * i.den * up
    let ahead := (floor + 1) * i.den * up - i.value * down
    if back < ahead then some floor
    else if ahead < back then some (floor + 1)
    else some (floor + floor % 2)
  | true, false => some floor
  | false, true => some (floor + 1)
  | false, false => none

-- The first grid that holds a number of the interval, tried from coarse to fine. Seventeen
-- digits always suffice.
def Interval.firstGrid (i : Interval) (top : Int) : (left tried : Nat) → Nat × Int
  | 0, tried => (i.value / i.den, top - tried)
  | left + 1, tried =>
    match i.onGrid (top - tried) with
    | some k => (k, top - tried)
    | none => i.firstGrid top left (tried + 1)

-- The fewest digits that read back as `m * 2 ^ q`, and the exponent of the first of them.
def shortest (m : Nat) (q : Int) : List Char × Int :=
  let i := interval m q
  let (k, unit) := i.firstGrid (leadingExponent i.value i.den) 17 0
  let digits := Nat.toDigits 10 k
  let kept := (digits.reverse.dropWhile (· == '0')).reverse
  (kept, unit + (digits.length : Int) - 1)

end Listing.Decimal

namespace Listing

-- A double-precision number, held as its bit pattern so that it can be compared and copied
-- exactly, NaN and the sign of zero included.
structure Binary64 where
  bits : UInt64
deriving DecidableEq, Inhabited, Repr

namespace Binary64

-- What a bit pattern stands for. A finite number is `m * 2 ^ q` with its sign.
inductive Parts where
  | nan
  | infinite (negative : Bool)
  | finite (negative : Bool) (m : Nat) (q : Int)
deriving DecidableEq, Repr

def isNegative (x : Binary64) : Bool := Nat.pow 2 63 ≤ x.bits.toNat

def parts (x : Binary64) : Parts :=
  let fraction := x.bits.toNat % Nat.pow 2 52
  let exponent : Nat := x.bits.toNat / Nat.pow 2 52 % Nat.pow 2 11
  if exponent = 2047 then
    if fraction = 0 then .infinite x.isNegative else .nan
  else if exponent = 0 then .finite x.isNegative fraction (-1074)
  else .finite x.isNegative (Nat.pow 2 52 + fraction) ((exponent : Int) - 1075)

def nan : Binary64 := ⟨0x7ff8000000000000⟩

def signed (negative : Bool) (magnitude : Nat) : Binary64 :=
  ⟨(magnitude + if negative then Nat.pow 2 63 else 0).toUInt64⟩

def infinite (negative : Bool) : Binary64 := signed negative (2047 * Nat.pow 2 52)

-- The whole number nearest to a quotient. A tie goes to the even one.
def nearestQuotient (num den : Nat) : Nat :=
  let low := num / den
  let rest := 2 * (num % den)
  if rest < den then low
  else if den < rest then low + 1
  else low + low % 2

-- The number nearest to a quotient, a tie going to the even pattern; beyond the largest finite
-- number it is infinite. Adding the significand to the shifted exponent carries a significand
-- that was rounded up to the next power of two into the exponent.
def ofRatio (negative : Bool) (num den : Nat) : Binary64 :=
  if num = 0 then signed negative 0
  else
    let scaled (q : Int) : Nat × Nat :=
      if 0 ≤ q then (num, den * Nat.pow 2 q.toNat) else (num * Nat.pow 2 (-q).toNat, den)
    let guess : Int := max ((num.log2 : Int) - (den.log2 : Int) - 53) (-1074)
    let (n, d) := scaled guess
    let q := if Nat.pow 2 53 ≤ n / d then guess + 1 else guess
    let (n, d) := scaled q
    let magnitude := (q + 1074).toNat * Nat.pow 2 52 + nearestQuotient n d
    if 2047 * Nat.pow 2 52 ≤ magnitude then infinite negative else signed negative magnitude

-- The decimal number `mantissa * 10 ^ exponent`. Exponents far outside the range of the format
-- are settled without computing the power.
def ofDecimal (negative : Bool) (mantissa : Nat) (exponent : Int) : Binary64 :=
  let digits : Int := (Nat.toDigits 10 mantissa).length
  if mantissa = 0 ∨ digits + exponent < -330 then signed negative 0
  else if 310 < digits + exponent then infinite negative
  else if 0 ≤ exponent then ofRatio negative (mantissa * Nat.pow 10 exponent.toNat) 1
  else ofRatio negative mantissa (Nat.pow 10 (-exponent).toNat)

-- An integer too large for the format has no number.
def ofInt? (n : Int) : Option Binary64 :=
  let x := ofRatio (n < 0) n.natAbs 1
  match x.parts with
  | .finite .. => some x
  | _ => none

-- The integer part, toward zero.
def truncate (negative : Bool) (m : Nat) (q : Int) : Int :=
  let n := if 0 ≤ q then m * Nat.pow 2 q.toNat else m / Nat.pow 2 (-q).toNat
  if negative then -(n : Int) else n

def sub (x y : Binary64) : Binary64 :=
  ⟨(Float.ofBits x.bits - Float.ofBits y.bits).toBits⟩

-- Less than zero: neither a zero nor a NaN is.
def isBelowZero (x : Binary64) : Bool :=
  match x.parts with
  | .nan => false
  | .infinite negative => negative
  | .finite negative m _ => negative && m != 0

end Binary64
end Listing

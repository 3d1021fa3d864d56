import Listing.Decimal.Shortest

namespace Listing.Decimal

-- How a number's digits are laid out.
structure Layout where
  -- leading exponents from `first` up to but not including `last` are written positionally
  first : Int
  last : Int
  -- what a whole number ends in when it is written positionally
  whole : List Char
  exponentMark : Char
  -- an exponent has a sign and at least this many digits
  exponentWidth : Nat
  nan : List Char
  infinite : List Char

def padZeros (width : Nat) (cs : List Char) : List Char :=
  List.replicate (width - cs.length) '0' ++ cs

def Layout.exponent (l : Layout) (e : Int) : List Char :=
  l.exponentMark :: (if e < 0 then '-' else '+') ::
    padZeros l.exponentWidth (Nat.toDigits 10 e.natAbs)

def Layout.digits (l : Layout) (ds : List Char) (e : Int) : List Char :=
  if l.first ≤ e ∧ e < l.last then
    if e < 0 then '0' :: '.' :: List.replicate (-e - 1).toNat '0' ++ ds
    else
      let places := e.toNat + 1
      if ds.length ≤ places then ds ++ List.replicate (places - ds.length) '0' ++ l.whole
      else ds.take places ++ '.' :: ds.drop places
  else
    match ds with
    | [] => l.exponent e
    | [d] => d :: l.exponent e
    | d :: rest => d :: '.' :: rest ++ l.exponent e

def Layout.write (l : Layout) (x : Binary64) : List Char :=
  match x.parts with
  | .nan => l.nan
  | .infinite negative => if negative then '-' :: l.infinite else l.infinite
  | .finite negative m q =>
    let body :=
      if m = 0 then '0' :: l.whole
      else
        let (ds, e) := shortest m q
        l.digits ds e
    if negative then '-' :: body else body

-- Positional from 0.0001 up to below 10^16, whole numbers with a zero after the point, and
-- exponents of at least two digits.
def plain : Layout where
  first := -4
  last := 16
  whole := ['.', '0']
  exponentMark := 'e'
  exponentWidth := 2
  nan := "nan".toList
  infinite := "inf".toList

end Listing.Decimal

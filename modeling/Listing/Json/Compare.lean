import Listing.Json.Basic

namespace Listing.Json

-- A number by its value: an integer times a power of two, or an infinity.
inductive Magnitude where
  | finite (n : Int) (q : Int)
  | infinite (negative : Bool)

-- Truth values are the numbers zero and one.
def magnitude? : Json → Option Magnitude
  | .bool b => some (.finite (if b then 1 else 0) 0)
  | .int n => some (.finite n 0)
  | .float x =>
    match x.parts with
    | .nan => none
    | .infinite negative => some (.infinite negative)
    | .finite negative m q => some (.finite (if negative then -(m : Int) else m) q)
  | _ => none

-- Brought to the smaller of two exponents, numbers compare as integers.
def Magnitude.compare : Magnitude → Magnitude → Ordering
  | .infinite a, .infinite b => Ord.compare b a
  | .infinite negative, .finite .. => if negative then .lt else .gt
  | .finite .., .infinite negative => if negative then .gt else .lt
  | .finite n p, .finite m q =>
    let low := min p q
    Ord.compare (n * Nat.pow 2 (p - low).toNat) (m * Nat.pow 2 (q - low).toNat)

def isNumber : Json → Bool
  | .bool _ | .int _ | .float _ => true
  | _ => false

def sameNumber (a b : Json) : Bool :=
  match a.magnitude?, b.magnitude? with
  | some x, some y => x.compare y = .eq
  | _, _ => false

mutual

-- Equality by meaning: numbers by value whatever their kind, objects whatever the order of their
-- fields. A NaN equals nothing.
def same : Json → Json → Bool
  | .null, .null => true
  | .str a, .str b => a = b
  | .arr a, .arr b => sameItems a b
  | .obj a, .obj b => a.length = b.length && sameFields a b
  | a, b => a.isNumber && b.isNumber && sameNumber a b

def sameItems : List Json → List Json → Bool
  | [], [] => true
  | a :: as, b :: bs => same a b && sameItems as bs
  | _, _ => false

-- Every field of the first has its like in the second.
def sameFields : List (String × Json) → List (String × Json) → Bool
  | [], _ => true
  | (k, a) :: as, bs =>
    (match lookup k bs with
    | some b => same a b
    | none => false) && sameFields as bs

end

end Listing.Json

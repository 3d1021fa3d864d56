import Listing.Decimal.Binary64

namespace Listing

-- A JSON value. Integers have any size, and the fields of an object keep their order.
inductive Json where
  | null
  | bool (b : Bool)
  | int (n : Int)
  | float (x : Binary64)
  | str (s : String)
  | arr (items : List Json)
  | obj (fields : List (String × Json))
deriving Inhabited, Repr

namespace Json

mutual

-- Whether two values are one and the same, the order of fields included.
def identical : Json → Json → Bool
  | .null, .null => true
  | .bool a, .bool b => a = b
  | .int a, .int b => a = b
  | .float a, .float b => a = b
  | .str a, .str b => a = b
  | .arr as, .arr bs => identicalItems as bs
  | .obj as, .obj bs => identicalFields as bs
  | _, _ => false

def identicalItems : List Json → List Json → Bool
  | [], [] => true
  | a :: as, b :: bs => identical a b && identicalItems as bs
  | _, _ => false

def identicalFields : List (String × Json) → List (String × Json) → Bool
  | [], [] => true
  | (k, a) :: as, (l, b) :: bs => k = l && identical a b && identicalFields as bs
  | _, _ => false

end

mutual

theorem identical_iff : ∀ a b, identical a b = true ↔ a = b
  | .arr as, b => by cases b <;> simp [identical, identicalItems_iff as]
  | .obj as, b => by cases b <;> simp [identical, identicalFields_iff as]
  | .null, b | .bool _, b | .int _, b | .float _, b | .str _, b => by
      cases b <;> simp [identical]

theorem identicalItems_iff : ∀ as bs, identicalItems as bs = true ↔ as = bs
  | [], bs => by cases bs <;> simp [identicalItems]
  | a :: as, bs => by
      cases bs <;> simp [identicalItems, identical_iff a, identicalItems_iff as]

theorem identicalFields_iff : ∀ as bs, identicalFields as bs = true ↔ as = bs
  | [], bs => by cases bs <;> simp [identicalFields]
  | (k, a) :: as, bs => by
      cases bs <;>
        simp [identicalFields, identical_iff a, identicalFields_iff as, Prod.ext_iff]

end

instance : DecidableEq Json := fun a b =>
  decidable_of_iff (identical a b = true) (identical_iff a b)

-- A field is set where its key first stood. A new key goes to the end.
def setField (key : String) (value : Json) : List (String × Json) → List (String × Json)
  | [] => [(key, value)]
  | (k, v) :: rest => if k = key then (key, value) :: rest else (k, v) :: setField key value rest

theorem setField_of_notMem {key : String} {value : Json} {fields : List (String × Json)}
    (h : key ∉ fields.map (·.1)) : setField key value fields = fields ++ [(key, value)] := by
  induction fields with
  | nil => rfl
  | cons f rest ih =>
      simp only [List.map_cons, List.mem_cons, not_or] at h
      simp [setField, Ne.symm h.1, ih h.2]

def lookup (key : String) : List (String × Json) → Option Json
  | [] => none
  | (k, v) :: rest => if k = key then some v else lookup key rest

end Json
end Listing

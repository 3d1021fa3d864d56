import Listing.Proofs.Assignment
import Listing.Proofs.Json.Locality

namespace Listing.Json

-- The fields of an object as they are written, up to the brace behind them. A key may stand in
-- several.
inductive Fields : List Char → List (String × Json) → List Char → Prop
  | last {fuel : Nat} {text key after value behind rest : List Char} {v : Json}
      (hkey : readChars ('"' :: text) text = .ok (key, after))
      (hcolon : skipSpace after = ':' :: value)
      (hvalue : readValue fuel (skipSpace value) = .ok (v, behind))
      (hclose : skipSpace behind = '}' :: rest) :
      Fields ('"' :: text) [(String.ofList key, v)] rest
  | more {fuel : Nat} {text key after value behind next rest : List Char} {v : Json}
      {written : List (String × Json)}
      (hkey : readChars ('"' :: text) text = .ok (key, after))
      (hcolon : skipSpace after = ':' :: value)
      (hvalue : readValue fuel (skipSpace value) = .ok (v, behind))
      (hcomma : skipSpace behind = ',' :: next) (h : Fields (skipSpace next) written rest) :
      Fields ('"' :: text) ((String.ofList key, v) :: written) rest

-- A text that is an object with the written fields.
inductive WritesObject (text : List Char) : List (String × Json) → Prop
  | empty {body rest : List Char} (hopen : skipSpace text = '{' :: body)
      (hclose : skipSpace body = '}' :: rest) (hend : skipSpace rest = []) : WritesObject text []
  | filled {body rest : List Char} {written : List (String × Json)}
      (hopen : skipSpace text = '{' :: body) (hfields : Fields (skipSpace body) written rest)
      (hend : skipSpace rest = []) : WritesObject text written

-- A key that is written repeatedly has its first place and its last value.
structure Merges (written fields : List (String × Json)) : Prop where
  keys : fields.map (·.1) = (written.map (·.1)).eraseDups
  values : ∀ f, f ∈ fields ↔
    ∃ before after, written = before ++ f :: after ∧ f.1 ∉ after.map (·.1)

theorem setField_eq_assignKey (key : String) (value : Json) (fields : List (String × Json)) :
    setField key value fields = assignKey key value fields := by
  induction fields with
  | nil => rfl
  | cons f rest ih => rw [setField, assignKey, ih]

theorem merges_assigned (written : List (String × Json)) : Merges written (assigned written) where
  keys := keys_assigned written
  values := fun _ => mem_assigned

-- The fields that are read are the written ones, assigned to those read before.
theorem fields_of_readFields {fuel : Nat} {sofar fields : List (String × Json)}
    {cs rest : List Char} (h : readFields fuel sofar cs = .ok (fields, rest)) :
    ∃ written, Fields cs written rest ∧
      fields = written.foldl (fun table f => assignKey f.1 f.2 table) sofar := by
  induction fuel generalizing sofar cs with
  | zero => simp [readFields] at h
  | succ fuel ih =>
      obtain ⟨text, key, after, value, v, behind, rfl, hkey, hcolon, hv, hbehind⟩ :=
        readFields_eq_ok.mp h
      rcases hbehind with ⟨next, hcomma, hrest⟩ | ⟨hclose, rfl⟩
      · obtain ⟨written, hwritten, rfl⟩ := ih hrest
        refine ⟨(String.ofList key, v) :: written, .more hkey hcolon hv hcomma hwritten, ?_⟩
        rw [List.foldl_cons, setField_eq_assignKey]
      · exact ⟨[(String.ofList key, v)], .last hkey hcolon hv hclose, setField_eq_assignKey _ _ _⟩

theorem writesObject_of_readText {text : List Char} {fields : List (String × Json)}
    (h : readText text = .ok (.obj fields)) :
    ∃ written, WritesObject text written ∧ Merges written fields := by
  obtain ⟨rest, hvalue, hrest⟩ := readText_eq_ok h
  have hend : skipSpace rest = [] := List.dropWhile_eq_nil_iff.mpr hrest
  generalize hopen : skipSpace text = opened at hvalue
  cases readValue_eq_ok.mp hvalue with
  | emptyObject hclose => exact ⟨[], .empty hopen hclose hend, merges_assigned []⟩
  | object hfields =>
      obtain ⟨written, hwritten, rfl⟩ := fields_of_readFields hfields
      exact ⟨written, .filled hopen hwritten hend, merges_assigned written⟩
  | scalar _ _ _ hscalar => exact absurd rfl (readScalar_ne_obj hscalar fields)

end Listing.Json

import Mathlib.Data.List.TakeWhile
import Listing.Json.Reader
import Listing.Proofs.Outcome

namespace Listing.Json

-- How a value is read, by the character that it begins with.
inductive ValueStep (fuel : Nat) (rest : List Char) : List Char → Json → Prop
  | text {body s : List Char} (h : readChars ('"' :: body) body = .ok (s, rest)) :
      ValueStep fuel rest ('"' :: body) (.str (String.ofList s))
  | emptyList {body : List Char} (hclose : skipSpace body = ']' :: rest) :
      ValueStep fuel rest ('[' :: body) (.arr [])
  | list {body : List Char} {items : List Json} (hopen : ∀ tail, skipSpace body ≠ ']' :: tail)
      (h : readItems fuel (skipSpace body) = .ok (items, rest)) :
      ValueStep fuel rest ('[' :: body) (.arr items)
  | emptyObject {body : List Char} (hclose : skipSpace body = '}' :: rest) :
      ValueStep fuel rest ('{' :: body) (.obj [])
  | object {body : List Char} {fields : List (String × Json)}
      (h : readFields fuel [] (skipSpace body) = .ok (fields, rest)) :
      ValueStep fuel rest ('{' :: body) (.obj fields)
  | scalar {cs : List Char} {v : Json} (hquote : ∀ body, cs ≠ '"' :: body)
      (hlist : ∀ body, cs ≠ '[' :: body) (hobject : ∀ body, cs ≠ '{' :: body)
      (h : readScalar cs = .ok (v, rest)) : ValueStep fuel rest cs v

section Step

variable {fuel : Nat} {cs rest : List Char}

theorem readFields_brace (fuel : Nat) (sofar : List (String × Json)) (rest : List Char) :
    ∃ stop, readFields fuel sofar ('}' :: rest) = .error stop := by
  cases fuel with
  | zero => exact ⟨_, rfl⟩
  | succ fuel => exact ⟨_, rfl⟩

theorem readValue_eq_ok {v : Json} :
    readValue (fuel + 1) cs = .ok (v, rest) ↔ ValueStep fuel rest cs v := by
  constructor
  · intro h
    rw [readValue.eq_def] at h
    simp only at h
    split at h
    · obtain ⟨⟨s, after⟩, hs, hpure⟩ := bind_eq_ok.mp h
      cases hpure
      exact .text hs
    · split at h
      · rename_i hclose
        cases h
        exact .emptyList hclose
      · rename_i hopen
        obtain ⟨⟨items, after⟩, hitems, hpure⟩ := bind_eq_ok.mp h
        cases hpure
        exact .list hopen hitems
    · split at h
      · rename_i hclose
        cases h
        exact .emptyObject hclose
      · obtain ⟨⟨fields, after⟩, hfields, hpure⟩ := bind_eq_ok.mp h
        cases hpure
        exact .object hfields
    · rename_i hquote hlist hobject
      exact .scalar hquote hlist hobject h
  · intro h
    cases h with
    | text h =>
        rw [readValue, h]
        rfl
    | emptyList hclose =>
        rw [readValue, hclose]
        rfl
    | list hopen h =>
        rw [readValue]
        split
        · rename_i hclose
          exact absurd hclose (hopen _)
        · rw [h]
          rfl
    | emptyObject hclose =>
        rw [readValue, hclose]
        rfl
    | object h =>
        rw [readValue]
        split
        · rename_i hclose
          obtain ⟨stop, hstop⟩ := readFields_brace fuel [] _
          rw [hclose, hstop] at h
          cases h
        · rw [h]
          rfl
    | scalar hquote hlist hobject h =>
        rw [readValue, h]
        · exact hquote
        · exact hlist
        · exact hobject

-- An item is a value, and behind it the next item or the end.
theorem readItems_eq_ok {vs : List Json} :
    readItems (fuel + 1) cs = .ok (vs, rest) ↔
      ∃ v behind, readValue fuel cs = .ok (v, behind) ∧
        ((∃ next ws, skipSpace behind = ',' :: next ∧
            readItems fuel (skipSpace next) = .ok (ws, rest) ∧ vs = v :: ws) ∨
          skipSpace behind = ']' :: rest ∧ vs = [v]) := by
  constructor
  · intro h
    rw [readItems] at h
    obtain ⟨⟨v, behind⟩, hv, hbehind⟩ := bind_eq_ok.mp h
    refine ⟨v, behind, hv, ?_⟩
    simp only at hbehind
    split at hbehind
    · rename_i next hcomma
      obtain ⟨⟨ws, last⟩, hws, hpure⟩ := bind_eq_ok.mp hbehind
      cases hpure
      exact .inl ⟨next, ws, hcomma, hws, rfl⟩
    · rename_i hclose
      cases hbehind
      exact .inr ⟨hclose, rfl⟩
    · cases hbehind
  · rintro ⟨v, behind, hv, hbehind⟩
    rw [readItems, hv, ok_bind]
    rcases hbehind with ⟨next, ws, hcomma, hws, rfl⟩ | ⟨hclose, rfl⟩
    · simp only [hcomma, hws]
      rfl
    · simp only [hclose]
      rfl

-- A field is a key, a colon and a value, and behind it the next field or the end.
theorem readFields_eq_ok {sofar fields : List (String × Json)} :
    readFields (fuel + 1) sofar cs = .ok (fields, rest) ↔
      ∃ text key after value v behind, cs = '"' :: text ∧ readChars cs text = .ok (key, after) ∧
        skipSpace after = ':' :: value ∧ readValue fuel (skipSpace value) = .ok (v, behind) ∧
        ((∃ next, skipSpace behind = ',' :: next ∧
            readFields fuel (setField (String.ofList key) v sofar) (skipSpace next) =
              .ok (fields, rest)) ∨
          skipSpace behind = '}' :: rest ∧ fields = setField (String.ofList key) v sofar) := by
  constructor
  · intro h
    rw [readFields.eq_def] at h
    simp only at h
    split at h
    · rename_i text
      obtain ⟨⟨key, after⟩, hkey, hcolon⟩ := bind_eq_ok.mp h
      simp only at hcolon
      split at hcolon
      · rename_i value hafter
        obtain ⟨⟨v, behind⟩, hv, hbehind⟩ := bind_eq_ok.mp hcolon
        refine ⟨text, key, after, value, v, behind, rfl, hkey, hafter, hv, ?_⟩
        simp only at hbehind
        split at hbehind
        · rename_i next hnext
          exact .inl ⟨next, hnext, hbehind⟩
        · rename_i hclose
          cases hbehind
          exact .inr ⟨hclose, rfl⟩
        · cases hbehind
      · cases hcolon
    · cases h
  · rintro ⟨text, key, after, value, v, behind, rfl, hkey, hcolon, hv, hbehind⟩
    rw [readFields, hkey, ok_bind]
    simp only [hcolon, hv, ok_bind]
    rcases hbehind with ⟨next, hnext, hrest⟩ | ⟨hclose, rfl⟩
    · simp only [hnext, hrest]
    · simp only [hclose]
      rfl

end Step

theorem readText_eq_ok {text : List Char} {v : Json} (h : readText text = .ok v) :
    ∃ rest, readValue (2 * text.length + 2) (skipSpace text) = .ok (v, rest) ∧
      ∀ c ∈ rest, isSpace c = true := by
  unfold readText at h
  split at h
  · cases h
  · obtain ⟨⟨w, rest⟩, hvalue, hend⟩ := bind_eq_ok.mp h
    simp only at hend
    split at hend
    · rename_i hskip
      cases hend
      exact ⟨rest, hvalue, List.dropWhile_eq_nil_iff.mp hskip⟩
    · cases hend

end Listing.Json

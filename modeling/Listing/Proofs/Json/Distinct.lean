import Listing.Proofs.Json.Plain
import Listing.Proofs.Json.Step

namespace Listing.Json

theorem mem_setField {key : String} {value : Json} {fields : List (String × Json)}
    {f : String × Json} (h : f ∈ setField key value fields) : f = (key, value) ∨ f ∈ fields := by
  induction fields with
  | nil => exact .inl (List.mem_singleton.mp h)
  | cons g rest ih =>
      obtain ⟨k, v⟩ := g
      simp only [setField] at h
      split at h
      · rcases List.mem_cons.mp h with rfl | h
        · exact .inl rfl
        · exact .inr (List.mem_cons_of_mem _ h)
      · rcases List.mem_cons.mp h with rfl | h
        · exact .inr List.mem_cons_self
        · exact (ih h).imp id (List.mem_cons_of_mem _)

theorem keys_setField (key : String) (value : Json) (fields : List (String × Json)) :
    (setField key value fields).map (·.1) =
      if key ∈ fields.map (·.1) then fields.map (·.1) else fields.map (·.1) ++ [key] := by
  by_cases h : key ∈ fields.map (·.1)
  · rw [if_pos h]
    induction fields with
    | nil => simp at h
    | cons f rest ih =>
        obtain ⟨k, v⟩ := f
        simp only [setField]
        split
        · rename_i hk
          simp [hk]
        · rename_i hk
          have hrest : key ∈ rest.map (·.1) := by
            rcases List.mem_cons.mp h with hkey | hrest
            · exact absurd hkey.symm hk
            · exact hrest
          simp only [List.map_cons, ih hrest]
  · rw [if_neg h, setField_of_notMem h, List.map_append]
    rfl

theorem hasDistinctKeys_setField {key : String} {value : Json} {fields : List (String × Json)}
    (hvalue : value.hasDistinctKeys = true) (h : (obj fields).hasDistinctKeys = true) :
    (obj (setField key value fields)).hasDistinctKeys = true := by
  rw [hasDistinctKeys_obj] at h ⊢
  constructor
  · rw [keys_setField]
    split
    · exact h.1
    · rename_i hkey
      rw [List.nodup_append]
      refine ⟨h.1, by simp, ?_⟩
      rintro a ha b hb rfl
      exact hkey (List.mem_singleton.mp hb ▸ ha)
  · intro f hf
    rcases mem_setField hf with rfl | hf
    · exact hvalue
    · exact h.2 f hf

theorem hasDistinctKeys_readNumberTail (negative : Bool) (whole rest : List Char) :
    (readNumberTail negative whole rest).1.hasDistinctKeys = true := by
  simp only [readNumberTail]
  split <;> rfl

private theorem hasDistinctKeys_readNumber {cs : List Char} {found : Json × List Char}
    (h : readNumber? cs = some found) : found.1.hasDistinctKeys = true := by
  simp only [readNumber?] at h
  split at h
  · rw [← Option.some.inj h]
    exact hasDistinctKeys_readNumberTail _ _ _
  · split at h
    · rw [← Option.some.inj h]
      exact hasDistinctKeys_readNumberTail _ _ _
    · cases h
  · cases h

theorem hasDistinctKeys_readScalar {cs rest : List Char} {v : Json}
    (h : readScalar cs = .ok (v, rest)) : v.hasDistinctKeys = true := by
  unfold readScalar at h
  split at h
  case h_7 =>
    split at h
    · rename_i hnumber
      rw [Except.ok.injEq] at h
      rw [h] at hnumber
      exact hasDistinctKeys_readNumber hnumber
    · cases h
  all_goals
    cases h
    rfl

-- Whatever is read, with however much fuel, has no key twice.
theorem hasDistinctKeys_read (fuel : Nat) :
    (∀ cs v rest, readValue fuel cs = .ok (v, rest) → v.hasDistinctKeys = true) ∧
      (∀ cs vs rest, readItems fuel cs = .ok (vs, rest) → (arr vs).hasDistinctKeys = true) ∧
      ∀ sofar cs fs rest, (obj sofar).hasDistinctKeys = true →
        readFields fuel sofar cs = .ok (fs, rest) → (obj fs).hasDistinctKeys = true := by
  induction fuel with
  | zero => simp [readValue, readItems, readFields]
  | succ fuel ih =>
      obtain ⟨ihvalue, ihitems, ihfields⟩ := ih
      refine ⟨?_, ?_, ?_⟩
      · intro cs v rest h
        cases readValue_eq_ok.mp h with
        | text => rfl
        | emptyList => rfl
        | list hopen hitems => exact ihitems _ _ _ hitems
        | emptyObject => rfl
        | object hfields => exact ihfields _ _ _ _ rfl hfields
        | scalar hquote hlist hobject hscalar => exact hasDistinctKeys_readScalar hscalar
      · intro cs vs rest h
        obtain ⟨v, behind, hvalue, hbehind⟩ := readItems_eq_ok.mp h
        have hv := ihvalue _ _ _ hvalue
        rcases hbehind with ⟨next, ws, -, hitems, rfl⟩ | ⟨-, rfl⟩
        · have hws := ihitems _ _ _ hitems
          rw [hasDistinctKeys_arr] at hws ⊢
          exact List.forall_mem_cons.mpr ⟨hv, hws⟩
        · simpa using hv
      · intro sofar cs fs rest hsofar h
        obtain ⟨text, key, after, value, v, behind, -, -, -, hvalue, hbehind⟩ :=
          readFields_eq_ok.mp h
        have hset : (obj (setField (String.ofList key) v sofar)).hasDistinctKeys = true :=
          hasDistinctKeys_setField (ihvalue _ _ _ hvalue) hsofar
        rcases hbehind with ⟨next, -, hfields⟩ | ⟨-, rfl⟩
        · exact ihfields _ _ _ _ hset hfields
        · exact hset

theorem hasDistinctKeys_readText {text : List Char} {v : Json} (h : readText text = .ok v) :
    v.hasDistinctKeys = true := by
  obtain ⟨rest, hvalue, -⟩ := readText_eq_ok h
  exact (hasDistinctKeys_read _).1 _ _ _ hvalue

end Listing.Json

import Listing.Json.Access
import Listing.Proofs.Outcome

namespace Listing

-- What a reader puts down to the text that it reads: something is missing in it, or is of a wrong
-- type or value.
def Misfit.IsFlaw (m : Misfit) : Prop :=
  m.breach = .missing ∨ m.breach = .type ∨ m.breach = .value

instance (m : Misfit) : Decidable m.IsFlaw := inferInstanceAs (Decidable (_ ∨ _ ∨ _))

theorem Misfit.not_isFlaw_infinity : ¬infinityToInteger.IsFlaw := by decide

namespace Json

-- A double beyond all numbers, of either sign.
def IsInfinite (v : Json) : Prop := ∃ x negative, v = .float x ∧ x.parts = .infinite negative

theorem item_obj_eq_ok {key : String} {fields : List (String × Json)} {v : Json} :
    (obj fields).item key = .ok v ↔ lookup key fields = some v := by
  rw [item]
  split
  · rename_i h
    simp [h]
  · rename_i h
    simp [h]

theorem get_obj (fields : List (String × Json)) (key : String) (default : Json) :
    (obj fields).get key default = .ok ((lookup key fields).getD default) := rfl

theorem item_failsOnly (key : String) (v : Json) : FailsOnly Misfit.IsFlaw (v.item key) := by
  cases v with
  | obj fields =>
      rw [item]
      split
      · exact failsOnly_ok _
      · exact failsOnly_error (.inl rfl)
  | _ => exact failsOnly_error (.inr (.inl rfl))

theorem elements_failsOnly (v : Json) : FailsOnly Misfit.IsFlaw v.elements := by
  cases v with
  | arr items => exact failsOnly_ok _
  | str s => exact failsOnly_ok _
  | obj fields => exact failsOnly_ok _
  | _ => exact failsOnly_error (.inr (.inl rfl))

-- Only an infinite number has no integer for a reason that is no flaw.
theorem toInt_failsOnly (v : Json) :
    FailsOnly (fun m => m.IsFlaw ∨ m = .infinityToInteger ∧ v.IsInfinite) v.toInt := by
  cases v with
  | int n => exact failsOnly_ok _
  | bool b => exact failsOnly_ok _
  | float x =>
      rw [toInt]
      split
      · exact failsOnly_error (.inl (.inr (.inr rfl)))
      · rename_i hx
        exact failsOnly_error (.inr ⟨rfl, x, _, rfl, hx⟩)
      · exact failsOnly_ok _
  | str s =>
      rw [toInt]
      split
      · exact failsOnly_ok _
      · exact failsOnly_error (.inl (.inr (.inr rfl)))
  | _ => exact failsOnly_error (.inl (.inr (.inl rfl)))

theorem toInt_eq_infinity {v : Json} : v.toInt = .error .infinityToInteger ↔ v.IsInfinite := by
  constructor
  · intro h
    exact ((toInt_failsOnly v _ h).resolve_left (by decide)).2
  · rintro ⟨x, negative, rfl, hx⟩
    simp only [toInt, hx]

theorem toInt_eq_error {m : Misfit} (hm : ¬m.IsFlaw) {v : Json} :
    v.toInt = .error m ↔ m = .infinityToInteger ∧ v.IsInfinite := by
  constructor
  · exact fun h => (toInt_failsOnly v m h).resolve_left hm
  · rintro ⟨rfl, hv⟩
    exact toInt_eq_infinity.mpr hv

theorem getD_eq_str_iff {v : Option Json} {s : String} :
    v.getD .null = .str s ↔ v = some (.str s) := by
  cases v with
  | none => simp
  | some x => simp

-- A default that is finite does not count.
theorem isInfinite_getD {v : Option Json} {default : Json} (h : ¬default.IsInfinite) :
    (v.getD default).IsInfinite ↔ ∃ x, v = some x ∧ x.IsInfinite := by
  cases v with
  | none => simp [h]
  | some x => simp

theorem not_isInfinite_int (n : Int) : ¬(int n).IsInfinite := by simp [IsInfinite]

theorem not_isInfinite_null : ¬null.IsInfinite := by simp [IsInfinite]

section Texts

variable {vs : List Json}

theorem exists_map_str (h : ∀ v ∈ vs, ∃ text, v = .str text) :
    ∃ texts : List String, vs = texts.map .str := by
  induction vs with
  | nil => exact ⟨[], rfl⟩
  | cons v vs ih =>
      obtain ⟨⟨text, rfl⟩, hrest⟩ := List.forall_mem_cons.mp h
      obtain ⟨texts, rfl⟩ := ih hrest
      exact ⟨text :: texts, rfl⟩

theorem mapM_str? (texts : List String) : (texts.map str).mapM str? = some texts := by
  induction texts with
  | nil => rfl
  | cons text texts ih => simp [str?, ih]

theorem texts_of_mapM_str? {texts : List String} (h : vs.mapM str? = some texts) :
    vs = texts.map .str := by
  induction vs generalizing texts with
  | nil => simp_all
  | cons v vs ih =>
      rw [List.mapM_cons] at h
      obtain ⟨text, htext, h⟩ := Option.bind_eq_some_iff.mp h
      obtain ⟨rest, hrest, h⟩ := Option.bind_eq_some_iff.mp h
      cases h
      cases v with
      | str s =>
          cases htext
          rw [ih hrest, List.map_cons]
      | _ => cases htext

end Texts

end Json
end Listing

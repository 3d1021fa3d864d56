import Listing.Json.Access
import Listing.Proofs.Json.Plain
import Listing.Proofs.Outcome

namespace Listing.Json

section Render

variable {room : Nat} {indent : Indent} {v : Json}

-- A memory that can hold the blanks of an indentation, and a text.
def Indent.HasRoom (room : Nat) (indent : Indent) (text : String) : Prop :=
  indent.width ≤ room ∧ text.length ≤ room

theorem render_of_hasRoom (hfits : indent.fits = true)
    (hroom : indent.HasRoom room (v.write indent)) : v.render room indent = .ok (v.write indent) := by
  rw [render, hfits]
  exact (if_neg (Nat.not_lt.mpr hroom.1)).trans (if_neg (Nat.not_lt.mpr hroom.2))

theorem render_of_not_hasRoom (hfits : indent.fits = true)
    (hroom : ¬indent.HasRoom room (v.write indent)) :
    v.render room indent = .error .outOfMemory := by
  rw [render, hfits]
  by_cases hwidth : room < indent.width
  · exact if_pos hwidth
  · refine (if_neg hwidth).trans (if_pos ?_)
    exact Nat.not_le.mp fun hlength => hroom ⟨Nat.not_lt.mp hwidth, hlength⟩

theorem render_of_not_fits (hfits : indent.fits = false) :
    v.render room indent = .error .indentTooWide := by
  rw [render, hfits]
  rfl

end Render

theorem mem_of_lookup {key : String} {v : Json} {fields : List (String × Json)}
    (h : lookup key fields = some v) : (key, v) ∈ fields := by
  induction fields with
  | nil => cases h
  | cons f rest ih =>
      obtain ⟨k, w⟩ := f
      simp only [lookup] at h
      split at h
      · rename_i hk
        rw [hk, Option.some.inj h]
        exact List.mem_cons_self
      · exact List.mem_cons_of_mem _ (ih h)

-- What holds everywhere in a value holds everywhere in its parts.
theorem everywhere_field {p : Json → Bool} {fields : List (String × Json)}
    (h : (obj fields).everywhere p = true) {f : String × Json} (hf : f ∈ fields) :
    f.2.everywhere p = true :=
  everywhereFields_eq_true.mp (Bool.and_eq_true_iff.mp h).2 f hf

theorem everywhere_item {p : Json → Bool} {data v : Json} {key : String}
    (hdata : data.everywhere p = true) (h : data.item key = .ok v) : v.everywhere p = true := by
  cases data with
  | obj fields =>
      simp only [item] at h
      split at h
      · rename_i hlookup
        cases h
        exact everywhere_field hdata (mem_of_lookup hlookup)
      · cases h
  | _ => cases h

theorem everywhere_get {p : Json → Bool} {data default v : Json} {key : String}
    (hdata : data.everywhere p = true) (hdefault : default.everywhere p = true)
    (h : data.get key default = .ok v) : v.everywhere p = true := by
  cases data with
  | obj fields =>
      simp only [get, Except.ok.injEq] at h
      subst h
      cases hlookup : lookup key fields with
      | none => exact hdefault
      | some w => exact everywhere_field hdata (mem_of_lookup hlookup)
  | _ => cases h

theorem everywhere_elements {p : Json → Bool} (hp : ∀ s, p (str s) = true) {data : Json}
    {vs : List Json} (hdata : data.everywhere p = true) (h : data.elements = .ok vs) :
    ∀ v ∈ vs, v.everywhere p = true := by
  have hstr : ∀ s, (str s).everywhere p = true := hp
  cases data with
  | arr items =>
      cases h
      exact everywhereItems_eq_true.mp (Bool.and_eq_true_iff.mp hdata).2
  | str s =>
      cases h
      simp [hstr]
  | obj fields =>
      cases h
      intro v hv
      obtain ⟨f, -, rfl⟩ := List.mem_map.mp hv
      exact hstr f.1
  | _ => cases h

theorem IsPlain.item {data v : Json} {key : String} (hdata : data.IsPlain)
    (h : data.item key = .ok v) : v.IsPlain :=
  ⟨everywhere_item hdata.1 h, everywhere_item hdata.2 h⟩

theorem IsPlain.get {data default v : Json} {key : String} (hdata : data.IsPlain)
    (hdefault : default.IsPlain) (h : data.get key default = .ok v) : v.IsPlain :=
  ⟨everywhere_get hdata.1 hdefault.1 h, everywhere_get hdata.2 hdefault.2 h⟩

theorem IsPlain.elements {data : Json} {vs : List Json} (hdata : data.IsPlain)
    (h : data.elements = .ok vs) : ∀ v ∈ vs, v.IsPlain :=
  fun v hv => ⟨everywhere_elements (fun _ => rfl) hdata.1 h v hv,
    everywhere_elements (fun _ => rfl) hdata.2 h v hv⟩

end Listing.Json

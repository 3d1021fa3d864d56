import Mathlib.Data.List.Basic
import Listing.Text.Lines

namespace Listing.Text

variable {mark : Char} {cs : List Char}

theorem splitAtMark_eq_splitOn (mark : Char) (cs : List Char) :
    splitAtMark mark cs = cs.splitOn mark := by
  induction cs with
  | nil => rfl
  | cons c cs ih =>
      rw [List.splitOn_cons_eq_if_modifyHead, ← ih, splitAtMark]
      cases hparts : splitAtMark mark cs with
      | nil => exact absurd hparts (splitAtMark_ne_nil mark cs)
      | cons part parts => simp only [beq_iff_eq, List.modifyHead_cons]

theorem splitAtMark_of_notMem (h : mark ∉ cs) : splitAtMark mark cs = [cs] := by
  rw [splitAtMark_eq_splitOn, List.splitOn_eq_singleton h]

theorem splitAtMark_append (before after : List Char) :
    splitAtMark mark (before ++ mark :: after) =
      splitAtMark mark before ++ splitAtMark mark after := by
  simp only [splitAtMark_eq_splitOn, List.splitOn_append_cons_self]

theorem splitAtMark_cons_self (cs : List Char) :
    splitAtMark mark (mark :: cs) = [] :: splitAtMark mark cs :=
  splitAtMark_append [] cs

theorem notMem_of_mem_splitAtMark {part : List Char} (h : part ∈ splitAtMark mark cs) :
    mark ∉ part := by
  induction cs generalizing part with
  | nil =>
      obtain rfl : part = [] := by simpa [splitAtMark] using h
      simp
  | cons c cs ih =>
      rw [splitAtMark_eq_splitOn, List.splitOn_cons_eq_if_modifyHead, ← splitAtMark_eq_splitOn] at h
      cases hparts : splitAtMark mark cs with
      | nil => exact absurd hparts (splitAtMark_ne_nil mark cs)
      | cons first rest =>
          rw [hparts] at h ih
          split at h
          · rcases List.mem_cons.mp h with rfl | h
            · simp
            · exact ih h
          · rename_i hc
            rcases List.mem_cons.mp h with rfl | h
            · have hne : mark ≠ c := fun heq => hc (beq_iff_eq.mpr heq.symm)
              simp [hne, ih List.mem_cons_self]
            · exact ih (List.mem_cons_of_mem _ h)

-- Lines that a mark ends each break where a mark stands in them, too.
theorem splitAtMark_flatMap (lines : List (List Char)) :
    splitAtMark mark (lines.flatMap (· ++ [mark])) =
      lines.flatMap (splitAtMark mark) ++ [[]] := by
  induction lines with
  | nil => rfl
  | cons line lines ih =>
      rw [List.flatMap_cons, List.append_assoc, List.singleton_append, splitAtMark_append, ih,
        List.flatMap_cons, List.append_assoc]

theorem splitAtMark_flatMap_eq_iff {lines : List (List Char)} :
    splitAtMark mark (lines.flatMap (· ++ [mark])) = lines ++ [[]] ↔
      ∀ line ∈ lines, mark ∉ line := by
  rw [splitAtMark_flatMap]
  constructor
  · intro h line hline
    have hparts : lines.flatMap (splitAtMark mark) = lines := List.append_cancel_right h
    obtain ⟨whole, -, hpart⟩ := List.mem_flatMap.mp (hparts ▸ hline)
    exact notMem_of_mem_splitAtMark hpart
  · intro h
    rw [List.flatMap_congr fun line hline => splitAtMark_of_notMem (h line hline),
      List.flatMap_singleton']

-- Parts put together with marks between them are the parts again.
theorem splitAtMark_intercalate {parts : List (List Char)} (h : ∀ part ∈ parts, mark ∉ part)
    (hne : parts ≠ []) : splitAtMark mark ([mark].intercalate parts) = parts := by
  rw [splitAtMark_eq_splitOn, List.splitOn_intercalate mark h hne]

end Listing.Text

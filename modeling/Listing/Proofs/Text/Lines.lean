import Mathlib.Data.List.TakeWhile
import Listing.Proofs.Text.Visible

namespace Listing.Text

section Trim

variable {front cs back : List Char} {c : Char}

theorem trim_append_left (h : ∀ c ∈ front, isBlank c = true) (cs : List Char) :
    trim (front ++ cs) = trim cs := by
  rw [trim, trimStart, List.dropWhile_append_of_pos h, trim, trimStart]

theorem trimEnd_append_right (cs : List Char) (h : ∀ c ∈ back, isBlank c = true) :
    trimEnd (cs ++ back) = trimEnd cs := by
  have hreverse : ∀ c ∈ back.reverse, isBlank c = true := fun c hc => h c (List.mem_reverse.mp hc)
  rw [trimEnd, List.reverse_append, trimStart, List.dropWhile_append_of_pos hreverse, trimEnd,
    trimStart]

-- Only the end is cut off behind a character that is not blank.
theorem trim_cons (hc : isBlank c = false) (cs : List Char) :
    trim (c :: cs) = trimEnd (c :: cs) := by
  rw [trim, trimStart, List.dropWhile_cons_of_neg (by simp [hc])]

theorem trimEnd_cons (hc : isBlank c = false) (cs : List Char) :
    trimEnd (c :: cs) = c :: trimEnd cs := by
  have hlast : trimStart [c] = [c] := List.dropWhile_cons_of_neg (by simp [hc])
  rw [trimEnd, List.reverse_cons, trimStart, List.dropWhile_append, ← trimStart, ← trimStart, hlast]
  split
  · rename_i hnone
    rw [trimEnd, List.isEmpty_iff.mp hnone]
    rfl
  · rw [List.reverse_append, trimEnd]
    rfl

theorem trimEnd_append_blanks (cs : List Char) :
    ∃ blanks, cs = trimEnd cs ++ blanks ∧ ∀ c ∈ blanks, isBlank c = true := by
  refine ⟨(cs.reverse.takeWhile isBlank).reverse, ?_, fun c hc => ?_⟩
  · rw [trimEnd, trimStart, ← List.reverse_append, List.takeWhile_append_dropWhile,
      List.reverse_reverse]
  · exact List.all_eq_true.mp List.all_takeWhile c (List.mem_reverse.mp hc)

end Trim

-- A text without a character that breaks lines.
def Unbroken (cs : List Char) : Prop := ∀ c ∈ cs, isLineBreak c = false

instance (cs : List Char) : Decidable (Unbroken cs) := List.decidableBAll _ cs

-- A text cut at each character that breaks lines. The piece behind the last break counts, too.
def pieces (cs : List Char) : List (List Char) := cs.splitOnP isLineBreak

theorem length_pieces (cs : List Char) : (pieces cs).length = cs.countP isLineBreak + 1 := by
  induction cs with
  | nil => rfl
  | cons c cs ih =>
      rw [pieces, List.splitOnP_cons_eq_if_modifyHead, List.countP_cons]
      split
      · rw [List.length_cons, ← pieces, ih]
      · rw [List.length_modifyHead, ← pieces, ih, Nat.add_zero]

-- Each piece but the last ends at a break in its line, and the last at the end of the line.
theorem length_flatMap_pieces (lines : List (List Char)) :
    (lines.flatMap pieces).length =
      (lines.flatMap fun line => line ++ ['\n']).countP isLineBreak := by
  induction lines with
  | nil => rfl
  | cons line lines ih =>
      have hfeed : isLineBreak '\n' = true := rfl
      rw [List.flatMap_cons, List.length_append, length_pieces, ih, List.flatMap_cons,
        List.countP_append, List.countP_append, List.countP_singleton, if_pos hfeed]

theorem pieces_of_unbroken {cs : List Char} (h : Unbroken cs) : pieces cs = [cs] :=
  List.splitOnP_eq_singleton h

theorem splitLines_break {c : Char} (h : isLineBreak c = true) (hc : c ≠ '\r') (cs : List Char) :
    splitLines (c :: cs) = [] :: splitLines cs :=
  splitLines_cons_break h fun _ hreturn _ => hc hreturn

-- Without carriage returns the lines are the pieces, but for an empty one at the end.
theorem pieces_eq_splitLines {cs : List Char} (h : '\r' ∉ cs) :
    pieces cs = splitLines cs ∨ pieces cs = splitLines cs ++ [[]] := by
  induction cs with
  | nil => exact .inr rfl
  | cons c cs ih =>
      have hc : c ≠ '\r' := fun hr => h (hr ▸ List.mem_cons_self)
      have hcs : '\r' ∉ cs := fun hr => h (List.mem_cons_of_mem _ hr)
      rw [pieces, List.splitOnP_cons_eq_if_modifyHead, ← pieces]
      by_cases hbreak : isLineBreak c = true
      · rw [if_pos hbreak, splitLines_break hbreak hc]
        rcases ih hcs with heq | heq
        · exact .inl (by rw [heq])
        · exact .inr (by rw [heq, List.cons_append])
      · rw [if_neg hbreak, splitLines_cons (Bool.eq_false_iff.mpr hbreak)]
        cases hlines : splitLines cs with
        | nil =>
            have hpieces : pieces cs = [[]] := by
              rcases ih hcs with heq | heq
              · exact absurd (heq.trans hlines) (List.splitOnP_ne_nil _ _)
              · rw [heq, hlines, List.nil_append]
            exact .inl (by rw [hpieces]; rfl)
        | cons line lines =>
            rw [hlines] at ih
            rcases ih hcs with heq | heq
            · exact .inl (by rw [heq]; rfl)
            · exact .inr (by rw [heq]; rfl)

-- The lines of a file, one after the other.
def joined (lines : List (List Char)) : List Char := ['\n'].intercalate lines

theorem pieces_joined {lines : List (List Char)} (h : lines ≠ []) :
    pieces (joined lines) = lines.flatMap pieces := by
  induction lines with
  | nil => exact absurd rfl h
  | cons line lines ih =>
      cases lines with
      | nil => simp [joined]
      | cons next lines =>
          rw [joined, List.intercalate_cons_cons, List.append_assoc, List.singleton_append, pieces,
            List.splitOnP_append_cons _ _ rfl, ← pieces, ← pieces, ← joined, ih (by simp)]
          rfl

theorem notMem_joined {lines : List (List Char)} {c : Char} (hc : c ≠ '\n')
    (h : ∀ line ∈ lines, c ∉ line) : c ∉ joined lines := by
  induction lines with
  | nil => simp [joined]
  | cons line lines ih =>
      obtain ⟨hline, hlines⟩ := List.forall_mem_cons.mp h
      cases lines with
      | nil => simpa [joined] using hline
      | cons next lines =>
          rw [joined, List.intercalate_cons_cons, ← joined]
          simp [hc, hline, ih hlines]

end Listing.Text

import Listing.Symbol

namespace Listing

namespace Text

theorem unescape_cons {c : Char} (h : c ≠ '\\') (rest : List Char) :
    unescape (c :: rest) = c :: unescape rest := by
  cases rest <;> simp [unescape, h]

theorem unescape_escape (cs : List Char) : unescape (escape cs) = cs := by
  induction cs with
  | nil => rfl
  | cons c cs ih =>
      rw [escape_cons, escapeChar]
      split
      · rename_i hspecial
        have hfeed : c ≠ '\n' := by
          rintro rfl
          simp at hspecial
        simp [unescape, hfeed, ih]
      · rename_i hplain
        rw [List.singleton_append, unescape_cons (fun h => hplain (.inl h)), ih]

theorem length_unescape_le (cs : List Char) : (unescape cs).length ≤ cs.length := by
  fun_induction unescape cs with
  | case1 => exact Nat.le_refl _
  | case2 => exact Nat.le_refl _
  | case3 rest ih => simpa using ih
  | case4 c rest hfeed ih =>
      simp only [List.length_cons]
      omega
  | case5 c rest _ _ ih => simpa using ih

end Text

namespace Symbol

theorem unquoteChars_quoted (body : List Char) :
    unquoteChars ('"' :: body ++ ['"']) = Text.unescape body := by
  cases body with
  | nil => rfl
  | cons c body =>
      have hlast : (c :: (body ++ ['"'])).getLast? = some '"' := by
        rw [← List.cons_append, List.getLast?_concat]
      have hdrop : (c :: (body ++ ['"'])).dropLast = c :: body := by
        rw [← List.cons_append, List.dropLast_concat]
      simp only [List.cons_append, unquoteChars, hlast, if_true, hdrop]

-- Text in double quotes, of which there are two.
def IsQuoted (name : String) : Prop := ∃ body, name.toList = '"' :: body ++ ['"']

theorem unquoteChars_of_not_quoted {cs : List Char} (h : ¬∃ body, cs = '"' :: body ++ ['"']) :
    unquoteChars cs = cs := by
  unfold unquoteChars
  split
  · rename_i c rest
    split
    · rename_i hlast
      obtain ⟨body, hbody⟩ := List.getLast?_eq_some_iff.mp hlast
      exact absurd ⟨body, by rw [hbody, List.cons_append]⟩ h
    · rfl
  · rfl

theorem unquote_of_not_quoted {name : String} (h : ¬IsQuoted name) : unquote name = name := by
  rw [unquote, unquoteChars_of_not_quoted h, String.ofList_toList]

-- Two quotes are lost at least.
theorem length_unquote_lt {name : String} (h : IsQuoted name) :
    (unquote name).length < name.length := by
  obtain ⟨body, hbody⟩ := h
  have hle := Text.length_unescape_le body
  rw [← String.length_toList, ← String.length_toList, unquote, String.toList_ofList, hbody,
    unquoteChars_quoted, List.length_append, List.length_cons, List.length_singleton]
  omega

theorem length_unquote_le (name : String) : (unquote name).length ≤ name.length := by
  by_cases h : IsQuoted name
  · exact Nat.le_of_lt (length_unquote_lt h)
  · exact Nat.le_of_eq (congrArg String.length (unquote_of_not_quoted h))

-- Unquoting leaves a name alone if and only if it is not in quotes.
theorem unquote_eq_self_iff {name : String} : unquote name = name ↔ ¬IsQuoted name := by
  refine ⟨fun h hquoted => ?_, unquote_of_not_quoted⟩
  have hlt := length_unquote_lt hquoted
  rw [h] at hlt
  exact Nat.lt_irrefl _ hlt

theorem not_quoted_of_isBare {cs : List Char} (h : isBare cs = true) :
    ¬∃ body, cs = '"' :: body ++ ['"'] := by
  rintro ⟨body, rfl⟩
  simp [isBare, isNameStart] at h

-- A printed name reads back as it was, whatever it is made of.
theorem unquote_print (name : String) : unquote (print name) = name := by
  have hchars : unquoteChars (printChars name.toList) = name.toList := by
    rw [printChars]
    split
    · rename_i hbare
      exact unquoteChars_of_not_quoted (not_quoted_of_isBare hbare)
    · rw [unquoteChars_quoted, Text.unescape_escape]
  rw [unquote, print, String.toList_ofList, hchars, String.ofList_toList]

end Symbol
end Listing

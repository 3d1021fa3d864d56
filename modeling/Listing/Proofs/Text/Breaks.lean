import Listing.Proofs.Text.Lines

namespace Listing.Text

theorem splitLines_ne_nil {cs : List Char} (h : cs ≠ []) : splitLines cs ≠ [] := by
  rw [splitLines.eq_def]
  split
  · exact absurd rfl h
  · simp
  · split
    · simp
    · split <;> simp

-- A character that breaks no line stands in front of the first line there is.
theorem splitLines_cons_of_lines {c : Char} {cs line : List Char} {lines : List (List Char)}
    (h : isLineBreak c = false) (hlines : splitLines cs = line :: lines) :
    splitLines (c :: cs) = (c :: line) :: lines := by
  rw [splitLines_cons h, hlines]

-- What a carriage return does to the text behind it, a line feed behind that text leaves alone.
theorem not_feed_append {c : Char} {cs : List Char} (hlast : ¬(c = '\r' ∧ cs = []))
    (hc : ∀ rest, c = '\r' → cs = '\n' :: rest → False) (after : List Char) :
    ∀ rest, c = '\r' → cs ++ after = '\n' :: rest → False := by
  intro rest hreturn hrest
  cases cs with
  | nil => exact hlast ⟨hreturn, rfl⟩
  | cons d cs => exact hc cs hreturn (by rw [(List.cons.inj hrest).1])

-- Behind a line feed a text breaks into lines as it does alone, whatever stands before it. A
-- carriage return in front of the line feed is one break with it on both sides.
theorem splitLines_append_feed (cs rest : List Char) :
    splitLines (cs ++ '\n' :: rest) = splitLines (cs ++ ['\n']) ++ splitLines rest := by
  induction cs using splitLines.induct with
  | case1 => rfl
  | case2 cs ih =>
      change [] :: splitLines (cs ++ '\n' :: rest) = [] :: (splitLines (cs ++ ['\n']) ++ _)
      rw [ih]
  | case3 c cs hreturn hbreak ih =>
      by_cases hlast : c = '\r' ∧ cs = []
      · obtain ⟨rfl, rfl⟩ := hlast
        rfl
      · have hboth := not_feed_append hlast hreturn
        rw [List.cons_append, List.cons_append, splitLines_cons_break hbreak (hboth _),
          splitLines_cons_break hbreak (hboth _), ih, List.cons_append]
  | case4 c cs _ hbreak _ ih | case5 c cs _ hbreak _ _ _ ih =>
      have hplain : isLineBreak c = false := Bool.eq_false_iff.mpr hbreak
      cases hlines : splitLines (cs ++ ['\n']) with
      | nil => exact absurd hlines (splitLines_ne_nil (by simp))
      | cons line lines =>
          rw [hlines, List.cons_append] at ih
          rw [List.cons_append, List.cons_append, splitLines_cons_of_lines hplain ih,
            splitLines_cons_of_lines hplain hlines, List.cons_append]

-- A line feed at the end closes the last line, or else is an empty line of its own.
theorem splitLines_concat_feed (cs : List Char) :
    splitLines (cs ++ ['\n']) = splitLines cs ∨
      splitLines (cs ++ ['\n']) = splitLines cs ++ [[]] := by
  induction cs using splitLines.induct with
  | case1 => exact .inr rfl
  | case2 cs ih =>
      change [] :: splitLines (cs ++ ['\n']) = [] :: splitLines cs ∨
        [] :: splitLines (cs ++ ['\n']) = [] :: (splitLines cs ++ [[]])
      simpa using ih
  | case3 c cs hreturn hbreak ih =>
      by_cases hlast : c = '\r' ∧ cs = []
      · obtain ⟨rfl, rfl⟩ := hlast
        exact .inl rfl
      · rw [List.cons_append, splitLines_cons_break hbreak (not_feed_append hlast hreturn _),
          splitLines_cons_break hbreak hreturn]
        simpa using ih
  | case4 c cs _ hbreak hnone _ =>
      obtain rfl : cs = [] := by
        by_contra hne
        exact splitLines_ne_nil hne hnone
      have hplain : isLineBreak c = false := Bool.eq_false_iff.mpr hbreak
      have hfeed : splitLines ['\n'] = [] :: [] := rfl
      left
      rw [List.singleton_append, splitLines_cons_of_lines hplain hfeed, splitLines_cons hplain]
      rfl
  | case5 c cs _ hbreak line lines hlines ih =>
      have hplain : isLineBreak c = false := Bool.eq_false_iff.mpr hbreak
      rw [hlines] at ih
      rw [List.cons_append, splitLines_cons_of_lines hplain hlines]
      rcases ih with heq | heq
      · exact .inl (splitLines_cons_of_lines hplain heq)
      · exact .inr (splitLines_cons_of_lines hplain heq)

-- Line ends of one kind break a text as the ones it had.
theorem splitLines_unifyNewlines (cs : List Char) :
    splitLines (unifyNewlines cs) = splitLines cs := by
  induction cs using unifyNewlines.induct with
  | case1 => rfl
  | case2 rest ih =>
      change [] :: splitLines (unifyNewlines rest) = [] :: splitLines rest
      rw [ih]
  | case3 rest hfeed ih =>
      have hreturn : isLineBreak '\r' = true := rfl
      rw [unifyNewlines.eq_3 rest hfeed, splitLines_cons_break hreturn fun tail _ => hfeed tail,
        ← ih]
      rfl
  | case4 c rest _ hc ih =>
      rw [unifyNewlines.eq_4 c rest ‹_› hc]
      by_cases hbreak : isLineBreak c = true
      · rw [splitLines_break hbreak hc, splitLines_break hbreak hc, ih]
      · have hplain : isLineBreak c = false := Bool.eq_false_iff.mpr hbreak
        rw [splitLines_cons hplain, splitLines_cons hplain, ih]

-- The first lines of a text are the lines of a text that it begins with.
theorem exists_prefix_take (cs : List Char) (count : Nat) :
    ∃ front, front <+: cs ∧ splitLines front = (splitLines cs).take count := by
  induction cs using splitLines.induct generalizing count with
  | case1 => exact ⟨[], List.prefix_refl [], List.take_nil.symm⟩
  | case2 cs ih =>
      cases count with
      | zero => exact ⟨[], List.nil_prefix, rfl⟩
      | succ count =>
          obtain ⟨front, hfront, hlines⟩ := ih count
          refine ⟨'\r' :: '\n' :: front, ?_, ?_⟩
          · simpa using hfront
          · change [] :: splitLines front = [] :: (splitLines cs).take count
            rw [hlines]
  | case3 c cs hreturn hbreak ih =>
      cases count with
      | zero => exact ⟨[], List.nil_prefix, rfl⟩
      | succ count =>
          obtain ⟨front, hfront, hlines⟩ := ih count
          have hfeed : ∀ rest, c = '\r' → front = '\n' :: rest → False := by
            rintro rest hc rfl
            obtain ⟨after, rfl⟩ := hfront
            exact hreturn _ hc (List.cons_append)
          refine ⟨c :: front, ?_, ?_⟩
          · simpa using hfront
          · rw [splitLines_cons_break hbreak hfeed, splitLines_cons_break hbreak hreturn, hlines,
              List.take_succ_cons]
  | case4 c cs _ hbreak hnone _ =>
      have hplain : isLineBreak c = false := Bool.eq_false_iff.mpr hbreak
      have hline : splitLines (c :: cs) = [[c]] := by rw [splitLines_cons hplain, hnone]
      cases count with
      | zero => exact ⟨[], List.nil_prefix, rfl⟩
      | succ count => exact ⟨c :: cs, List.prefix_refl _, by rw [hline]; simp⟩
  | case5 c cs _ hbreak line lines hlines ih =>
      have hplain : isLineBreak c = false := Bool.eq_false_iff.mpr hbreak
      cases count with
      | zero => exact ⟨[], List.nil_prefix, rfl⟩
      | succ count =>
          obtain ⟨front, hfront, htake⟩ := ih (count + 1)
          rw [hlines, List.take_succ_cons] at htake
          refine ⟨c :: front, ?_, ?_⟩
          · simpa using hfront
          · rw [splitLines_cons_of_lines hplain htake, splitLines_cons_of_lines hplain hlines,
              List.take_succ_cons]

end Listing.Text

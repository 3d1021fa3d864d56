import Listing.Text.Lines
import Listing.Text.Digits

namespace Listing.Text

-- The characters of ASCII from the space to the tilde.
def IsVisible (c : Char) : Prop := 0x20 ≤ c.toNat ∧ c.toNat ≤ 0x7e

instance (c : Char) : Decidable (IsVisible c) := inferInstanceAs (Decidable (_ ∧ _))

theorem isVisible_of_mem_hex {c : Char} {width n : Nat} (h : c ∈ hex width n) : IsVisible c := by
  induction width generalizing n with
  | zero => simp [hex] at h
  | succ width ih =>
      simp only [hex, List.mem_append, List.mem_singleton] at h
      rcases h with h | rfl
      · exact ih h
      · have hall : ∀ m : Fin 16, IsVisible (hexDigit m) := by decide
        exact hall ⟨n % 16, Nat.mod_lt _ (by omega)⟩

theorem IsVisible.isLineBreak_eq_false {c : Char} (h : IsVisible c) : isLineBreak c = false := by
  have hne : ∀ d : Char, ¬IsVisible d → (c == d) = false :=
    fun d hd => beq_eq_false_iff_ne.mpr fun hcd => hd (hcd ▸ h)
  simp only [isLineBreak, Bool.or_eq_false_iff]
  refine ⟨⟨⟨⟨⟨⟨⟨⟨⟨?_, ?_⟩, ?_⟩, ?_⟩, ?_⟩, ?_⟩, ?_⟩, ?_⟩, ?_⟩, ?_⟩
  all_goals exact hne _ (by decide)

theorem isLineBreak_eq_false_of_visible {cs : List Char} (h : ∀ c ∈ cs, IsVisible c) :
    ∀ c ∈ cs, isLineBreak c = false :=
  fun c hc => (h c hc).isLineBreak_eq_false

theorem splitLines_cons {c : Char} (h : isLineBreak c = false) (cs : List Char) :
    splitLines (c :: cs) =
      match splitLines cs with
      | [] => [[c]]
      | line :: lines => (c :: line) :: lines := by
  rw [splitLines.eq_def]
  split
  · rename_i heq
    cases heq
  · rename_i heq
    rw [(List.cons.inj heq).1] at h
    exact absurd h (by decide)
  · rename_i heq
    cases heq
    rw [h]
    rfl

-- A break ends a line. Only a carriage return in front of a line feed waits for it.
theorem splitLines_cons_break {c : Char} {cs : List Char} (h : isLineBreak c = true)
    (hc : ∀ rest, c = '\r' → cs = '\n' :: rest → False) :
    splitLines (c :: cs) = [] :: splitLines cs := by
  rw [splitLines.eq_def]
  split
  · rename_i heq
    cases heq
  · rename_i rest heq
    obtain ⟨rfl, rfl⟩ := List.cons.inj heq
    exact (hc rest rfl rfl).elim
  · rename_i heq
    obtain ⟨rfl, rfl⟩ := List.cons.inj heq
    rw [if_pos h]

-- A line without a break in it ends where the first line feed stands.
theorem splitLines_line {line : List Char} (h : ∀ c ∈ line, isLineBreak c = false)
    (rest : List Char) : splitLines (line ++ '\n' :: rest) = line :: splitLines rest := by
  induction line with
  | nil => rfl
  | cons c cs ih =>
      rw [List.cons_append, splitLines_cons (h c List.mem_cons_self),
        ih fun d hd => h d (List.mem_cons_of_mem _ hd)]

theorem splitLines_flatMap {lines : List (List Char)}
    (h : ∀ line ∈ lines, ∀ c ∈ line, isLineBreak c = false) :
    splitLines (lines.flatMap (· ++ ['\n'])) = lines := by
  induction lines with
  | nil => rfl
  | cons line lines ih =>
      rw [List.flatMap_cons, List.append_assoc, List.singleton_append,
        splitLines_line (h line List.mem_cons_self),
        ih fun l hl => h l (List.mem_cons_of_mem _ hl)]

theorem trim_of_ends {a b : Char} (ha : isBlank a = false) (hb : isBlank b = false)
    (cs : List Char) : trim (a :: (cs ++ [b])) = a :: (cs ++ [b]) := by
  have hstart : trimStart (a :: (cs ++ [b])) = a :: (cs ++ [b]) :=
    List.dropWhile_cons_of_neg (by simp [ha])
  have hend : trimStart (b :: (cs.reverse ++ [a])) = b :: (cs.reverse ++ [a]) :=
    List.dropWhile_cons_of_neg (by simp [hb])
  have hreverse : (a :: (cs ++ [b])).reverse = b :: (cs.reverse ++ [a]) := by simp
  rw [trim, hstart, trimEnd, hreverse, hend]
  simp

end Listing.Text

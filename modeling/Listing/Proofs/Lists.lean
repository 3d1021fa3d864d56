import Mathlib.Algebra.Order.BigOperators.Group.Finset
import Mathlib.Data.List.Induction

namespace Listing

-- The last member of a list that is cut at a member is that member or stands behind it.
theorem concat_eq_append_cons {α : Type} {xs before after : List α} {x y : α}
    (h : xs ++ [x] = before ++ y :: after) :
    (xs = before ∧ x = y) ∨ ∃ rest, after = rest ++ [x] ∧ xs = before ++ y :: rest := by
  rcases List.eq_nil_or_concat after with rfl | ⟨rest, z, rfl⟩
  · obtain ⟨hxs, hx⟩ := List.append_inj' h rfl
    exact .inl ⟨hxs, List.singleton_inj.mp hx⟩
  · have hcut : xs ++ [x] = (before ++ y :: rest) ++ [z] := by simpa using h
    obtain ⟨hxs, hx⟩ := List.append_inj' hcut rfl
    exact .inr ⟨rest, by rw [List.concat_eq_append, List.singleton_inj.mp hx], hxs⟩

-- What is added to at its end, as members come one by one, is only added to.
theorem prefix_append_of_concat {α β : Type} {f : List α → List β}
    (h : ∀ xs x, f xs <+: f (xs ++ [x])) (xs ys : List α) : f xs <+: f (xs ++ ys) := by
  induction ys using List.reverseRecOn with
  | nil => rw [List.append_nil]
  | append_singleton ys y ih =>
      rw [← List.append_assoc]
      exact ih.trans (h _ _)

-- A list is cut before its first member with a property, if there is one.
theorem exists_first {α : Type} {P : α → Prop} (xs : List α) :
    ∃ before rest, xs = before ++ rest ∧ (∀ x ∈ before, ¬P x) ∧
      (rest = [] ∨ ∃ x after, rest = x :: after ∧ P x) := by
  classical
  cases hfind : xs.find? (fun x => decide (P x)) with
  | none => exact ⟨xs, [], by simp, by simpa using hfind, .inl rfl⟩
  | some x =>
      obtain ⟨hx, before, after, hcut, hbefore⟩ := List.find?_eq_some_iff_append.mp hfind
      exact ⟨before, x :: after, hcut, by simpa using hbefore,
        .inr ⟨x, after, rfl, by simpa using hx⟩⟩

-- A separator between members and one more at the end is one behind each.
theorem intercalate_append_self {α : Type} (separator xs : List α) (xss : List (List α)) :
    separator.intercalate (xs :: xss) ++ separator = (xs :: xss).flatMap (· ++ separator) := by
  induction xss generalizing xs with
  | nil => simp [List.intercalate]
  | cons next xss ih =>
      rw [List.intercalate_cons_cons, List.append_assoc, List.append_assoc, ih next,
        ← List.append_assoc]
      rfl

-- What does not stand in the separator comes from a member.
theorem mem_intercalate {α : Type} {separator : List α} {x : α} (h : x ∉ separator)
    (xss : List (List α)) : x ∈ separator.intercalate xss ↔ ∃ xs ∈ xss, x ∈ xs := by
  induction xss with
  | nil => simp [List.intercalate]
  | cons xs xss ih =>
      cases xss with
      | nil => simp
      | cons next xss =>
          rw [List.intercalate_cons_cons, List.mem_append, List.mem_append, ih]
          simp [h]

section EraseDups

variable {α : Type} [BEq α] [LawfulBEq α] {xs : List α} {x : α}

theorem eraseDups_concat_of_mem (h : x ∈ xs) : (xs ++ [x]).eraseDups = xs.eraseDups := by
  rw [List.eraseDups_append]
  simp [List.removeAll, h]

theorem eraseDups_concat_of_notMem (h : x ∉ xs) : (xs ++ [x]).eraseDups = xs.eraseDups ++ [x] := by
  rw [List.eraseDups_append]
  simp [List.removeAll, h, List.eraseDups_cons]

theorem nodup_eraseDups (xs : List α) : xs.eraseDups.Nodup := by
  induction xs using List.reverseRecOn with
  | nil => exact List.nodup_nil
  | append_singleton xs x ih =>
      by_cases h : x ∈ xs
      · rwa [eraseDups_concat_of_mem h]
      · rw [eraseDups_concat_of_notMem h, List.nodup_append]
        refine ⟨ih, by simp, ?_⟩
        rintro a ha b hb rfl
        exact h (List.mem_eraseDups.mp (List.mem_singleton.mp hb ▸ ha))

end EraseDups

-- If a map makes nothing larger and what it makes of some members has them all, it leaves each
-- its size.
theorem size_map_of_subset {α : Type} [DecidableEq α] {f : α → α} {size : α → Nat}
    (hle : ∀ x, size (f x) ≤ size x) {xs : List α} (h : xs ⊆ xs.map f) {x : α} (hx : x ∈ xs) :
    size (f x) = size x := by
  have hsubset : xs.toFinset ⊆ xs.toFinset.image f := by
    intro y hy
    obtain ⟨z, hz, rfl⟩ := List.mem_map.mp (h (List.mem_toFinset.mp hy))
    exact Finset.mem_image_of_mem f (List.mem_toFinset.mpr hz)
  have himage : xs.toFinset = xs.toFinset.image f :=
    Finset.eq_of_subset_of_card_le hsubset Finset.card_image_le
  have hinjective : Set.InjOn f xs.toFinset := Finset.card_image_iff.mp (congrArg _ himage.symm)
  have hsum : ∑ y ∈ xs.toFinset, size (f y) = ∑ y ∈ xs.toFinset, size y := by
    rw [← Finset.sum_image hinjective, ← himage]
  exact (Finset.sum_eq_sum_iff_of_le fun y _ => hle y).mp hsum x (List.mem_toFinset.mpr hx)

section Steps

variable {α : Type}

-- The pairs of neighbours in a list, in order.
def steps (xs : List α) : List (α × α) := xs.zip xs.tail

theorem steps_concat (xs : List α) (x y : α) :
    steps (xs ++ [x, y]) = steps (xs ++ [x]) ++ [(x, y)] := by
  induction xs with
  | nil => rfl
  | cons z xs ih => cases xs <;> simp_all [steps]

theorem mem_steps {xs : List α} {x y : α} : (x, y) ∈ steps xs ↔ [x, y] <:+: xs := by
  induction xs with
  | nil => simp [steps]
  | cons z xs ih =>
      cases xs with
      | nil => simp [steps, List.infix_cons_iff, List.prefix_cons_iff]
      | cons w xs =>
          have hsteps : steps (z :: w :: xs) = (z, w) :: steps (w :: xs) := rfl
          have hfirst : [x, y] <+: z :: w :: xs ↔ (x, y) = (z, w) := by
            simp [List.prefix_cons_iff]
          rw [hsteps, List.mem_cons, ih, List.infix_cons_iff (a := z), hfirst]

end Steps

end Listing

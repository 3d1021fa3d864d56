import Listing.Json.Reader
import Listing.Proofs.Json.Number
import Listing.Proofs.Json.Plain
import Listing.Proofs.Json.Text
import Listing.Proofs.Text.Visible

namespace Listing.Json

open Text (IsVisible)

private theorem isVisible_of_all {cs : List Char}
    (h : (cs.all fun c => 0x20 ≤ c.toNat ∧ c.toNat ≤ 0x7e) = true) : ∀ c ∈ cs, IsVisible c :=
  fun c hc => of_decide_eq_true (List.all_eq_true.mp h c hc)

theorem isVisible_of_shortEscape? {e c : Char} (h : shortEscape? e = some c) : IsVisible e := by
  unfold shortEscape? at h
  split at h
  case h_9 => simp at h
  all_goals decide

theorem isVisible_of_mem_unicodeEscape {c d : Char} (h : d ∈ unicodeEscape c) : IsVisible d := by
  simp only [unicodeEscape] at h
  split at h
  · simp only [List.mem_cons] at h
    rcases h with rfl | rfl | h
    · decide
    · decide
    · exact Text.isVisible_of_mem_hex h
  · simp only [List.mem_append, List.mem_cons] at h
    rcases h with (rfl | rfl | h) | rfl | rfl | h
    any_goals decide
    · exact Text.isVisible_of_mem_hex h
    · exact Text.isVisible_of_mem_hex h

theorem isVisible_of_mem_writeChar {c d : Char} (h : d ∈ writeChar c) : IsVisible d := by
  rcases writeChar_cases c with ⟨e, hshort, hw⟩ | ⟨⟨-, -, hlow, hhigh⟩, hw⟩ | hw
  · rw [hw] at h
    simp only [List.mem_cons, List.not_mem_nil, or_false] at h
    rcases h with rfl | rfl
    · decide
    · exact isVisible_of_shortEscape? hshort
  · rw [hw, List.mem_singleton] at h
    rw [h]
    exact ⟨hlow, hhigh⟩
  · rw [hw] at h
    exact isVisible_of_mem_unicodeEscape h

theorem isVisible_of_mem_writeText {s : String} {c : Char} (h : c ∈ writeText s) : IsVisible c := by
  simp only [writeText, List.cons_append, List.mem_cons, List.mem_append, List.mem_flatMap,
    List.not_mem_nil, or_false] at h
  rcases h with rfl | ⟨d, -, hd⟩ | rfl
  · decide
  · exact isVisible_of_mem_writeChar hd
  · decide

theorem isVisible_of_mem_toDigits {n : Nat} : ∀ c ∈ Nat.toDigits 10 n, IsVisible c := by
  intro c hc
  have hdigit := isAsciiDigit_of_mem_toDigits hc
  simp only [Text.isAsciiDigit, Bool.and_eq_true, decide_eq_true_eq] at hdigit
  have hlow : '0'.toNat ≤ c.toNat := hdigit.1
  have hhigh : c.toNat ≤ '9'.toNat := hdigit.2
  simp only [Char.reduceToNat] at hlow hhigh
  exact ⟨by omega, by omega⟩

theorem isVisible_of_mem_writeInt {n : Int} : ∀ c ∈ writeInt n, IsVisible c := by
  cases n with
  | ofNat n => exact isVisible_of_mem_toDigits
  | negSucc n => exact List.forall_mem_cons.mpr ⟨by decide, isVisible_of_mem_toDigits⟩

section Number

open Decimal

theorem isVisible_of_mem_zeros (n : Nat) : ∀ c ∈ List.replicate n '0', IsVisible c := by
  intro c hc
  rw [List.eq_of_mem_replicate hc]
  decide

theorem isVisible_of_mem_shortest {m : Nat} {q : Int} : ∀ c ∈ (shortest m q).1, IsVisible c := by
  intro c hc
  rw [shortest, List.mem_reverse] at hc
  exact isVisible_of_mem_toDigits c
    (List.mem_reverse.mp ((List.dropWhile_sublist _).subset hc))

theorem isVisible_of_mem_exponent {e : Int} :
    ∀ c ∈ numberLayout.exponent e, IsVisible c := by
  simp only [Layout.exponent, padZeros, List.forall_mem_cons, List.forall_mem_append]
  refine ⟨by decide, ?_, isVisible_of_mem_zeros _, isVisible_of_mem_toDigits⟩
  split
  · decide
  · decide

theorem isVisible_of_mem_digits {ds : List Char} {e : Int} (hds : ∀ c ∈ ds, IsVisible c) :
    ∀ c ∈ numberLayout.digits ds e, IsVisible c := by
  have hwhole : ∀ c ∈ numberLayout.whole, IsVisible c := isVisible_of_all rfl
  have htake (n : Nat) : ∀ c ∈ ds.take n, IsVisible c :=
    fun c hc => hds c (List.mem_of_mem_take hc)
  have hdrop (n : Nat) : ∀ c ∈ ds.drop n, IsVisible c :=
    fun c hc => hds c (List.mem_of_mem_drop hc)
  simp only [Layout.digits]
  split
  · split
    · simp only [List.cons_append, List.forall_mem_cons, List.forall_mem_append]
      exact ⟨by decide, by decide, isVisible_of_mem_zeros _, hds⟩
    · split
      · simp only [List.forall_mem_append]
        exact ⟨⟨hds, isVisible_of_mem_zeros _⟩, hwhole⟩
      · simp only [List.forall_mem_cons, List.forall_mem_append]
        exact ⟨htake _, by decide, hdrop _⟩
  · split
    · exact isVisible_of_mem_exponent
    · exact List.forall_mem_cons.mpr ⟨hds _ (by simp), isVisible_of_mem_exponent⟩
    · simp only [List.cons_append, List.forall_mem_cons, List.forall_mem_append] at hds ⊢
      exact ⟨hds.1, by decide, hds.2, isVisible_of_mem_exponent⟩

theorem isVisible_of_mem_number {x : Binary64} : ∀ c ∈ numberLayout.write x, IsVisible c := by
  rw [Layout.write]
  split
  · exact isVisible_of_all rfl
  · split
    · exact isVisible_of_all rfl
    · exact isVisible_of_all rfl
  · rename_i negative m q _
    have hbody : ∀ c ∈ (if m = 0 then '0' :: numberLayout.whole
        else numberLayout.digits (shortest m q).1 (shortest m q).2), IsVisible c := by
      split
      · exact isVisible_of_all rfl
      · exact isVisible_of_mem_digits isVisible_of_mem_shortest
    cases negative with
    | false => exact hbody
    | true => exact List.forall_mem_cons.mpr ⟨by decide, hbody⟩

end Number

-- The characters that a text is made of: visible ones, and line feeds between indented lines.
def Indent.Uses (indent : Indent) (c : Char) : Prop := IsVisible c ∨ c = '\n' ∧ indent ≠ none

section Write

variable {indent : Indent} {depth : Nat}

theorem uses_of_visible {cs : List Char} (h : ∀ c ∈ cs, IsVisible c) : ∀ c ∈ cs, indent.Uses c :=
  fun c hc => .inl (h c hc)

theorem uses_gap : ∀ c ∈ indent.gap depth, indent.Uses c := by
  cases indent with
  | none => simp [Indent.gap]
  | some n =>
      refine List.forall_mem_cons.mpr ⟨.inr ⟨rfl, by simp⟩, fun c hc => ?_⟩
      rw [List.eq_of_mem_replicate hc]
      exact .inl (by decide)

theorem uses_between : ∀ c ∈ indent.between depth, indent.Uses c := by
  cases indent with
  | none => exact uses_of_visible (isVisible_of_all rfl)
  | some n => exact List.forall_mem_cons.mpr ⟨.inl (by decide), uses_gap⟩

theorem uses_writeItems {vs : List Json} (h : ∀ v ∈ vs, ∀ c ∈ writeAt indent depth v, indent.Uses c) :
    ∀ c ∈ writeItems indent depth vs, indent.Uses c := by
  induction vs with
  | nil => simp [writeItems]
  | cons v vs ih =>
      obtain ⟨hv, hvs⟩ := List.forall_mem_cons.mp h
      simp only [writeItems, List.forall_mem_append]
      exact ⟨⟨uses_between, hv⟩, ih hvs⟩

theorem uses_writeFields {fs : List (String × Json)}
    (h : ∀ f ∈ fs, ∀ c ∈ writeAt indent depth f.2, indent.Uses c) :
    ∀ c ∈ writeFields indent depth fs, indent.Uses c := by
  induction fs with
  | nil => simp [writeFields]
  | cons f fs ih =>
      obtain ⟨hf, hfs⟩ := List.forall_mem_cons.mp h
      simp only [writeFields, List.forall_mem_append, List.forall_mem_cons]
      exact ⟨⟨⟨uses_between, uses_of_visible fun c => isVisible_of_mem_writeText⟩,
        .inl (by decide), .inl (by decide), hf⟩, ih hfs⟩

-- Whatever the value, nothing else is written.
theorem uses_writeAt {v : Json} : ∀ c ∈ writeAt indent depth v, indent.Uses c := by
  induction v using tree_induction generalizing depth with
  | null => exact uses_of_visible (isVisible_of_all rfl)
  | bool b =>
      cases b with
      | true => exact uses_of_visible (isVisible_of_all rfl)
      | false => exact uses_of_visible (isVisible_of_all rfl)
  | int n => exact uses_of_visible isVisible_of_mem_writeInt
  | float x => exact uses_of_visible isVisible_of_mem_number
  | str s => exact uses_of_visible fun c => isVisible_of_mem_writeText
  | arr items ih =>
      cases items with
      | nil => exact uses_of_visible (isVisible_of_all rfl)
      | cons v vs =>
          obtain ⟨hv, hvs⟩ := List.forall_mem_cons.mp ih
          simp only [writeAt, List.cons_append, List.forall_mem_cons, List.forall_mem_append]
          exact ⟨.inl (by decide), ⟨⟨⟨uses_gap, hv⟩, uses_writeItems fun w hw => hvs w hw⟩, uses_gap⟩,
            .inl (by decide), by simp⟩
  | obj fields ih =>
      rcases fields with _ | ⟨⟨k, v⟩, fs⟩
      · exact uses_of_visible (isVisible_of_all rfl)
      · obtain ⟨hv, hvs⟩ := List.forall_mem_cons.mp ih
        simp only [writeAt, List.cons_append, List.forall_mem_cons, List.forall_mem_append]
        exact ⟨.inl (by decide), ⟨⟨⟨⟨uses_gap, uses_of_visible fun c => isVisible_of_mem_writeText⟩,
          .inl (by decide), .inl (by decide), hv⟩, uses_writeFields fun f hf => hvs f hf⟩, uses_gap⟩,
          .inl (by decide), by simp⟩

-- On one line nothing but visible characters is written.
theorem isVisible_of_mem_writeAt {v : Json} : ∀ c ∈ writeAt none depth v, IsVisible c :=
  fun c hc => (uses_writeAt c hc).resolve_right fun h => h.2 rfl

-- What takes the place of half of a surrogate pair is written as an escape.
theorem replacement_notMem_write (indent : Indent) (v : Json) :
    replacement ∉ (v.write indent).toList := by
  intro hmem
  rw [write, String.toList_ofList] at hmem
  rcases uses_writeAt _ hmem with hvisible | ⟨hfeed, -⟩
  · exact absurd hvisible (by decide)
  · exact absurd hfeed (by decide)

end Write

end Listing.Json

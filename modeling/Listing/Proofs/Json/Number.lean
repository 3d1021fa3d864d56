import Listing.Json.Reader
import Listing.Json.Writer

namespace Listing

theorem Text.ofDigits_toDigits (n : Nat) :
    Text.ofDigits ((Nat.toDigits 10 n).map Text.asciiDigitValue) = n := by
  calc
    _ = Nat.ofDigitChars 10 (Nat.toDigits 10 n) 0 := by
      rw [Text.ofDigits, List.foldl_map, Nat.ofDigitChars_eq_foldl]
      rfl
    _ = n := Nat.ofDigitChars_ten_toDigits

namespace Json

-- Only zero is written with a leading zero.
theorem toDigits_eq_cons (n : Nat) :
    ∃ d ds, Nat.toDigits 10 n = d :: ds ∧ (d = '0' → ds = []) := by
  induction n using Nat.strongRecOn with
  | ind n ih =>
      rw [Nat.toDigits_eq_if (by omega : 1 < 10)]
      split
      · exact ⟨_, [], rfl, fun _ => rfl⟩
      · rename_i hlarge
        obtain ⟨d, ds, hds, hzero⟩ := ih (n / 10) (by omega)
        refine ⟨d, ds ++ [(n % 10).digitChar], by rw [hds]; rfl, fun hd => ?_⟩
        have hnil := hzero hd
        have hvalue := Text.ofDigits_toDigits (n / 10)
        rw [hds, hnil, hd] at hvalue
        have hnone : n / 10 = 0 := by simpa [Text.ofDigits, Text.asciiDigitValue] using hvalue.symm
        omega

theorem isAsciiDigit_of_mem_toDigits {n : Nat} {c : Char} (h : c ∈ Nat.toDigits 10 n) :
    Text.isAsciiDigit c = true :=
  Nat.isDigit_of_mem_toDigits (by omega) (by omega) h

theorem notMem_toDigits {c : Char} (h : Text.isAsciiDigit c = false) (n : Nat) :
    c ∉ Nat.toDigits 10 n := by
  intro hc
  rw [isAsciiDigit_of_mem_toDigits hc] at h
  cases h

-- What follows a number does not go on with it.
def EndsNumber (rest : List Char) : Prop :=
  ∀ c ∈ rest.head?, Text.isAsciiDigit c = false ∧ c ≠ '.' ∧ c ≠ 'e' ∧ c ≠ 'E'

theorem endsNumber_nil : EndsNumber [] := by simp [EndsNumber]

theorem endsNumber_cons {c : Char} {rest : List Char}
    (h : Text.isAsciiDigit c = false ∧ c ≠ '.' ∧ c ≠ 'e' ∧ c ≠ 'E') : EndsNumber (c :: rest) := by
  simpa [EndsNumber] using h

theorem readFraction_of_endsNumber {rest : List Char} (h : EndsNumber rest) :
    readFraction rest = ([], rest) := by
  unfold readFraction
  split
  · exact absurd rfl (h _ rfl).2.1
  · rfl

theorem readExponent_of_endsNumber {rest : List Char} (h : EndsNumber rest) :
    readExponent rest = (none, rest) := by
  cases rest with
  | nil => rfl
  | cons c rest => simp [readExponent, h c rfl]

theorem readNumberTail_of_endsNumber (negative : Bool) (whole : List Char) {rest : List Char}
    (h : EndsNumber rest) :
    readNumberTail negative whole rest =
      (.int (if negative then -(Text.ofDigits (whole.map Text.asciiDigitValue) : Int)
        else Text.ofDigits (whole.map Text.asciiDigitValue)), rest) := by
  simp only [readNumberTail, readFraction_of_endsNumber h, readExponent_of_endsNumber h,
    List.append_nil]
  rfl

theorem scan_digits {ds rest : List Char} (hds : ∀ c ∈ ds, Text.isAsciiDigit c = true)
    (h : ∀ c ∈ rest.head?, Text.isAsciiDigit c = false) :
    (ds ++ rest).takeWhile Text.isAsciiDigit = ds ∧
      (ds ++ rest).dropWhile Text.isAsciiDigit = rest := by
  rw [List.takeWhile_append_of_pos hds, List.dropWhile_append_of_pos hds]
  cases rest with
  | nil => simp
  | cons c rest => simp [h c rfl]

-- The digits of a number after its sign, if it has one.
private theorem readNumber?_toDigits (n : Nat) {rest : List Char} (h : EndsNumber rest) :
    readNumber? (Nat.toDigits 10 n ++ rest) = some (.int n, rest) ∧
      readNumber? ('-' :: (Nat.toDigits 10 n ++ rest)) = some (.int (-n), rest) := by
  obtain ⟨d, ds, hds, hzero⟩ := toDigits_eq_cons n
  have hdigit : ∀ c ∈ d :: ds, Text.isAsciiDigit c = true := by
    rw [← hds]
    exact fun c hc => isAsciiDigit_of_mem_toDigits hc
  have hd := hdigit d List.mem_cons_self
  have hscan := scan_digits (fun c hc => hdigit c (List.mem_cons_of_mem _ hc))
    fun c hc => (h c hc).1
  have hvalue := Text.ofDigits_toDigits n
  rw [hds] at hvalue ⊢
  by_cases hd0 : d = '0'
  · subst hd0
    rw [hzero rfl] at hvalue ⊢
    simp only [List.map_cons, List.map_nil] at hvalue
    simp [readNumber?, readNumberTail_of_endsNumber _ _ h, hvalue]
  · have hminus : d ≠ '-' := by rintro rfl; simp [Text.isAsciiDigit] at hd
    rw [List.map_cons] at hvalue
    simp [readNumber?, hminus, hd, hscan.1, hscan.2, readNumberTail_of_endsNumber _ _ h, hvalue]

-- A number begins like no other scalar.
theorem readScalar_of_number {cs : List Char} {found : Json × List Char}
    (h : readNumber? cs = some found) : readScalar cs = .ok found := by
  unfold readScalar
  split
  case h_7 => rw [h]
  all_goals simp [readNumber?, Text.isAsciiDigit] at h

theorem readNumber?_writeInt (n : Int) {rest : List Char} (h : EndsNumber rest) :
    readNumber? (writeInt n ++ rest) = some (.int n, rest) := by
  cases n with
  | ofNat n => exact (readNumber?_toDigits n h).1
  | negSucc n => exact (readNumber?_toDigits (n + 1) h).2

theorem writeInt_eq_cons (n : Int) :
    ∃ c cs, writeInt n = c :: cs ∧ (c = '-' ∨ Text.isAsciiDigit c = true) := by
  cases n with
  | ofNat n =>
      obtain ⟨d, ds, hds, -⟩ := toDigits_eq_cons n
      exact ⟨d, ds, hds, .inr (isAsciiDigit_of_mem_toDigits (hds ▸ List.mem_cons_self))⟩
  | negSucc n => exact ⟨'-', _, rfl, .inl rfl⟩

end Json
end Listing

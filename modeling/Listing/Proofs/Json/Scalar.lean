import Mathlib.Data.List.TakeWhile
import Listing.Proofs.Json.Number

namespace Listing.Json

variable {cs rest : List Char}

theorem head?_append {P : Char → Prop} {xs ys : List Char} (hx : ∀ c ∈ xs.head?, P c)
    (hy : ∀ c ∈ ys.head?, P c) : ∀ c ∈ (xs ++ ys).head?, P c := by
  cases xs with
  | nil => exact hy
  | cons x xs => exact hx

theorem isAsciiDigit_of_mem_takeWhile {c : Char} (h : c ∈ cs.takeWhile Text.isAsciiDigit) :
    Text.isAsciiDigit c = true :=
  List.all_eq_true.mp List.all_takeWhile c h

theorem isAsciiDigit_head?_dropWhile (cs : List Char) :
    ∀ c ∈ (cs.dropWhile Text.isAsciiDigit).head?, Text.isAsciiDigit c = false := by
  intro c hc
  have hnot := List.head?_dropWhile_not Text.isAsciiDigit cs
  rw [Option.mem_def.mp hc] at hnot
  simpa using hnot

-- What stands between the letter of an exponent and its digits.
def IsSign (sign : List Char) : Prop := sign = ['-'] ∨ sign = ['+'] ∨ sign = []

theorem readExponent_signed {letter : Char} {sign digits : List Char}
    (hletter : letter = 'e' ∨ letter = 'E') (hsign : IsSign sign)
    (hdigits : ∀ c ∈ digits, Text.isAsciiDigit c = true) (hne : digits ≠ [])
    (hrest : ∀ c ∈ rest.head?, Text.isAsciiDigit c = false) :
    readExponent (letter :: (sign ++ (digits ++ rest))) =
      (some (if sign = ['-'] then -(Text.ofDigits (digits.map Text.asciiDigitValue) : Int)
        else Text.ofDigits (digits.map Text.asciiDigitValue)), rest) := by
  obtain ⟨htake, hdrop⟩ := scan_digits hdigits hrest
  rcases hsign with rfl | rfl | rfl
  · simp [readExponent, hletter, htake, hdrop, hne]
    rfl
  · simp [readExponent, hletter, htake, hdrop, hne]
    rfl
  · obtain ⟨d, digits, rfl⟩ := List.exists_cons_of_ne_nil hne
    have hd := hdigits d List.mem_cons_self
    have hminus : d ≠ '-' := by rintro rfl; cases hd
    have hplus : d ≠ '+' := by rintro rfl; cases hd
    rw [List.cons_append] at htake hdrop
    simp [readExponent, hletter, htake, hdrop, hminus, hplus]
    rfl

theorem readExponent_cases (cs : List Char) :
    readExponent cs = (none, cs) ∨ ∃ letter sign digits rest,
      cs = letter :: (sign ++ (digits ++ rest)) ∧ (letter = 'e' ∨ letter = 'E') ∧ IsSign sign ∧
        (∀ c ∈ digits, Text.isAsciiDigit c = true) ∧ digits ≠ [] ∧
        ∀ c ∈ rest.head?, Text.isAsciiDigit c = false := by
  cases cs with
  | nil => exact .inl rfl
  | cons letter body =>
      have hsigned : ∃ sign tail, body = sign ++ tail ∧ IsSign sign ∧
          (tail.takeWhile Text.isAsciiDigit = [] →
            readExponent (letter :: body) = (none, letter :: body)) := by
        by_cases hminus : ∃ tail, body = '-' :: tail
        · obtain ⟨tail, rfl⟩ := hminus
          exact ⟨['-'], tail, rfl, .inl rfl, fun hnone => by simp [readExponent, hnone]⟩
        · by_cases hplus : ∃ tail, body = '+' :: tail
          · obtain ⟨tail, rfl⟩ := hplus
            exact ⟨['+'], tail, rfl, .inr (.inl rfl), fun hnone => by simp [readExponent, hnone]⟩
          · exact ⟨[], body, rfl, .inr (.inr rfl), fun hnone => by simp_all [readExponent]⟩
      obtain ⟨sign, tail, hbody, hsign, hread⟩ := hsigned
      by_cases hletter : letter = 'e' ∨ letter = 'E'
      · by_cases hdigits : tail.takeWhile Text.isAsciiDigit = []
        · exact .inl (hread hdigits)
        · refine .inr ⟨letter, sign, tail.takeWhile Text.isAsciiDigit,
            tail.dropWhile Text.isAsciiDigit, ?_, hletter, hsign,
            fun c => isAsciiDigit_of_mem_takeWhile, hdigits, isAsciiDigit_head?_dropWhile tail⟩
          rw [List.takeWhile_append_dropWhile, hbody]
      · exact .inl (by simp [readExponent, hletter])

-- The exponent that is taken begins with its letter and ends where its digits do.
theorem readExponent_local {exponent : Option Int} (h : readExponent cs = (exponent, rest)) :
    ∃ core, cs = core ++ rest ∧ (∀ c ∈ core.head?, c = 'e' ∨ c = 'E') ∧
      ∀ more, EndsNumber more → readExponent (core ++ more) = (exponent, more) := by
  rcases readExponent_cases cs with hnone | ⟨letter, sign, digits, after, rfl, hletter, hsign,
    hdigits, hne, hafter⟩
  · rw [hnone] at h
    cases h
    exact ⟨[], rfl, by simp, fun more hmore => readExponent_of_endsNumber hmore⟩
  · rw [readExponent_signed hletter hsign hdigits hne hafter] at h
    cases h
    refine ⟨letter :: (sign ++ digits), by simp, by simpa using hletter, fun more hmore => ?_⟩
    rw [List.cons_append, List.append_assoc]
    exact readExponent_signed hletter hsign hdigits hne fun c hc => (hmore c hc).1

theorem readFraction_local {fraction : List Char} (h : readFraction cs = (fraction, rest)) :
    ∃ core, cs = core ++ rest ∧ (∀ c ∈ core.head?, c = '.') ∧
      ∀ more, (∀ c ∈ more.head?, Text.isAsciiDigit c = false ∧ c ≠ '.') →
        readFraction (core ++ more) = (fraction, more) := by
  have hnone : fraction = [] → cs = rest → ∃ core, cs = core ++ rest ∧ (∀ c ∈ core.head?, c = '.') ∧
      ∀ more, (∀ c ∈ more.head?, Text.isAsciiDigit c = false ∧ c ≠ '.') →
        readFraction (core ++ more) = (fraction, more) := by
    rintro rfl rfl
    refine ⟨[], rfl, by simp, fun more hmore => ?_⟩
    rw [List.nil_append, readFraction.eq_def]
    split
    · exact absurd rfl (hmore '.' rfl).2
    · rfl
  unfold readFraction at h
  split at h
  · rename_i d digits
    split at h
    · rename_i hd
      cases h
      refine ⟨'.' :: d :: digits.takeWhile Text.isAsciiDigit, by simp, by simp,
        fun more hmore => ?_⟩
      have hdigits : ∀ c ∈ digits.takeWhile Text.isAsciiDigit, Text.isAsciiDigit c = true :=
        fun c => isAsciiDigit_of_mem_takeWhile
      obtain ⟨htake, hdrop⟩ := scan_digits hdigits fun c hc => (hmore c hc).1
      simp [readFraction, hd, htake, hdrop]
    · cases h
      exact hnone rfl rfl
  · cases h
    exact hnone rfl rfl

-- Behind the digits of a number its fraction and exponent are taken, if it has them.
theorem readNumberTail_local {negative : Bool} {whole : List Char} {v : Json}
    (h : readNumberTail negative whole cs = (v, rest)) :
    ∃ core, cs = core ++ rest ∧ (∀ c ∈ core.head?, Text.isAsciiDigit c = false) ∧
      ∀ more, EndsNumber more → readNumberTail negative whole (core ++ more) = (v, more) := by
  obtain ⟨fraction, after, hfraction⟩ : ∃ fraction after, readFraction cs = (fraction, after) :=
    ⟨_, _, rfl⟩
  obtain ⟨exponent, last, hexponent⟩ : ∃ exponent last, readExponent after = (exponent, last) :=
    ⟨_, _, rfl⟩
  have hlast : last = rest := by
    simp only [readNumberTail, hfraction, hexponent] at h
    split at h
    · exact congrArg Prod.snd h
    · exact congrArg Prod.snd h
  subst hlast
  obtain ⟨point, rfl, hpoint, hfraction'⟩ := readFraction_local hfraction
  obtain ⟨letter, rfl, hletter, hexponent'⟩ := readExponent_local hexponent
  have hpoint' : ∀ c ∈ point.head?, Text.isAsciiDigit c = false := fun c hc => hpoint c hc ▸ rfl
  have hletter' : ∀ c ∈ letter.head?, Text.isAsciiDigit c = false ∧ c ≠ '.' := fun c hc => by
    rcases hletter c hc with rfl | rfl <;> decide
  refine ⟨point ++ letter, by simp, head?_append hpoint' fun c hc => (hletter' c hc).1,
    fun more hmore => ?_⟩
  have hbehind : ∀ c ∈ (letter ++ more).head?, Text.isAsciiDigit c = false ∧ c ≠ '.' :=
    head?_append hletter' fun c hc => ⟨(hmore c hc).1, (hmore c hc).2.1⟩
  simp only [readNumberTail, hfraction, hexponent] at h
  simp only [readNumberTail, List.append_assoc, hfraction' _ hbehind, hexponent' _ hmore]
  split at h
  · cases h
    rfl
  · cases h
    rfl

-- The digits in front of a point: zero alone, or a run that begins with another digit.
def IsWhole (whole : List Char) : Prop :=
  whole = ['0'] ∨ ∃ d digits, whole = d :: digits ∧ d ≠ '0' ∧
    ∀ c ∈ whole, Text.isAsciiDigit c = true

theorem readNumber?_whole {sign whole tail : List Char} (hsign : sign = [] ∨ sign = ['-'])
    (hwhole : IsWhole whole) (htail : ∀ c ∈ tail.head?, Text.isAsciiDigit c = false) :
    readNumber? (sign ++ (whole ++ tail)) =
      some (readNumberTail (decide (sign = ['-'])) whole tail) := by
  rcases hwhole with rfl | ⟨d, digits, rfl, hzero, hdigits⟩
  · rcases hsign with rfl | rfl <;> simp [readNumber?]
  · have hd := hdigits d List.mem_cons_self
    have hminus : d ≠ '-' := by rintro rfl; cases hd
    obtain ⟨htake, hdrop⟩ := scan_digits (fun c hc => hdigits c (List.mem_cons_of_mem _ hc)) htail
    rcases hsign with rfl | rfl <;> simp [readNumber?, hminus, hd, htake, hdrop]

theorem readNumber?_cases {found : Json × List Char} (h : readNumber? cs = some found) :
    ∃ sign whole tail, cs = sign ++ (whole ++ tail) ∧ (sign = [] ∨ sign = ['-']) ∧
      IsWhole whole ∧ readNumberTail (decide (sign = ['-'])) whole tail = found := by
  unfold readNumber? at h
  split at h
  rename_i negative body hcut
  obtain ⟨sign, rfl, hsign, rfl⟩ : ∃ sign, cs = sign ++ body ∧ (sign = [] ∨ sign = ['-']) ∧
      negative = decide (sign = ['-']) := by
    split at hcut
    · cases hcut
      exact ⟨['-'], rfl, .inr rfl, rfl⟩
    · cases hcut
      exact ⟨[], rfl, .inl rfl, rfl⟩
  split at h
  · cases h
    exact ⟨sign, ['0'], _, rfl, hsign, .inl rfl, rfl⟩
  · rename_i d rest hzero
    split at h
    · rename_i hd
      cases h
      refine ⟨sign, d :: rest.takeWhile Text.isAsciiDigit, rest.dropWhile Text.isAsciiDigit,
        by simp, hsign, .inr ⟨d, _, rfl, hzero, ?_⟩, rfl⟩
      exact List.forall_mem_cons.mpr ⟨hd, fun c => isAsciiDigit_of_mem_takeWhile⟩
    · cases h
  · cases h

theorem IsWhole.ne_nil {whole : List Char} (h : IsWhole whole) : whole ≠ [] := by
  rcases h with rfl | ⟨d, digits, rfl, -⟩
  · simp
  · simp

theorem readNumber?_local {v : Json} (h : readNumber? cs = some (v, rest)) :
    ∃ core, core ≠ [] ∧ cs = core ++ rest ∧
      ∀ more, EndsNumber more → readNumber? (core ++ more) = some (v, more) := by
  obtain ⟨sign, whole, tail, rfl, hsign, hwhole, htail⟩ := readNumber?_cases h
  obtain ⟨core, rfl, hcore, hread⟩ := readNumberTail_local htail
  refine ⟨sign ++ (whole ++ core), by simp [hwhole.ne_nil], by simp, fun more hmore => ?_⟩
  have hbehind := head?_append hcore fun c hc => (hmore c hc).1
  rw [List.append_assoc, List.append_assoc, readNumber?_whole hsign hwhole hbehind,
    hread more hmore]

theorem readScalar_local {v : Json} (h : readScalar cs = .ok (v, rest)) :
    ∃ core, core ≠ [] ∧ cs = core ++ rest ∧
      ∀ more, EndsNumber more → readScalar (core ++ more) = .ok (v, more) := by
  unfold readScalar at h
  split at h
  case h_1 =>
    cases h
    exact ⟨"null".toList, by decide, rfl, fun _ _ => rfl⟩
  case h_2 =>
    cases h
    exact ⟨"true".toList, by decide, rfl, fun _ _ => rfl⟩
  case h_3 =>
    cases h
    exact ⟨"false".toList, by decide, rfl, fun _ _ => rfl⟩
  case h_4 =>
    cases h
    exact ⟨"NaN".toList, by decide, rfl, fun _ _ => rfl⟩
  case h_5 =>
    cases h
    exact ⟨"Infinity".toList, by decide, rfl, fun _ _ => rfl⟩
  case h_6 =>
    cases h
    exact ⟨"-Infinity".toList, by decide, rfl, fun _ _ => rfl⟩
  case h_7 =>
    split at h
    · rename_i hnumber
      rw [Except.ok.injEq] at h
      rw [h] at hnumber
      obtain ⟨core, hne, rfl, hread⟩ := readNumber?_local hnumber
      exact ⟨core, hne, rfl, fun more hmore => readScalar_of_number (hread more hmore)⟩
    · cases h

theorem readScalar_ne_obj {v : Json} (h : readScalar cs = .ok (v, rest))
    (fields : List (String × Json)) : v ≠ .obj fields := by
  unfold readScalar at h
  split at h
  case h_7 =>
    split at h
    · rename_i hnumber
      obtain ⟨sign, whole, tail, -, -, -, rfl⟩ := readNumber?_cases hnumber
      simp only [readNumberTail] at h
      split at h
      · cases h
        simp
      · cases h
        simp
    · cases h
  all_goals
    cases h
    simp

end Listing.Json

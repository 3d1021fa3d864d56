import Listing.Json.Reader
import Listing.Json.Writer

namespace Listing.Json

theorem hexUnit?_hex {n : Nat} (h : n < 0x10000) :
    ∃ a b c d, Text.hex 4 n = [a, b, c, d] ∧ hexUnit? a b c d = some n := by
  refine ⟨_, _, _, _, rfl, ?_⟩
  simp only [hexUnit?, Text.hexValue?_hexDigit (Nat.mod_lt _ (by omega : 0 < 16)), bind,
    Option.bind, pure, Option.some.injEq]
  omega

theorem readChars_short {opening tail cs rest : List Char} {e c : Char} (he : e ≠ 'u')
    (hshort : shortEscape? e = some c) (h : readChars opening tail = .ok (cs, rest)) :
    readChars opening ('\\' :: e :: tail) = .ok (c :: cs, rest) := by
  rw [readChars, hshort, h]
  · rfl
  all_goals simp [he]

-- No escape stands in front that a high surrogate would take as its partner.
def HasNoLow (cs : List Char) : Prop :=
  ∀ a b c d rest, cs = '\\' :: 'u' :: a :: b :: c :: d :: rest →
    ∃ n, hexUnit? a b c d = some n ∧ isLowSurrogate n = false

theorem readChars_unit {opening tail cs rest : List Char} {a b c d : Char} {n : Nat}
    (hn : hexUnit? a b c d = some n) (halone : isHighSurrogate n = true → HasNoLow tail)
    (h : readChars opening tail = .ok (cs, rest)) :
    readChars opening ('\\' :: 'u' :: a :: b :: c :: d :: tail) = .ok (unitChar n :: cs, rest) := by
  have hne : tail ≠ [] := by
    rintro rfl
    cases h
  obtain ⟨x, tail, rfl⟩ := List.exists_cons_of_ne_nil hne
  by_cases hpair : ∃ e f g k more, x = '\\' ∧ tail = 'u' :: e :: f :: g :: k :: more
  · obtain ⟨e, f, g, k, more, rfl, rfl⟩ := hpair
    rw [readChars, hn]
    by_cases hhigh : (isHighSurrogate n && !more.isEmpty) = true
    · obtain ⟨m, hm, hlow⟩ := halone (Bool.and_eq_true_iff.mp hhigh).1 e f g k more rfl
      simp only [hhigh, hm, hlow, Bool.false_eq_true, ite_true, ite_false, h]
      rfl
    · simp only [hhigh, h]
      rfl
  · rw [readChars, hn]
    · simp only [h]
      rfl
    · intro e f g k more hx htail
      exact hpair ⟨e, f, g, k, more, hx, htail⟩

theorem readChars_pair {opening tail cs rest : List Char} {a b c d e f g k : Char} {high low : Nat}
    (hn : hexUnit? a b c d = some high) (hhigh : isHighSurrogate high = true)
    (hm : hexUnit? e f g k = some low) (hlow : isLowSurrogate low = true)
    (h : readChars opening tail = .ok (cs, rest)) :
    readChars opening ('\\' :: 'u' :: a :: b :: c :: d :: '\\' :: 'u' :: e :: f :: g :: k :: tail) =
      .ok (joinSurrogates high low :: cs, rest) := by
  have hempty : tail.isEmpty = false := by
    cases tail with
    | nil => cases h
    | cons c tail => rfl
  rw [readChars, hn, hm]
  simp only [hhigh, hlow, hempty, Bool.not_false, Bool.and_self, ite_true, h]
  rfl

theorem readChars_plain {opening tail cs rest : List Char} {c : Char} (hquote : c ≠ '"')
    (hslash : c ≠ '\\') (hcontrol : ¬c.toNat < 0x20) (h : readChars opening tail = .ok (cs, rest)) :
    readChars opening (c :: tail) = .ok (c :: cs, rest) := by
  rw [readChars, if_neg hcontrol, h]
  · rfl
  all_goals simp [hquote, hslash]

theorem toNat_le_max (c : Char) : c.toNat < 0x110000 := by
  have hvalid : c.toNat < 0xd800 ∨ 0xdfff < c.toNat ∧ c.toNat < 0x110000 := c.valid
  omega

theorem not_surrogate (c : Char) : ¬(0xd800 ≤ c.toNat ∧ c.toNat ≤ 0xdfff) := by
  have hvalid : c.toNat < 0xd800 ∨ 0xdfff < c.toNat ∧ c.toNat < 0x110000 := c.valid
  omega

theorem readChars_unicodeEscape {opening tail cs rest : List Char} (c : Char)
    (h : readChars opening tail = .ok (cs, rest)) :
    readChars opening (unicodeEscape c ++ tail) = .ok (c :: cs, rest) := by
  have hmax := toNat_le_max c
  have hgap := not_surrogate c
  unfold unicodeEscape
  by_cases hsmall : c.toNat < 0x10000
  · have hunit : unitChar c.toNat = c := by
      rw [unitChar, if_neg hgap, Char.ofNat_toNat]
    have hhigh : isHighSurrogate c.toNat = false := by
      simp only [isHighSurrogate, Bool.and_eq_false_iff, decide_eq_false_iff_not]
      omega
    obtain ⟨a, b, d, e, hhex, hn⟩ := hexUnit?_hex hsmall
    simp only [hsmall, if_true, hhex, List.cons_append, List.nil_append]
    rw [readChars_unit hn (by simp [hhigh]) h, hunit]
  · have hjoin : joinSurrogates (0xd800 + (c.toNat - 0x10000) / 0x400)
        (0xdc00 + (c.toNat - 0x10000) % 0x400) = c := by
      have hsum : 0x10000 + (0xd800 + (c.toNat - 0x10000) / 0x400 - 0xd800) * 0x400 +
          (0xdc00 + (c.toNat - 0x10000) % 0x400 - 0xdc00) = c.toNat := by omega
      rw [joinSurrogates, hsum, Char.ofNat_toNat]
    obtain ⟨a, b, d, e, hhex, hn⟩ :=
      hexUnit?_hex (n := 0xd800 + (c.toNat - 0x10000) / 0x400) (by omega)
    obtain ⟨f, g, k, l, hhex', hm⟩ :=
      hexUnit?_hex (n := 0xdc00 + (c.toNat - 0x10000) % 0x400) (by omega)
    simp only [hsmall, if_false, hhex, hhex', List.cons_append, List.nil_append]
    rw [readChars_pair hn (by simp [isHighSurrogate]; omega) hm
      (by simp [isLowSurrogate]; omega) h, hjoin]

-- A character is written behind a backslash, as it is, or by its number.
theorem writeChar_cases (c : Char) :
    (∃ e, shortEscape? e = some c ∧ writeChar c = ['\\', e]) ∨
      ((c ≠ '"' ∧ c ≠ '\\' ∧ ' ' ≤ c ∧ c ≤ '~') ∧ writeChar c = [c]) ∨
      writeChar c = unicodeEscape c := by
  unfold writeChar
  split
  · rename_i hc
    rcases hc with rfl | rfl <;> exact .inl ⟨_, rfl, rfl⟩
  rename_i hquoted
  split
  · rename_i hc; subst hc; exact .inl ⟨'n', rfl, rfl⟩
  split
  · rename_i hc; subst hc; exact .inl ⟨'r', rfl, rfl⟩
  split
  · rename_i hc; subst hc; exact .inl ⟨'t', rfl, rfl⟩
  split
  · rename_i hc; subst hc; exact .inl ⟨'b', rfl, rfl⟩
  split
  · rename_i hc; subst hc; exact .inl ⟨'f', rfl, rfl⟩
  split
  · rename_i hvisible
    exact .inr (.inl ⟨⟨fun hc => hquoted (.inl hc), fun hc => hquoted (.inr hc), hvisible⟩, rfl⟩)
  · exact .inr (.inr rfl)

theorem readChars_writeChar {opening tail cs rest : List Char} (c : Char)
    (h : readChars opening tail = .ok (cs, rest)) :
    readChars opening (writeChar c ++ tail) = .ok (c :: cs, rest) := by
  rcases writeChar_cases c with ⟨e, hshort, hw⟩ | ⟨⟨hquote, hslash, hlow, -⟩, hw⟩ | hw
  · rw [hw]
    exact readChars_short (by rintro rfl; simp [shortEscape?] at hshort) hshort h
  · rw [hw]
    have hspace : ' '.toNat ≤ c.toNat := hlow
    exact readChars_plain hquote hslash (by simpa using hspace) h
  · rw [hw]
    exact readChars_unicodeEscape c h

-- Written text is read back up to its closing quote.
theorem readChars_written (opening cs rest : List Char) :
    readChars opening (cs.flatMap writeChar ++ '"' :: rest) = .ok (cs, rest) := by
  induction cs with
  | nil => rw [List.flatMap_nil, List.nil_append, readChars]
  | cons c cs ih =>
      rw [List.flatMap_cons, List.append_assoc]
      exact readChars_writeChar c ih

-- The body of a text with its closing quote, and the characters that it stands for.
inductive Spells : List Char → List Char → Prop
  | quote : Spells ['"'] []
  | plain {c : Char} {body cs : List Char} (hquote : c ≠ '"') (hslash : c ≠ '\\')
    (hcontrol : ¬c.toNat < 0x20) (h : Spells body cs) : Spells (c :: body) (c :: cs)
  | short {e c : Char} {body cs : List Char} (he : shortEscape? e = some c) (h : Spells body cs) :
    Spells ('\\' :: e :: body) (c :: cs)
  | unit {a b c d : Char} {n : Nat} {body cs : List Char} (hn : hexUnit? a b c d = some n)
    (halone : isHighSurrogate n = true → HasNoLow body) (h : Spells body cs) :
    Spells ('\\' :: 'u' :: a :: b :: c :: d :: body) (unitChar n :: cs)
  | pair {a b c d e f g k : Char} {high low : Nat} {body cs : List Char}
    (hn : hexUnit? a b c d = some high) (hhigh : isHighSurrogate high = true)
    (hm : hexUnit? e f g k = some low) (hlow : isLowSurrogate low = true) (h : Spells body cs) :
    Spells ('\\' :: 'u' :: a :: b :: c :: d :: '\\' :: 'u' :: e :: f :: g :: k :: body)
      (joinSurrogates high low :: cs)

section Spells

variable {opening body cs : List Char}

-- What begins a body is not completed by what stands behind it.
theorem Spells.hasNoLow_append (h : Spells body cs) (hlow : HasNoLow body) (more : List Char) :
    HasNoLow (body ++ more) := by
  intro a b c d rest hcut
  cases h with
  | quote => cases hcut
  | plain _ hslash => exact absurd (List.cons.inj hcut).1 hslash
  | short he =>
      obtain ⟨-, hcut⟩ := List.cons.inj hcut
      rw [(List.cons.inj hcut).1] at he
      cases he
  | unit =>
      cases hcut
      exact hlow a b c d _ rfl
  | pair =>
      cases hcut
      exact hlow a b c d _ rfl

-- Nothing that stands behind a body changes how it is read.
theorem readChars_of_spells (h : Spells body cs) (opening more : List Char) :
    readChars opening (body ++ more) = .ok (cs, more) := by
  induction h with
  | quote => rfl
  | plain hquote hslash hcontrol _ ih => exact readChars_plain hquote hslash hcontrol ih
  | short he _ ih =>
      refine readChars_short ?_ he ih
      rintro rfl
      cases he
  | unit hn halone hbody ih =>
      exact readChars_unit hn (fun hhigh => hbody.hasNoLow_append (halone hhigh) more) ih
  | pair hn hhigh hm hlow _ ih => exact readChars_pair hn hhigh hm hlow ih

-- A character is read with what is read behind it.
private theorem readChars_push {tail s rest : List Char} {c : Char}
    (h : (match readChars opening tail with
      | .ok (cs, rest) => .ok (c :: cs, rest)
      | .error e => .error e : Except Stop (List Char × List Char)) = .ok (s, rest)) :
    ∃ cs, s = c :: cs ∧ readChars opening tail = .ok (cs, rest) := by
  cases hread : readChars opening tail with
  | error e =>
      rw [hread] at h
      cases h
  | ok found =>
      rw [hread] at h
      cases h
      exact ⟨_, rfl, rfl⟩

-- What is read is a body.
theorem spells_of_readChars {text rest : List Char} (h : readChars opening text = .ok (cs, rest)) :
    ∃ body, text = body ++ rest ∧ Spells body cs := by
  fun_induction readChars opening text generalizing cs with
  | case1 => cases h
  | case2 more =>
      cases h
      exact ⟨['"'], rfl, .quote⟩
  | case3 => cases h
  | case4 => cases h
  | case5 => cases h
  | case6 a b c d e f g k more high hn hhigh low hm hlow ih =>
      obtain ⟨cs, rfl, hread⟩ := readChars_push h
      obtain ⟨body, rfl, hbody⟩ := ih hread
      exact ⟨_, rfl, .pair hn (Bool.and_eq_true_iff.mp hhigh).1 hm hlow hbody⟩
  | case7 a b c d e f g k more high hn hhigh low hm hlow ih =>
      obtain ⟨cs, rfl, hread⟩ := readChars_push h
      obtain ⟨body, hcut, hbody⟩ := ih hread
      rw [hcut]
      refine ⟨_, rfl, .unit hn (fun _ e' f' g' k' after hbegins => ?_) hbody⟩
      rw [hbegins] at hcut
      cases hcut
      exact ⟨low, hm, Bool.eq_false_iff.mpr hlow⟩
  | case8 a b c d e f g k more high hn hhigh ih =>
      obtain ⟨cs, rfl, hread⟩ := readChars_push h
      obtain ⟨body, hcut, hbody⟩ := ih hread
      have hmore : more ≠ [] := by
        rintro rfl
        simp [readChars] at hread
      have hlone : isHighSurrogate high = false := by simpa [hmore] using hhigh
      rw [hcut]
      exact ⟨_, rfl, .unit hn (by simp [hlone]) hbody⟩
  | case9 => cases h
  | case10 a b c d x more hother n hn ih =>
      obtain ⟨cs, rfl, hread⟩ := readChars_push h
      obtain ⟨body, hcut, hbody⟩ := ih hread
      rw [hcut]
      refine ⟨_, rfl, .unit hn (fun _ e f g k after hbegins => ?_) hbody⟩
      rw [hbegins] at hcut
      obtain ⟨rfl, rfl⟩ := List.cons.inj hcut
      exact (hother e f g k _ rfl rfl).elim
  | case11 => cases h
  | case12 e more _ _ _ c he ih =>
      obtain ⟨cs, rfl, hread⟩ := readChars_push h
      obtain ⟨body, rfl, hbody⟩ := ih hread
      exact ⟨_, rfl, .short he hbody⟩
  | case13 => cases h
  | case14 => cases h
  | case15 c more hquote hend _ _ _ hescape hcontrol ih =>
      have hslash : c ≠ '\\' := by
        rintro rfl
        cases more with
        | nil => exact hend rfl rfl
        | cons d more => exact hescape d more rfl rfl
      obtain ⟨cs, rfl, hread⟩ := readChars_push h
      obtain ⟨body, rfl, hbody⟩ := ih hread
      exact ⟨_, rfl, .plain hquote hslash hcontrol hbody⟩

end Spells

end Listing.Json

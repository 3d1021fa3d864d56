import Listing.Text.Utf8

namespace Listing.Text.Utf8

theorem toNat_toUInt8 {n : Nat} (h : n < 0x100) : n.toUInt8.toNat = n := by
  simp [Nat.mod_eq_of_lt h]

theorem step_of_ascii {c : Char} (h : c.toNat < 0x80) (rest : Bytes) :
    step c.toNat.toUInt8 rest = .char c 1 := by
  have hbyte : c.toNat.toUInt8.toNat = c.toNat := toNat_toUInt8 (by omega)
  simp [step, lead?, hbyte, h, takeFollowing]

-- A byte that follows adds the six bits it was made of.
theorem takeFollowing_byte {n low high : Nat} (hlow : low ≤ 0x80 + n % 0x40)
    (hhigh : 0x80 + n % 0x40 ≤ high) (code used follow : Nat) (rest : Bytes) :
    takeFollowing code used (follow + 1) low high ((0x80 + n % 0x40).toUInt8 :: rest) =
      takeFollowing (0x40 * code + n % 0x40) (used + 1) follow 0x80 0xbf rest := by
  have hbyte : (0x80 + n % 0x40).toUInt8.toNat = 0x80 + n % 0x40 := toNat_toUInt8 (by omega)
  rw [takeFollowing, hbyte, if_pos ⟨hlow, hhigh⟩, Nat.add_sub_cancel_left]

theorem takeFollowing_general (n code used follow : Nat) (rest : Bytes) :
    takeFollowing code used (follow + 1) 0x80 0xbf ((0x80 + n % 0x40).toUInt8 :: rest) =
      takeFollowing (0x40 * code + n % 0x40) (used + 1) follow 0x80 0xbf rest :=
  takeFollowing_byte (by omega) (by omega) code used follow rest

-- The bytes of a character and nothing else, whatever stands behind them, make it up again.
def Spells (bytes : Bytes) (c : Char) : Prop :=
  ∃ b tail, bytes = b :: tail ∧ ∀ rest, step b (tail ++ rest) = .char c (tail.length + 1)

section Lead

variable {n : Nat}

theorem lead_two (hlow : 0x80 ≤ n) (hhigh : n < 0x800) :
    lead? (0xc0 + n / 0x40).toUInt8 = some ⟨1, n / 0x40, 0x80, 0xbf⟩ := by
  have hbyte : (0xc0 + n / 0x40).toUInt8.toNat = 0xc0 + n / 0x40 := toNat_toUInt8 (by omega)
  simp only [lead?, hbyte]
  rw [if_neg (by omega), if_neg (by omega), if_pos (by omega), Nat.add_sub_cancel_left]

-- The second of three bytes keeps away from long forms and surrogates.
theorem lead_three (hlow : 0x800 ≤ n) (hhigh : n < 0x10000)
    (hgap : ¬(0xd800 ≤ n ∧ n ≤ 0xdfff)) :
    ∃ low high, lead? (0xe0 + n / 0x1000).toUInt8 = some ⟨2, n / 0x1000, low, high⟩ ∧
      low ≤ 0x80 + n / 0x40 % 0x40 ∧ 0x80 + n / 0x40 % 0x40 ≤ high := by
  have hbyte : (0xe0 + n / 0x1000).toUInt8.toNat = 0xe0 + n / 0x1000 := toNat_toUInt8 (by omega)
  simp only [lead?, hbyte]
  rw [if_neg (by omega), if_neg (by omega), if_neg (by omega)]
  by_cases hfirst : n / 0x1000 = 0
  · rw [if_pos (by omega), hfirst]
    exact ⟨_, _, rfl, by omega, by omega⟩
  · rw [if_neg (by omega)]
    by_cases hsurrogate : n / 0x1000 = 0xd
    · rw [if_pos (by omega), hsurrogate]
      exact ⟨_, _, rfl, by omega, by omega⟩
    · rw [if_neg (by omega), if_pos (by omega), Nat.add_sub_cancel_left]
      exact ⟨_, _, rfl, by omega, by omega⟩

-- The second of four bytes keeps away from long forms and from codes of no character.
theorem lead_four (hlow : 0x10000 ≤ n) (hhigh : n < 0x110000) :
    ∃ low high, lead? (0xf0 + n / 0x40000).toUInt8 = some ⟨3, n / 0x40000, low, high⟩ ∧
      low ≤ 0x80 + n / 0x1000 % 0x40 ∧ 0x80 + n / 0x1000 % 0x40 ≤ high := by
  have hbyte : (0xf0 + n / 0x40000).toUInt8.toNat = 0xf0 + n / 0x40000 :=
    toNat_toUInt8 (by omega)
  simp only [lead?, hbyte]
  rw [if_neg (by omega), if_neg (by omega), if_neg (by omega), if_neg (by omega),
    if_neg (by omega), if_neg (by omega)]
  by_cases hfirst : n / 0x40000 = 0
  · rw [if_pos (by omega), hfirst]
    exact ⟨_, _, rfl, by omega, by omega⟩
  · rw [if_neg (by omega)]
    by_cases hlast : n / 0x40000 = 4
    · rw [if_neg (by omega), if_pos (by omega), hlast]
      exact ⟨_, _, rfl, by omega, by omega⟩
    · rw [if_pos (by omega), Nat.add_sub_cancel_left]
      exact ⟨_, _, rfl, by omega, by omega⟩

end Lead

theorem spells_encodeChar (c : Char) : Spells (encodeChar c) c := by
  have hvalid : c.toNat < 0xd800 ∨ 0xdfff < c.toNat ∧ c.toNat < 0x110000 := c.valid
  unfold encodeChar
  by_cases hone : c.toNat < 0x80
  · rw [if_pos hone]
    exact ⟨_, [], rfl, fun rest => step_of_ascii hone rest⟩
  rw [if_neg hone]
  by_cases htwo : c.toNat < 0x800
  · rw [if_pos htwo]
    refine ⟨_, _, rfl, fun rest => ?_⟩
    have hcode : 0x40 * (c.toNat / 0x40) + c.toNat % 0x40 = c.toNat := by omega
    rw [step, lead_two (by omega) htwo]
    simp only [List.cons_append, takeFollowing_general, hcode]
    rw [takeFollowing, Char.ofNat_toNat]
    rfl
  rw [if_neg htwo]
  by_cases hthree : c.toNat < 0x10000
  · rw [if_pos hthree]
    refine ⟨_, _, rfl, fun rest => ?_⟩
    obtain ⟨low, high, hlead, hlow, hhigh⟩ := lead_three (by omega) hthree (by omega)
    have hcode : 0x40 * (0x40 * (c.toNat / 0x1000) + c.toNat / 0x40 % 0x40) + c.toNat % 0x40 =
        c.toNat := by
      omega
    rw [step, hlead]
    simp only [List.cons_append, takeFollowing_byte hlow hhigh, takeFollowing_general, hcode]
    rw [takeFollowing, Char.ofNat_toNat]
    rfl
  · rw [if_neg hthree]
    refine ⟨_, _, rfl, fun rest => ?_⟩
    obtain ⟨low, high, hlead, hlow, hhigh⟩ := lead_four (n := c.toNat) (by omega) (by omega)
    have hcode : 0x40 * (0x40 * (0x40 * (c.toNat / 0x40000) + c.toNat / 0x1000 % 0x40) +
        c.toNat / 0x40 % 0x40) + c.toNat % 0x40 = c.toNat := by
      omega
    rw [step, hlead]
    simp only [List.cons_append, takeFollowing_byte hlow hhigh, takeFollowing_general, hcode]
    rw [takeFollowing, Char.ofNat_toNat]
    rfl

theorem decodeFrom_encode (cs : List Char) {fuel : Nat} (hfuel : cs.length ≤ fuel)
    (position : Nat) : decodeFrom fuel position (encode cs) = .ok cs := by
  induction cs generalizing fuel position with
  | nil => cases fuel <;> rfl
  | cons c cs ih =>
      obtain ⟨b, tail, hbytes, hstep⟩ := spells_encodeChar c
      obtain ⟨fuel, rfl⟩ : ∃ n, fuel = n + 1 := ⟨fuel - 1, by simp at hfuel; omega⟩
      have hcs := ih (by simpa using hfuel) (position + (tail.length + 1))
      rw [encode, List.flatMap_cons, hbytes, List.cons_append, decodeFrom, hstep]
      simp only [Nat.add_sub_cancel, List.drop_left]
      rw [← encode, hcs]
      rfl

theorem length_le_encode (cs : List Char) : cs.length ≤ (encode cs).length := by
  induction cs with
  | nil => exact Nat.le_refl _
  | cons c cs ih =>
      obtain ⟨b, tail, hbytes, -⟩ := spells_encodeChar c
      rw [encode, List.flatMap_cons, hbytes, ← encode, List.length_append]
      simp only [List.length_cons]
      omega

-- Text reads back from its bytes as it was.
theorem decode_encode (cs : List Char) : decode (encode cs) = .ok cs :=
  decodeFrom_encode cs (length_le_encode cs) 0

theorem ofString_injective {s t : String} (h : ofString s = ofString t) : s = t := by
  have hdecoded := congrArg decode h
  rw [ofString, ofString, decode_encode, decode_encode] at hdecoded
  exact String.toList_injective (Except.ok.inj hdecoded)

end Listing.Text.Utf8

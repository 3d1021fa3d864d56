import Listing.Proofs.Json.Number
import Listing.Proofs.Json.Plain
import Listing.Proofs.Json.Step
import Listing.Proofs.Json.Text

namespace Listing.Json

variable {indent : Indent} {depth : Nat}

theorem isSpace_of_mem_gap {c : Char} (h : c ∈ indent.gap depth) : isSpace c = true := by
  cases indent with
  | none => simp [Indent.gap] at h
  | some n =>
      simp only [Indent.gap, List.mem_cons, List.mem_replicate] at h
      rcases h with rfl | ⟨-, rfl⟩ <;> rfl

theorem skipSpace_gap (cs : List Char) : skipSpace (indent.gap depth ++ cs) = skipSpace cs :=
  List.dropWhile_append_of_pos fun _ hc => isSpace_of_mem_gap hc

theorem skipSpace_cons {c : Char} (h : isSpace c = false) (cs : List Char) :
    skipSpace (c :: cs) = c :: cs := by
  simp [skipSpace, h]

theorem between_eq_cons (indent : Indent) (depth : Nat) :
    ∃ blanks, indent.between depth = ',' :: blanks ∧
      ∀ cs, skipSpace (blanks ++ cs) = skipSpace cs := by
  cases indent with
  | none => exact ⟨[' '], rfl, fun cs => by simp [skipSpace, isSpace]⟩
  | some n => exact ⟨Indent.gap (some n) depth, rfl, skipSpace_gap⟩

theorem endsNumber_gap {c : Char} (hc : c = ']' ∨ c = '}') (rest : List Char) :
    EndsNumber (indent.gap depth ++ c :: rest) := by
  cases indent with
  | none => rcases hc with rfl | rfl <;> exact endsNumber_cons (by decide)
  | some n => exact endsNumber_cons (by decide)

theorem endsNumber_between (rest : List Char) : EndsNumber (indent.between depth ++ rest) := by
  obtain ⟨blanks, hbetween, -⟩ := between_eq_cons indent depth
  rw [hbetween]
  exact endsNumber_cons (by decide)

private theorem ne_of_digit {c d : Char} (hc : Text.isAsciiDigit c = true)
    (hd : Text.isAsciiDigit d = false) : c ≠ d := by
  rintro rfl
  rw [hc] at hd
  cases hd

private theorem isSpace_of_digit {c : Char} (h : Text.isAsciiDigit c = true) :
    isSpace c = false := by
  simp only [isSpace, Bool.or_eq_false_iff, beq_eq_false_iff_ne]
  exact ⟨⟨⟨ne_of_digit h rfl, ne_of_digit h rfl⟩, ne_of_digit h rfl⟩, ne_of_digit h rfl⟩

-- No written value begins with a blank, a closing bracket or a byte order mark.
theorem writeAt_eq_cons {v : Json} (h : v.IsPlain) (indent : Indent) (depth : Nat) :
    ∃ c cs, writeAt indent depth v = c :: cs ∧ isSpace c = false ∧ c ≠ ']' ∧ c ≠ '\ufeff' := by
  cases v with
  | null => exact ⟨'n', _, rfl, rfl, by decide⟩
  | bool b => cases b <;> exact ⟨_, _, rfl, rfl, by decide⟩
  | int n =>
      obtain ⟨c, cs, hcs, hc⟩ := writeInt_eq_cons n
      refine ⟨c, cs, hcs, ?_⟩
      rcases hc with rfl | hc
      · decide
      · exact ⟨isSpace_of_digit hc, ne_of_digit hc rfl, ne_of_digit hc rfl⟩
  | float x => exact absurd h (not_isPlain_float x)
  | str s => exact ⟨'"', _, rfl, rfl, by decide⟩
  | arr items => cases items <;> exact ⟨'[', _, rfl, rfl, by decide⟩
  | obj fields => rcases fields with _ | ⟨⟨k, v⟩, fs⟩ <;> exact ⟨'{', _, rfl, rfl, by decide⟩

theorem skipSpace_writeAt {v : Json} (h : v.IsPlain) (rest : List Char) :
    skipSpace (writeAt indent depth v ++ rest) = writeAt indent depth v ++ rest := by
  obtain ⟨c, cs, hcs, hspace, -⟩ := writeAt_eq_cons h indent depth
  rw [hcs, List.cons_append, skipSpace_cons hspace]

-- The reader takes a value that is written in front of what ends a number.
def Reads (indent : Indent) (depth : Nat) (v : Json) : Prop :=
  ∀ rest fuel, EndsNumber rest → 2 * (writeAt indent depth v).length ≤ fuel →
    readValue fuel (writeAt indent depth v ++ rest) = .ok (v, rest)

theorem readItems_written {v : Json} {vs : List Json} (hplain : ∀ w ∈ v :: vs, w.IsPlain)
    (hreads : ∀ w ∈ v :: vs, Reads indent depth w) (outer : Nat) (rest : List Char) {fuel : Nat}
    (hfuel : 2 * (writeAt indent depth v).length + 2 * (writeItems indent depth vs).length < fuel) :
    readItems fuel (writeAt indent depth v ++
      (writeItems indent depth vs ++ (indent.gap outer ++ ']' :: rest))) = .ok (v :: vs, rest) := by
  induction vs generalizing v fuel with
  | nil =>
      obtain ⟨fuel, rfl⟩ := Nat.exists_eq_add_one_of_ne_zero (Nat.ne_zero_of_lt hfuel)
      have hv := hreads v List.mem_cons_self (indent.gap outer ++ ']' :: rest) fuel
        (endsNumber_gap (.inl rfl) rest)
        (by simp only [writeItems, List.length_nil] at hfuel; omega)
      rw [writeItems, List.nil_append]
      refine readItems_eq_ok.mpr ⟨v, _, hv, .inr ⟨?_, rfl⟩⟩
      rw [skipSpace_gap, skipSpace_cons rfl]
  | cons w ws ih =>
      obtain ⟨fuel, rfl⟩ := Nat.exists_eq_add_one_of_ne_zero (Nat.ne_zero_of_lt hfuel)
      obtain ⟨blanks, hbetween, hblanks⟩ := between_eq_cons indent depth
      have hrest : 2 * (writeAt indent depth w).length + 2 * (writeItems indent depth ws).length <
          fuel := by
        simp only [writeItems, List.length_append, hbetween, List.length_cons] at hfuel
        omega
      have hw := ih (fun u hu => hplain u (List.mem_cons_of_mem _ hu))
        (fun u hu => hreads u (List.mem_cons_of_mem _ hu)) hrest
      have hv := hreads v List.mem_cons_self
        (indent.between depth ++ (writeAt indent depth w ++
          (writeItems indent depth ws ++ (indent.gap outer ++ ']' :: rest)))) fuel
        (endsNumber_between _) (by omega)
      rw [writeItems, List.append_assoc, List.append_assoc]
      rw [hbetween, List.cons_append] at hv ⊢
      refine readItems_eq_ok.mpr ⟨v, _, hv, .inl ⟨_, w :: ws, skipSpace_cons rfl _, ?_, rfl⟩⟩
      rw [hblanks, skipSpace_writeAt (hplain w (by simp)), hw]

theorem writeText_append (k : String) (cs : List Char) :
    writeText k ++ cs = '"' :: (k.toList.flatMap writeChar ++ '"' :: cs) := by
  simp [writeText]

-- A new key goes behind the fields read so far.
theorem readFields_field {sofar fields : List (String × Json)} {k : String} {v : Json} {fuel : Nat}
    {cs behind rest : List Char} (hkey : k ∉ sofar.map (·.1)) (hcs : skipSpace cs = cs)
    (hvalue : readValue fuel cs = .ok (v, behind))
    (h : (∃ next, skipSpace behind = ',' :: next ∧
        readFields fuel (sofar ++ [(k, v)]) (skipSpace next) = .ok (fields, rest)) ∨
      skipSpace behind = '}' :: rest ∧ fields = sofar ++ [(k, v)]) :
    readFields (fuel + 1) sofar (writeText k ++ ':' :: ' ' :: cs) = .ok (fields, rest) := by
  have hblank : skipSpace (' ' :: cs) = skipSpace cs := by simp [skipSpace, isSpace]
  rw [← setField_of_notMem hkey, ← String.ofList_toList (s := k)] at h
  rw [writeText_append]
  exact readFields_eq_ok.mpr ⟨_, k.toList, _, ' ' :: cs, v, behind, rfl, readChars_written _ _ _,
    skipSpace_cons rfl _, by rw [hblank, hcs, hvalue], h⟩

theorem readFields_written {sofar : List (String × Json)} {k : String} {v : Json}
    {fs : List (String × Json)} (hkeys : ((sofar ++ (k, v) :: fs).map (·.1)).Nodup)
    (hplain : ∀ f ∈ (k, v) :: fs, f.2.IsPlain)
    (hreads : ∀ f ∈ (k, v) :: fs, Reads indent depth f.2) (outer : Nat) (rest : List Char)
    {fuel : Nat} (hfuel : 2 * (writeAt indent depth v).length +
      2 * (writeFields indent depth fs).length < fuel) :
    readFields fuel sofar (writeText k ++ ':' :: ' ' :: (writeAt indent depth v ++
      (writeFields indent depth fs ++ (indent.gap outer ++ '}' :: rest)))) =
      .ok (sofar ++ (k, v) :: fs, rest) := by
  induction fs generalizing sofar k v fuel with
  | nil =>
      obtain ⟨fuel, rfl⟩ := Nat.exists_eq_add_one_of_ne_zero (Nat.ne_zero_of_lt hfuel)
      have hkey : k ∉ sofar.map (·.1) := by
        rw [List.map_append, List.nodup_append] at hkeys
        exact fun hk => hkeys.2.2 k hk k (by simp) rfl
      have hv := hreads (k, v) List.mem_cons_self (indent.gap outer ++ '}' :: rest) fuel
        (endsNumber_gap (.inr rfl) rest)
        (by simp only [writeFields, List.length_nil] at hfuel ⊢; omega)
      rw [writeFields, List.nil_append]
      refine readFields_field hkey (skipSpace_writeAt (hplain (k, v) List.mem_cons_self) _) hv
        (.inr ⟨?_, rfl⟩)
      rw [skipSpace_gap, skipSpace_cons rfl]
  | cons f fs ih =>
      obtain ⟨l, w⟩ := f
      obtain ⟨fuel, rfl⟩ := Nat.exists_eq_add_one_of_ne_zero (Nat.ne_zero_of_lt hfuel)
      obtain ⟨blanks, hbetween, hblanks⟩ := between_eq_cons indent depth
      have hkey : k ∉ sofar.map (·.1) := by
        rw [List.map_append, List.nodup_append] at hkeys
        exact fun hk => hkeys.2.2 k hk k (by simp) rfl
      have hrest : 2 * (writeAt indent depth w).length + 2 * (writeFields indent depth fs).length <
          fuel := by
        simp only [writeFields, List.length_append, hbetween, List.length_cons] at hfuel
        omega
      have hdistinct : (((sofar ++ [(k, v)]) ++ (l, w) :: fs).map (·.1)).Nodup := by
        simpa using hkeys
      have hw := ih hdistinct (fun u hu => hplain u (List.mem_cons_of_mem _ hu))
        (fun u hu => hreads u (List.mem_cons_of_mem _ hu)) hrest
      have hv := hreads (k, v) List.mem_cons_self
        (indent.between depth ++ (writeText l ++ ':' :: ' ' :: (writeAt indent depth w ++
          (writeFields indent depth fs ++ (indent.gap outer ++ '}' :: rest))))) fuel
        (endsNumber_between _) (by simp only; omega)
      rw [writeFields]
      simp only [List.append_assoc, List.cons_append]
      rw [hbetween, List.cons_append] at hv ⊢
      refine readFields_field hkey (skipSpace_writeAt (hplain (k, v) List.mem_cons_self) _) hv
        (.inl ⟨_, skipSpace_cons rfl _, ?_⟩)
      rw [hblanks, writeText_append, skipSpace_cons rfl, ← writeText_append, hw, List.append_assoc,
        List.singleton_append]

theorem Reads.of_succ {v : Json} (h : v.IsPlain)
    (hread : ∀ rest fuel, EndsNumber rest → 2 * (writeAt indent depth v).length ≤ fuel + 1 →
      readValue (fuel + 1) (writeAt indent depth v ++ rest) = .ok (v, rest)) :
    Reads indent depth v := by
  intro rest fuel hrest hfuel
  obtain ⟨c, cs, hcs, -⟩ := writeAt_eq_cons h indent depth
  have hne : fuel ≠ 0 := by
    rw [hcs, List.length_cons] at hfuel
    omega
  obtain ⟨fuel, rfl⟩ := Nat.exists_eq_add_one_of_ne_zero hne
  exact hread rest fuel hrest hfuel

-- A number begins like no other value.
theorem readValue_of_number {cs : List Char} {found : Json × List Char}
    (h : readNumber? cs = some found) (fuel : Nat) : readValue (fuel + 1) cs = .ok found := by
  refine readValue_eq_ok.mpr (.scalar ?_ ?_ ?_ (readScalar_of_number h))
  all_goals
    rintro rest rfl
    simp [readNumber?, Text.isAsciiDigit] at h

theorem reads_of_isPlain {v : Json} (h : v.IsPlain) (indent : Indent) (depth : Nat) :
    Reads indent depth v := by
  induction v using tree_induction generalizing depth with
  | null => exact .of_succ h fun rest fuel _ _ => rfl
  | bool b => cases b <;> exact .of_succ h fun rest fuel _ _ => rfl
  | int n =>
      exact .of_succ h fun rest fuel hrest _ =>
        readValue_of_number (readNumber?_writeInt n hrest) fuel
  | float x => exact absurd h (not_isPlain_float x)
  | str s =>
      refine .of_succ h fun rest fuel _ _ => ?_
      have hs : ValueStep fuel rest (writeText s ++ rest) (.str (String.ofList s.toList)) := by
        rw [writeText_append]
        exact .text (readChars_written _ _ _)
      rw [String.ofList_toList] at hs
      exact readValue_eq_ok.mpr hs
  | arr items ih =>
      refine .of_succ h fun rest fuel hrest hfuel => ?_
      rw [isPlain_arr] at h
      cases items with
      | nil => rfl
      | cons v vs =>
          obtain ⟨c, cs, hcs, hspace, hc, -⟩ :=
            writeAt_eq_cons (h v List.mem_cons_self) indent (depth + 1)
          have hlength : 2 * (writeAt indent (depth + 1) v).length +
              2 * (writeItems indent (depth + 1) vs).length < fuel := by
            simp only [writeAt, List.length_append, List.length_cons] at hfuel
            omega
          have hitems := readItems_written h (fun w hw => ih w hw (h w hw) (depth + 1)) depth rest
            hlength
          simp only [writeAt, List.append_assoc, List.cons_append, List.nil_append]
          rw [hcs] at hitems ⊢
          have hskip (tail : List Char) : skipSpace (indent.gap (depth + 1) ++ (c :: cs ++ tail)) =
              c :: cs ++ tail := by
            rw [skipSpace_gap, List.cons_append, skipSpace_cons hspace]
          refine readValue_eq_ok.mpr (.list (fun tail hclose => ?_) ?_)
          · rw [hskip] at hclose
            exact hc (List.cons.inj hclose).1
          · rw [hskip, hitems]
  | obj fields ih =>
      refine .of_succ h fun rest fuel hrest hfuel => ?_
      rw [isPlain_obj] at h
      rcases fields with _ | ⟨⟨k, v⟩, fs⟩
      · rfl
      · have hlength : 2 * (writeAt indent (depth + 1) v).length +
            2 * (writeFields indent (depth + 1) fs).length < fuel := by
          simp only [writeAt, List.length_append, List.length_cons] at hfuel
          omega
        have hdistinct : ((([] : List (String × Json)) ++ (k, v) :: fs).map (·.1)).Nodup := h.1
        have hfields := readFields_written hdistinct h.2
          (fun f hf => ih f hf (h.2 f hf) (depth + 1)) depth rest hlength
        simp only [writeAt, List.append_assoc, List.cons_append, List.nil_append]
        rw [writeText_append] at hfields ⊢
        refine readValue_eq_ok.mpr (.object ?_)
        rw [skipSpace_gap, skipSpace_cons rfl, hfields, List.nil_append]

-- Plain values come back from their text, however it is indented.
theorem readText_writeAt {v : Json} (h : v.IsPlain) (indent : Indent) :
    readText (writeAt indent 0 v) = .ok v := by
  have hskip : skipSpace (writeAt indent 0 v ++ []) = writeAt indent 0 v ++ [] :=
    skipSpace_writeAt h []
  have hread := reads_of_isPlain h indent 0 [] (2 * (writeAt indent 0 v).length + 2)
    endsNumber_nil (by omega)
  rw [List.append_nil] at hskip hread
  unfold readText
  split
  · rename_i heq
    obtain ⟨c, cs, hcs, -, -, hmark⟩ := writeAt_eq_cons h indent 0
    rw [hcs] at heq
    exact absurd (List.cons.inj heq).1 hmark
  · rw [hskip, hread]
    rfl

end Listing.Json

import Mathlib
import Listing.Proofs.Symbol

namespace Listing.Symbol

def BeginsName (c : Char) : Prop := c.isAlpha = true ∨ c ∈ ['_', '.', '$']

def ContinuesName (c : Char) : Prop := BeginsName c ∨ c.isDigit = true ∨ c = '@'

-- A name that an assembler takes without quotes.
def IsIdentifier (name : String) : Prop :=
  ∃ first rest, name.toList = first :: rest ∧ BeginsName first ∧ ∀ c ∈ rest, ContinuesName c

-- A name that is printed without quotes. A line feed may stand after the identifier.
def StandsBare (name : String) : Prop :=
  ∃ identifier, IsIdentifier identifier ∧ (name = identifier ∨ name = identifier ++ "\n")

-- The text of a name between quotes: every backslash and every double quote of the name stands
-- behind a backslash, and nothing else is added.
inductive Quotes : List Char → List Char → Prop
  | nil : Quotes [] []
  | plain {c : Char} {name body : List Char} (hslash : c ≠ '\\') (hquote : c ≠ '"')
      (rest : Quotes name body) : Quotes (c :: name) (c :: body)
  | special {c : Char} {name body : List Char} (hspecial : c = '\\' ∨ c = '"')
      (rest : Quotes name body) : Quotes (c :: name) ('\\' :: c :: body)

theorem quotes_escape (name : List Char) : Quotes name (Text.escape name) := by
  induction name with
  | nil => exact .nil
  | cons c name ih =>
      rw [Text.escape_cons, Text.escapeChar]
      by_cases hspecial : c = '\\' ∨ c = '"'
      · rw [if_pos hspecial]
        exact .special hspecial ih
      · rw [if_neg hspecial]
        obtain ⟨hslash, hquote⟩ := not_or.mp hspecial
        exact .plain hslash hquote ih

theorem isNameStart_iff (c : Char) : isNameStart c = true ↔ BeginsName c := by
  simp only [isNameStart, BeginsName, Char.isAlpha, Char.isUpper, Char.isLower, Char.le_def,
    Bool.or_eq_true, Bool.and_eq_true, decide_eq_true_eq, beq_iff_eq, List.mem_cons,
    List.not_mem_nil, or_false, or_assoc]

theorem isNameRest_iff (c : Char) : isNameRest c = true ↔ ContinuesName c := by
  simp only [isNameRest, ContinuesName, isNameStart_iff, Text.isAsciiDigit, Char.isDigit,
    Char.le_def, Bool.or_eq_true, Bool.and_eq_true, decide_eq_true_eq, beq_iff_eq, or_assoc]

theorem isBareRest_iff (cs : List Char) :
    isBareRest cs = true ↔
      ∃ rest, (∀ c ∈ rest, ContinuesName c) ∧ (cs = rest ∨ cs = rest ++ ['\n']) := by
  fun_induction isBareRest cs with
  | case1 =>
      refine iff_of_true rfl ⟨[], ?_, .inl rfl⟩
      simp
  | case2 =>
      refine iff_of_true rfl ⟨[], ?_, .inr rfl⟩
      simp
  | case3 c cs hfeed ih =>
      rw [Bool.and_eq_true, isNameRest_iff, ih]
      constructor
      · rintro ⟨hc, rest, hrest, hcs⟩
        refine ⟨c :: rest, List.forall_mem_cons.mpr ⟨hc, hrest⟩, ?_⟩
        simpa using hcs
      · rintro ⟨rest, hrest, hcs⟩
        cases rest with
        | nil =>
            rcases hcs with h | h
            · cases h
            · exact absurd h (by simpa using hfeed)
        | cons d rest =>
            obtain ⟨hd, htail⟩ := List.forall_mem_cons.mp hrest
            simp only [List.cons_append, List.cons.injEq, ← and_or_left] at hcs
            obtain ⟨rfl, hcs⟩ := hcs
            exact ⟨hd, rest, htail, hcs⟩

theorem isBare_iff (name : String) : isBare name.toList = true ↔ StandsBare name := by
  constructor
  · intro hbare
    cases hname : name.toList with
    | nil =>
        rw [hname] at hbare
        cases hbare
    | cons first cs =>
        rw [hname, isBare, Bool.and_eq_true, isNameStart_iff, isBareRest_iff] at hbare
        obtain ⟨hfirst, rest, hrest, hcs⟩ := hbare
        refine ⟨String.ofList (first :: rest), ⟨first, rest, String.toList_ofList, hfirst, hrest⟩,
          ?_⟩
        refine hcs.imp ?_ ?_
        · rintro rfl
          rw [← hname, String.ofList_toList]
        · rintro rfl
          apply String.toList_injective
          rw [hname, String.toList_append, String.toList_ofList]
          rfl
  · rintro ⟨identifier, ⟨first, rest, htext, hfirst, hrest⟩, hname⟩
    have htail : isBareRest rest = true := (isBareRest_iff _).mpr ⟨rest, hrest, .inl rfl⟩
    have hfeed : isBareRest (rest ++ ['\n']) = true :=
      (isBareRest_iff _).mpr ⟨rest, hrest, .inr rfl⟩
    have hstart : isNameStart first = true := (isNameStart_iff first).mpr hfirst
    rcases hname with rfl | rfl
    · rw [htext, isBare, hstart, htail]
      rfl
    · rw [String.toList_append, htext]
      change (isNameStart first && isBareRest (rest ++ ['\n'])) = true
      rw [hstart, hfeed]
      rfl

theorem print_of_standsBare {name : String} (h : StandsBare name) : print name = name := by
  rw [print, printChars, if_pos ((isBare_iff name).mpr h), String.ofList_toList]

theorem print_of_not_standsBare {name : String} (h : ¬StandsBare name) :
    print name = String.ofList ('"' :: Text.escape name.toList ++ ['"']) := by
  rw [print, printChars, if_neg (mt (isBare_iff name).mp h)]

-- A name that is printed as it is was not put in quotes, since those would be taken off again.
theorem print_eq_self_iff (name : String) : print name = name ↔ StandsBare name := by
  refine ⟨fun hself => Classical.byContradiction fun hbare => ?_, print_of_standsBare⟩
  have hquoted : IsQuoted name := by
    have hprinted := congrArg String.toList (print_of_not_standsBare hbare)
    rw [hself, String.toList_ofList] at hprinted
    exact ⟨Text.escape name.toList, hprinted⟩
  have hkept : unquote name = name := by
    have hread := unquote_print name
    rwa [hself] at hread
  exact unquote_eq_self_iff.mp hkept hquoted

-- Printing is undone by unquoting, so no two names are printed alike, and the texts that print
-- gives are those that it gives back after they were unquoted.
theorem print_inverse :
    (∀ name, unquote (print name) = name) ∧ Function.Injective print ∧
      ∀ text, (∃ name, print name = text) ↔ print (unquote text) = text := by
  refine ⟨unquote_print, ?_, fun text => ⟨?_, ?_⟩⟩
  · exact Function.LeftInverse.injective unquote_print
  · rintro ⟨name, rfl⟩
    rw [unquote_print]
  · intro h
    exact ⟨unquote text, h⟩

-- A name is printed as it is if it is an identifier, with or without a line feed behind it. Any
-- other is printed between double quotes, with its backslashes and double quotes escaped.
theorem print_forms (name : String) :
    (print name = name ↔ StandsBare name) ∧
      (print name = name ∨ ∃ body, Quotes name.toList body ∧
        print name = String.ofList ('"' :: body ++ ['"'])) := by
  refine ⟨print_eq_self_iff name, ?_⟩
  by_cases hbare : StandsBare name
  · exact .inl (print_of_standsBare hbare)
  · exact .inr ⟨_, quotes_escape _, print_of_not_standsBare hbare⟩

-- A line feed at the end of a name is printed without quotes, although no identifier has one.
theorem print_lineFeed :
    ¬(print "a\n" = "a\n" ∧ IsIdentifier "a\n") ∧
      ¬∃ body, print "a\n" = String.ofList ('"' :: body ++ ['"']) := by
  have hprint : print "a\n" = "a\n" := by decide
  constructor
  · rintro ⟨-, first, rest, htext, -, hrest⟩
    obtain ⟨rfl, rfl⟩ := List.cons.inj htext
    have hfeed : ¬ContinuesName '\n' := by simp [ContinuesName, BeginsName]
    exact hfeed (hrest '\n' List.mem_cons_self)
  · rintro ⟨body, hbody⟩
    rw [hprint] at hbody
    have hchars : ['a', '\n'] = '"' :: body ++ ['"'] := String.ofList_injective hbody
    cases hchars

end Listing.Symbol

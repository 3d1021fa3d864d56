import Listing.Proofs.Event.Bytes
import Listing.Proofs.Event.JsonLines

namespace Listing.Event

-- Bytes that nobody reads as a log to its end.
def IsForeign (bytes : Text.Utf8.Bytes) : Prop :=
  ∀ path, ∃ fault, (readBytes path bytes).2 = .error fault

section Foreign

variable {text : String} {bytes : Text.Utf8.Bytes} {cs line : List Char} {c : Char}

theorem fault_of_isBad (h : IsBad line) (number : Nat) (lines : List (List Char)) :
    ∃ fault, (readLines number (line :: lines)).fault = some fault := by
  rcases readLines_cons_of_isBad h number lines with ⟨-, hstop⟩ | ⟨-, flaw, -, hstop⟩
  · exact ⟨_, by rw [hstop]⟩
  · exact ⟨_, by rw [hstop]⟩

theorem isForeign_of_readLog (hcs : Text.Utf8.decode bytes = .ok cs)
    (h : ∃ fault, (readLog (String.ofList cs)).fault = some fault) : IsForeign bytes := by
  obtain ⟨fault, hfault⟩ := h
  have hunified := readLog_unifyNewlines (String.ofList cs)
  rw [String.toList_ofList] at hunified
  refine fun path => ⟨fault, ?_⟩
  simp only [readBytes, hcs, hunified, hfault]

theorem isForeign_ofString (h : ∃ fault, (readLog text).fault = some fault) :
    IsForeign (Text.Utf8.ofString text) :=
  isForeign_of_readLog (Text.Utf8.decode_encode text.toList) (by rwa [String.ofList_toList])

-- A record begins with a brace, behind blanks at most.
theorem isBad_of_head (hblank : Text.isBlank c = false) (hcomment : c ≠ '#') (hbrace : c ≠ '{')
    (line : List Char) : IsBad (c :: line) := by
  have htrim : Text.trim (c :: line) = c :: Text.trimEnd line := by
    rw [Text.trim_cons hblank, Text.trimEnd_cons hblank]
  refine ⟨by simp [IsPassedOver, htrim, hcomment], fun fields hfields => ?_⟩
  obtain ⟨-, hread⟩ := hfields
  rw [htrim] at hread
  obtain ⟨front, core, back, hcut, hfront, -, ⟨body, rfl⟩, -⟩ := Json.braced_of_readText hread
  cases front with
  | nil => exact absurd (List.cons.inj hcut).1 hbrace
  | cons first front =>
      have hspace : Json.isSpace c = true :=
        (List.cons.inj hcut).1 ▸ hfront first List.mem_cons_self
      rw [isBlank_of_isSpace hspace] at hblank
      cases hblank

theorem readLog_of_head (htext : text.toList.head? = some c) (hblank : Text.isBlank c = false)
    (hcomment : c ≠ '#') (hbrace : c ≠ '{') : ∃ fault, (readLog text).fault = some fault := by
  have hplain : Text.isLineBreak c = false := Bool.eq_false_iff.mpr fun hbreak => by
    rw [isBlank_of_isLineBreak hbreak] at hblank
    cases hblank
  obtain ⟨cs, hcs⟩ := List.head?_eq_some_iff.mp htext
  rw [readLog, hcs, Text.splitLines_cons hplain]
  split
  · exact fault_of_isBad (isBad_of_head hblank hcomment hbrace []) 1 []
  · exact fault_of_isBad (isBad_of_head hblank hcomment hbrace _) 1 _

-- A brace that is alone on the first line is no record.
theorem readLog_of_brace (htext : ['{', '\n'] <+: text.toList) :
    ∃ fault, (readLog text).fault = some fault := by
  obtain ⟨cs, hcs⟩ := htext
  have hplain : ∀ c ∈ ['{'], Text.isLineBreak c = false := List.forall_mem_singleton.mpr rfl
  have hlines : Text.splitLines ('{' :: '\n' :: cs) = ['{'] :: Text.splitLines cs :=
    Text.splitLines_line hplain cs
  have hbad : IsBad ['{'] := ⟨by decide, fun fields hfields => by cases hfields.2⟩
  rw [readLog, ← hcs, List.cons_append, List.singleton_append, hlines]
  exact fault_of_isBad hbad 1 _

-- The text of a document that begins with a tag.
theorem isForeign_of_tag (h : bytes.head? = some 60) : IsForeign bytes := by
  obtain ⟨rest, rfl⟩ : ∃ rest, bytes = 60 :: rest := List.head?_eq_some_iff.mp h
  cases hdecode : Text.Utf8.decode (60 :: rest) with
  | error e =>
      refine fun path => ⟨.undecodable e, ?_⟩
      simp only [readBytes, hdecode]
  | ok cs =>
      have hstep : Text.Utf8.step 60 rest = .char '<' 1 := rfl
      have hfirst := hdecode
      rw [Text.Utf8.decode, List.length_cons, Text.Utf8.decodeFrom, hstep] at hfirst
      obtain ⟨more, -, hcs⟩ := bind_eq_ok.mp hfirst
      refine isForeign_of_readLog hdecode (readLog_of_head (c := '<') ?_ rfl
        (by decide) (by decide))
      rw [String.toList_ofList, ← pure_eq_ok.mp hcs, List.head?_cons]

end Foreign

end Listing.Event

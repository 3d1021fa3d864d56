import Listing.Proofs.Json.RoundTrip
import Listing.Proofs.Json.Scalar
import Listing.Proofs.Json.Step

namespace Listing.Json

theorem isSpace_head?_skipSpace (cs : List Char) :
    ∀ c ∈ (skipSpace cs).head?, isSpace c = false := by
  intro c hc
  have hnot := List.head?_dropWhile_not isSpace cs
  rw [← skipSpace, Option.mem_def.mp hc] at hnot
  simpa using hnot

-- Space in front of a character is skipped, whatever stands behind that.
theorem skipSpace_mark {cs rest : List Char} {c : Char} (h : skipSpace cs = c :: rest) :
    ∃ blanks, cs = blanks ++ c :: rest ∧ (∀ d ∈ blanks, isSpace d = true) ∧
      ∀ more, skipSpace (blanks ++ c :: more) = c :: more := by
  have hblanks : ∀ d ∈ cs.takeWhile isSpace, isSpace d = true :=
    List.all_eq_true.mp List.all_takeWhile
  have hc : isSpace c = false := isSpace_head?_skipSpace cs c (by rw [h]; rfl)
  refine ⟨cs.takeWhile isSpace, ?_, hblanks, fun more => ?_⟩
  · rw [← h, skipSpace, List.takeWhile_append_dropWhile]
  · rw [skipSpace, List.dropWhile_append_of_pos hblanks]
    exact skipSpace_cons hc more

theorem skipSpace_local {cs core rest : List Char} (h : skipSpace cs = core ++ rest)
    (hne : core ≠ []) :
    ∃ blanks, cs = blanks ++ (core ++ rest) ∧
      ∀ more, skipSpace (blanks ++ (core ++ more)) = core ++ more := by
  obtain ⟨c, core, rfl⟩ := List.exists_cons_of_ne_nil hne
  obtain ⟨blanks, hcut, -, hskip⟩ := skipSpace_mark h
  exact ⟨blanks, hcut, fun more => hskip (core ++ more)⟩

theorem ends_of_isSpace {c : Char} (h : isSpace c = true) :
    Text.isAsciiDigit c = false ∧ c ≠ '.' ∧ c ≠ 'e' ∧ c ≠ 'E' := by
  simp only [isSpace, Bool.or_eq_true, beq_iff_eq] at h
  rcases h with ((rfl | rfl) | rfl) | rfl <;> decide

theorem endsNumber_append {blanks more : List Char} (h : ∀ c ∈ blanks, isSpace c = true)
    (hmore : EndsNumber more) : EndsNumber (blanks ++ more) :=
  head?_append (fun c hc => ends_of_isSpace (h c (List.mem_of_mem_head? hc))) hmore

-- A reader takes `core` for `x` wherever it stands, if a number does not go on behind it.
def Takes {α : Type} (read : Nat → List Char → Except Stop (α × List Char)) (core : List Char)
    (x : α) : Prop :=
  ∀ fuel rest, EndsNumber rest → 2 * core.length ≤ fuel → read fuel (core ++ rest) = .ok (x, rest)

theorem takes_of_succ {α : Type} {read : Nat → List Char → Except Stop (α × List Char)}
    {core : List Char} {x : α} (hne : core ≠ [])
    (h : ∀ fuel rest, EndsNumber rest → 2 * core.length ≤ fuel + 1 →
      read (fuel + 1) (core ++ rest) = .ok (x, rest)) : Takes read core x := by
  intro fuel rest hrest hfuel
  have hpos : 0 < core.length := List.length_pos_iff.mpr hne
  cases fuel with
  | zero => omega
  | succ fuel => exact h fuel rest hrest hfuel

def IsBraced (core : List Char) : Prop := ∃ body, core = '{' :: (body ++ ['}'])

-- With some fuel each value that is read is one that is taken.
def ReadsLocally (fuel : Nat) : Prop :=
  ∀ cs v rest, readValue fuel cs = .ok (v, rest) →
    ∃ core, core ≠ [] ∧ cs = core ++ rest ∧ (∀ fields, v = .obj fields → IsBraced core) ∧
      Takes readValue core v

def ReadsItemsLocally (fuel : Nat) : Prop :=
  ∀ cs vs rest, readItems fuel cs = .ok (vs, rest) →
    ∃ core, core ≠ [] ∧ cs = core ++ rest ∧ Takes readItems core vs

def ReadsFieldsLocally (fuel : Nat) : Prop :=
  ∀ sofar cs fields rest, readFields fuel sofar cs = .ok (fields, rest) →
    ∃ body, cs = '"' :: (body ++ '}' :: rest) ∧
      Takes (fun fuel => readFields fuel sofar) ('"' :: (body ++ ['}'])) fields

section Values

variable {blanks core : List Char}

theorem takes_text {body s : List Char} (h : Spells body s) :
    Takes readValue ('"' :: body) (.str (String.ofList s)) :=
  takes_of_succ (by simp) fun _ more _ _ =>
    readValue_eq_ok.mpr (.text (readChars_of_spells h _ more))

theorem takes_emptyList (hskip : ∀ more, skipSpace (blanks ++ ']' :: more) = ']' :: more) :
    Takes readValue ('[' :: (blanks ++ [']'])) (.arr []) := by
  refine takes_of_succ (by simp) fun fuel more _ _ => ?_
  rw [List.cons_append, List.append_assoc]
  exact readValue_eq_ok.mpr (.emptyList (hskip more))

theorem takes_list {items : List Json} (hne : core ≠ [])
    (hskip : ∀ more, skipSpace (blanks ++ (core ++ more)) = core ++ more)
    (hopen : ∀ tail, core ≠ ']' :: tail) (h : Takes readItems core items) :
    Takes readValue ('[' :: (blanks ++ core)) (.arr items) := by
  refine takes_of_succ (by simp) fun fuel more hmore hfuel => ?_
  simp only [List.length_cons, List.length_append] at hfuel
  rw [List.cons_append, List.append_assoc]
  refine readValue_eq_ok.mpr (.list (fun tail hclose => ?_) ?_)
  · obtain ⟨c, core, rfl⟩ := List.exists_cons_of_ne_nil hne
    rw [hskip] at hclose
    exact hopen core (by rw [(List.cons.inj hclose).1])
  · rw [hskip]
    exact h fuel more hmore (by omega)

theorem takes_emptyObject (hskip : ∀ more, skipSpace (blanks ++ '}' :: more) = '}' :: more) :
    Takes readValue ('{' :: (blanks ++ ['}'])) (.obj []) := by
  refine takes_of_succ (by simp) fun fuel more _ _ => ?_
  rw [List.cons_append, List.append_assoc]
  exact readValue_eq_ok.mpr (.emptyObject (hskip more))

theorem takes_object {fields : List (String × Json)}
    (hskip : ∀ more, skipSpace (blanks ++ (core ++ more)) = core ++ more)
    (h : Takes (fun fuel => readFields fuel []) core fields) :
    Takes readValue ('{' :: (blanks ++ core)) (.obj fields) := by
  refine takes_of_succ (by simp) fun fuel more hmore hfuel => ?_
  simp only [List.length_cons, List.length_append] at hfuel
  rw [List.cons_append, List.append_assoc]
  refine readValue_eq_ok.mpr (.object ?_)
  rw [hskip]
  exact h fuel more hmore (by omega)

end Values

section Step

variable {fuel : Nat}

theorem readsItemsLocally_succ (hvalue : ReadsLocally fuel) (hitems : ReadsItemsLocally fuel) :
    ReadsItemsLocally (fuel + 1) := by
  intro cs vs rest h
  obtain ⟨v, behind, hv, hbehind⟩ := readItems_eq_ok.mp h
  obtain ⟨core, -, rfl, -, htakes⟩ := hvalue _ _ _ hv
  rcases hbehind with ⟨next, ws, hcomma, hws, rfl⟩ | ⟨hclose, rfl⟩
  · obtain ⟨blanks, rfl, hblanks, hskip⟩ := skipSpace_mark hcomma
    obtain ⟨tail, hne, htail, htakes'⟩ := hitems _ _ _ hws
    obtain ⟨gap, rfl, hskip'⟩ := skipSpace_local htail hne
    refine ⟨core ++ (blanks ++ ',' :: (gap ++ tail)), by simp, by simp,
      takes_of_succ (by simp) fun fuel more hmore hfuel => ?_⟩
    simp only [List.length_append, List.length_cons] at hfuel
    have hends : EndsNumber (blanks ++ ',' :: (gap ++ (tail ++ more))) :=
      endsNumber_append hblanks (endsNumber_cons (by decide))
    simp only [List.append_assoc, List.cons_append]
    refine readItems_eq_ok.mpr ⟨v, _, htakes fuel _ hends (by omega),
      .inl ⟨_, ws, hskip _, ?_, rfl⟩⟩
    rw [hskip']
    exact htakes' fuel more hmore (by omega)
  · obtain ⟨blanks, rfl, hblanks, hskip⟩ := skipSpace_mark hclose
    refine ⟨core ++ (blanks ++ [']']), by simp, by simp,
      takes_of_succ (by simp) fun fuel more hmore hfuel => ?_⟩
    simp only [List.length_append, List.length_cons] at hfuel
    have hends : EndsNumber (blanks ++ ']' :: more) :=
      endsNumber_append hblanks (endsNumber_cons (by decide))
    simp only [List.append_assoc, List.singleton_append]
    exact readItems_eq_ok.mpr ⟨v, _, htakes fuel _ hends (by omega), .inr ⟨hskip more, rfl⟩⟩

theorem readsFieldsLocally_succ (hvalue : ReadsLocally fuel) (hfields : ReadsFieldsLocally fuel) :
    ReadsFieldsLocally (fuel + 1) := by
  intro sofar cs fields rest h
  obtain ⟨text, key, after, value, v, behind, rfl, hkey, hcolon, hv, hbehind⟩ :=
    readFields_eq_ok.mp h
  obtain ⟨spelled, rfl, hspells⟩ := spells_of_readChars hkey
  obtain ⟨gap, rfl, -, hskip⟩ := skipSpace_mark hcolon
  obtain ⟨core, hne, hcore, -, htakes⟩ := hvalue _ _ _ hv
  obtain ⟨gap', rfl, hskip'⟩ := skipSpace_local hcore hne
  rcases hbehind with ⟨next, hcomma, hrest⟩ | ⟨hclose, rfl⟩
  · obtain ⟨blanks, rfl, hblanks, hcomma'⟩ := skipSpace_mark hcomma
    obtain ⟨body, hbody, htakes'⟩ := hfields _ _ _ _ hrest
    obtain ⟨space, rfl, -, hspace⟩ := skipSpace_mark hbody
    refine ⟨spelled ++ (gap ++ ':' :: (gap' ++ (core ++ (blanks ++ ',' ::
      (space ++ '"' :: body))))), by simp,
      takes_of_succ (by simp) fun fuel more hmore hfuel => ?_⟩
    simp only [List.length_append, List.length_cons] at hfuel
    have hends : EndsNumber (blanks ++ ',' :: (space ++ '"' :: (body ++ '}' :: more))) :=
      endsNumber_append hblanks (endsNumber_cons (by decide))
    have hnext := htakes' fuel more hmore (by
      simp only [List.length_append, List.length_cons]
      omega)
    simp only [List.append_assoc, List.cons_append, List.nil_append] at hnext ⊢
    refine readFields_eq_ok.mpr ⟨_, key, _, _, v, _, rfl, readChars_of_spells hspells _ _, hskip _,
      ?_, .inl ⟨_, hcomma' (space ++ '"' :: (body ++ '}' :: more)), ?_⟩⟩
    · rw [hskip']
      exact htakes fuel _ hends (by omega)
    · rw [hspace]
      exact hnext
  · obtain ⟨blanks, rfl, hblanks, hclose'⟩ := skipSpace_mark hclose
    refine ⟨spelled ++ (gap ++ ':' :: (gap' ++ (core ++ blanks))), by simp,
      takes_of_succ (by simp) fun fuel more hmore hfuel => ?_⟩
    simp only [List.length_append, List.length_cons] at hfuel
    have hends : EndsNumber (blanks ++ '}' :: more) :=
      endsNumber_append hblanks (endsNumber_cons (by decide))
    simp only [List.append_assoc, List.cons_append]
    refine readFields_eq_ok.mpr ⟨_, key, _, _, v, _, rfl, readChars_of_spells hspells _ _, hskip _,
      ?_, .inr ⟨hclose' _, rfl⟩⟩
    rw [hskip']
    exact htakes fuel _ hends (by omega)

theorem readsLocally_succ (hitems : ReadsItemsLocally fuel) (hfields : ReadsFieldsLocally fuel) :
    ReadsLocally (fuel + 1) := by
  intro cs v rest h
  cases readValue_eq_ok.mp h with
  | text hs =>
      obtain ⟨spelled, rfl, hspells⟩ := spells_of_readChars hs
      exact ⟨'"' :: spelled, by simp, rfl, by simp, takes_text hspells⟩
  | emptyList hclose =>
      obtain ⟨blanks, rfl, -, hskip⟩ := skipSpace_mark hclose
      exact ⟨'[' :: (blanks ++ [']']), by simp, by simp, by simp, takes_emptyList hskip⟩
  | list hopen hread =>
      obtain ⟨core, hne, hcore, htakes⟩ := hitems _ _ _ hread
      obtain ⟨blanks, rfl, hskip⟩ := skipSpace_local hcore hne
      refine ⟨'[' :: (blanks ++ core), by simp, by simp, by simp,
        takes_list hne hskip (fun tail htail => ?_) htakes⟩
      exact hopen (tail ++ rest) (by rw [hcore, htail, List.cons_append])
  | emptyObject hclose =>
      obtain ⟨blanks, rfl, -, hskip⟩ := skipSpace_mark hclose
      exact ⟨'{' :: (blanks ++ ['}']), by simp, by simp, fun _ _ => ⟨blanks, rfl⟩,
        takes_emptyObject hskip⟩
  | object hread =>
      obtain ⟨body, hbody, htakes⟩ := hfields _ _ _ _ hread
      obtain ⟨blanks, rfl, -, hskip⟩ := skipSpace_mark hbody
      refine ⟨'{' :: (blanks ++ '"' :: (body ++ ['}'])), by simp, by simp,
        fun _ _ => ⟨blanks ++ '"' :: body, by simp⟩, takes_object (fun more => ?_) htakes⟩
      exact hskip (body ++ ['}'] ++ more)
  | scalar hquote hlist hobject hscalar =>
      obtain ⟨core, hne, rfl, hread⟩ := readScalar_local hscalar
      obtain ⟨c, core, rfl⟩ := List.exists_cons_of_ne_nil hne
      refine ⟨c :: core, hne, rfl, fun fields h => absurd h (readScalar_ne_obj hscalar fields),
        takes_of_succ hne fun fuel more hmore _ => readValue_eq_ok.mpr
          (.scalar (fun _ heq => ?_) (fun _ heq => ?_) (fun _ heq => ?_) (hread more hmore))⟩
      · exact hquote _ (by rw [(List.cons.inj heq).1]; rfl)
      · exact hlist _ (by rw [(List.cons.inj heq).1]; rfl)
      · exact hobject _ (by rw [(List.cons.inj heq).1]; rfl)

end Step

theorem reads_locally (fuel : Nat) :
    ReadsLocally fuel ∧ ReadsItemsLocally fuel ∧ ReadsFieldsLocally fuel := by
  induction fuel with
  | zero =>
      simp [ReadsLocally, ReadsItemsLocally, ReadsFieldsLocally, readValue, readItems, readFields]
  | succ fuel ih =>
      obtain ⟨hvalue, hitems, hfields⟩ := ih
      exact ⟨readsLocally_succ hitems hfields, readsItemsLocally_succ hvalue hitems,
        readsFieldsLocally_succ hvalue hfields⟩

-- The text of an object is its braces and what stands between them, with space around.
theorem braced_of_readText {text : List Char} {fields : List (String × Json)}
    (h : readText text = .ok (.obj fields)) :
    ∃ front core back, text = front ++ (core ++ back) ∧ (∀ c ∈ front, isSpace c = true) ∧
      (∀ c ∈ back, isSpace c = true) ∧ IsBraced core ∧ Takes readValue core (.obj fields) := by
  obtain ⟨back, hvalue, hback⟩ := readText_eq_ok h
  obtain ⟨core, -, hcore, hbraced, htakes⟩ := (reads_locally _).1 _ _ _ hvalue
  refine ⟨text.takeWhile isSpace, core, back, ?_, List.all_eq_true.mp List.all_takeWhile, hback,
    hbraced fields rfl, htakes⟩
  rw [← hcore, skipSpace, List.takeWhile_append_dropWhile]

theorem readText_of_braced {core : List Char} {v : Json} (hcore : IsBraced core)
    (h : Takes readValue core v) : readText core = .ok v := by
  obtain ⟨body, rfl⟩ := hcore
  have hread := h (2 * ('{' :: (body ++ ['}'])).length + 2) [] endsNumber_nil (by omega)
  rw [List.append_nil] at hread
  rw [readText.eq_def]
  split
  · rename_i heq
    cases heq
  · rw [skipSpace_cons rfl, hread]
    rfl

-- What stops inside the braces of an object is no text.
theorem readText_cut {core back body more : List Char} {v : Json} (h : Takes readValue core v)
    (hback : ∀ c ∈ back, isSpace c = true) (hcut : core ++ back = '{' :: body ++ more)
    (hends : EndsNumber more) {c : Char} (hc : c ∈ more) (hspace : isSpace c = false) :
    ∃ stop, readText ('{' :: body) = .error stop := by
  cases hread : readText ('{' :: body) with
  | error stop => exact ⟨stop, rfl⟩
  | ok w =>
      obtain ⟨rest, hvalue, hrest⟩ := readText_eq_ok hread
      rw [skipSpace_cons rfl] at hvalue
      obtain ⟨core', -, hcore', -, htakes⟩ := (reads_locally _).1 _ _ _ hvalue
      rw [hcore', List.append_assoc] at hcut
      -- Of the same text the one value would leave what the other takes.
      have hfirst := h (2 * (core.length + core'.length)) back
        (by simpa using endsNumber_append hback endsNumber_nil) (by omega)
      have hsecond := htakes (2 * (core.length + core'.length)) (rest ++ more)
        (endsNumber_append hrest hends) (by omega)
      rw [hcut, hsecond] at hfirst
      have hleft : rest ++ more = back := congrArg Prod.snd (Except.ok.inj hfirst)
      have hmem := hback c (hleft ▸ List.mem_append_right _ hc)
      rw [hspace] at hmem
      cases hmem

end Listing.Json

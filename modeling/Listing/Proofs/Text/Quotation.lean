import Listing.Text.Quoted

namespace Listing.Text

-- Where a reader of double quotes stands. Some formats let a backslash in a quoted string take the
-- character after it along.
inductive Standing where
  | outside
  | inside
  | escaped
deriving DecidableEq, Repr

-- What a character is for the reader.
inductive Role where
  | outside
  | opening
  | inside
  | closing
deriving DecidableEq, Repr

namespace Standing

def next (escaping : Bool) : Standing → Char → Standing
  | .outside, c => if c = '"' then .inside else .outside
  | .inside, c =>
    if c = '"' then .outside else if escaping ∧ c = '\\' then .escaped else .inside
  | .escaped, _ => .inside

def role : Standing → Char → Role
  | .outside, c => if c = '"' then .opening else .outside
  | .inside, c => if c = '"' then .closing else .inside
  | .escaped, _ => .inside

end Standing

section Reading

variable (escaping : Bool)

def roles : Standing → List Char → List Role
  | _, [] => []
  | s, c :: cs => s.role c :: roles (s.next escaping c) cs

def standing : Standing → List Char → Standing
  | s, [] => s
  | s, c :: cs => standing (s.next escaping c) cs

theorem length_roles (s : Standing) (cs : List Char) : (roles escaping s cs).length = cs.length := by
  induction cs generalizing s with
  | nil => rfl
  | cons c cs ih => rw [roles, List.length_cons, ih, List.length_cons]

theorem roles_append (s : Standing) (xs ys : List Char) :
    roles escaping s (xs ++ ys) =
      roles escaping s xs ++ roles escaping (standing escaping s xs) ys := by
  induction xs generalizing s with
  | nil => rfl
  | cons x xs ih => rw [List.cons_append, roles, ih, roles, standing, List.cons_append]

theorem standing_append (s : Standing) (xs ys : List Char) :
    standing escaping s (xs ++ ys) = standing escaping (standing escaping s xs) ys := by
  induction xs generalizing s with
  | nil => rfl
  | cons x xs ih => exact ih _

-- What a reader sees of a text outside of quoted strings: all but what stands inside the quotes.
def outsideQuotes (cs : List Char) : List Char :=
  ((cs.zip (roles escaping .outside cs)).filter (·.2 ≠ .inside)).map (·.1)

-- A text between quotes that lets the reader go on to the quote behind it, and no further.
def Closes (cs : List Char) : Prop :=
  roles escaping .inside cs = cs.map (fun _ => .inside) ∧ standing escaping .inside cs = .inside

instance (cs : List Char) : Decidable (Closes escaping cs) := inferInstanceAs (Decidable (_ ∧ _))

end Reading

-- A piece of a written text: quoted, or not.
inductive Part where
  | plain (s : String)
  | quoted (s : String)
deriving DecidableEq, Repr

namespace Part

def text : Part → List Char
  | .plain s => s.toList
  | .quoted s => '"' :: (s.toList ++ ['"'])

-- What the writer means the characters to be.
def roles : Part → List Role
  | .plain s => s.toList.map fun _ => .outside
  | .quoted s => .opening :: (s.toList.map (fun _ => .inside) ++ [.closing])

-- The piece with nothing between its quotes.
def frame : Part → List Char
  | .plain s => s.toList
  | .quoted _ => ['"', '"']

theorem length_roles (p : Part) : p.roles.length = p.text.length := by
  cases p <;> simp [roles, text]

end Part

-- A written text reads as it was meant: every quoted string ends at its own closing quote.
def ReadsAs (escaping : Bool) (parts : List Part) : Prop :=
  roles escaping .outside (parts.flatMap Part.text) = parts.flatMap Part.roles

instance (escaping : Bool) (parts : List Part) : Decidable (ReadsAs escaping parts) :=
  inferInstanceAs (Decidable (_ = _))

section Parts

variable {escaping : Bool}

theorem roles_plain {cs : List Char} (h : '"' ∉ cs) :
    roles escaping .outside cs = cs.map (fun _ => .outside) ∧
      standing escaping .outside cs = .outside := by
  induction cs with
  | nil => exact ⟨rfl, rfl⟩
  | cons c cs ih =>
      have hc : c ≠ '"' := fun hq => h (hq ▸ List.mem_cons_self)
      have hstep : Standing.next escaping .outside c = .outside := if_neg hc
      obtain ⟨hroles, hstanding⟩ := ih fun hq => h (List.mem_cons_of_mem _ hq)
      constructor
      · rw [roles, hstep, hroles, Standing.role, if_neg hc, List.map_cons]
      · rw [standing, hstep, hstanding]

-- A quoted string is read as meant if and only if what it holds lets it close, and then the reader
-- is outside again.
theorem roles_quoted {s : String} :
    roles escaping .outside (Part.quoted s).text = (Part.quoted s).roles ↔
      Closes escaping s.toList := by
  have hread : roles escaping .outside (Part.quoted s).text = .opening ::
      (roles escaping .inside s.toList ++ [(standing escaping .inside s.toList).role '"']) := by
    rw [Part.text, roles, roles_append]
    rfl
  have hclosing (t : Standing) : t.role '"' = .closing ↔ t = .inside := by
    cases t <;> decide
  have hlength : (roles escaping .inside s.toList).length =
      (s.toList.map fun _ => Role.inside).length := by
    rw [length_roles, List.length_map]
  rw [hread, Part.roles, Closes, List.cons_inj_right, ← hclosing]
  constructor
  · intro h
    obtain ⟨hroles, hlast⟩ := List.append_inj h hlength
    exact ⟨hroles, (List.cons.inj hlast).1⟩
  · rintro ⟨hroles, hlast⟩
    rw [hroles, hlast]

theorem standing_quoted {s : String} (h : Closes escaping s.toList) :
    standing escaping .outside (Part.quoted s).text = .outside := by
  have hopen : standing escaping .outside (Part.quoted s).text =
      standing escaping .inside (s.toList ++ ['"']) := rfl
  rw [hopen, standing_append, h.2]
  rfl

theorem readsAs_cons {p : Part} {parts : List Part} :
    ReadsAs escaping (p :: parts) ↔
      roles escaping .outside p.text = p.roles ∧
        roles escaping (standing escaping .outside p.text) (parts.flatMap Part.text) =
          parts.flatMap Part.roles := by
  have hlength : (roles escaping .outside p.text).length = p.roles.length := by
    rw [length_roles, p.length_roles]
  rw [ReadsAs, List.flatMap_cons, List.flatMap_cons, roles_append]
  constructor
  · exact fun h => List.append_inj h hlength
  · rintro ⟨hfirst, hrest⟩
    rw [hfirst, hrest]

-- A text with no quotes but those around its quoted strings reads as it was meant if and only if
-- each of these lets its closing quote close it.
theorem readsAs_iff {parts : List Part} (hplain : ∀ s, .plain s ∈ parts → '"' ∉ s.toList) :
    ReadsAs escaping parts ↔ ∀ s, .quoted s ∈ parts → Closes escaping s.toList := by
  induction parts with
  | nil => simp [ReadsAs, roles]
  | cons p parts ih =>
      have hrest := ih fun s hs => hplain s (List.mem_cons_of_mem _ hs)
      rw [readsAs_cons]
      cases p with
      | plain s =>
          obtain ⟨hroles, hstanding⟩ :
              roles escaping .outside (Part.plain s).text = (Part.plain s).roles ∧
                standing escaping .outside (Part.plain s).text = .outside :=
            roles_plain (hplain s List.mem_cons_self)
          rw [hstanding, ← ReadsAs, hrest]
          simp [hroles]
      | quoted s =>
          rw [roles_quoted]
          constructor
          · rintro ⟨hcloses, hmore⟩ t ht
            rw [standing_quoted hcloses, ← ReadsAs, hrest] at hmore
            rcases List.mem_cons.mp ht with heq | ht
            · rw [Part.quoted.inj heq]
              exact hcloses
            · exact hmore t ht
          · intro h
            have hcloses := h s List.mem_cons_self
            refine ⟨hcloses, ?_⟩
            rw [standing_quoted hcloses, ← ReadsAs, hrest]
            exact fun t ht => h t (List.mem_cons_of_mem _ ht)

theorem zip_map_const (cs : List Char) (r : Role) :
    cs.zip (cs.map fun _ => r) = cs.map fun c => (c, r) := by
  induction cs with
  | nil => rfl
  | cons c cs ih => rw [List.map_cons, List.zip_cons_cons, ih, List.map_cons]

theorem frame_eq (p : Part) :
    ((p.text.zip p.roles).filter (·.2 ≠ .inside)).map (·.1) = p.frame := by
  cases p with
  | plain s =>
      rw [Part.text, Part.roles, Part.frame, zip_map_const]
      simp [List.filter_map, Function.comp_def]
  | quoted s =>
      have hlength : s.toList.length = (s.toList.map fun _ => Role.inside).length := by
        rw [List.length_map]
      rw [Part.text, Part.roles, Part.frame, List.zip_cons_cons, List.zip_append hlength,
        zip_map_const]
      simp [List.filter_map, Function.comp_def]

-- What is read as it was meant shows the pieces outside of quotes, and nothing of what is quoted.
theorem outsideQuotes_of_readsAs {parts : List Part} (h : ReadsAs escaping parts) :
    outsideQuotes escaping (parts.flatMap Part.text) = parts.flatMap Part.frame := by
  rw [outsideQuotes, h]
  clear h
  induction parts with
  | nil => rfl
  | cons p parts ih =>
      have hlength : p.text.length = p.roles.length := p.length_roles.symm
      rw [List.flatMap_cons, List.flatMap_cons, List.zip_append hlength, List.filter_append,
        List.map_append, ih, List.flatMap_cons]
      congr 1
      exact frame_eq p

end Parts

section Closing

variable {escaping : Bool} {c : Char} {xs ys : List Char}

theorem closes_nil : Closes escaping [] := ⟨rfl, rfl⟩

theorem closes_append (hx : Closes escaping xs) (hy : Closes escaping ys) :
    Closes escaping (xs ++ ys) := by
  constructor
  · rw [roles_append, hx.1, hx.2, hy.1, List.map_append]
  · rw [standing_append, hx.2, hy.2]

theorem not_closes_quote : ¬Closes escaping ('"' :: xs) := by
  intro h
  cases (List.cons.inj h.1).1

theorem closes_cons (hquote : c ≠ '"') (hescape : ¬(escaping ∧ c = '\\')) :
    Closes escaping (c :: xs) ↔ Closes escaping xs := by
  have hstep : Standing.next escaping .inside c = .inside := by
    rw [Standing.next, if_neg hquote, if_neg hescape]
  have hrole : Standing.role .inside c = .inside := if_neg hquote
  unfold Closes
  rw [roles, standing, hstep, hrole, List.map_cons, List.cons_inj_right]

-- A backslash takes any character along, a quote as well.
theorem closes_pair : Closes true ('\\' :: c :: xs) ↔ Closes true xs := by
  have hroles : roles true .inside ('\\' :: c :: xs) =
      .inside :: .inside :: roles true .inside xs := rfl
  have hstanding : standing true .inside ('\\' :: c :: xs) = standing true .inside xs := rfl
  unfold Closes
  rw [hroles, hstanding, List.map_cons, List.map_cons, List.cons_inj_right, List.cons_inj_right]

-- Between quotes that nothing escapes, no text may hold a quote.
theorem closes_unescaped : Closes false xs ↔ '"' ∉ xs := by
  induction xs with
  | nil => simp [closes_nil]
  | cons c xs ih =>
      by_cases hquote : c = '"'
      · subst hquote
        simp [not_closes_quote]
      · rw [closes_cons hquote (by simp), ih, List.mem_cons, not_or]
        exact ⟨fun h => ⟨Ne.symm hquote, h⟩, And.right⟩

theorem closes_of_plain (h : ∀ c ∈ xs, c ≠ '"' ∧ c ≠ '\\') : Closes escaping xs := by
  induction xs with
  | nil => exact closes_nil
  | cons c xs ih =>
      obtain ⟨⟨hquote, hslash⟩, hrest⟩ := List.forall_mem_cons.mp h
      exact (closes_cons hquote fun hc => hslash hc.2).mpr (ih hrest)

theorem closes_escape (cs : List Char) : Closes true (escape cs) := by
  induction cs with
  | nil => exact closes_nil
  | cons c cs ih =>
      rw [escape_cons]
      refine closes_append ?_ ih
      by_cases hc : c = '\\' ∨ c = '"'
      · rw [escapeChar, if_pos hc]
        exact closes_pair.mpr closes_nil
      · rw [escapeChar, if_neg hc]
        obtain ⟨hslash, hquote⟩ := not_or.mp hc
        exact (closes_cons hquote fun h => hslash h.2).mpr closes_nil

end Closing

end Listing.Text

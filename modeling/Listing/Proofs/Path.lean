import Listing.Path
import Listing.Proofs.Lists
import Listing.Proofs.Text.Parts

namespace Listing.Path

-- What stands between the slashes of a path in normal form.
def IsPart (part : String) : Prop := part ≠ "" ∧ part ≠ "." ∧ '/' ∉ part.toList

structure IsNormal (p : Path) : Prop where
  root : p.root = "" ∨ p.root = "/" ∨ p.root = "//"
  parts : ∀ part ∈ p.parts, IsPart part

section Normal

variable {p : Path} {name : String}

theorem rootOf_cases (cs : List Char) : rootOf cs = "" ∨ rootOf cs = "/" ∨ rootOf cs = "//" := by
  unfold rootOf
  split <;> simp

theorem isNormal_ofString (s : String) : (ofString s).IsNormal := by
  refine ⟨rootOf_cases _, fun part hpart => ?_⟩
  obtain ⟨hmem, hkept⟩ := List.mem_filter.mp hpart
  obtain ⟨cs, hcs, rfl⟩ := List.mem_map.mp hmem
  have hslash := Text.notMem_of_mem_splitAtMark hcs
  simp only [ne_eq, Bool.and_eq_true, decide_eq_true_eq] at hkept
  exact ⟨hkept.1, hkept.2, by rwa [String.toList_ofList]⟩

theorem IsNormal.concat (h : p.IsNormal) (hname : IsPart name) :
    IsNormal { p with parts := p.parts ++ [name] } :=
  ⟨h.root, List.forall_mem_append.mpr ⟨h.parts, by simpa using hname⟩⟩

-- A name without a slash is one more component, unless it is the name of no place of its own.
theorem append_ofString (p : Path) (h : '/' ∉ name.toList) :
    p.append (.ofString name) =
      if name = "" ∨ name = "." then p else { p with parts := p.parts ++ [name] } := by
  have hroot : rootOf name.toList = "" := by
    unfold rootOf
    split <;> simp_all
  simp only [append, ofString, isAbsolute, hroot, Text.splitAtMark_of_notMem h, List.map_cons,
    List.map_nil, String.ofList_toList]
  by_cases hname : name = "" ∨ name = "."
  · rcases hname with rfl | rfl <;> simp
  · obtain ⟨hempty, hdot⟩ := not_or.mp hname
    simp [hempty, hdot]

theorem IsNormal.append (hp : p.IsNormal) (h : '/' ∉ name.toList) :
    (p.append (.ofString name)).IsNormal := by
  rw [append_ofString p h]
  split
  · exact hp
  · rename_i hname
    obtain ⟨hempty, hdot⟩ := not_or.mp hname
    exact hp.concat ⟨hempty, hdot, h⟩

end Normal

section Stem

theorem mem_of_mem_stemOf {name : List Char} {c : Char} (h : c ∈ stemOf name) : c ∈ name := by
  unfold stemOf at h
  split at h
  · rename_i first rest heq
    rw [List.span_eq_takeWhile_dropWhile] at heq
    have hsuffix : '.' :: first :: rest <:+ name.reverse :=
      (Prod.mk.inj heq).2 ▸ List.dropWhile_suffix _
    exact List.mem_reverse.mp (hsuffix.subset (List.mem_cons_of_mem _ (List.mem_reverse.mp h)))
  · exact h

theorem notMem_stem (s : String) : '/' ∉ (ofString s).stem.toList := by
  rw [stem, String.toList_ofList]
  intro h
  have hname := mem_of_mem_stemOf h
  rw [name] at hname
  cases hlast : (ofString s).parts.getLast? with
  | none => simp [hlast] at hname
  | some part =>
      rw [hlast] at hname
      exact ((isNormal_ofString s).parts part (List.mem_of_getLast? hlast)).2.2 hname

end Stem

section Cuts

variable {p : Path}

-- The text of a path cut at its slashes.
def cuts (p : Path) : List String := (Text.splitAtMark '/' p.toString.toList).map String.ofList

-- Components that are put together with slashes are cut apart again. Where there are none, the
-- empty text is one.
theorem cuts_parts {parts : List String} (h : ∀ part ∈ parts, IsPart part) :
    (Text.splitAtMark '/' (['/'].intercalate (parts.map String.toList))).map String.ofList =
      if parts = [] then [""] else parts := by
  split
  · rename_i hnil
    rw [hnil]
    rfl
  · rename_i hne
    have hslash : ∀ cs ∈ parts.map String.toList, '/' ∉ cs := by
      intro cs hcs
      obtain ⟨part, hpart, rfl⟩ := List.mem_map.mp hcs
      exact (h part hpart).2.2
    rw [Text.splitAtMark_intercalate hslash (by simpa using hne)]
    simp [Function.comp_def]

-- They are its components, behind some that stand for no step.
theorem cuts_of_isNormal (h : p.IsNormal) :
    ∃ idle, (∀ part ∈ idle, part = "" ∨ part = ".") ∧ p.cuts = idle ++ p.parts := by
  obtain ⟨root, parts⟩ := p
  have hparts := cuts_parts h.parts
  rcases h.root with hroot | hroot | hroot
  all_goals
    dsimp only at hroot hparts
    subst hroot
    by_cases hnil : parts = []
  · subst hnil
    exact ⟨["."], by simp, rfl⟩
  · rw [if_neg hnil] at hparts
    exact ⟨[], by simp, by simp [cuts, toString, hnil, hparts]⟩
  · subst hnil
    exact ⟨["", ""], by simp, rfl⟩
  · rw [if_neg hnil] at hparts
    exact ⟨[""], by simp, by simp [cuts, toString, Text.splitAtMark_cons_self, hparts]⟩
  · subst hnil
    exact ⟨["", "", ""], by simp, rfl⟩
  · rw [if_neg hnil] at hparts
    exact ⟨["", ""], by simp, by simp [cuts, toString, Text.splitAtMark_cons_self, hparts]⟩

theorem head?_toString (h : p.IsNormal) : p.toString.toList.head? = some '/' ↔ p.root ≠ "" := by
  obtain ⟨root, parts⟩ := p
  rcases h.root with hroot | hroot | hroot
  all_goals
    dsimp only at hroot
    subst hroot
  · cases parts with
    | nil => simp [toString]
    | cons part rest =>
        obtain ⟨⟨hempty, -, hslash⟩, -⟩ := List.forall_mem_cons.mp h.parts
        obtain ⟨c, cs, hpart⟩ : ∃ c cs, part.toList = c :: cs :=
          List.exists_cons_of_ne_nil (by simpa using hempty)
        have hc : c ≠ '/' := fun heq => hslash (by simp [hpart, heq])
        cases rest <;> simp [toString, hpart, hc]
  · simp [toString]
  · simp [toString]

end Cuts

end Listing.Path

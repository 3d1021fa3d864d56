import Listing.Machine.Table
import Listing.Proofs.Recorder.Attachment

namespace Listing.Machine

theorem namesTexts_numberFrom {names : List Json} (h : ∀ n ∈ names, ∃ text, n = .str text)
    (first : Int) : ∀ entry ∈ numberFrom first names, ∃ text, entry.2 = .str text := by
  induction names generalizing first with
  | nil => simp [numberFrom]
  | cons n names ih =>
      obtain ⟨hn, hrest⟩ := List.forall_mem_cons.mp h
      exact List.forall_mem_cons.mpr ⟨hn, ih hrest (first + 1)⟩

theorem namesTexts_ofNames (name : String) {names : List Json}
    (h : ∀ n ∈ names, ∃ text, n = .str text) : (ofNames name names).NamesTexts :=
  fun entry he => .inr (namesTexts_numberFrom h 0 entry he)

theorem texts_numbered (stem : String) (count : Nat) :
    ∀ n ∈ numbered stem count, ∃ text, n = .str text := by
  intro n hn
  obtain ⟨i, -, rfl⟩ := List.mem_map.mp hn
  exact ⟨_, rfl⟩

theorem namesTexts_aarch64 : aarch64.NamesTexts := by
  refine namesTexts_ofNames _ ?_
  simp only [List.forall_mem_append]
  exact ⟨⟨⟨texts_numbered _ _, by simp⟩, texts_numbered _ _⟩, by simp⟩

theorem namesTexts_riscv : riscv.NamesTexts := by
  refine namesTexts_ofNames _ fun n hn => ?_
  obtain ⟨text, -, rfl⟩ := List.mem_map.mp hn
  exact ⟨text, rfl⟩

-- Machines that are built in name their registers by texts.
theorem namesTexts_of_builtin? {name : String} {m : Machine} (h : builtin? name = some m) :
    m.NamesTexts := by
  have hall : ∀ entry ∈ builtins, entry.2.NamesTexts := by
    simp only [builtins, List.forall_mem_cons, List.not_mem_nil, false_imp_iff, implies_true,
      and_true]
    exact ⟨namesTexts_aarch64, by simp [NamesTexts, generic], namesTexts_riscv⟩
  obtain ⟨before, after, hcut, -⟩ := List.lookup_eq_some_iff.mp h
  rw [hcut] at hall
  exact hall _ (List.mem_append_right before List.mem_cons_self)

theorem namesTexts_of_named {name : Option String} {m : Machine} (h : named name = .ok m) :
    m.NamesTexts := by
  cases name with
  | none => cases h
  | some name =>
      simp only [named, builtin] at h
      split at h
      · rename_i hbuiltin
        cases h
        exact namesTexts_of_builtin? hbuiltin
      · cases h

end Listing.Machine

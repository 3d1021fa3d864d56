import Listing.Proofs.Recorder.Acceptance
import Listing.Proofs.Stream.Reload

namespace Listing

namespace Instruction

variable {i : Instruction}

theorem IsText.columns (h : i.IsText) (offset : Int) : ∃ lines, i.columns offset = .ok lines := by
  obtain ⟨opcode, hopcode⟩ := h.opcode
  obtain ⟨n, hline⟩ := h.line
  obtain ⟨texts, htexts⟩ := mapM_isOk.mpr h.operands
  rw [Instruction.columns, hline, htexts, hopcode]
  exact ⟨_, rfl⟩

theorem IsText.toJson (h : i.IsText) (offset : Int) : ∃ tree, i.toJson offset = .ok tree := by
  obtain ⟨n, hline⟩ := h.line
  rw [Instruction.toJson, hline]
  exact ⟨_, rfl⟩

end Instruction

namespace Stream

variable {s : Stream}

-- A stream of texts has a listing.
theorem listing_isOk (h : ∀ i ∈ s.instructions, i.IsText) (offset : Int) :
    ∃ text, s.listing offset = .ok text := by
  obtain ⟨lines, hlines⟩ := mapM_isOk.mpr fun i hi => (h i hi).columns offset
  rw [listing, hlines]
  exact ⟨_, rfl⟩

theorem toJson_isOk (h : ∀ i ∈ s.instructions, i.IsText) (offset : Int) :
    ∃ tree, s.toJson offset = .ok tree := by
  obtain ⟨trees, htrees⟩ := mapM_isOk.mpr fun i hi => (h i hi).toJson offset
  rw [toJson, htrees]
  exact ⟨_, rfl⟩

end Stream
end Listing

import Listing.Proofs.Instruction
import Listing.Proofs.Json.Conversion
import Listing.Stream

namespace Listing

namespace Operand

-- A value that is refused as an operand for a reason that is no flaw: it is no object, or an
-- infinite number stands where an integer should.
def Escapes (m : Misfit) (v : Json) : Prop :=
  m = .noOperation ∧ (∀ fields, v ≠ .obj fields) ∨
    m = .infinityToInteger ∧ ∃ fields x, v = .obj fields ∧
      Json.lookup "type" fields = some (.str "integer") ∧ Json.lookup "value" fields = some x ∧
        x.IsInfinite

section Escapes

variable {m : Misfit}

theorem Escapes.misfit {v : Json} (h : Escapes m v) : m = .noOperation ∨ m = .infinityToInteger :=
  h.imp And.left And.left

theorem ofJson_obj_eq_error (hm : ¬m.IsFlaw) {fields : List (String × Json)} :
    ofJson (.obj fields) = .error m ↔
      m = .infinityToInteger ∧ Json.lookup "type" fields = some (.str "integer") ∧
        ∃ x, Json.lookup "value" fields = some x ∧ x.IsInfinite := by
  have hunknown : ∀ type, m ≠ .unknownOperandType type := by
    rintro type rfl
    exact hm (.inr (.inr rfl))
  simp only [ofJson, Json.get_obj, ok_bind, Json.getD_eq_str_iff]
  split
  · rename_i hregister
    simp [pure, Except.pure, hregister]
  · split
    · rename_i hinteger
      simp [map_eq_error, Json.toInt_eq_error hm, Json.isInfinite_getD Json.not_isInfinite_null,
        hinteger]
    · rename_i hinteger
      split
      · simp [pure, Except.pure, hinteger]
      · simp [hinteger, Ne.symm (hunknown _)]

theorem ofJson_eq_error (hm : ¬m.IsFlaw) {v : Json} : ofJson v = .error m ↔ Escapes m v := by
  cases v with
  | obj fields =>
      rw [ofJson_obj_eq_error hm]
      simp [Escapes]
  | _ =>
      change Except.error Misfit.noOperation = .error m ↔ _
      simp [Escapes, eq_comm]

end Escapes

end Operand

namespace Instruction

-- What is read of an instruction before its operands, and the values that are to be those.
structure Opens (fields : List (String × Json)) (items : List Json) : Prop where
  opcode : ∃ v, Json.lookup "opcode" fields = some v
  labels : ∃ names, ((Json.lookup "labels" fields).getD (.arr [])).elements = .ok names
  operands : ((Json.lookup "operands" fields).getD (.arr [])).elements = .ok items

-- A value that is refused as an instruction for a reason that is no flaw: after operands that are
-- accepted comes one that is so refused, or with all of them accepted its line is an infinite
-- number, or its line is accepted and its column is one.
def Escapes (m : Misfit) (v : Json) : Prop :=
  ∃ fields items, v = .obj fields ∧ Opens fields items ∧
    ((∃ before o after, items = before ++ o :: after ∧
        (∀ p ∈ before, ∃ r, Operand.ofJson p = .ok r) ∧ Operand.Escapes m o) ∨
      m = .infinityToInteger ∧ (∀ p ∈ items, ∃ r, Operand.ofJson p = .ok r) ∧
        ((∃ x, Json.lookup "line" fields = some x ∧ x.IsInfinite) ∨
          (∃ n, ((Json.lookup "line" fields).getD (.int 0)).toInt = .ok n) ∧
            ∃ x, Json.lookup "column" fields = some x ∧ x.IsInfinite))

section Escapes

variable {m : Misfit}

theorem Escapes.misfit {v : Json} (h : Escapes m v) :
    m = .noOperation ∨ m = .infinityToInteger := by
  obtain ⟨fields, items, rfl, -, ⟨before, o, after, -, -, ho⟩ | ⟨hm, -⟩⟩ := h
  · exact ho.misfit
  · exact .inr hm

theorem ofJson_eq_error (hm : ¬m.IsFlaw) {offset : Int} {v : Json} :
    ofJson offset v = .error m ↔ Escapes m v := by
  cases v with
  | obj fields =>
      simp only [ofJson, readHead, Json.get_obj, ok_bind, bind_assoc, pure_bind,
        (Json.item_failsOnly _ _).bind_eq_error hm, (Json.elements_failsOnly _).bind_eq_error hm,
        Json.item_obj_eq_ok, bind_eq_error, mapM_eq_error, pure_ne_error, and_false, exists_const,
        or_false, exists_and_right, mapM_isOk, Json.toInt_eq_error hm, Operand.ofJson_eq_error hm,
        Json.isInfinite_getD (Json.not_isInfinite_int _), Escapes, Json.obj.injEq]
      constructor
      · rintro ⟨hopcode, hlabels, items, hitems, hrefused⟩
        exact ⟨fields, items, rfl, ⟨hopcode, hlabels, hitems⟩, by grind⟩
      · rintro ⟨_, items, rfl, ⟨hopcode, hlabels, hitems⟩, hrefused⟩
        exact ⟨hopcode, hlabels, items, hitems, by grind⟩
  | _ =>
      constructor
      · intro h
        exact absurd (Except.error.inj h ▸ .inr (.inl rfl)) hm
      · rintro ⟨fields, items, heq, -⟩
        cases heq

end Escapes

end Instruction

namespace Stream

-- A value that holds instructions of which the first that is refused is refused for a reason that
-- is no flaw.
def Escapes (offset : Int) (m : Misfit) (v : Json) : Prop :=
  ∃ items, v.elements = .ok items ∧ ∃ before i after, items = before ++ i :: after ∧
    (∀ p ∈ before, ∃ x, Instruction.ofJson offset p = .ok x) ∧ Instruction.Escapes m i

section Escapes

variable {m : Misfit} {offset : Int}

theorem Escapes.misfit {v : Json} (h : Escapes offset m v) :
    m = .noOperation ∨ m = .infinityToInteger := by
  obtain ⟨items, -, before, i, after, -, -, hi⟩ := h
  exact hi.misfit

theorem Escapes.not_isFlaw {v : Json} (h : Escapes offset m v) : ¬m.IsFlaw := by
  rcases h.misfit with rfl | rfl
  · decide
  · decide

theorem ofJson_eq_error (hm : ¬m.IsFlaw) {fields : List (String × Json)} :
    ofJson offset (.obj fields) = .error m ↔
      Escapes offset m ((Json.lookup "instructions" fields).getD (.arr [])) := by
  simp only [ofJson, Json.get_obj, ok_bind,
    (Json.elements_failsOnly _).bind_eq_error hm, bind_eq_error, mapM_eq_error, pure_ne_error,
    and_false, exists_const, or_false, Instruction.ofJson_eq_error hm, Escapes]

end Escapes

end Stream

end Listing

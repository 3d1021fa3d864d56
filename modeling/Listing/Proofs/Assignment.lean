import Listing.Proofs.Lists

namespace Listing

variable {κ β : Type} [DecidableEq κ]

-- A key is given a value at its place in a table. A key that is new to it goes to the end.
def assignKey (key : κ) (value : β) : List (κ × β) → List (κ × β)
  | [] => [(key, value)]
  | (k, v) :: rest => if k = key then (key, value) :: rest else (k, v) :: assignKey key value rest

-- The table that assignments make, one after another.
def assigned (pairs : List (κ × β)) : List (κ × β) :=
  pairs.foldl (fun table p => assignKey p.1 p.2 table) []

section Assign

variable {key : κ} {value : β} {table : List (κ × β)}

theorem keys_assignKey (key : κ) (value : β) (table : List (κ × β)) :
    (assignKey key value table).map (·.1) =
      if key ∈ table.map (·.1) then table.map (·.1) else table.map (·.1) ++ [key] := by
  induction table with
  | nil => rfl
  | cons p rest ih =>
      obtain ⟨k, v⟩ := p
      rw [assignKey]
      by_cases hk : k = key
      · simp [hk]
      · rw [if_neg hk, List.map_cons, ih]
        by_cases hmem : key ∈ rest.map (·.1)
        · simp [hmem]
        · simp [hmem, Ne.symm hk]

theorem mem_assignKey (hnodup : (table.map (·.1)).Nodup) {p : κ × β} :
    p ∈ assignKey key value table ↔ p = (key, value) ∨ p ∈ table ∧ p.1 ≠ key := by
  induction table with
  | nil => simp [assignKey]
  | cons q rest ih =>
      obtain ⟨k, v⟩ := q
      rw [List.map_cons, List.nodup_cons] at hnodup
      rw [assignKey]
      by_cases hk : k = key
      · subst hk
        have hrest : p ∈ rest → p.1 ≠ k := fun hp heq =>
          hnodup.1 (List.mem_map.mpr ⟨p, hp, heq⟩)
        rw [if_pos rfl, List.mem_cons, List.mem_cons]
        grind
      · rw [if_neg hk, List.mem_cons, ih hnodup.2, List.mem_cons]
        grind

end Assign

section Assigned

variable {pairs : List (κ × β)}

theorem assigned_concat (pairs : List (κ × β)) (p : κ × β) :
    assigned (pairs ++ [p]) = assignKey p.1 p.2 (assigned pairs) := by
  rw [assigned, List.foldl_append]
  rfl

-- A key stands where it was first assigned.
theorem keys_assigned (pairs : List (κ × β)) :
    (assigned pairs).map (·.1) = (pairs.map (·.1)).eraseDups := by
  induction pairs using List.reverseRecOn with
  | nil => rfl
  | append_singleton pairs p ih =>
      rw [assigned_concat, keys_assignKey, ih, List.map_append, List.map_singleton]
      by_cases hp : p.1 ∈ pairs.map (·.1)
      · rw [if_pos (List.mem_eraseDups.mpr hp), eraseDups_concat_of_mem hp]
      · rw [if_neg (mt List.mem_eraseDups.mp hp), eraseDups_concat_of_notMem hp]

theorem nodup_assigned (pairs : List (κ × β)) : ((assigned pairs).map (·.1)).Nodup := by
  rw [keys_assigned]
  exact nodup_eraseDups _

-- It has the value that was assigned to it last.
theorem mem_assigned {p : κ × β} :
    p ∈ assigned pairs ↔ ∃ before after, pairs = before ++ p :: after ∧ p.1 ∉ after.map (·.1) := by
  induction pairs using List.reverseRecOn with
  | nil => simp [assigned]
  | append_singleton pairs q ih =>
      rw [assigned_concat, mem_assignKey (nodup_assigned pairs), ih]
      constructor
      · rintro (rfl | ⟨⟨before, after, rfl, hafter⟩, hne⟩)
        · exact ⟨pairs, [], rfl, by simp⟩
        · exact ⟨before, after ++ [q], by simp, by simp_all [eq_comm]⟩
      · rintro ⟨before, after, hcut, hafter⟩
        rcases concat_eq_append_cons hcut with ⟨-, rfl⟩ | ⟨rest, rfl, rfl⟩
        · exact .inl rfl
        · rw [List.map_append, List.mem_append, not_or] at hafter
          exact .inr ⟨⟨before, rest, rfl, hafter.1⟩, fun hq => hafter.2 (by simp [hq])⟩

-- A key that stands once is found with its value.
theorem find?_of_mem {key : κ} {value : β} {table : List (κ × β)}
    (hnodup : (table.map (·.1)).Nodup) (h : (key, value) ∈ table) :
    table.find? (·.1 = key) = some (key, value) := by
  induction table with
  | nil => cases h
  | cons p rest ih =>
      rw [List.map_cons, List.nodup_cons] at hnodup
      rcases List.mem_cons.mp h with rfl | hrest
      · simp
      · have hp : p.1 ≠ key := fun hp => hnodup.1 (List.mem_map.mpr ⟨_, hrest, hp.symm⟩)
        rw [List.find?_cons_of_neg (by simpa using hp), ih hnodup.2 hrest]

end Assigned

end Listing

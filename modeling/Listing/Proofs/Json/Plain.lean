import Listing.Json.Kind

namespace Listing.Json

mutual

-- Whether a test holds of a value and of every value in it.
def everywhere (p : Json → Bool) : Json → Bool
  | .arr items => p (.arr items) && everywhereItems p items
  | .obj fields => p (.obj fields) && everywhereFields p fields
  | v => p v

def everywhereItems (p : Json → Bool) : List Json → Bool
  | [] => true
  | v :: vs => everywhere p v && everywhereItems p vs

def everywhereFields (p : Json → Bool) : List (String × Json) → Bool
  | [] => true
  | (_, v) :: fs => everywhere p v && everywhereFields p fs

end

theorem everywhereItems_eq_true {p : Json → Bool} {vs : List Json} :
    everywhereItems p vs = true ↔ ∀ v ∈ vs, everywhere p v = true := by
  induction vs with
  | nil => simp [everywhereItems]
  | cons v vs ih => simp [everywhereItems, ih]

theorem everywhereFields_eq_true {p : Json → Bool} {fs : List (String × Json)} :
    everywhereFields p fs = true ↔ ∀ f ∈ fs, everywhere p f.2 = true := by
  induction fs with
  | nil => simp [everywhereFields]
  | cons f fs ih => simp [everywhereFields, ih]

-- No number in the value is a double.
def isFloatFree (v : Json) : Bool := v.everywhere (·.kind ≠ .float)

-- No object in the value has two fields of one key.
def hasDistinctKeys (v : Json) : Bool :=
  v.everywhere fun
    | .obj fields => (fields.map (·.1)).Nodup
    | _ => true

-- What text keeps of a value, it keeps of plain values whole.
def IsPlain (v : Json) : Prop := v.isFloatFree = true ∧ v.hasDistinctKeys = true

@[simp] theorem isFloatFree_arr {vs : List Json} :
    (arr vs).isFloatFree = true ↔ ∀ v ∈ vs, v.isFloatFree = true := by
  simp [isFloatFree, everywhere, kind, everywhereItems_eq_true]

@[simp] theorem isFloatFree_obj {fs : List (String × Json)} :
    (obj fs).isFloatFree = true ↔ ∀ f ∈ fs, f.2.isFloatFree = true := by
  simp [isFloatFree, everywhere, kind, everywhereFields_eq_true]

@[simp] theorem hasDistinctKeys_arr {vs : List Json} :
    (arr vs).hasDistinctKeys = true ↔ ∀ v ∈ vs, v.hasDistinctKeys = true := by
  simp [hasDistinctKeys, everywhere, everywhereItems_eq_true]

@[simp] theorem hasDistinctKeys_obj {fs : List (String × Json)} :
    (obj fs).hasDistinctKeys = true ↔
      (fs.map (·.1)).Nodup ∧ ∀ f ∈ fs, f.2.hasDistinctKeys = true := by
  simp [hasDistinctKeys, everywhere, everywhereFields_eq_true]

@[simp] theorem isPlain_arr {vs : List Json} : (arr vs).IsPlain ↔ ∀ v ∈ vs, v.IsPlain := by
  simp only [IsPlain, isFloatFree_arr, hasDistinctKeys_arr]
  exact ⟨fun h v hv => ⟨h.1 v hv, h.2 v hv⟩,
    fun h => ⟨fun v hv => (h v hv).1, fun v hv => (h v hv).2⟩⟩

@[simp] theorem isPlain_obj {fs : List (String × Json)} :
    (obj fs).IsPlain ↔ (fs.map (·.1)).Nodup ∧ ∀ f ∈ fs, f.2.IsPlain := by
  simp only [IsPlain, isFloatFree_obj, hasDistinctKeys_obj]
  exact ⟨fun h => ⟨h.2.1, fun f hf => ⟨h.1 f hf, h.2.2 f hf⟩⟩,
    fun h => ⟨fun f hf => (h.2 f hf).1, h.1, fun f hf => (h.2 f hf).2⟩⟩

@[simp] theorem hasDistinctKeys_int (n : Int) : (int n).hasDistinctKeys = true := rfl

@[simp] theorem hasDistinctKeys_str (s : String) : (str s).hasDistinctKeys = true := rfl

@[simp] theorem isPlain_null : (null).IsPlain := ⟨rfl, rfl⟩

@[simp] theorem isPlain_bool (b : Bool) : (bool b).IsPlain := ⟨rfl, rfl⟩

@[simp] theorem isPlain_int (n : Int) : (int n).IsPlain := ⟨rfl, rfl⟩

@[simp] theorem isPlain_str (s : String) : (str s).IsPlain := ⟨rfl, rfl⟩

theorem not_isPlain_float (x : Binary64) : ¬(float x).IsPlain := fun h => by cases h.1

-- A value is a leaf, or a list or an object of smaller values.
@[elab_as_elim]
theorem tree_induction {P : Json → Prop} (null : P .null) (bool : ∀ b, P (.bool b))
    (int : ∀ n, P (.int n)) (float : ∀ x, P (.float x)) (str : ∀ s, P (.str s))
    (arr : ∀ items, (∀ v ∈ items, P v) → P (.arr items))
    (obj : ∀ fields, (∀ f ∈ fields, P f.2) → P (.obj fields)) (v : Json) : P v :=
  @Json.rec P (fun items => ∀ v ∈ items, P v) (fun fields => ∀ f ∈ fields, P f.2) (fun f => P f.2)
    null bool int float str (fun items h => arr items h) (fun fields h => obj fields h)
    (by simp) (fun v vs hv hvs => by simpa using ⟨hv, hvs⟩)
    (by simp) (fun f fs hf hfs => List.forall_mem_cons.mpr ⟨hf, hfs⟩) (fun _ _ h => h) v

end Listing.Json

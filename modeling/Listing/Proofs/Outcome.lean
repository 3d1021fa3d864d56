import Mathlib.Data.List.Forall2

namespace Listing

section Bind

variable {ε α β : Type} {x : Except ε α} {f : α → Except ε β}

-- A step after another succeeds if both do.
theorem bind_eq_ok {b : β} : x >>= f = .ok b ↔ ∃ a, x = .ok a ∧ f a = .ok b := by
  cases x with
  | error e => simp [bind, Except.bind]
  | ok a => simp [bind, Except.bind]

-- It fails if the first does, or else the second.
theorem bind_eq_error {e : ε} :
    x >>= f = .error e ↔ x = .error e ∨ ∃ a, x = .ok a ∧ f a = .error e := by
  cases x with
  | error e => simp [bind, Except.bind]
  | ok a => simp [bind, Except.bind]

theorem ok_bind (a : α) (f : α → Except ε β) : Except.ok a >>= f = f a := rfl

theorem pure_eq_ok {a b : α} : (pure a : Except ε α) = .ok b ↔ a = b := by
  simp [pure, Except.pure]

theorem pure_ne_error {a : α} {e : ε} : (pure a : Except ε α) ≠ .error e := by
  simp [pure, Except.pure]

theorem isOk_iff : x.isOk = true ↔ ∃ a, x = .ok a := by
  cases x with
  | error e => simp [Except.isOk, Except.toBool]
  | ok a => simp [Except.isOk, Except.toBool]

theorem map_eq_ok {g : α → β} {b : β} : g <$> x = .ok b ↔ ∃ a, x = .ok a ∧ g a = b := by
  cases x with
  | error e => simp [Functor.map, Except.map]
  | ok a => simp [Functor.map, Except.map]

theorem map_eq_error {g : α → β} {e : ε} : g <$> x = .error e ↔ x = .error e := by
  cases x with
  | error e => simp [Functor.map, Except.map]
  | ok a => simp [Functor.map, Except.map]

end Bind

section Traversal

variable {ε α β : Type} {f : α → Except ε β} {xs : List α}

-- What all members give are the things that each of them gives, side by side with them.
theorem mapM_eq_ok {ys : List β} :
    xs.mapM f = .ok ys ↔ List.Forall₂ (fun x y => f x = .ok y) xs ys := by
  induction xs generalizing ys with
  | nil => rw [List.mapM_nil, pure_eq_ok, List.forall₂_nil_left_iff, eq_comm]
  | cons x xs ih =>
      simp only [List.mapM_cons, bind_eq_ok, pure_eq_ok, ih, List.forall₂_cons_left_iff]
      constructor
      · rintro ⟨y, hy, rest, hrest, rfl⟩
        exact ⟨y, rest, hy, hrest, rfl⟩
      · rintro ⟨y, rest, hy, hrest, rfl⟩
        exact ⟨y, hy, rest, hrest, rfl⟩

theorem mapM_of_forall {k : α → β} (h : ∀ x ∈ xs, f x = .ok (k x)) :
    xs.mapM f = .ok (xs.map k) :=
  mapM_eq_ok.mpr (List.forall₂_map_right_iff.mpr (List.forall₂_same.mpr h))

-- What is written member by member is read so.
theorem mapM_map_of_forall {γ : Type} {g : γ → α} {k : γ → β} {zs : List γ}
    (h : ∀ z ∈ zs, f (g z) = .ok (k z)) : (zs.map g).mapM f = .ok (zs.map k) :=
  mapM_eq_ok.mpr (List.forall₂_map_left_iff.mpr (mapM_eq_ok.mp (mapM_of_forall h)))

theorem mapM_isOk : (∃ ys, xs.mapM f = .ok ys) ↔ ∀ x ∈ xs, ∃ y, f x = .ok y := by
  induction xs with
  | nil => simp [pure_eq_ok]
  | cons x xs ih =>
      rw [List.forall_mem_cons, ← ih]
      simp only [List.mapM_cons, bind_eq_ok, pure_eq_ok]
      constructor
      · rintro ⟨_, y, hy, ys, hys, -⟩
        exact ⟨⟨y, hy⟩, ys, hys⟩
      · rintro ⟨⟨y, hy⟩, ys, hys⟩
        exact ⟨_, y, hy, ys, hys, rfl⟩

-- A list is gone through up to the first member that fails.
theorem mapM_eq_error {e : ε} :
    xs.mapM f = .error e ↔ ∃ before x after, xs = before ++ x :: after ∧
      (∀ y ∈ before, ∃ b, f y = .ok b) ∧ f x = .error e := by
  induction xs with
  | nil => simp [pure, Except.pure]
  | cons x xs ih =>
      simp only [List.mapM_cons, bind_eq_error, ih]
      constructor
      · rintro (hx | ⟨b, hx, ⟨before, y, after, rfl, hbefore, hy⟩ | ⟨ys, -, h⟩⟩)
        · exact ⟨[], x, xs, rfl, by simp, hx⟩
        · exact ⟨x :: before, y, after, rfl, List.forall_mem_cons.mpr ⟨⟨b, hx⟩, hbefore⟩, hy⟩
        · cases h
      · rintro ⟨before, y, after, hcut, hbefore, hy⟩
        cases before with
        | nil =>
            obtain ⟨rfl, -⟩ := List.cons.inj hcut
            exact .inl hy
        | cons z before =>
            obtain ⟨rfl, rfl⟩ := List.cons.inj hcut
            obtain ⟨⟨b, hb⟩, hbefore⟩ := List.forall_mem_cons.mp hbefore
            exact .inr ⟨b, hb, .inl ⟨before, y, after, rfl, hbefore, hy⟩⟩

-- What is given comes from a member.
theorem mem_of_mapM {ys : List β} (h : xs.mapM f = .ok ys) {y : β} (hy : y ∈ ys) :
    ∃ x ∈ xs, f x = .ok y := by
  replace h := mapM_eq_ok.mp h
  induction h with
  | nil => cases hy
  | cons hfirst _ ih =>
      rcases List.mem_cons.mp hy with rfl | hy
      · exact ⟨_, List.mem_cons_self, hfirst⟩
      · obtain ⟨x, hx, hread⟩ := ih hy
        exact ⟨x, List.mem_cons_of_mem _ hx, hread⟩

-- What each member gives in two ways stands side by side in what all members give.
theorem forall₂_of_mapM {γ : Type} {k : α → Except ε γ} {R : β → γ → Prop}
    (h : ∀ x ∈ xs, ∀ y z, f x = .ok y → k x = .ok z → R y z) {ys : List β} {zs : List γ}
    (hys : xs.mapM f = .ok ys) (hzs : xs.mapM k = .ok zs) : List.Forall₂ R ys zs := by
  replace hys := mapM_eq_ok.mp hys
  replace hzs := mapM_eq_ok.mp hzs
  induction hys generalizing zs with
  | nil =>
      cases hzs
      exact .nil
  | cons hy _ ih =>
      obtain ⟨hx, hxs⟩ := List.forall_mem_cons.mp h
      cases hzs with
      | cons hz hzs => exact .cons (hx _ _ hy hz) (ih hxs hzs)

-- What is taken from what each member gives, and can be told from the member.
theorem map_eq_of_mapM {γ : Type} {g : β → γ} {k : α → γ} (hf : ∀ x y, f x = .ok y → g y = k x)
    {ys : List β} (h : xs.mapM f = .ok ys) : ys.map g = xs.map k := by
  replace h := mapM_eq_ok.mp h
  induction h with
  | nil => rfl
  | cons hy _ ih => rw [List.map_cons, List.map_cons, hf _ _ hy, ih]

-- What each member says of what it gives, all members say of all that they give.
theorem forall_of_mapM {P : β → Prop} {Q : α → Prop} (hf : ∀ x y, f x = .ok y → (P y ↔ Q x))
    {ys : List β} (h : xs.mapM f = .ok ys) : (∀ y ∈ ys, P y) ↔ ∀ x ∈ xs, Q x := by
  replace h := mapM_eq_ok.mp h
  induction h with
  | nil => simp
  | cons hy _ ih =>
      rw [List.forall_mem_cons, List.forall_mem_cons]
      exact and_congr (hf _ _ hy) ih

end Traversal

-- A step that can only fail for reasons of some kind.
def FailsOnly {ε α : Type} (P : ε → Prop) (x : Except ε α) : Prop := ∀ e, x = .error e → P e

section FailsOnly

variable {ε α β : Type} {P Q : ε → Prop} {x : Except ε α}

theorem failsOnly_ok (a : α) : FailsOnly P (Except.ok a) := fun _ h => by cases h

theorem failsOnly_error {e : ε} (h : P e) : FailsOnly P (Except.error e : Except ε α) := by
  rintro _ ⟨⟩
  exact h

theorem FailsOnly.imp (hx : FailsOnly P x) (h : ∀ e, P e → Q e) : FailsOnly Q x :=
  fun e he => h e (hx e he)

theorem FailsOnly.bind {f : α → Except ε β} (hx : FailsOnly P x)
    (hf : ∀ a, x = .ok a → FailsOnly P (f a)) : FailsOnly P (x >>= f) := by
  intro e h
  rcases bind_eq_error.mp h with h | ⟨a, ha, h⟩
  · exact hx e h
  · exact hf a ha e h

-- What the first step does not fail for comes from the second.
theorem FailsOnly.bind_eq_error (hx : FailsOnly P x) {f : α → Except ε β} {e : ε} (he : ¬P e) :
    x >>= f = .error e ↔ ∃ a, x = .ok a ∧ f a = .error e := by
  rw [Listing.bind_eq_error]
  exact or_iff_right fun h => he (hx e h)

theorem failsOnly_mapM {f : α → Except ε β} {xs : List α} (h : ∀ a ∈ xs, FailsOnly P (f a)) :
    FailsOnly P (xs.mapM f) := by
  intro e he
  obtain ⟨before, a, after, rfl, -, ha⟩ := mapM_eq_error.mp he
  exact h a (by simp) e ha

end FailsOnly

end Listing

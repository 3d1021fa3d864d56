import Listing.Child
import Listing.Proofs.Outcome
import Listing.Proofs.Path

namespace Listing

namespace Disk

section Entries

variable (d : Disk) (place q : List String) (e : Entry)

theorem find?_putEntry (entries : List (List String × Entry)) :
    (putEntry place e entries).find? (·.1 = q) =
      if q = place then some (place, e) else entries.find? (·.1 = q) := by
  induction entries with
  | nil => by_cases h : q = place <;> simp [putEntry, h, eq_comm]
  | cons entry entries ih =>
      obtain ⟨p, x⟩ := entry
      simp only [putEntry]
      by_cases hp : p = place
      · subst hp
        by_cases h : q = p <;> simp [h, eq_comm]
      · rw [if_neg hp, List.find?_cons, List.find?_cons, ih]
        by_cases h : q = place
        · have hpq : p ≠ q := fun heq => hp (heq.trans h)
          simp [h, hp]
        · simp [h]

variable {d place e} in
theorem mem_of_entry? (h : d.entry? place = some e) : (place, e) ∈ d.entries := by
  obtain ⟨⟨p, x⟩, hfind, rfl⟩ := Option.map_eq_some_iff.mp h
  obtain rfl : p = place := by simpa using List.find?_some hfind
  exact List.mem_of_find?_eq_some hfind

@[simp] theorem entry?_put :
    entry? (d.put place e) q = if q = place then some e else d.entry? q := by
  unfold entry? put
  rw [find?_putEntry]
  split
  · rfl
  · rfl

end Entries

-- A disk after work that moves nothing away: paths that led somewhere lead there again.
structure Keeps (d d' : Disk) : Prop where
  home : d'.home = d.home
  directories : ∀ place, d.entry? place = some .directory → d'.entry? place = some .directory

section Follow

variable {d d' d'' : Disk} {place start parts : List String} {found : Option Entry} {e : Entry}
  {p : Path} {bytes : Text.Utf8.Bytes} {executable : Bool}

theorem Keeps.refl (d : Disk) : d.Keeps d := ⟨rfl, fun _ h => h⟩

theorem Keeps.trans (h : d.Keeps d') (h' : d'.Keeps d'') : d.Keeps d'' :=
  ⟨h'.home.trans h.home, fun place hplace => h'.directories place (h.directories place hplace)⟩

theorem Keeps.put (h : d.entry? place ≠ some .directory ∨ e = .directory) :
    d.Keeps (d.put place e) := by
  refine ⟨rfl, fun q hq => ?_⟩
  rw [entry?_put]
  split
  · rename_i heq
    subst heq
    rw [h.resolve_left (not_not_intro hq)]
  · exact hq

-- The last component is followed as the others are.
theorem follow_cons (d : Disk) (place : List String) (part : String) (rest : List String) :
    d.follow place (part :: rest) =
      match d.entry? place with
      | none => .error .noSuchFile
      | some .directory =>
        if part = "" ∨ part = "." then d.follow place rest
        else if part = ".." then d.follow place.dropLast rest
        else if nameLimit < (Text.Utf8.ofString part).length then .error .nameTooLong
        else d.follow (place ++ [part]) rest
      | some _ => .error .notADirectory := by
  have hlast : (if rest = [] then .ok (place ++ [part], d.entry? (place ++ [part]))
      else d.follow (place ++ [part]) rest) = d.follow (place ++ [part]) rest := by
    split
    · rename_i hnil
      rw [hnil, follow]
    · rfl
  cases hplace : d.entry? place with
  | none => simp only [follow, hplace]
  | some e => cases e <;> simp only [follow, hplace, hlast]

theorem follow_ok (hkeeps : d.Keeps d') (h : d.follow start parts = .ok (place, found)) :
    found = d.entry? place ∧ d'.follow start parts = .ok (place, d'.entry? place) := by
  induction parts generalizing start with
  | nil =>
      cases h
      exact ⟨rfl, rfl⟩
  | cons part rest ih =>
      rw [follow_cons] at h ⊢
      split at h
      · cases h
      · rename_i hstart
        rw [hkeeps.directories start hstart]
        dsimp only
        split_ifs at h ⊢
        all_goals exact ih h
      · cases h

theorem locate_ok (hkeeps : d.Keeps d') (h : d.locate p = .ok (place, found)) :
    found = d.entry? place ∧ d'.locate p = .ok (place, d'.entry? place) := by
  rw [locate, find] at h ⊢
  split_ifs at h ⊢
  · exact follow_ok hkeeps h
  · rw [hkeeps.home]
    exact follow_ok hkeeps h

theorem entry?_of_locate (h : d.locate p = .ok (place, found)) : d.entry? place = found :=
  (locate_ok (.refl d) h).1.symm

theorem Keeps.locate (hkeeps : d.Keeps d') (h : d.locate p = .ok (place, found)) :
    d'.locate p = .ok (place, d'.entry? place) :=
  (locate_ok hkeeps h).2

end Follow

theorem Keeps.locate_directory {d d' : Disk} {p : Path} {place : List String} (hkeeps : d.Keeps d')
    (h : d.locate p = .ok (place, some .directory)) :
    d'.locate p = .ok (place, some .directory) := by
  rw [hkeeps.locate h, hkeeps.directories place (entry?_of_locate h)]

section Files

variable {d d' : Disk} {p : Path} {place : List String} {found : Option Entry} {text : String}
  {bytes : Text.Utf8.Bytes}

-- A path that the system takes up.
def IsSound (p : Path) : Prop := '\x00' ∉ p.toString.toList

theorem checked_ok {α : Type} {a : Except Refusal α} {x : α} :
    checked p a = .ok x ↔ IsSound p ∧ a = .ok x := by
  by_cases h : '\x00' ∈ p.toString.toList
  · simp [checked, IsSound, h]
  · cases a <;> simp [checked, IsSound, h]

theorem contents_ok : d.contents p = .ok bytes ↔
    IsSound p ∧ ∃ place e, d.locate p = .ok (place, some e) ∧
      ((∃ executable, e = .file bytes executable) ∨
        ∃ kind, e = .device kind ∧ bytes = []) := by
  rw [contents, checked_ok, read?]
  simp only [bind_eq_ok, Prod.exists]
  refine and_congr_right fun _ => exists_congr fun place => ?_
  constructor
  · rintro ⟨found, hlocate, hread⟩
    split at hread
    · cases hread
    · cases hread
    · rename_i content executable
      cases hread
      exact ⟨_, hlocate, .inl ⟨executable, rfl⟩⟩
    · rename_i kind
      cases hread
      exact ⟨_, hlocate, .inr ⟨kind, rfl, rfl⟩⟩
  · rintro ⟨e, hlocate, ⟨executable, rfl⟩ | ⟨kind, rfl, rfl⟩⟩
    all_goals exact ⟨_, hlocate, rfl⟩

-- What is stored goes into the file at the path, or into a new one, or is not kept by a device.
theorem store_ok (h : d.store p text = .ok d') :
    IsSound p ∧ ∃ place found, d.locate p = .ok (place, found) ∧
      ((∃ kind, found = some (.device kind)) ∧ d' = d ∨
        (∀ kind, found ≠ some (.device kind)) ∧ found ≠ some .directory ∧
          ∃ executable, d' = d.put place (.file (Text.Utf8.ofString text) executable)) := by
  rw [store, checked_ok, write?] at h
  obtain ⟨hsound, h⟩ := h
  obtain ⟨⟨place, found⟩, hlocate, hwrite⟩ := bind_eq_ok.mp h
  refine ⟨hsound, place, found, hlocate, ?_⟩
  dsimp only at hwrite
  split at hwrite
  · cases hwrite
    exact .inr ⟨by simp, by simp, _, rfl⟩
  · cases hwrite
    exact .inr ⟨by simp, by simp, _, rfl⟩
  · cases hwrite
  · cases hwrite
    exact .inl ⟨⟨_, rfl⟩, rfl⟩

theorem keeps_of_store (h : d.store p text = .ok d') : d.Keeps d' := by
  obtain ⟨-, place, found, hlocate, ⟨-, rfl⟩ | ⟨-, hfound, executable, rfl⟩⟩ := store_ok h
  · exact .refl _
  · exact .put (.inl (entry?_of_locate hlocate ▸ hfound))

end Files

section Places

variable {d : Disk} {p : Path} {place start : List String} {parts more : List String}
  {found : Option Entry} {x : List String × Option Entry}

-- A path through a directory goes on from there.
theorem follow_append (h : d.follow start parts = .ok (place, some .directory)) :
    d.follow start (parts ++ more) = d.follow place more := by
  induction parts generalizing start with
  | nil =>
      obtain ⟨rfl, -⟩ := Prod.mk.inj (Except.ok.inj h)
      rfl
  | cons part rest ih =>
      rw [follow_cons] at h
      rw [List.cons_append, follow_cons]
      split at h
      · cases h
      · split_ifs at h ⊢
        all_goals exact ih h
      · cases h

theorem follow_of_idle {idle : List String} (hidle : ∀ part ∈ idle, part = "" ∨ part = ".")
    (h : d.follow start (idle ++ parts) = .ok x) : d.follow start parts = .ok x := by
  induction idle with
  | nil => exact h
  | cons part idle ih =>
      obtain ⟨hpart, hidle⟩ := List.forall_mem_cons.mp hidle
      rw [List.cons_append, follow_cons] at h
      split at h
      · cases h
      · rw [if_pos hpart] at h
        exact ih hidle h
      · cases h

-- A path in normal form is followed by its components.
theorem follow_of_locate (hp : p.IsNormal) (h : d.locate p = .ok x) :
    d.follow (if p.root = "" then d.home else []) p.parts = .ok x := by
  obtain ⟨idle, hidle, hcuts⟩ := Path.cuts_of_isNormal hp
  have hhead := Path.head?_toString hp
  rw [locate, find] at h
  split_ifs at h with hempty hlong hroot
  all_goals
    refine follow_of_idle hidle ?_
    rw [← hcuts]
  · rwa [if_neg (hhead.mp hroot)]
  · rwa [if_pos (not_not.mp fun hne => hroot (hhead.mpr hne))]

-- A component below a directory leads to the place of that name in it, or back above it.
theorem locate_concat {part : String} (hp : p.IsNormal) (hpart : Path.IsPart part)
    (hplace : d.locate p = .ok (place, some .directory))
    (h : d.locate { p with parts := p.parts ++ [part] } = .ok x) :
    x.1 = if part = ".." then place.dropLast else place ++ [part] := by
  have hdirectory := entry?_of_locate hplace
  have hfollow := follow_of_locate (hp.concat hpart) h
  dsimp only at hfollow
  rw [follow_append (follow_of_locate hp hplace), follow_cons, hdirectory] at hfollow
  dsimp only at hfollow
  rw [if_neg (by simp [hpart.1, hpart.2.1])] at hfollow
  split_ifs at hfollow ⊢
  all_goals
    cases hfollow
    rfl

end Places

-- What some work makes of a disk: new directories, and files that were written at some places.
structure Changes (d d' : Disk) (written : List String → Text.Utf8.Bytes → Prop) : Prop where
  home : d'.home = d.home
  entries : ∀ place, d'.entry? place = d.entry? place ∨
    (d.entry? place = none ∧ d'.entry? place = some .directory) ∨
    d.entry? place ≠ some .directory ∧ ∃ content executable,
      written place content ∧ d'.entry? place = some (.file content executable)

section Changes

variable {d d' d'' : Disk} {written more : List String → Text.Utf8.Bytes → Prop} {p : Path}
  {place : List String} {bytes : Text.Utf8.Bytes} {text : String}

theorem Changes.refl (d : Disk) (written : List String → Text.Utf8.Bytes → Prop) :
    Changes d d written :=
  ⟨rfl, fun _ => .inl rfl⟩

theorem Changes.mono (h : Changes d d' written)
    (hmore : ∀ place content, written place content → more place content) : Changes d d' more := by
  refine ⟨h.home, fun place => ?_⟩
  rcases h.entries place with hsame | hnew | ⟨hold, content, executable, hcontent, hentry⟩
  · exact .inl hsame
  · exact .inr (.inl hnew)
  · exact .inr (.inr ⟨hold, content, executable, hmore place content hcontent, hentry⟩)

theorem Changes.trans (h : Changes d d' written) (h' : Changes d' d'' written) :
    Changes d d'' written := by
  refine ⟨h'.home.trans h.home, fun place => ?_⟩
  rcases h'.entries place with hsame | ⟨hnone, hnew⟩ | ⟨hold, content, executable, hwritten, hentry⟩
  · rw [hsame]
    exact h.entries place
  · rcases h.entries place with hfirst | ⟨-, hfirst⟩ | ⟨-, content, executable, -, hfirst⟩
    · exact .inr (.inl ⟨hfirst ▸ hnone, hnew⟩)
    · rw [hfirst] at hnone
      cases hnone
    · rw [hfirst] at hnone
      cases hnone
  · rcases h.entries place with hfirst | ⟨-, hfirst⟩ | ⟨hfirst, -⟩
    · exact .inr (.inr ⟨hfirst ▸ hold, content, executable, hwritten, hentry⟩)
    · exact absurd hfirst hold
    · exact .inr (.inr ⟨hfirst, content, executable, hwritten, hentry⟩)

theorem Changes.keeps (h : Changes d d' written) : d.Keeps d' := by
  refine ⟨h.home, fun place hplace => ?_⟩
  rcases h.entries place with hsame | ⟨hnone, -⟩ | ⟨hold, -⟩
  · exact hsame.trans hplace
  · rw [hplace] at hnone
    cases hnone
  · exact absurd hplace hold

-- A place that nothing was written at holds what it held.
theorem Changes.entry?_of_some {e : Entry} (h : Changes d d' written) (he : d.entry? place = some e)
    (hwritten : ∀ content, ¬written place content) : d'.entry? place = some e := by
  rcases h.entries place with hsame | ⟨hnone, -⟩ | ⟨-, content, -, hcontent, -⟩
  · exact hsame.trans he
  · rw [he] at hnone
    cases hnone
  · exact absurd hcontent (hwritten content)

-- No device comes into being.
theorem Changes.device {kind : Device} (h : Changes d d' written)
    (hdevice : d'.entry? place = some (.device kind)) : d.entry? place = some (.device kind) := by
  rcases h.entries place with hsame | ⟨-, hnew⟩ | ⟨-, content, executable, -, hentry⟩
  · exact hsame ▸ hdevice
  · rw [hdevice] at hnew
    cases hnew
  · rw [hdevice] at hentry
    cases hentry

-- What could be read still can, or something was written over it.
theorem Changes.contents (h : Changes d d' written) (hread : d.contents p = .ok bytes) :
    d'.contents p = .ok bytes ∨
      ∃ place content, written place content ∧ d'.contents p = .ok content := by
  obtain ⟨hsound, place, e, hlocate, he⟩ := contents_ok.mp hread
  have hfound := entry?_of_locate hlocate
  have hthere := h.keeps.locate hlocate
  rcases h.entries place with hsame | ⟨hnone, -⟩ | ⟨-, content, executable, hcontent, hentry⟩
  · rw [hsame, hfound] at hthere
    exact .inl (contents_ok.mpr ⟨hsound, place, e, hthere, he⟩)
  · rw [hfound] at hnone
    cases hnone
  · rw [hentry] at hthere
    exact .inr ⟨place, content, hcontent,
      contents_ok.mpr ⟨hsound, place, _, hthere, .inl ⟨executable, rfl⟩⟩⟩

theorem changes_store (h : d.store p text = .ok d') :
    Changes d d' fun place content =>
      (∃ found, d.locate p = .ok (place, found)) ∧ content = Text.Utf8.ofString text := by
  obtain ⟨-, place, found, hlocate, ⟨-, rfl⟩ | ⟨-, hfound, executable, rfl⟩⟩ := store_ok h
  · exact .refl _ _
  · refine ⟨rfl, fun q => ?_⟩
    rw [entry?_put]
    split
    · rename_i heq
      subst heq
      exact .inr (.inr ⟨entry?_of_locate hlocate ▸ hfound, _, executable,
        ⟨⟨found, hlocate⟩, rfl⟩, rfl⟩)
    · exact .inl rfl

-- A path that leads to a place with a file of some content.
structure Held (d : Disk) (p : Path) (place : List String) (content : Text.Utf8.Bytes) : Prop where
  sound : IsSound p
  found : ∃ executable, d.locate p = .ok (place, some (.file content executable))

theorem Held.contents (h : d.Held p place bytes) : d.contents p = .ok bytes := by
  obtain ⟨hsound, executable, hlocate⟩ := h
  exact contents_ok.mpr ⟨hsound, place, _, hlocate, .inl ⟨executable, rfl⟩⟩

theorem Held.changes (h : d.Held p place bytes) (hd : Changes d d' written)
    (hwritten : ∀ content, ¬written place content) : d'.Held p place bytes := by
  obtain ⟨hsound, executable, hlocate⟩ := h
  refine ⟨hsound, executable, ?_⟩
  rw [hd.keeps.locate hlocate, hd.entry?_of_some (entry?_of_locate hlocate) hwritten]

theorem held_store (hfile : ∀ place kind, d.locate p ≠ .ok (place, some (.device kind)))
    (h : d.store p text = .ok d') : ∃ place found, d.locate p = .ok (place, found) ∧
      d'.Held p place (Text.Utf8.ofString text) := by
  have hkeeps := keeps_of_store h
  obtain ⟨hsound, place, found, hlocate, ⟨⟨kind, rfl⟩, -⟩ | ⟨-, -, executable, rfl⟩⟩ := store_ok h
  · exact absurd hlocate (hfile place kind)
  · refine ⟨place, found, hlocate, hsound, executable, ?_⟩
    rw [hkeeps.locate hlocate, entry?_put, if_pos rfl]

-- A path that leads to a file, or to a place for a new one.
def IsForFile (d : Disk) (p : Path) : Prop :=
  ∃ place, d.locate p = .ok (place, none) ∨
    ∃ content executable, d.locate p = .ok (place, some (.file content executable))

theorem IsForFile.ne_device (h : d.IsForFile p) (place : List String) (kind : Device) :
    d.locate p ≠ .ok (place, some (.device kind)) := by
  obtain ⟨q, hnone | ⟨content, executable, hfile⟩⟩ := h
  · simp [hnone]
  · simp [hfile]

-- What was stored is there to be read.
theorem contents_store (hfile : d.IsForFile p) (h : d.store p text = .ok d') :
    d'.contents p = .ok (Text.Utf8.ofString text) := by
  obtain ⟨_, _, -, hheld⟩ := held_store hfile.ne_device h
  exact hheld.contents

theorem passedOn_of_isForFile (hfile : d.IsForFile p) (kind : Device) (text : String) :
    d.passedOn p kind text = "" := by
  obtain ⟨q, hnone | ⟨content, executable, hfile⟩⟩ := hfile
  · simp [passedOn, hnone]
  · simp [passedOn, hfile]

theorem makeOne_ok (h : d.makeOne p = .ok d') :
    Changes d d' (fun _ _ => False) ∧ ∃ place, d'.locate p = .ok (place, some .directory) := by
  obtain ⟨⟨place, found⟩, hlocate, h⟩ := bind_eq_ok.mp h
  have hentry := entry?_of_locate hlocate
  cases found with
  | none =>
      cases h
      have hkeeps : d.Keeps (d.put place .directory) := .put (.inr rfl)
      refine ⟨⟨rfl, fun q => ?_⟩, place, by rw [hkeeps.locate hlocate, entry?_put, if_pos rfl]⟩
      rw [entry?_put]
      split
      · rename_i heq
        exact .inr (.inl ⟨heq ▸ hentry, rfl⟩)
      · exact .inl rfl
  | some e =>
      dsimp only at h
      split_ifs at h with hdirectory
      cases h
      refine ⟨.refl _ _, place, ?_⟩
      rw [isDirectory, hlocate] at hdirectory
      split at hdirectory
      · rename_i heq
        obtain ⟨-, hfound⟩ := Prod.mk.inj (Except.ok.inj heq)
        rw [hlocate, hfound]
      · cases hdirectory

theorem makeAll_ok {root : String} {parts : List String} {length : Nat}
    (h : d.makeAll root parts length = .ok d') :
    Changes d d' (fun _ _ => False) ∧
      ∃ place, d'.locate ⟨root, parts.take length⟩ = .ok (place, some .directory) := by
  induction length generalizing d' with
  | zero =>
      rw [makeAll] at h
      split at h
      · rename_i hone
        cases h
        exact makeOne_ok hone
      · cases h
      · cases h
  | succ length ih =>
      rw [makeAll] at h
      split at h
      · rename_i hone
        cases h
        exact makeOne_ok hone
      · obtain ⟨above, habove, h⟩ := bind_eq_ok.mp h
        obtain ⟨hfirst, -⟩ := ih habove
        split at h
        · rename_i hone
          cases h
          obtain ⟨hlast, hplace⟩ := makeOne_ok hone
          exact ⟨hfirst.trans hlast, hplace⟩
        · cases h
      · cases h

-- A directory that was made is there, and files are what they were.
theorem make_ok (h : d.make p = .ok d') :
    Changes d d' (fun _ _ => False) ∧ ∃ place, d'.locate p = .ok (place, some .directory) := by
  rw [make] at h
  split_ifs at h
  rw [makeDirectories] at h
  split at h
  · rename_i hall
    cases h
    have hmade := makeAll_ok hall
    rwa [List.take_length] at hmade
  · cases h

end Changes

end Disk
end Listing

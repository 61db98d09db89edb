/-
Files that are written and read.

A path leads to a place in a tree (`FileTree.place?`), and it names a file there if nothing stands
against it (`FileTree.Names`).  Whether a path does so only depends on the directories of the tree:
* `FileTree.read_eq_ok_iff`, `FileTree.write_eq_ok_iff` — when a file is read or written;
* `FileTree.holds_of_write` — what is written is read back;
* `FileTree.sameBut_of_write`, `FileTree.SameBut.holds` — other files stay as they are.
-/
import Asm256.CommandLine.FileTree
import Asm256.Proofs.Assembled

namespace Asm256.FileTree

variable {t t' t'' : FileTree} {route : Route} {path : String} {paths : List String}
  {bytes : List UInt8}

/-! ### Places -/

/-- The place that a path leads to, if there are the directories on the way. -/
def place? (t : FileTree) (path : String) : Option Route :=
  match checkPath path with
  | .error _ => none
  | .ok p => (t.locate p).toOption.map fun found => found.1 ++ [found.2]

/-- The path leads to a place where a file is, or can be put. -/
inductive Names (t : FileTree) (path : String) : Route → Prop
  | intro {p : Path} {directory : Route} {name : String} (hcheck : checkPath path = .ok p)
      (hlocate : t.locate p = .ok (directory, name)) (hslashed : p.slashed = false)
      (hdots : name ≠ "." ∧ name ≠ "..") (hname : name.utf8ByteSize ≤ maxName)
      (hfree : t.hasDirectory (directory ++ [name]) = false) : Names t path (directory ++ [name])

theorem place?_eq_some_iff : t.place? path = some route ↔ ∃ p found, checkPath path = .ok p ∧
    t.locate p = .ok found ∧ found.1 ++ [found.2] = route := by
  unfold place?
  cases checkPath path with
  | error e => simp
  | ok p => cases hlocate : t.locate p <;> simp [Except.toOption, hlocate, Prod.ext_iff]

theorem Names.place?_eq (h : t.Names path route) : t.place? path = some route := by
  obtain ⟨hcheck, hlocate⟩ := h
  exact place?_eq_some_iff.2 ⟨_, _, hcheck, hlocate, rfl⟩

/-- A tree with contents at a place; a sink takes them and stays as it is. -/
def stored (t : FileTree) (route : Route) (bytes : List UInt8) : FileTree :=
  if t.sinks.contains route then t else { t with files := put route bytes t.files }

/-- What is done unless something stands against it. -/
theorem unless_eq_ok_iff {α ε : Type} {c : Prop} [Decidable c] {e : ε} {x : Except ε α}
    {f : PUnit → Except ε α} {v : α} :
    (if c then throw e >>= f else x) = .ok v ↔ ¬ c ∧ x = .ok v := by
  by_cases hc : c
  · rw [if_pos hc]
    exact iff_of_false (fun h => by cases h) fun h => h.1 hc
  · rw [if_neg hc]
    exact (and_iff_right hc).symm

/-- **When a file is read.** -/
theorem read_eq_ok_iff : t.read path = .ok bytes ↔
    ∃ route, t.Names path route ∧ t.contents? route = some bytes := by
  simp only [read, readAt, bind_eq_ok_iff, mapError_eq_ok_iff, unless_eq_ok_iff, Bool.or_eq_true,
    decide_eq_true_eq, not_or, Bool.not_eq_true]
  constructor
  · rintro ⟨p, hcheck, ⟨directory, name⟩, hlocate, ⟨hdots, hfree⟩, hname, h⟩
    cases hcontents : t.contents? (directory ++ [name]) with
    | none =>
      simp only [hcontents] at h
      cases h
    | some found =>
      cases hslashed : p.slashed with
      | true =>
        simp only [hcontents, hslashed] at h
        cases h
      | false =>
        simp only [hcontents, hslashed] at h
        cases h
        exact ⟨_, .intro hcheck hlocate hslashed hdots (Nat.not_lt.1 hname) hfree, hcontents⟩
  · rintro ⟨_, ⟨hcheck, hlocate, hslashed, hdots, hname, hfree⟩, hcontents⟩
    refine ⟨_, hcheck, _, hlocate, ⟨hdots, hfree⟩, Nat.not_lt.2 hname, ?_⟩
    simp only [hcontents, hslashed]
    rfl

/-- **When a file is written.** -/
theorem write_eq_ok_iff : t.write path bytes = .ok t' ↔
    ∃ route, t.Names path route ∧ t' = t.stored route bytes := by
  have hstored : ∀ route, (if t.sinks.contains route then pure t
      else pure { t with files := put route bytes t.files } : Except SystemError FileTree) =
      .ok (t.stored route bytes) := by
    intro route
    unfold stored
    split <;> rfl
  simp only [write, writeAt, bind_eq_ok_iff, mapError_eq_ok_iff, unless_eq_ok_iff, Bool.or_eq_true,
    decide_eq_true_eq, not_or, Bool.not_eq_true, hstored]
  constructor
  · rintro ⟨p, hcheck, ⟨directory, name⟩, hlocate, ⟨⟨⟨hslashed, hdot⟩, hdots⟩, hfree⟩, hname, h⟩
    cases h
    exact ⟨_, .intro hcheck hlocate hslashed ⟨hdot, hdots⟩ (Nat.not_lt.1 hname) hfree, rfl⟩
  · rintro ⟨_, ⟨hcheck, hlocate, hslashed, hdots, hname, hfree⟩, rfl⟩
    exact ⟨_, hcheck, _, hlocate, ⟨⟨⟨hslashed, hdots.1⟩, hdots.2⟩, hfree⟩, Nat.not_lt.2 hname, rfl⟩

/-- A path that cannot be written because it is none. -/
theorem checkPath_of_write (h : t.write path bytes = .error .invalidPath) :
    checkPath path = .error .invalidPath := by
  cases hcheck : checkPath path with
  | error e =>
    rw [write, hcheck] at h
    cases h
    rfl
  | ok p =>
    rw [write, hcheck] at h
    change (t.writeAt p bytes).mapError FileError.system = _ at h
    cases hwrite : t.writeAt p bytes <;> rw [hwrite] at h <;> cases h

theorem contains_null_eq_false (h : '\x00' ∉ path.toList) : path.contains '\x00' = false := by
  rw [String.contains_char_eq]
  simpa using h

/-- Only a null character keeps a path from being one. -/
theorem checkPath_ne_invalidPath (h : '\x00' ∉ path.toList) :
    checkPath path ≠ .error .invalidPath := by
  unfold checkPath
  rw [contains_null_eq_false h, if_neg (by decide)]
  split <;> simp

theorem checkPath_eq_ok (h : '\x00' ∉ path.toList) (hlength : path.utf8ByteSize ≤ maxPath) :
    checkPath path = .ok (.ofString path) := by
  rw [checkPath, contains_null_eq_false h, if_neg (by decide), if_neg (Nat.not_lt.2 hlength)]

/-! ### Trees of one shape -/

/-- The trees have the same directories and sinks, and the same contents apart from the places that
the paths lead to. -/
structure SameBut (t : FileTree) (paths : List String) (t' : FileTree) : Prop where
  directories_eq : t'.directories = t.directories
  sinks_eq : t'.sinks = t.sinks
  current_eq : t'.current = t.current
  contents_eq : ∀ route, (∀ path ∈ paths, t.place? path ≠ some route) →
    t'.contents? route = t.contents? route

theorem SameBut.refl (t : FileTree) (paths : List String) : t.SameBut paths t :=
  ⟨rfl, rfl, rfl, fun _ _ => rfl⟩

namespace SameBut

variable (h : t.SameBut paths t')

include h

theorem hasDirectory_eq (route : Route) : t'.hasDirectory route = t.hasDirectory route := by
  rw [hasDirectory, hasDirectory, h.directories_eq]

/-- The same names can be followed; an error on the way may be another one. -/
theorem enter_eq_ok_iff (route : Route) (names : List String) {found : Route} :
    t'.enter route names = .ok found ↔ t.enter route names = .ok found := by
  induction names generalizing route with
  | nil => exact Iff.rfl
  | cons name names ih =>
    rw [enter, enter]
    split_ifs with hdot hup hlong
    · exact ih route
    · exact ih _
    · exact Iff.rfl
    · extract_lets next
      rw [h.hasDirectory_eq]
      by_cases hnext : t.hasDirectory next
      · rw [if_pos hnext, if_pos hnext]
        exact ih next
      · rw [if_neg hnext, if_neg hnext]
        split_ifs <;> simp

theorem locate_eq_ok_iff {p : Path} {found : Route × String} :
    t'.locate p = .ok found ↔ t.locate p = .ok found := by
  unfold locate
  rw [h.current_eq]
  extract_lets start
  cases p.names.getLast? with
  | none => exact Iff.rfl
  | some name =>
    have hmap : ∀ x : Except SystemError Route,
        (x.map fun directory => (directory, name)) = .ok found ↔ x = .ok found.1 ∧ name = found.2 := by
      rintro (e | directory) <;> simp [Except.map, Prod.ext_iff]
    simp only [hmap, h.enter_eq_ok_iff]

theorem names_iff : t'.Names path route ↔ t.Names path route := by
  constructor
  · rintro ⟨hcheck, hlocate, hslashed, hdots, hname, hfree⟩
    exact .intro hcheck (h.locate_eq_ok_iff.1 hlocate) hslashed hdots hname
      (h.hasDirectory_eq _ ▸ hfree)
  · rintro ⟨hcheck, hlocate, hslashed, hdots, hname, hfree⟩
    exact .intro hcheck (h.locate_eq_ok_iff.2 hlocate) hslashed hdots hname
      ((h.hasDirectory_eq _).trans hfree)

theorem place?_eq (path : String) : t'.place? path = t.place? path :=
  Option.ext fun route => by simp only [place?_eq_some_iff, h.locate_eq_ok_iff]

theorem trans {others : List String} (h' : t'.SameBut others t'') :
    t.SameBut (paths ++ others) t'' where
  directories_eq := h'.directories_eq.trans h.directories_eq
  sinks_eq := h'.sinks_eq.trans h.sinks_eq
  current_eq := h'.current_eq.trans h.current_eq
  contents_eq route hroute := by
    rw [List.forall_mem_append] at hroute
    have hothers : ∀ path ∈ others, t'.place? path ≠ some route := fun path hpath => by
      rw [h.place?_eq]
      exact hroute.2 path hpath
    exact (h'.contents_eq route hothers).trans (h.contents_eq route hroute.1)

end SameBut

/-! ### What is written -/

theorem lookup_cons_eq (f : Route × List UInt8) (files : List (Route × List UInt8)) (other : Route) :
    (f :: files).lookup other = if other = f.1 then some f.2 else files.lookup other := by
  rw [List.lookup_cons]
  by_cases h : other = f.1
  · rw [if_pos h, beq_iff_eq.2 h]
  · rw [if_neg h, beq_false_of_ne h]

theorem lookup_put (route other : Route) (bytes : List UInt8) (files : List (Route × List UInt8)) :
    (put route bytes files).lookup other =
      if other = route then some bytes else files.lookup other := by
  induction files with
  | nil => rw [put, lookup_cons_eq]
  | cons f files ih =>
    rw [put]
    by_cases hf : f.1 = route
    · rw [if_pos hf, lookup_cons_eq, lookup_cons_eq, hf]
      split_ifs <;> rfl
    · rw [if_neg hf, lookup_cons_eq, lookup_cons_eq, ih]
      split_ifs with h₁ h₂
      · exact absurd (h₁.symm.trans h₂) hf
      all_goals rfl

/-- The contents that are kept at a place of those that are written there: none in a sink. -/
def kept (t : FileTree) (route : Route) (bytes : List UInt8) : List UInt8 :=
  if t.sinks.contains route then [] else bytes

theorem contents?_stored (route other : Route) : (t.stored route bytes).contents? other =
    if other = route then some (t.kept route bytes) else t.contents? other := by
  unfold stored kept contents?
  by_cases hsink : t.sinks.contains route
  · simp only [hsink, if_true]
    split_ifs with h₁ h₂ h₂
    · rfl
    · rfl
    · exact absurd (h₂ ▸ hsink) h₁
    · rfl
  · simp only [hsink, Bool.false_eq_true, if_false, lookup_put]
    split_ifs with h₁ h₂ h₂
    · exact absurd (h₂ ▸ h₁) hsink
    all_goals rfl

/-- Storing contents changes nothing but them. -/
theorem sameBut_stored (h : t.place? path = some route) :
    t.SameBut [path] (t.stored route bytes) := by
  have hshape : ∀ {α : Type} (f : FileTree → α),
      (∀ files, f { t with files := files } = f t) → f (t.stored route bytes) = f t := by
    intro α f hf
    unfold stored
    split
    · rfl
    · exact hf _
  refine ⟨hshape directories fun _ => rfl, hshape sinks fun _ => rfl, hshape current fun _ => rfl,
    fun other hother => ?_⟩
  have hne : other ≠ route := fun heq => hother path (List.mem_singleton_self path) (heq ▸ h)
  rw [contents?_stored, if_neg hne]

/-- **A write leaves other files as they are.** -/
theorem sameBut_of_write (h : t.write path bytes = .ok t') : t.SameBut [path] t' := by
  obtain ⟨route, hnames, rfl⟩ := write_eq_ok_iff.1 h
  exact sameBut_stored hnames.place?_eq

/-- The file at the path has the contents; a sink has none. -/
def Holds (t : FileTree) (path : String) (bytes : List UInt8) : Prop :=
  ∃ route, t.place? path = some route ∧ t.read path = .ok (t.kept route bytes)

theorem SameBut.kept_eq (h : t.SameBut paths t') : t'.kept route bytes = t.kept route bytes := by
  rw [kept, kept, h.sinks_eq]

/-- **What is written is read back.** -/
theorem holds_of_write (h : t.write path bytes = .ok t') : t'.Holds path bytes := by
  have hsame := sameBut_of_write h
  obtain ⟨route, hnames, rfl⟩ := write_eq_ok_iff.1 h
  have hnames' := hsame.names_iff.2 hnames
  refine ⟨route, hnames'.place?_eq, read_eq_ok_iff.2 ⟨route, hnames', ?_⟩⟩
  rw [contents?_stored, if_pos rfl, hsame.kept_eq]

/-- The paths lead to different places, as far as they lead anywhere. -/
def Apart (t : FileTree) (path other : String) : Prop :=
  ∀ route, t.place? path = some route → t.place? other ≠ some route

theorem Apart.symm {other : String} (h : t.Apart path other) : t.Apart other path :=
  fun route hother hpath => h route hpath hother

theorem SameBut.apart_iff {other : String} (h : t.SameBut paths t') :
    t'.Apart path other ↔ t.Apart path other := by
  simp only [Apart, h.place?_eq]

/-- What is at the end of a path stays as it is if the paths that are touched lead elsewhere. -/
theorem SameBut.contents?_eq (h : t.SameBut paths t') (hpath : t.place? path = some route)
    (hapart : ∀ other ∈ paths, t.Apart other path) : t'.contents? route = t.contents? route :=
  h.contents_eq route fun other hother heq => hapart other hother route heq hpath

/-- A file stays as it is if only others change. -/
theorem SameBut.holds (h : t.SameBut paths t') (hpath : t.Holds path bytes)
    (hapart : ∀ other ∈ paths, t.Apart path other) : t'.Holds path bytes := by
  obtain ⟨route, hplace, hread⟩ := hpath
  obtain ⟨route', hnames, hcontents⟩ := read_eq_ok_iff.1 hread
  obtain rfl : route = route' := Option.some.inj (hplace.symm.trans hnames.place?_eq)
  refine ⟨route, (h.place?_eq path).trans hplace,
    read_eq_ok_iff.2 ⟨route, h.names_iff.2 hnames, ?_⟩⟩
  rw [h.contents?_eq hplace fun other hother => (hapart other hother).symm, h.kept_eq, hcontents]

end Asm256.FileTree

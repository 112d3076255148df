import Kelp.Cli.FileSystem
import Kelp.Proofs.Except
import Mathlib.Data.List.TakeWhile

/-!
# Paths and files

What a path with another extension is, and what writing a file changes.

- `Path.Extended` says how a path changes with its extension: the extension of the file name is what
  stands behind its last dot, unless this dot is at the very front.
- `FileSystem.CanWrite` says when a file can be written at a path.
- `FileSystem.AgreesExcept` says that two file systems differ at most in the file at one path.
- `write_eq_ok_iff`, `read_of_write` and `agreesExcept_of_write`: a file is written where it can be,
  then it can be read at its path, and nothing else has changed. Making a file may change why
  another path cannot be used, but not whether it can.
-/

namespace Kelp.Cli

/-! ## Extensions -/

namespace Path

/-- The first part of a path: nothing, or the names up to a slash. -/
def IsParent (dir : List Char) : Prop := dir = [] ∨ dir.getLast? = some '/'

/-- The path with its extension replaced by the given one. -/
inductive Extended (extension : List Char) : List Char → List Char → Prop
  /-- The file name has an extension. -/
  | replaced {dir stem old : List Char} (hdir : IsParent dir) (hstem : '/' ∉ stem)
      (hold : '/' ∉ old ∧ '.' ∉ old) (hne : stem ≠ [] ∧ stem ≠ ['.']) :
      Extended extension (dir ++ stem ++ '.' :: old) (dir ++ stem ++ '.' :: extension)
  /-- The file name has no dot, or only one at its front. -/
  | added {dir : List Char} {c : Char} {name : List Char} (hdir : IsParent dir)
      (hname : '/' ∉ c :: name) (hdot : '.' ∉ name) (hne : c :: name ≠ ['.']) :
      Extended extension (dir ++ c :: name) (dir ++ c :: name ++ '.' :: extension)
  /-- There is no file name. -/
  | unnamed {dir name : List Char} (hdir : IsParent dir) (hname : name ∈ [[], ['.'], ['.', '.']]) :
      Extended extension (dir ++ name) (dir ++ name)
  /-- Without its extension, the file name is the name of the parent directory. -/
  | parent {dir old : List Char} (hdir : IsParent dir) (hold : '/' ∉ old ∧ '.' ∉ old)
      (hne : old ≠ []) : Extended extension (dir ++ '.' :: '.' :: old) (dir ++ ['.', '.'])

/-- Cutting a path at its last slash loses nothing. -/
theorem parent_append_fileName (path : List Char) : parent path ++ fileName path = path := by
  rw [parent, fileName, ← List.reverse_append, List.takeWhile_append_dropWhile,
    List.reverse_reverse]

theorem isParent_parent (path : List Char) : IsParent (parent path) := by
  rw [IsParent, parent, List.reverse_eq_nil_iff, List.getLast?_reverse]
  cases h : path.reverse.dropWhile (· ≠ '/') with
  | nil => exact .inl rfl
  | cons c cs =>
    have hc := List.head?_dropWhile_not (· ≠ '/') path.reverse
    rw [h] at hc
    exact .inr (by simpa using hc)

theorem slash_notMem_fileName (path : List Char) : '/' ∉ fileName path := by
  rw [fileName, List.mem_reverse]
  intro h
  exact absurd (List.mem_takeWhile_imp h) (by decide)

/-- A file name without dots, or cut at its last dot. -/
theorem stem_cases (name : List Char) :
    ('.' ∉ name ∧ stem name = name) ∨ ∃ front old, name = front ++ '.' :: old ∧ '.' ∉ old ∧
      stem name = if front = [] then name else front := by
  have hsplit := List.takeWhile_append_dropWhile (p := (· ≠ '.')) (l := name.reverse)
  have hold : '.' ∉ name.reverse.takeWhile (· ≠ '.') := fun h =>
    absurd (List.mem_takeWhile_imp h) (by decide)
  cases h : name.reverse.dropWhile (· ≠ '.') with
  | nil =>
    rw [h, List.append_nil] at hsplit
    rw [hsplit, List.mem_reverse] at hold
    exact .inl ⟨hold, by rw [stem, h]⟩
  | cons c cs =>
    -- what is left behind the last run without dots begins with a dot
    have hc : c = '.' := by
      have hc := List.head?_dropWhile_not (· ≠ '.') name.reverse
      rw [h] at hc
      simpa using hc
    subst hc
    refine .inr ⟨cs.reverse, (name.reverse.takeWhile (· ≠ '.')).reverse, ?_, ?_, ?_⟩
    · rw [h] at hsplit
      have hname := congrArg List.reverse hsplit
      rw [List.reverse_reverse, List.reverse_append, List.reverse_cons, List.append_assoc] at hname
      exact hname.symm
    · rwa [List.mem_reverse]
    · rw [stem, h]
      cases cs with
      | nil => rfl
      | cons d cs => simp

/-- **Extensions**: the extension of a path is replaced, or added where there is none. -/
theorem extended_withExtension (path extension : String) :
    Extended extension.toList path.toList (withExtension path extension).toList := by
  have hdir := isParent_parent path.toList
  have hpath := parent_append_fileName path.toList
  have hslash := slash_notMem_fileName path.toList
  rw [withExtension]
  generalize parent path.toList = dir at *
  generalize fileName path.toList = name at *
  rw [← hpath]
  by_cases hunnamed : name = [] ∨ name = ['.'] ∨ name = ['.', '.']
  · rw [if_pos hunnamed, ← hpath]
    exact .unnamed hdir (by simpa using hunnamed)
  rw [if_neg hunnamed]
  rw [not_or, not_or] at hunnamed
  obtain ⟨hnil, hdot, hdots⟩ := hunnamed
  rcases stem_cases name with ⟨hfree, hstem⟩ | ⟨front, old, rfl, hold, hstem⟩
  · -- no dot at all
    rw [hstem, if_neg hdot]
    cases name with
    | nil => exact absurd rfl hnil
    | cons c name =>
      have hadded : Extended extension.toList _ _ :=
        .added hdir hslash (fun h => hfree (List.mem_cons_of_mem _ h)) hdot
      simpa using hadded
  · rw [hstem]
    have hold' : '/' ∉ old := fun h => hslash (by simp [h])
    have hfront : '/' ∉ front := fun h => hslash (by simp [h])
    by_cases hempty : front = []
    · -- the only dot is at the front
      subst hempty
      rw [List.nil_append] at *
      rw [if_pos rfl, if_neg hdot]
      have hadded : Extended extension.toList _ _ := .added hdir hslash hold hdot
      simpa using hadded
    · rw [if_neg hempty]
      by_cases hparent : front = ['.']
      · -- the dot in front and the last one are left, which name the parent directory
        subst hparent
        rw [if_pos rfl, String.toList_ofList]
        refine .parent hdir ⟨hold', hold⟩ ?_
        rintro rfl
        exact hdots rfl
      · rw [if_neg hparent]
        have hreplaced : Extended extension.toList _ _ :=
          .replaced hdir hfront ⟨hold', hold⟩ ⟨hempty, hparent⟩
        simpa using hreplaced

end Path

/-! ## Writing -/

namespace FileSystem

/-- A file can be written at the path: its directories are there, and it is not one of them. -/
def CanWrite (fs : FileSystem) (path : String) : Prop :=
  Path.isDirectoryOnly path = false ∧ ∃ l entry, fs.locate path = .ok l ∧ fs.lookUp l = .ok entry ∧
    entry ≠ some .directory

/-- The file systems differ at most in the file at the path. -/
structure AgreesExcept (fs after : FileSystem) (path : String) : Prop where
  current : after.current = fs.current
  entries : ∀ l, fs.locate path ≠ .ok l → after.entry? l = fs.entry? l
  contents : ∀ other, fs.locate other ≠ fs.locate path →
    (after.read other).toOption = (fs.read other).toOption

variable {fs : FileSystem} {l : Location} {content : Bytes}

/-- What was put at a location is found there. -/
theorem lookup_put_self (files : List (Location × Bytes)) :
    (put l content files).lookup l = some content := by
  induction files with
  | nil => exact List.lookup_cons_self
  | cons f files ih =>
    rw [put]
    split
    next => exact List.lookup_cons_self
    next hf =>
      rw [List.lookup_cons, beq_false_of_ne (Ne.symm hf)]
      exact ih

/-- Other locations keep what they had. -/
theorem lookup_put_of_ne {l' : Location} (h : l' ≠ l) (files : List (Location × Bytes)) :
    (put l content files).lookup l' = files.lookup l' := by
  induction files with
  | nil => rw [put, List.lookup_cons, beq_false_of_ne h]
  | cons f files ih =>
    rw [put]
    split
    next hf => rw [List.lookup_cons, List.lookup_cons, hf, beq_false_of_ne h]
    next => rw [List.lookup_cons, List.lookup_cons, ih]

/-- The file system with a file put at a location. -/
def withFile (fs : FileSystem) (l : Location) (content : Bytes) : FileSystem :=
  { fs with files := put l content fs.files }

/-- **Writing**: a file is written wherever it can be. -/
theorem write_eq_ok_iff {path : String} {after : FileSystem} :
    fs.write path content = .ok after ↔ fs.CanWrite path ∧
      ∃ l, fs.locate path = .ok l ∧ after = fs.withFile l content := by
  rw [write, bind_eq_ok_iff]
  constructor
  · rintro ⟨l, hl, h⟩
    split at h
    next => cases h
    next hdirectory =>
      obtain ⟨entry, hentry, h⟩ := bind_eq_ok_iff.1 h
      split at h
      next => cases h
      next hne =>
        cases h
        exact ⟨⟨Bool.eq_false_iff.2 hdirectory, l, entry, hl, hentry, hne⟩, l, hl, rfl⟩
  · rintro ⟨⟨hdirectory, l, entry, hl, hentry, hne⟩, l', hl', rfl⟩
    -- a path leads to one location
    cases hl.symm.trans hl'
    refine ⟨l, hl, ?_⟩
    rw [hdirectory, if_neg Bool.false_ne_true, hentry, ok_bind, if_neg hne]
    rfl

/-- Where a file cannot be written, there is an error to say why. -/
theorem write_eq_error {path : String} (h : ¬ fs.CanWrite path) (content : Bytes) :
    ∃ error, fs.write path content = .error error := by
  cases hwrite : fs.write path content with
  | error error => exact ⟨error, rfl⟩
  | ok after => exact absurd (write_eq_ok_iff.1 hwrite).1 h

/-! ## What a new file changes -/

section NewFile

variable (hl : fs.entry? l ≠ some .directory)

theorem entry?_withFile_of_ne {l' : Location} (h : l' ≠ l) :
    entry? (fs.withFile l content) l' = fs.entry? l' := by
  simp only [ entry?, withFile, lookup_put_of_ne h]

include hl

/-- A new file is found, unless it would stand in the place of a directory. -/
theorem entry?_withFile_self : entry? (fs.withFile l content) l = some (.file content) := by
  have hdirectory : ¬ (l = [] ∨ l ∈ fs.directories) := fun h => hl (by rw [ entry?, if_pos h])
  rw [ entry?, withFile, if_neg hdirectory, lookup_put_self]
  rfl

/-- Directories stay what they are. -/
theorem entry?_withFile_eq_directory_iff {l' : Location} :
    entry? (fs.withFile l content) l' = some .directory ↔ fs.entry? l' = some .directory := by
  by_cases h : l' = l
  · subst h
    rw [ entry?_withFile_self hl]
    constructor
    · intro h
      cases h
    · exact fun h => absurd h hl
  · rw [ entry?_withFile_of_ne h]

end NewFile

/-- A step leads somewhere exactly when it starts in a directory. -/
theorem step_eq_ok_iff {l' : Location} {name : String} :
    fs.step l name = .ok l' ↔ fs.lookUp l = .ok (some .directory) ∧
      l' = if name = "." then l else if name = ".." then l.dropLast else l ++ [name] := by
  rw [step, bind_eq_ok_iff]
  constructor
  · rintro ⟨entry, hentry, h⟩
    cases entry with
    | none => cases h
    | some entry =>
      cases entry with
      | file => cases h
      | directory =>
        refine ⟨hentry, ?_⟩
        grind
  · rintro ⟨hentry, rfl⟩
    refine ⟨_, hentry, ?_⟩
    grind

/-- Names that are too long are refused before anything is looked up. -/
theorem lookUp_eq_ok_iff {entry : Option Entry} :
    fs.lookUp l = .ok entry ↔
      (l.getLast?.any fun name => maxNameSize < name.utf8ByteSize) = false ∧
        fs.entry? l = entry := by
  rw [lookUp]
  split
  next h => simp [h]
  next h => simp [Bool.eq_false_iff.2 h]

section Paths

variable (hl : fs.entry? l ≠ some .directory) (content)

include hl

/-- Steps of a path lead where they led before: they go through directories only. -/
theorem step_withFile_eq_ok_iff {l₀ l₁ : Location} {name : String} :
    (fs.withFile l content).step l₀ name = .ok l₁ ↔ fs.step l₀ name = .ok l₁ := by
  rw [step_eq_ok_iff, step_eq_ok_iff, lookUp_eq_ok_iff, lookUp_eq_ok_iff,
    entry?_withFile_eq_directory_iff hl]

/-- Paths lead where they led before. -/
theorem locate_withFile_eq_ok_iff {path : String} {l' : Location} :
    (fs.withFile l content).locate path = .ok l' ↔ fs.locate path = .ok l' := by
  -- by induction on the names of the path, whatever location it starts at
  have hsteps : ∀ (names : List String) (l₀ : Location),
      names.foldlM (fs.withFile l content).step l₀ = .ok l' ↔
        names.foldlM fs.step l₀ = .ok l' := by
    intro names
    induction names with
    | nil => exact fun _ => Iff.rfl
    | cons name names ih =>
      intro l₀
      rw [List.foldlM_cons, List.foldlM_cons, bind_eq_ok_iff, bind_eq_ok_iff]
      simp only [step_withFile_eq_ok_iff content hl, ih]
  rw [locate, locate]
  split
  · exact Iff.rfl
  · exact hsteps _ _

end Paths

/-- A path is read exactly when it leads to a file. -/
theorem read_eq_ok_iff {path : String} :
    fs.read path = .ok content ↔ Path.isDirectoryOnly path = false ∧
      ∃ l, fs.locate path = .ok l ∧ fs.lookUp l = .ok (some (.file content)) := by
  rw [read, bind_eq_ok_iff]
  simp only [bind_eq_ok_iff]
  constructor
  · rintro ⟨l, hl, entry, hentry, h⟩
    cases entry with
    | none => cases h
    | some entry =>
      cases entry with
      | directory => cases h
      | file =>
        simp only at h
        split at h
        next => cases h
        next hdirectory =>
          cases h
          exact ⟨Bool.eq_false_iff.2 hdirectory, l, hl, hentry⟩
  · rintro ⟨hdirectory, l, hl, hentry⟩
    refine ⟨l, hl, _, hentry, ?_⟩
    simp only [hdirectory]
    rfl

section Written

variable {path : String} {after : FileSystem} (h : fs.write path content = .ok after)

include h

/-- **What was written is read.** -/
theorem read_of_write : after.read path = .ok content := by
  obtain ⟨⟨hdirectory, l, entry, hl, hentry, hne⟩, l', hl', rfl⟩ := write_eq_ok_iff.1 h
  cases hl.symm.trans hl'
  obtain ⟨hname, rfl⟩ := lookUp_eq_ok_iff.1 hentry
  refine read_eq_ok_iff.2 ⟨hdirectory, l, (locate_withFile_eq_ok_iff content hne).2 hl, ?_⟩
  exact lookUp_eq_ok_iff.2 ⟨hname, entry?_withFile_self hne⟩

/-- **Nothing else is written.** -/
theorem agreesExcept_of_write : fs.AgreesExcept after path := by
  obtain ⟨⟨hdirectory, l, entry, hl, hentry, hne⟩, l', hl', rfl⟩ := write_eq_ok_iff.1 h
  cases hl.symm.trans hl'
  obtain ⟨-, rfl⟩ := lookUp_eq_ok_iff.1 hentry
  have hentries : ∀ l', fs.locate path ≠ .ok l' →
      entry? (fs.withFile l content) l' = fs.entry? l' := by
    intro l' hne'
    refine entry?_withFile_of_ne ?_
    rintro rfl
    exact hne' hl
  -- the reasons why a path cannot be read may change with a new file, so only contents are compared
  refine ⟨rfl, hentries, fun other hother => Option.ext fun content' => ?_⟩
  rw [toOption_eq_some_iff, toOption_eq_some_iff, read_eq_ok_iff, read_eq_ok_iff]
  refine and_congr_right fun _ => exists_congr fun l' => ?_
  rw [locate_withFile_eq_ok_iff content hne]
  refine and_congr_right fun hl' => ?_
  rw [lookUp_eq_ok_iff, lookUp_eq_ok_iff, hentries l' (hl' ▸ hother.symm)]

end Written

end FileSystem

end Kelp.Cli

import Mathlib.Data.List.TakeDrop
import Mathlib.Logic.Function.Basic
import Mathlib.Order.Nat

/-!
# Names, files and handles

A name leads to a file, and a handle stays with its file wherever the names go.
Creating a file that is there empties it, a write goes to the place the handle has
reached, a rename lets the target lead to the file of the source in one step, and
a removal takes a name away. No two names lead to one file.
-/

namespace ComicStream.Inodes

variable {Name Item : Type*}

/-- The file each name leads to, what the files hold, and how many there have been. -/
structure Files (Name Item : Type*) where
  file : Name → Option ℕ
  content : ℕ → List Item
  count : ℕ
  lt_count : ∀ {name handle}, file name = some handle → handle < count
  injective : ∀ {first second handle}, file first = some handle → file second = some handle →
    first = second

/-- A file system with no name in it. -/
def Files.empty : Files Name Item where
  file _ := none
  content _ := []
  count := 0
  lt_count h := by simp at h
  injective h := by simp at h

/-- What is read under a name. -/
def Files.read (files : Files Name Item) (name : Name) : Option (List Item) :=
  (files.file name).map files.content

@[simp]
theorem Files.read_empty (name : Name) : (Files.empty : Files Name Item).read name = none := rfl

theorem Files.read_of_file {files : Files Name Item} {name : Name} {handle : ℕ}
    (h : files.file name = some handle) : files.read name = some (files.content handle) := by
  rw [read, h, Option.map_some]

/-- The name still leads to the same file, which still holds the same. -/
def Files.Untouched (files next : Files Name Item) (name : Name) : Prop :=
  next.file name = files.file name ∧ next.read name = files.read name

theorem Files.Untouched.refl (files : Files Name Item) (name : Name) :
    files.Untouched files name :=
  ⟨rfl, rfl⟩

theorem Files.Untouched.content_eq {files next : Files Name Item} {name : Name} {handle : ℕ}
    (h : files.Untouched next name) (hfile : files.file name = some handle) :
    next.content handle = files.content handle := by
  have hnext : next.file name = some handle := h.1.trans hfile
  have hread := h.2
  rw [read_of_file hfile, read_of_file hnext] at hread
  exact Option.some.inj hread

section Write

variable [Inhabited Item]

/-- Items written at an offset. What lies between the end of the file and the offset is filled. -/
def splice (content : List Item) (offset : ℕ) (items : List Item) : List Item :=
  content.takeD offset default ++ items ++ content.drop (offset + items.length)

@[simp]
theorem splice_length (content items : List Item) :
    splice content content.length items = content ++ items := by
  rw [splice, List.takeD_eq_take _ le_rfl, List.take_length, List.drop_of_length_le (by omega),
    List.append_nil]

/-- A write through a handle. -/
def Files.write (files : Files Name Item) (handle offset : ℕ) (items : List Item) :
    Files Name Item :=
  { files with
    content := Function.update files.content handle (splice (files.content handle) offset items) }

@[simp]
theorem Files.file_write (files : Files Name Item) (handle offset : ℕ) (items : List Item) :
    (files.write handle offset items).file = files.file := rfl

@[simp]
theorem Files.content_write (files : Files Name Item) (handle offset : ℕ) (items : List Item) :
    (files.write handle offset items).content handle =
      splice (files.content handle) offset items :=
  Function.update_self ..

/-- Only the name that leads to the file sees the write. -/
theorem Files.write_untouched {files : Files Name Item} {name other : Name} {handle : ℕ}
    (h : files.file name = some handle) (hother : other ≠ name) (offset : ℕ)
    (items : List Item) : files.Untouched (files.write handle offset items) other := by
  refine ⟨rfl, ?_⟩
  unfold read
  rw [file_write]
  cases hfile : files.file other with
  | none => rfl
  | some found =>
    have hne : found ≠ handle := fun heq ↦ hother (files.injective (heq ▸ hfile) h)
    rw [Option.map_some, Option.map_some]
    exact congrArg some (Function.update_of_ne hne ..)

end Write

section Names

variable [DecidableEq Name]

/-- `open` for writing, which empties a file that is there, and the handle. -/
def Files.create (files : Files Name Item) (name : Name) : Files Name Item × ℕ :=
  match files.file name with
  | some handle => ({ files with content := Function.update files.content handle [] }, handle)
  | none =>
    ({ file := Function.update files.file name (some files.count)
       content := Function.update files.content files.count []
       count := files.count + 1
       lt_count := by
        intro other handle h
        rw [Function.update_apply] at h
        split at h
        · rw [← Option.some.inj h]
          exact Nat.lt_succ_self _
        · exact (files.lt_count h).trans (Nat.lt_succ_self _)
       injective := by
        intro first second handle hfirst hsecond
        rw [Function.update_apply] at hfirst hsecond
        split at hfirst <;> split at hsecond
        · next h h' => rw [h, h']
        · have hlt := files.lt_count hsecond
          rw [← Option.some.inj hfirst] at hlt
          exact absurd hlt (lt_irrefl _)
        · have hlt := files.lt_count hfirst
          rw [← Option.some.inj hsecond] at hlt
          exact absurd hlt (lt_irrefl _)
        · exact files.injective hfirst hsecond },
      files.count)

theorem Files.create_self (files : Files Name Item) (name : Name) :
    (files.create name).1.file name = some (files.create name).2 ∧
      (files.create name).1.content (files.create name).2 = [] := by
  unfold create
  split
  · next handle h => exact ⟨h, Function.update_self ..⟩
  · exact ⟨Function.update_self .., Function.update_self ..⟩

theorem Files.create_untouched (files : Files Name Item) {name other : Name}
    (hother : other ≠ name) : files.Untouched (files.create name).1 other := by
  unfold create
  split
  · next handle h =>
    refine ⟨rfl, ?_⟩
    cases hfile : files.file other with
    | none => simp [read, hfile]
    | some found =>
      have hne : found ≠ handle := fun heq ↦ hother (files.injective (heq ▸ hfile) h)
      simp [read, hfile, hne]
  · next h =>
    refine ⟨Function.update_of_ne hother .., ?_⟩
    cases hfile : files.file other with
    | none => simp [read, hfile, hother]
    | some found =>
      have hne : found ≠ files.count := (files.lt_count hfile).ne
      simp [read, hfile, hother, hne]

/-- The target leads to the file of the source, and the source nowhere; nothing if the source leads
nowhere already. -/
def Files.rename (files : Files Name Item) (source target : Name) : Option (Files Name Item) :=
  match hsource : files.file source with
  | none => none
  | some handle => some
    { files with
      file := fun name ↦
        if name = target then some handle else if name = source then none else files.file name
      lt_count := by
        intro name found h
        split at h
        · rw [← Option.some.inj h]
          exact files.lt_count hsource
        · split at h
          · simp at h
          · exact files.lt_count h
      injective := by
        have hunique {name : Name} (htarget : name ≠ target)
            (h : (if name = source then none else files.file name) = some handle) : False := by
          split at h
          · simp at h
          · next hne => exact hne (files.injective h hsource)
        intro first second found hfirst hsecond
        split at hfirst <;> split at hsecond
        · next h h' => rw [h, h']
        · next h h' => exact (hunique h' (hsecond.trans hfirst.symm)).elim
        · next h h' => exact (hunique h (hfirst.trans hsecond.symm)).elim
        · split at hfirst <;> split at hsecond
          · simp at hfirst
          · simp at hfirst
          · simp at hsecond
          · exact files.injective hfirst hsecond }

theorem Files.file_rename {files next : Files Name Item} {source target : Name}
    (h : files.rename source target = some next) (name : Name) :
    next.file name = if name = target then files.file source
      else if name = source then none else files.file name := by
  unfold rename at h
  split at h
  · simp at h
  · next handle hsource =>
    rw [hsource, ← Option.some.inj h]

theorem Files.content_rename {files next : Files Name Item} {source target : Name}
    (h : files.rename source target = some next) : next.content = files.content := by
  unfold rename at h
  split at h
  · simp at h
  · rw [← Option.some.inj h]

theorem Files.read_rename {files next : Files Name Item} {source target : Name}
    (h : files.rename source target = some next) (name : Name) :
    next.read name = if name = target then files.read source
      else if name = source then none else files.read name := by
  unfold read
  rw [file_rename h, content_rename h]
  split
  · rfl
  · split <;> rfl

theorem Files.rename_untouched {files next : Files Name Item} {source target other : Name}
    (h : files.rename source target = some next) (hsource : other ≠ source)
    (htarget : other ≠ target) : files.Untouched next other := by
  constructor
  · rw [file_rename h, if_neg htarget, if_neg hsource]
  · rw [read_rename h, if_neg htarget, if_neg hsource]

/-- The name leads nowhere; nothing if it leads nowhere already. -/
def Files.remove (files : Files Name Item) (name : Name) : Option (Files Name Item) :=
  match files.file name with
  | none => none
  | some _ => some
    { files with
      file := Function.update files.file name none
      lt_count := by
        intro other handle h
        rw [Function.update_apply] at h
        split at h
        · simp at h
        · exact files.lt_count h
      injective := by
        intro first second handle hfirst hsecond
        rw [Function.update_apply] at hfirst hsecond
        split at hfirst <;> split at hsecond
        · simp at hfirst
        · simp at hfirst
        · simp at hsecond
        · exact files.injective hfirst hsecond }

theorem Files.file_remove {files next : Files Name Item} {name : Name}
    (h : files.remove name = some next) : next.file = Function.update files.file name none := by
  unfold remove at h
  split at h
  · simp at h
  · rw [← Option.some.inj h]

theorem Files.remove_untouched {files next : Files Name Item} {name other : Name}
    (h : files.remove name = some next) (hother : other ≠ name) :
    files.Untouched next other := by
  have hfile : next.file other = files.file other := by
    rw [file_remove h, Function.update_of_ne hother]
  refine ⟨hfile, ?_⟩
  unfold remove at h
  split at h
  · simp at h
  · unfold read
    rw [hfile, ← Option.some.inj h]

/-- After a removal, whether it found the name or not, the name leads nowhere. -/
theorem Files.read_remove (files : Files Name Item) (name : Name) :
    ((files.remove name).getD files).read name = none := by
  cases hremove : files.remove name with
  | none =>
    rw [Option.getD_none, read]
    unfold remove at hremove
    split at hremove
    · next hnone => rw [hnone, Option.map_none]
    · simp at hremove
  | some next => rw [Option.getD_some, read, file_remove hremove, Function.update_self, Option.map_none]

end Names

end ComicStream.Inodes

import ComicStream.Rust.Path

/-!
# The file system

A tree of files, directories and symbolic links, and how the kernel resolves a
path in it. A resolved path is plain: none of its prefixes is a link, so it
resolves to itself as long as the tree stays as it is.
-/

namespace ComicStream

open Rust

namespace Fs

structure File where
  bytes : List UInt8
  mtime : ℕ
  readable : Bool
  deriving DecidableEq, Repr

/-- A part of a path as a symbolic link holds it. -/
inductive Part where
  | parent
  | name (name : OsName)
  deriving DecidableEq, Repr

/-- What a symbolic link points at. -/
structure Target where
  isAbsolute : Bool
  parts : List Part
  deriving DecidableEq, Repr

/-- The entries of a directory, in the order a sorted walk yields them. -/
inductive Dir where
  | nil
  | file (name : OsName) (file : File) (rest : Dir)
  | symlink (name : OsName) (target : Target) (rest : Dir)
  | special (name : OsName) (mtime : ℕ) (rest : Dir)
  | dir (name : OsName) (mtime : ℕ) (listable : Bool) (children rest : Dir)
  deriving DecidableEq, Repr

inductive Node where
  | file (file : File)
  | symlink (target : Target)
  | special (mtime : ℕ)
  | dir (mtime : ℕ) (listable : Bool) (entries : Dir)
  deriving DecidableEq, Repr

/-- The entry with the name given. -/
def Dir.entry (name : OsName) : Dir → Option Node
  | .nil => none
  | .file other content rest => if other = name then some (.file content) else rest.entry name
  | .symlink other target rest => if other = name then some (.symlink target) else rest.entry name
  | .special other mtime rest => if other = name then some (.special mtime) else rest.entry name
  | .dir other mtime listable children rest =>
    if other = name then some (.dir mtime listable children) else rest.entry name

def Dir.names : Dir → List OsName
  | .nil => []
  | .file name _ rest => name :: rest.names
  | .symlink name _ rest => name :: rest.names
  | .special name _ rest => name :: rest.names
  | .dir name _ _ _ rest => name :: rest.names

/-- No two entries of a directory have the same name. -/
def Dir.isDistinct : Dir → Bool
  | .nil => true
  | .file name _ rest => !rest.names.contains name && rest.isDistinct
  | .symlink name _ rest => !rest.names.contains name && rest.isDistinct
  | .special name _ rest => !rest.names.contains name && rest.isDistinct
  | .dir name _ _ children rest =>
    !rest.names.contains name && children.isDistinct && rest.isDistinct

/-- The node that a path without links leads to. -/
def Node.nodeAt : Node → OsPath → Option Node
  | node, [] => some node
  | .dir _ _ entries, name :: rest => (entries.entry name).bind fun node ↦ node.nodeAt rest
  | _, _ :: _ => none

end Fs

/-- A file system is the entries of its root directory. -/
structure Fs where
  mtime : ℕ
  entries : Fs.Dir
  distinct : entries.isDistinct = true
  deriving DecidableEq, Repr

namespace Fs

variable (fs : Fs)

/-- The node at a path without links. -/
def nodeAt (path : OsPath) : Option Node := (Node.dir fs.mtime true fs.entries).nodeAt path

theorem Node.nodeAt_append (node : Node) (first second : OsPath) :
    node.nodeAt (first ++ second) = (node.nodeAt first).bind (·.nodeAt second) := by
  induction first generalizing node with
  | nil => rfl
  | cons name rest ih =>
    cases node with
    | dir mtime listable entries =>
      rw [List.cons_append, Node.nodeAt, Node.nodeAt, Option.bind_assoc]
      congr 1
      funext child
      exact ih child
    | file content => rfl
    | symlink target => rfl
    | special mtime => rfl

variable {fs} in
theorem nodeAt_snoc {dir : OsPath} {mtime : ℕ} {listable : Bool} {entries : Dir}
    (h : fs.nodeAt dir = some (.dir mtime listable entries)) (name : OsName) :
    fs.nodeAt (dir ++ [name]) = entries.entry name := by
  rw [nodeAt, Node.nodeAt_append, ← nodeAt, h, Option.bind_some, Node.nodeAt]
  cases entries.entry name <;> rfl

theorem Dir.mem_names_of_entry {entries : Dir} {name : OsName} {node : Node}
    (h : entries.entry name = some node) : name ∈ entries.names := by
  induction entries with
  | nil => simp [Dir.entry] at h
  | file other content rest ih =>
    rw [Dir.entry] at h
    split at h
    · next hname => exact hname ▸ List.mem_cons_self
    · exact List.mem_cons_of_mem _ (ih h)
  | symlink other target rest ih =>
    rw [Dir.entry] at h
    split at h
    · next hname => exact hname ▸ List.mem_cons_self
    · exact List.mem_cons_of_mem _ (ih h)
  | special other mtime rest ih =>
    rw [Dir.entry] at h
    split at h
    · next hname => exact hname ▸ List.mem_cons_self
    · exact List.mem_cons_of_mem _ (ih h)
  | dir other mtime listable children rest _ ih =>
    rw [Dir.entry] at h
    split at h
    · next hname => exact hname ▸ List.mem_cons_self
    · exact List.mem_cons_of_mem _ (ih h)

theorem Dir.isDistinct_of_entry {entries children : Dir} {name : OsName} {mtime : ℕ}
    {listable : Bool} (h : entries.isDistinct = true)
    (hentry : entries.entry name = some (.dir mtime listable children)) :
    children.isDistinct = true := by
  induction entries with
  | nil => simp [Dir.entry] at hentry
  | file other content rest ih =>
    simp only [Dir.isDistinct, Bool.and_eq_true] at h
    rw [Dir.entry] at hentry
    split at hentry
    · simp at hentry
    · exact ih h.2 hentry
  | symlink other target rest ih =>
    simp only [Dir.isDistinct, Bool.and_eq_true] at h
    rw [Dir.entry] at hentry
    split at hentry
    · simp at hentry
    · exact ih h.2 hentry
  | special other mtime rest ih =>
    simp only [Dir.isDistinct, Bool.and_eq_true] at h
    rw [Dir.entry] at hentry
    split at hentry
    · simp at hentry
    · exact ih h.2 hentry
  | dir other mtime listable inner rest _ ih =>
    simp only [Dir.isDistinct, Bool.and_eq_true] at h
    rw [Dir.entry] at hentry
    split at hentry
    · simp only [Option.some.injEq, Node.dir.injEq] at hentry
      rw [← hentry.2.2]
      exact h.1.2
    · exact ih h.2 hentry

theorem Node.isDistinct_of_nodeAt {path : OsPath} {mtime other : ℕ} {listable visible : Bool}
    {entries children : Dir} (h : entries.isDistinct = true)
    (hnode : (Node.dir mtime listable entries).nodeAt path = some (.dir other visible children)) :
    children.isDistinct = true := by
  induction path generalizing mtime listable entries with
  | nil =>
    simp only [Node.nodeAt, Option.some.injEq, Node.dir.injEq] at hnode
    rw [← hnode.2.2]
    exact h
  | cons name rest ih =>
    rw [Node.nodeAt] at hnode
    obtain ⟨node, hentry, hrest⟩ := Option.bind_eq_some_iff.mp hnode
    cases node with
    | dir inner innerListable innerEntries => exact ih (Dir.isDistinct_of_entry h hentry) hrest
    | file content => cases rest <;> simp [Node.nodeAt] at hrest
    | symlink target => cases rest <;> simp [Node.nodeAt] at hrest
    | special mtime => cases rest <;> simp [Node.nodeAt] at hrest

variable {fs} in
/-- The names in every directory of a file system are distinct. -/
theorem isDistinct_of_nodeAt {path : OsPath} {mtime : ℕ} {listable : Bool} {entries : Dir}
    (h : fs.nodeAt path = some (.dir mtime listable entries)) : entries.isDistinct = true :=
  Node.isDistinct_of_nodeAt fs.distinct h

/-- Follow `parts` from the directory `base`. What remains to be followed at a symbolic link is
handed to `follow`. -/
def resolveWith (follow : OsPath → List Part → Option OsPath) :
    OsPath → List Part → Option OsPath
  | base, [] => some base
  | base, .parent :: rest =>
    match fs.nodeAt base with
    | some (.dir _ _ _) => resolveWith follow base.dropLast rest
    | _ => none
  | base, .name name :: rest =>
    match fs.nodeAt (base ++ [name]) with
    | none => none
    | some (.symlink target) =>
      follow (if target.isAbsolute then [] else base) (target.parts ++ rest)
    | some _ => resolveWith follow (base ++ [name]) rest

/-- Resolution through at most `links` symbolic links. -/
def resolve : ℕ → OsPath → List Part → Option OsPath
  | 0 => fs.resolveWith fun _ _ ↦ none
  | links + 1 => fs.resolveWith (resolve links)

/-- `std::fs::canonicalize`. -/
def canonicalize (path : OsPath) : Option OsPath := fs.resolve 40 [] (path.map .name)

/-- `std::fs::metadata`: the node at the end of all links. -/
def stat (path : OsPath) : Option Node := (fs.canonicalize path).bind fs.nodeAt

/-- `std::fs::symlink_metadata`: a link at the end is not followed. -/
def lstat (path : OsPath) : Option Node :=
  (fs.canonicalize path.dropLast).bind fun dir ↦ fs.nodeAt (dir ++ path.getLast?.toList)

/-- The bytes of the file that opening a path leads to. -/
def read (path : OsPath) : Option (Sourced (List UInt8)) :=
  (fs.canonicalize path).bind fun resolved ↦
    match fs.nodeAt resolved with
    | some (.file content) => if content.readable then some ⟨content.bytes, resolved⟩ else none
    | _ => none

/-- `safe_path::under`. -/
def under (root candidate : OsPath) : Option OsPath :=
  (fs.canonicalize candidate).filter root.isPrefixOf

variable {fs}

/-- Every prefix of the path exists and is not a link. -/
def Plain (fs : Fs) (path : OsPath) : Prop :=
  ∀ dir name, dir ++ [name] <+: path →
    ∃ node, fs.nodeAt (dir ++ [name]) = some node ∧ ∀ target, node ≠ .symlink target

theorem plain_nil : Plain fs [] := by
  intro dir name h
  simp at h

theorem Plain.of_prefix {path other : OsPath} (h : Plain fs path) (hinitial : other <+: path) :
    Plain fs other :=
  fun dir name hname ↦ h dir name (hname.trans hinitial)

theorem Plain.dropLast {path : OsPath} (h : Plain fs path) : Plain fs path.dropLast :=
  h.of_prefix (List.dropLast_prefix path)

theorem Plain.snoc {dir : OsPath} {name : OsName} {node : Node} (h : Plain fs dir)
    (hnode : fs.nodeAt (dir ++ [name]) = some node) (hlink : ∀ target, node ≠ .symlink target) :
    Plain fs (dir ++ [name]) := by
  intro other last hinitial
  rcases List.prefix_concat_iff.mp hinitial with hsame | hinitial
  · rw [hsame]
    exact ⟨node, hnode, hlink⟩
  · exact h other last hinitial

theorem resolveWith_of_plain {follow : OsPath → List Part → Option OsPath} {base names : OsPath}
    (h : Plain fs (base ++ names)) :
    fs.resolveWith follow base (names.map .name) = some (base ++ names) := by
  induction names generalizing base with
  | nil => rw [List.map_nil, resolveWith, List.append_nil]
  | cons name rest ih =>
    have hassoc : base ++ name :: rest = base ++ [name] ++ rest := by simp
    rw [hassoc] at h ⊢
    obtain ⟨node, hnode, hlink⟩ := h base name (List.prefix_append _ _)
    rw [List.map_cons, resolveWith, hnode]
    cases node with
    | symlink target => exact absurd rfl (hlink target)
    | file file => exact ih h
    | special mtime => exact ih h
    | dir mtime listable entries => exact ih h

/-- From a plain directory, resolution ends in a plain path. -/
theorem plain_of_resolveWith {follow : OsPath → List Part → Option OsPath}
    (hfollow : ∀ base parts path, Plain fs base → follow base parts = some path → Plain fs path)
    {base path : OsPath} {parts : List Part} (hbase : Plain fs base)
    (h : fs.resolveWith follow base parts = some path) : Plain fs path := by
  induction parts generalizing base with
  | nil =>
    rw [resolveWith, Option.some.injEq] at h
    rw [← h]
    exact hbase
  | cons part rest ih =>
    cases part with
    | parent =>
      rw [resolveWith] at h
      split at h
      · exact ih hbase.dropLast h
      · simp at h
    | name name =>
      rw [resolveWith] at h
      split at h
      · simp at h
      · next target _ =>
        apply hfollow _ _ _ _ h
        split
        · exact plain_nil
        · exact hbase
      · next node hlink hnode => exact ih (hbase.snoc hnode fun target hsame ↦ hlink target hsame) h

theorem plain_of_resolve {links : ℕ} {base path : OsPath} {parts : List Part}
    (hbase : Plain fs base) (h : fs.resolve links base parts = some path) : Plain fs path := by
  induction links generalizing base parts path with
  | zero => exact plain_of_resolveWith (fun _ _ _ _ hnone ↦ by simp at hnone) hbase h
  | succ links ih => exact plain_of_resolveWith (fun _ _ _ hplain ↦ ih hplain) hbase h

theorem plain_of_canonicalize {path resolved : OsPath} (h : fs.canonicalize path = some resolved) :
    Plain fs resolved := plain_of_resolve plain_nil h

theorem Plain.canonicalize {path : OsPath} (h : Plain fs path) :
    fs.canonicalize path = some path := by
  rw [← List.nil_append path] at h
  exact resolveWith_of_plain h

/-- What is read from a resolved path comes from this path. -/
theorem source_eq_of_plain {path : OsPath} (h : Plain fs path) {content : Sourced (List UInt8)}
    (hread : fs.read path = some content) : content.source = path := by
  rw [read, h.canonicalize, Option.bind_some] at hread
  split at hread
  · split at hread
    · rw [← Option.some.inj hread]
    · simp at hread
  · simp at hread

theorem under_eq_some {root candidate safe : OsPath} :
    fs.under root candidate = some safe ↔ fs.canonicalize candidate = some safe ∧ root <+: safe := by
  rw [under, Option.filter_eq_some_iff, List.isPrefixOf_iff_prefix]

end Fs

end ComicStream

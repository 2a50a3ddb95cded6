import ComicStream.Rust.Text

/-!
# Paths of the Rust standard library

File names are byte strings, and an absolute path is the list of its names. What
the database stores of a path is `to_string_lossy`, kept name by name: neither a
name nor its text can hold a slash.
-/

namespace ComicStream.Rust

abbrev OsName := List UInt8

abbrev OsPath := List OsName

/-- The text of a path, name by name. -/
abbrev PathText := List (List Char)

/-- `Path::to_string_lossy`. -/
def OsPath.text (path : OsPath) : PathText := path.map fromUtf8Lossy

/-- The text of a path as one string. -/
def PathText.render (path : PathText) : List Char :=
  if path = [] then ['/'] else path.flatMap ('/' :: ·)

theorem OsPath.text_append (first second : OsPath) :
    (first ++ second).text = first.text ++ second.text := List.map_append

theorem OsPath.text_dropLast (path : OsPath) : OsPath.text path.dropLast = path.text.dropLast :=
  List.map_dropLast

/-- The bytes of an ASCII literal. -/
def ascii (text : String) : OsName := utf8 text.toList

def dot : UInt8 := 46

/-- `Path::file_stem` and `Path::extension`: a name is split at its last dot, unless that dot
is its first byte. -/
def splitExtension (name : OsName) : OsName × Option OsName :=
  let extension := (name.reverse.takeWhile (· ≠ dot)).reverse
  let stem := name.take (name.length - extension.length - 1)
  if stem = [] then (name, none) else (stem, some extension)

def slash : UInt8 := 47

/-- `Path::components` of a path as it is written, and whether it is absolute. Empty parts do not
count, and a dot does only as the first part. -/
def components (raw : List UInt8) : Bool × List OsName :=
  (raw.head? = some slash,
    match raw.splitOn slash with
    | [] => []
    | first :: rest =>
      (if first = [] then [] else [first]) ++ rest.filter fun part ↦ part ≠ [] ∧ part ≠ [dot])

/-- `Path::file_name`: the last part, unless it is a dot or two. -/
def fileName (raw : List UInt8) : Option OsName :=
  (components raw).2.getLast?.filter fun part ↦ part ≠ [dot] ∧ part ≠ [dot, dot]

example : components (ascii "./a//b/./c.jpg/") =
    (false, [[dot], ascii "a", ascii "b", ascii "c.jpg"]) := by decide

/-- The path that a text names. -/
def PathText.osPath (path : PathText) : OsPath := path.map utf8

/-- Every name of the path is UTF-8. -/
def OsPath.IsUtf8 (path : OsPath) : Prop := ∃ text : PathText, path = text.osPath

theorem PathText.text_osPath (path : PathText) : OsPath.text path.osPath = path := by
  rw [OsPath.text, PathText.osPath, List.map_map]
  apply List.map_id''
  intro name
  exact fromUtf8Lossy_utf8 name

/-- The text of a path leads back to it exactly when its names are UTF-8. -/
theorem OsPath.isUtf8_iff {path : OsPath} : path.IsUtf8 ↔ PathText.osPath path.text = path := by
  constructor
  · rintro ⟨text, rfl⟩
    rw [PathText.text_osPath]
  · intro h
    exact ⟨path.text, h.symm⟩

instance (path : OsPath) : Decidable path.IsUtf8 := decidable_of_iff _ OsPath.isUtf8_iff.symm

/-- A value made from the bytes of a file, with the resolved path of that file. Only the value is
there at run time. -/
structure Sourced (Value : Type) where
  value : Value
  source : OsPath
  deriving DecidableEq, Repr

/-- `u8::to_ascii_lowercase`. -/
def toAsciiLowercaseByte (b : UInt8) : UInt8 := if 65 ≤ b && b ≤ 90 then b + 32 else b

example : splitExtension (ascii "a.tar.CBZ") = (ascii "a.tar", some (ascii "CBZ")) ∧
    splitExtension (ascii ".cbz") = (ascii ".cbz", none) ∧
    splitExtension (ascii "cbz") = (ascii "cbz", none) := by decide

end ComicStream.Rust

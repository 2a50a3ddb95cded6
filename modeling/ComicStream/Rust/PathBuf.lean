import ComicStream.Rust.Number
import ComicStream.Rust.Path

/-!
# Building paths

What `PathBuf` makes of a path and one more text. A text can hold slashes, so that
joining it adds any number of names, or starts again at the root. A beginning or a
number that is formatted into the last name stays what it is.
-/

namespace ComicStream.Rust

/-- `Path::join`, name by name. -/
def OsPath.join (path : OsPath) (raw : List UInt8) : OsPath :=
  if (components raw).1 then (components raw).2
  else path ++ (components raw).2.filter (· ≠ [dot])

/-- `Path::file_name`. -/
def OsPath.fileName (path : OsPath) : Option OsName :=
  path.getLast?.filter (· ≠ [dot, dot])

/-- `Path::with_file_name`. -/
def OsPath.withFileName (path : OsPath) (name : OsName) : OsPath :=
  (if path.fileName.isSome then path.dropLast else path) ++ [name]

example : OsPath.join [ascii "data"] (ascii "a/./b.jpg") =
    [ascii "data", ascii "a", ascii "b.jpg"] ∧
    OsPath.join [ascii "data"] (ascii "/b.jpg") = [ascii "b.jpg"] := by decide

theorem splitOn_append_of_notMem (raw : List UInt8) {tail : List UInt8} (h : slash ∉ tail) :
    ∃ front last, (raw ++ tail).splitOn slash = front ++ [last ++ tail] := by
  induction raw with
  | nil => exact ⟨[], [], List.splitOn_eq_singleton h⟩
  | cons byte raw ih =>
    obtain ⟨front, last, hsplit⟩ := ih
    rw [List.cons_append, List.splitOn_cons_eq_if_modifyHead, hsplit]
    split
    · exact ⟨[] :: front, last, rfl⟩
    · cases front with
      | nil => exact ⟨[], byte :: last, rfl⟩
      | cons first front => exact ⟨(byte :: first) :: front, last, rfl⟩

theorem append_ne_of_length {last tail : OsName} (h : 1 < tail.length) :
    last ++ tail ≠ [] ∧ last ++ tail ≠ [dot] := by
  constructor <;> intro heq
  · have hlength := congrArg List.length heq
    rw [List.length_append, List.length_nil] at hlength
    omega
  · have hlength := congrArg List.length heq
    rw [List.length_append, List.length_singleton] at hlength
    omega

theorem components_append (raw : List UInt8) {tail : List UInt8} (h : slash ∉ tail)
    (hlength : 1 < tail.length) :
    ∃ front last, (components (raw ++ tail)).2 = front ++ [last ++ tail] := by
  obtain ⟨front, last, hsplit⟩ := splitOn_append_of_notMem raw h
  obtain ⟨hne, hdot⟩ := @append_ne_of_length last tail hlength
  rw [components, hsplit]
  cases front with
  | nil => exact ⟨[], last, by simp [hne]⟩
  | cons first front =>
    refine ⟨(if first = [] then [] else [first]) ++ front.filter fun part ↦ part ≠ [] ∧ part ≠ [dot],
      last, ?_⟩
    simp only [List.cons_append, List.filter_append]
    rw [List.filter_singleton]
    simp [hne, hdot]

theorem OsPath.join_of_notMem (path : OsPath) {raw : List UInt8} (h : slash ∉ raw)
    (hne : raw ≠ []) (hdot : raw ≠ [dot]) : path.join raw = path ++ [raw] := by
  have hhead : raw.head? ≠ some slash := fun hhead ↦ h (List.mem_of_head? hhead)
  rw [join, components, List.splitOn_eq_singleton h]
  simp [hhead, hne, hdot]

/-- The end of a text is the end of the last name of the path it is joined to. -/
theorem OsPath.join_append (path : OsPath) (raw : List UInt8) {tail : List UInt8} (h : slash ∉ tail)
    (hlength : 1 < tail.length) :
    ∃ front last, path.join (raw ++ tail) = front ++ [last ++ tail] := by
  obtain ⟨front, last, hparts⟩ := components_append raw h hlength
  unfold join
  split
  · exact ⟨front, last, hparts⟩
  · refine ⟨path ++ front.filter (· ≠ [dot]), last, ?_⟩
    have hdot := (@append_ne_of_length last tail hlength).2
    rw [hparts, List.filter_append, List.filter_singleton]
    simp [hdot]

theorem OsPath.fileName_append {front : OsPath} {name : OsName} (h : name ≠ [dot, dot]) :
    (front ++ [name]).fileName = some name := by
  simp [fileName, h]

theorem OsPath.withFileName_append {front : OsPath} {name : OsName} (h : name ≠ [dot, dot])
    (other : OsName) : withFileName (front ++ [name]) other = front ++ [other] := by
  rw [withFileName, fileName_append h]
  simp

theorem mem_utf8_decimal {n : ℕ} {byte : UInt8} (h : byte ∈ utf8 (decimal n)) :
    48 ≤ byte.toNat ∧ byte.toNat ≤ 57 := by
  have hdigit (c : Char) (hc : c ∈ decimal n) : 48 ≤ c.toNat ∧ c.toNat ≤ 57 :=
    isDigit_iff.mp ((isDecimal_decimal n).isDigit c hc)
  rw [utf8_eq_map fun c hc ↦ by have := hdigit c hc; omega] at h
  obtain ⟨c, hc, rfl⟩ := List.mem_map.mp h
  have hrange := hdigit c hc
  have hbyte : c.val.toUInt8.toNat = c.toNat := by
    rw [UInt32.toNat_toUInt8]
    exact Nat.mod_eq_of_lt (by change c.toNat < 256; omega)
  omega

theorem dot_notMem_decimal (n : ℕ) : dot ∉ utf8 (decimal n) := by
  intro h
  have hrange := mem_utf8_decimal h
  simp [dot] at hrange

theorem decimal_injective : Function.Injective decimal := by
  intro first second h
  rw [← (isDecimal_decimal first).value, h, (isDecimal_decimal second).value]

theorem append_cons_inj {Item : Type} {separator : Item} {first second : List Item}
    (hfirst : separator ∉ first) (hsecond : separator ∉ second) {rest rest' : List Item}
    (h : first ++ separator :: rest = second ++ separator :: rest') :
    first = second ∧ rest = rest' := by
  induction first generalizing second with
  | nil =>
    cases second with
    | nil => exact ⟨rfl, (List.cons.inj h).2⟩
    | cons item second => exact absurd ((List.cons.inj h).1 ▸ List.mem_cons_self) hsecond
  | cons item first ih =>
    cases second with
    | nil => exact absurd ((List.cons.inj h).1 ▸ List.mem_cons_self) hfirst
    | cons other second =>
      obtain ⟨rfl, htail⟩ := List.cons.inj h
      obtain ⟨rfl, hrest⟩ := ih (fun hmem ↦ hfirst (List.mem_cons_of_mem _ hmem))
        (fun hmem ↦ hsecond (List.mem_cons_of_mem _ hmem)) htail
      exact ⟨rfl, hrest⟩

/-- A number behind the last dot can be read off. -/
theorem append_dot_decimal_inj {first second : List UInt8} {n m : ℕ}
    (h : first ++ dot :: utf8 (decimal n) = second ++ dot :: utf8 (decimal m)) :
    first = second ∧ n = m := by
  have hreverse : (utf8 (decimal n)).reverse ++ dot :: first.reverse =
      (utf8 (decimal m)).reverse ++ dot :: second.reverse := by
    simpa using congrArg List.reverse h
  have hdot (k : ℕ) : dot ∉ (utf8 (decimal k)).reverse := by
    rw [List.mem_reverse]
    exact dot_notMem_decimal k
  obtain ⟨hnumber, hrest⟩ := append_cons_inj (hdot n) (hdot m) hreverse
  exact ⟨List.reverse_injective hrest,
    decimal_injective (utf8_injective (List.reverse_injective hnumber))⟩

end ComicStream.Rust

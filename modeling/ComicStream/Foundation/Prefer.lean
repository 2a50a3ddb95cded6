import Mathlib.Data.Nat.Notation
import Mathlib.Data.List.Basic

/-!
# Lists of preferences

The value of a `Prefer` header after RFC 7240: preferences between commas, each a name
with a word that may be missing, and parameters of the same form after semicolons. A
word is a token or a quoted string, which may hold the separators.
-/

namespace ComicStream.Prefer

/-- The characters of a token. -/
def isTokenChar (c : Char) : Bool :=
  (97 ≤ c.toNat && c.toNat ≤ 122) || (65 ≤ c.toNat && c.toNat ≤ 90) ||
    (48 ≤ c.toNat && c.toNat ≤ 57) || "!#$%&'*+-.^_`|~".toList.contains c

/-- The characters of a quoted string, escaped or not: a tab, those of ASCII that can be printed,
and bytes beyond ASCII. -/
def isFieldChar (c : Char) : Bool :=
  c == '\t' || (32 ≤ c.toNat && c.toNat ≤ 126) || (128 ≤ c.toNat && c.toNat ≤ 255)

structure Token where
  text : List Char
  ne_nil : text ≠ []
  isTokenChar : ∀ c ∈ text, isTokenChar c = true

/-- White space that may be left out. -/
structure Blank where
  text : List Char
  isBlank : ∀ c ∈ text, c = ' ' ∨ c = '\t'

/-- A character of a quoted string; quotes and backslashes have to be escaped. -/
structure QuotedChar where
  char : Char
  isEscaped : Bool
  isFieldChar : isFieldChar char = true
  isPlain : isEscaped = false → char ≠ '"' ∧ char ≠ '\\'

def QuotedChar.text (quoted : QuotedChar) : List Char :=
  if quoted.isEscaped then ['\\', quoted.char] else [quoted.char]

inductive Word where
  | token (token : Token)
  | quoted (chars : List QuotedChar)

def Word.text : Word → List Char
  | .token spelled => spelled.text
  | .quoted chars => '"' :: (chars.flatMap QuotedChar.text ++ ['"'])

/-- What a word says, without quotes and escapes. -/
def Word.value : Word → List Char
  | .token spelled => spelled.text
  | .quoted chars => chars.map QuotedChar.char

/-- A name, perhaps with a word after an equals sign. -/
structure Item where
  name : Token
  word : Option (Blank × Blank × Word)

def Item.text (item : Item) : List Char :=
  match item.word with
  | none => item.name.text
  | some (before, after, word) =>
    item.name.text ++ before.text ++ '=' :: (after.text ++ word.text)

/-- A semicolon and the parameter after it, if there is one. -/
structure Parameter where
  before : Blank
  after : Blank
  item : Option Item

structure Preference where
  item : Item
  parameters : List Parameter

/-- What stands between two commas. -/
structure Element where
  before : Blank
  preference : Option Preference
  after : Blank

/-- The value of a header. -/
structure Header where
  first : Element
  rest : List Element

def Parameter.text (parameter : Parameter) : List Char :=
  parameter.before.text ++
    ';' :: (parameter.after.text ++ (parameter.item.map Item.text).getD [])

def Preference.text (preference : Preference) : List Char :=
  preference.item.text ++ preference.parameters.flatMap Parameter.text

def Element.text (element : Element) : List Char :=
  element.before.text ++ (element.preference.map Preference.text).getD [] ++ element.after.text

def Header.text (header : Header) : List Char :=
  header.first.text ++ header.rest.flatMap fun element ↦ ',' :: element.text

def Header.elements (header : Header) : List Element := header.first :: header.rest

def Header.preferences (header : Header) : List Preference :=
  header.elements.filterMap Element.preference

def Preference.parameterItems (preference : Preference) : List Item :=
  preference.parameters.filterMap Parameter.item

/-- The preference itself and its parameters. -/
def Preference.items (preference : Preference) : List Item :=
  preference.item :: preference.parameterItems

theorem isFieldChar_of_isTokenChar {c : Char} (h : isTokenChar c = true) : isFieldChar c = true := by
  simp only [isTokenChar, Bool.or_eq_true, Bool.and_eq_true, decide_eq_true_eq] at h
  simp only [isFieldChar, Bool.or_eq_true, Bool.and_eq_true, decide_eq_true_eq]
  rcases h with ((h | h) | h) | h
  · omega
  · omega
  · omega
  · have hall : "!#$%&'*+-.^_`|~".toList.all (fun c ↦ 32 ≤ c.toNat && c.toNat ≤ 126) = true := by
      decide
    have hrange := List.all_eq_true.mp hall c (List.contains_iff_mem.mp h)
    simp only [Bool.and_eq_true, decide_eq_true_eq] at hrange
    exact .inl (.inr hrange)

/-- Texts of such characters only. -/
def IsField (text : List Char) : Prop := ∀ c ∈ text, isFieldChar c = true

theorem isField_append {first second : List Char} :
    IsField (first ++ second) ↔ IsField first ∧ IsField second := List.forall_mem_append

theorem isField_cons {c : Char} {text : List Char} :
    IsField (c :: text) ↔ isFieldChar c = true ∧ IsField text := List.forall_mem_cons

theorem IsField.nil : IsField [] := List.forall_mem_nil _

theorem isField_flatMap {α : Type*} {list : List α} {text : α → List Char}
    (h : ∀ x ∈ list, IsField (text x)) : IsField (list.flatMap text) := by
  intro c hc
  obtain ⟨x, hx, hmem⟩ := List.mem_flatMap.mp hc
  exact h x hx c hmem

theorem Token.isField (token : Token) : IsField token.text :=
  fun c hc ↦ isFieldChar_of_isTokenChar (token.isTokenChar c hc)

theorem Blank.isField (blank : Blank) : IsField blank.text := by
  intro c hc
  rcases blank.isBlank c hc with rfl | rfl <;> decide

theorem QuotedChar.isField (quoted : QuotedChar) : IsField quoted.text := by
  unfold QuotedChar.text
  split
  · exact isField_cons.mpr ⟨by decide, isField_cons.mpr ⟨quoted.isFieldChar, .nil⟩⟩
  · exact isField_cons.mpr ⟨quoted.isFieldChar, .nil⟩

theorem Word.isField (word : Word) : IsField word.text := by
  cases word with
  | token spelled => exact spelled.isField
  | quoted chars =>
    have hquote : IsField ['"'] := isField_cons.mpr ⟨by decide, .nil⟩
    have hchars : IsField (chars.flatMap QuotedChar.text) :=
      isField_flatMap fun quoted _ ↦ quoted.isField
    exact isField_cons.mpr ⟨by decide, isField_append.mpr ⟨hchars, hquote⟩⟩

theorem Item.isField (item : Item) : IsField item.text := by
  unfold Item.text
  split
  · exact item.name.isField
  · next before after word _ =>
    have hafter := isField_append.mpr ⟨after.isField, word.isField⟩
    exact isField_append.mpr ⟨isField_append.mpr ⟨item.name.isField, before.isField⟩,
      isField_cons.mpr ⟨by decide, hafter⟩⟩

theorem Parameter.isField (parameter : Parameter) : IsField parameter.text := by
  have hitem : IsField ((parameter.item.map Item.text).getD []) := by
    cases parameter.item with
    | none => exact .nil
    | some item => exact item.isField
  have hafter := isField_append.mpr ⟨parameter.after.isField, hitem⟩
  exact isField_append.mpr ⟨parameter.before.isField, isField_cons.mpr ⟨by decide, hafter⟩⟩

theorem Preference.isField (preference : Preference) : IsField preference.text :=
  isField_append.mpr
    ⟨preference.item.isField, isField_flatMap fun parameter _ ↦ parameter.isField⟩

theorem Element.isField (element : Element) : IsField element.text := by
  have hpreference : IsField ((element.preference.map Preference.text).getD []) := by
    cases element.preference with
    | none => exact .nil
    | some preference => exact preference.isField
  exact isField_append.mpr
    ⟨isField_append.mpr ⟨element.before.isField, hpreference⟩, element.after.isField⟩

theorem Header.isField (header : Header) : IsField header.text :=
  isField_append.mpr ⟨header.first.isField,
    isField_flatMap fun element _ ↦ isField_cons.mpr ⟨by decide, element.isField⟩⟩

end ComicStream.Prefer

import Mathlib.Data.List.TakeWhile

/-!
# Marked-up text

Elements with attributes, written as text and read back. A reader decodes the
five predefined references, wants attribute values quoted and free of `<`, and
wants every tag closed by its own name. Text that is escaped when it is written
is read as it was: it can neither end the element or the attribute it stands in
nor begin another.
-/

namespace ComicStream.Xml

/-- How a character is written in text and in attribute values. -/
def escapeChar (c : Char) : List Char :=
  if c = '&' then ['&', 'a', 'm', 'p', ';']
  else if c = '<' then ['&', 'l', 't', ';']
  else if c = '>' then ['&', 'g', 't', ';']
  else if c = '"' then ['&', 'q', 'u', 'o', 't', ';']
  else if c = '\'' then ['&', 'a', 'p', 'o', 's', ';']
  else [c]

def escape (text : List Char) : List Char := text.flatMap escapeChar

/-- Reads the references in a text. Any other ampersand is an error. -/
def decode : List Char → Option (List Char)
  | [] => some []
  | '&' :: 'a' :: 'm' :: 'p' :: ';' :: rest => (decode rest).map ('&' :: ·)
  | '&' :: 'l' :: 't' :: ';' :: rest => (decode rest).map ('<' :: ·)
  | '&' :: 'g' :: 't' :: ';' :: rest => (decode rest).map ('>' :: ·)
  | '&' :: 'q' :: 'u' :: 'o' :: 't' :: ';' :: rest => (decode rest).map ('"' :: ·)
  | '&' :: 'a' :: 'p' :: 'o' :: 's' :: ';' :: rest => (decode rest).map ('\'' :: ·)
  | c :: rest => if c = '&' then none else (decode rest).map (c :: ·)

@[simp]
theorem escape_nil : escape [] = [] := rfl

@[simp]
theorem escape_cons (c : Char) (text : List Char) :
    escape (c :: text) = escapeChar c ++ escape text := rfl

@[simp]
theorem escape_append (first second : List Char) :
    escape (first ++ second) = escape first ++ escape second := List.flatMap_append

theorem decode_escapeChar (c : Char) (rest : List Char) :
    decode (escapeChar c ++ rest) = (decode rest).map (c :: ·) := by
  unfold escapeChar
  split
  · next h => rw [h]; rfl
  · split
    · next h => rw [h]; rfl
    · split
      · next h => rw [h]; rfl
      · split
        · next h => rw [h]; rfl
        · split
          · next h => rw [h]; rfl
          · next h _ _ _ _ =>
            rw [List.singleton_append, decode.eq_7, if_neg h]
            all_goals simp [h]

@[simp]
theorem decode_escape (text : List Char) : decode (escape text) = some text := by
  induction text with
  | nil => rfl
  | cons c text ih => rw [escape_cons, decode_escapeChar, ih, Option.map_some]

/-- What can end a text or an attribute value. -/
def isDelimiter (c : Char) : Bool := c == '<' || c == '>' || c == '"' || c == '\''

theorem isDelimiter_of_mem_escapeChar (c : Char) : ∀ d ∈ escapeChar c, isDelimiter d = false := by
  unfold escapeChar
  split_ifs with hamp hlt hgt hquot hapos
  · simp [isDelimiter]
  · simp [isDelimiter]
  · simp [isDelimiter]
  · simp [isDelimiter]
  · simp [isDelimiter]
  · intro d hd
    rw [List.mem_singleton.mp hd]
    simp [isDelimiter, hlt, hgt, hquot, hapos]

theorem isDelimiter_of_mem_escape {text : List Char} {c : Char} (h : c ∈ escape text) :
    isDelimiter c = false := by
  obtain ⟨d, -, hc⟩ := List.mem_flatMap.mp h
  exact isDelimiter_of_mem_escapeChar d c hc

/-- Text of letters and other harmless characters is written as it is. -/
theorem escape_eq_self {text : List Char} (h : ∀ c ∈ text, c ≠ '&' ∧ isDelimiter c = false) :
    escape text = text := by
  induction text with
  | nil => rfl
  | cons c text ih =>
    have hc := h c List.mem_cons_self
    simp only [isDelimiter, Bool.or_eq_false_iff, beq_eq_false_iff_ne] at hc
    have hself : escapeChar c = [c] := by simp [escapeChar, hc]
    rw [escape_cons, hself, ih fun d hd ↦ h d (List.mem_cons_of_mem _ hd), List.singleton_append]

def isNameChar (c : Char) : Bool := c.isAlphanum || c == ':' || c == '_' || c == '-' || c == '.'

/-- The name of an element or of an attribute. -/
structure Name where
  text : List Char
  ne_nil : text ≠ []
  isNameChar : text.all isNameChar = true
  deriving DecidableEq

abbrev Attributes := List (Name × List Char)

/-- A text, then an element, then what follows it; or just a text. An element is a single tag, or
has content between two tags. -/
inductive Content where
  | done (text : List Char)
  | leaf (text : List Char) (name : Name) (attributes : Attributes) (rest : Content)
  | node (text : List Char) (name : Name) (attributes : Attributes) (children rest : Content)
  deriving DecidableEq

def writeAttributes (attributes : Attributes) : List Char :=
  attributes.flatMap fun (name, value) ↦ ' ' :: (name.text ++ '=' :: '"' :: (escape value ++ ['"']))

def openTag (name : Name) (attributes : Attributes) : List Char :=
  '<' :: (name.text ++ writeAttributes attributes ++ ['>'])

def emptyTag (name : Name) (attributes : Attributes) : List Char :=
  '<' :: (name.text ++ writeAttributes attributes ++ ['/', '>'])

def closeTag (name : Name) : List Char := '<' :: '/' :: (name.text ++ ['>'])

def Content.write : Content → List Char
  | .done text => escape text
  | .leaf text name attributes rest => escape text ++ emptyTag name attributes ++ rest.write
  | .node text name attributes children rest =>
    escape text ++ openTag name attributes ++ children.write ++ closeTag name ++ rest.write

/-! ## Reading -/

def isBlank (c : Char) : Bool := c == ' ' || c == '\t' || c == '\n' || c == '\r'

/-- The name at the start of a text, and what follows it. -/
def readName (text : List Char) : Option (Name × List Char) :=
  let name := text.takeWhile isNameChar
  if h : name ≠ [] ∧ name.all isNameChar = true then
    some (⟨name, h.1, h.2⟩, text.dropWhile isNameChar)
  else none

/-- The value of an attribute, up to its quotation mark, and what follows it. -/
def readValue (text : List Char) : Option (List Char × List Char) :=
  let value := text.takeWhile (· ≠ '"')
  match text.dropWhile (· ≠ '"') with
  | [] => none
  | _ :: rest => if '<' ∈ value then none else (decode value).map fun value ↦ (value, rest)

/-- The attributes up to the end of a tag. -/
def readAttributes : ℕ → List Char → Option (Attributes × List Char)
  | 0, _ => none
  | fuel + 1, text =>
    match readName (text.dropWhile isBlank) with
    | none => some ([], text.dropWhile isBlank)
    | some (name, '=' :: '"' :: rest) =>
      (readValue rest).bind fun (value, rest) ↦
        (readAttributes fuel rest).map fun (others, rest) ↦ ((name, value) :: others, rest)
    | some _ => none

/-- The name and the attributes of a tag, whether it is the only one of its element, and what
follows it. -/
def readTag (text : List Char) : Option (Name × Attributes × Bool × List Char) :=
  (readName text).bind fun (name, rest) ↦
    (readAttributes text.length rest).bind fun (attributes, rest) ↦
      match rest with
      | '>' :: rest => some (name, attributes, false, rest)
      | '/' :: '>' :: rest => some (name, attributes, true, rest)
      | _ => none

/-- What follows the closing tag of an element. -/
def readCloseTag (name : Name) (text : List Char) : Option (List Char) :=
  if closeTag name <+: text then some (text.drop (closeTag name).length) else none

/-- The content up to a closing tag or to the end of the text, and what follows it. -/
def readContent : ℕ → List Char → Option (Content × List Char)
  | 0, _ => none
  | fuel + 1, input =>
    (decode (input.takeWhile (· ≠ '<'))).bind fun text ↦
      match input.dropWhile (· ≠ '<') with
      | [] => some (.done text, [])
      | c :: rest =>
        if rest.head? = some '/' then some (.done text, c :: rest)
        else
          (readTag rest).bind fun (name, attributes, isEmpty, rest) ↦
            if isEmpty then
              (readContent fuel rest).map fun (next, rest) ↦
                (.leaf text name attributes next, rest)
            else
              (readContent fuel rest).bind fun (children, rest) ↦
                (readCloseTag name rest).bind fun rest ↦
                  (readContent fuel rest).map fun (next, rest) ↦
                    (.node text name attributes children next, rest)

/-- What follows a declaration at the start of a document. -/
def dropDeclaration : List Char → Option (List Char)
  | '?' :: '>' :: rest => some rest
  | _ :: rest => dropDeclaration rest
  | [] => none

/-- The content of a document that is balanced to its end. -/
def read (document : List Char) : Option Content :=
  let body := match document with
    | '<' :: '?' :: rest => dropDeclaration rest
    | _ => some document
  body.bind fun body ↦
    (readContent (body.length + 1) body).bind fun (content, rest) ↦
      if rest = [] then some content else none

variable {name : Name} {attributes : Attributes}

theorem readName_append (name : Name) {c : Char} (hc : isNameChar c = false) (rest : List Char) :
    readName (name.text ++ c :: rest) = some (name, c :: rest) := by
  have hall : ∀ d ∈ name.text, isNameChar d = true := List.all_eq_true.mp name.isNameChar
  have htake : (name.text ++ c :: rest).takeWhile isNameChar = name.text := by
    rw [List.takeWhile_append_of_pos hall, List.takeWhile_cons_of_neg (by simp [hc]),
      List.append_nil]
  have hdrop : (name.text ++ c :: rest).dropWhile isNameChar = c :: rest := by
    rw [List.dropWhile_append_of_pos hall, List.dropWhile_cons_of_neg (by simp [hc])]
  simp only [readName, htake, hdrop]
  rw [dif_pos ⟨name.ne_nil, name.isNameChar⟩]

theorem readValue_escape (value rest : List Char) :
    readValue (escape value ++ '"' :: rest) = some (value, rest) := by
  have hall : ∀ c ∈ escape value, (c ≠ '"' : Bool) = true := by
    intro c hc
    have hdelimiter := isDelimiter_of_mem_escape hc
    simp only [isDelimiter, Bool.or_eq_false_iff, beq_eq_false_iff_ne] at hdelimiter
    simpa using hdelimiter.1.2
  have hmarkup : '<' ∉ escape value := fun hmem ↦ by
    simpa [isDelimiter] using isDelimiter_of_mem_escape hmem
  have htake : (escape value ++ '"' :: rest).takeWhile (· ≠ '"') = escape value := by
    rw [List.takeWhile_append_of_pos hall, List.takeWhile_cons_of_neg (by simp), List.append_nil]
  have hdrop : (escape value ++ '"' :: rest).dropWhile (· ≠ '"') = '"' :: rest := by
    rw [List.dropWhile_append_of_pos hall, List.dropWhile_cons_of_neg (by simp)]
  simp only [readValue, htake, hdrop]
  rw [if_neg hmarkup, decode_escape, Option.map_some]

theorem isBlank_of_isNameChar {c : Char} (h : isNameChar c = true) : isBlank c = false := by
  unfold isBlank
  by_contra hblank
  simp only [Bool.not_eq_false, Bool.or_eq_true, beq_iff_eq] at hblank
  rcases hblank with ((rfl | rfl) | rfl) | rfl <;> exact absurd h (by decide)

theorem dropWhile_isBlank_name (name : Name) (rest : List Char) :
    (name.text ++ rest).dropWhile isBlank = name.text ++ rest := by
  obtain ⟨text, hne, hall⟩ := name
  cases text with
  | nil => exact absurd rfl hne
  | cons c text =>
    have hc : isBlank c = false := isBlank_of_isNameChar (List.all_eq_true.mp hall c (by simp))
    rw [List.cons_append, List.dropWhile_cons_of_neg (by simp [hc])]

theorem writeAttributes_cons (name : Name) (value : List Char) (attributes : Attributes) :
    writeAttributes ((name, value) :: attributes) =
      ' ' :: (name.text ++ '=' :: '"' :: (escape value ++ '"' :: writeAttributes attributes)) := by
  simp [writeAttributes]

theorem length_le_writeAttributes (attributes : Attributes) :
    attributes.length ≤ (writeAttributes attributes).length := by
  induction attributes with
  | nil => exact Nat.zero_le _
  | cons item attributes ih =>
    rw [writeAttributes_cons, List.length_cons, List.length_cons]
    simp only [List.length_append, List.length_cons]
    omega

theorem readAttributes_append {fuel : ℕ} (hfuel : attributes.length < fuel) {c : Char}
    (hname : isNameChar c = false) (hblank : isBlank c = false) (rest : List Char) :
    readAttributes fuel (writeAttributes attributes ++ c :: rest) =
      some (attributes, c :: rest) := by
  induction attributes generalizing fuel with
  | nil =>
    obtain ⟨fuel, rfl⟩ := Nat.exists_eq_add_of_lt hfuel
    have hdrop : (c :: rest).dropWhile isBlank = c :: rest :=
      List.dropWhile_cons_of_neg (by simp [hblank])
    have hnone : readName (c :: rest) = none := by simp [readName, hname]
    rw [writeAttributes, List.flatMap_nil, List.nil_append, readAttributes, hdrop, hnone]
  | cons item attributes ih =>
    obtain ⟨name, value⟩ := item
    cases fuel with
    | zero => exact absurd hfuel (Nat.not_lt_zero _)
    | succ fuel =>
      have hdrop (text : List Char) :
          (' ' :: (name.text ++ text)).dropWhile isBlank = name.text ++ text := by
        rw [List.dropWhile_cons_of_pos (by decide), dropWhile_isBlank_name]
      rw [writeAttributes_cons, readAttributes]
      simp only [List.cons_append, List.append_assoc, hdrop,
        readName_append name (by decide : isNameChar '=' = false), readValue_escape]
      rw [Option.bind_some, ih (Nat.lt_of_succ_lt_succ hfuel), Option.map_some]

theorem readName_readAttributes (name : Name) (attributes : Attributes) {c : Char}
    (hname : isNameChar c = false) (hblank : isBlank c = false) (rest : List Char) :
    ∃ after, readName (name.text ++ (writeAttributes attributes ++ c :: rest)) = some (name, after) ∧
      readAttributes (name.text ++ (writeAttributes attributes ++ c :: rest)).length after =
        some (attributes, c :: rest) := by
  refine ⟨writeAttributes attributes ++ c :: rest, ?_, ?_⟩
  · cases attributes with
    | nil => exact readName_append name hname rest
    | cons item attributes =>
      rw [writeAttributes_cons]
      exact readName_append name (by decide) _
  · refine readAttributes_append ?_ hname hblank rest
    have hle := length_le_writeAttributes attributes
    simp only [List.length_append, List.length_cons]
    omega

theorem readTag_openTag (name : Name) (attributes : Attributes) (rest : List Char) :
    ∃ after, openTag name attributes ++ rest = '<' :: after ∧
      readTag after = some (name, attributes, false, rest) := by
  refine ⟨name.text ++ (writeAttributes attributes ++ '>' :: rest), by simp [openTag], ?_⟩
  obtain ⟨after, hname, hattributes⟩ := readName_readAttributes name attributes
    (by decide : isNameChar '>' = false) (by decide) rest
  rw [readTag, hname, Option.bind_some]
  dsimp only
  rw [hattributes, Option.bind_some]
  rfl

theorem readTag_emptyTag (name : Name) (attributes : Attributes) (rest : List Char) :
    ∃ after, emptyTag name attributes ++ rest = '<' :: after ∧
      readTag after = some (name, attributes, true, rest) := by
  refine ⟨name.text ++ (writeAttributes attributes ++ '/' :: '>' :: rest), by simp [emptyTag], ?_⟩
  obtain ⟨after, hname, hattributes⟩ := readName_readAttributes name attributes
    (by decide : isNameChar '/' = false) (by decide) ('>' :: rest)
  rw [readTag, hname, Option.bind_some]
  dsimp only
  rw [hattributes, Option.bind_some]
  rfl

theorem readCloseTag_append (name : Name) (rest : List Char) :
    readCloseTag name (closeTag name ++ rest) = some rest := by
  rw [readCloseTag, if_pos (List.prefix_append _ _), List.drop_left]

theorem span_escape (text : List Char) {rest : List Char} (h : ∀ c ∈ rest.head?, c = '<') :
    (escape text ++ rest).takeWhile (· ≠ '<') = escape text ∧
      (escape text ++ rest).dropWhile (· ≠ '<') = rest := by
  have hall : ∀ c ∈ escape text, (c ≠ '<' : Bool) = true := by
    intro c hc
    have hdelimiter := isDelimiter_of_mem_escape hc
    simp only [isDelimiter, Bool.or_eq_false_iff, beq_eq_false_iff_ne] at hdelimiter
    simpa using hdelimiter.1.1.1
  rw [List.takeWhile_append_of_pos hall, List.dropWhile_append_of_pos hall]
  cases rest with
  | nil => simp
  | cons c rest =>
    obtain rfl : c = '<' := h c rfl
    simp

theorem head?_of_readTag {text : List Char} {tag : Name × Attributes × Bool × List Char}
    (h : readTag text = some tag) : text.head? ≠ some '/' := by
  intro hslash
  obtain ⟨rest, rfl⟩ : ∃ rest, text = '/' :: rest := by
    cases text with
    | nil => simp at hslash
    | cons c rest => exact ⟨rest, by rw [Option.some.inj hslash]⟩
  have hnone : readName ('/' :: rest) = none := by simp [readName, isNameChar]
  rw [readTag, hnone] at h
  simp at h

/-- The number of elements, and one. -/
def Content.size : Content → ℕ
  | .done _ => 1
  | .leaf _ _ _ rest => rest.size + 1
  | .node _ _ _ children rest => children.size + rest.size + 1

/-- Where content ends: at the end of the text or at a closing tag. -/
def IsEnd (rest : List Char) : Prop := rest = [] ∨ ∃ after, rest = '<' :: '/' :: after

theorem IsEnd.head? {rest : List Char} (h : IsEnd rest) : ∀ c ∈ rest.head?, c = '<' := by
  rcases h with rfl | ⟨after, rfl⟩
  · simp
  · simp

/-- What is written is read back, and reading stops where it ends. -/
theorem readContent_write {content : Content} {fuel : ℕ} {rest : List Char}
    (hfuel : content.size ≤ fuel) (hrest : IsEnd rest) :
    readContent fuel (content.write ++ rest) = some (content, rest) := by
  induction content generalizing fuel rest with
  | done text =>
    obtain ⟨fuel, rfl⟩ := Nat.exists_eq_add_of_le' hfuel
    obtain ⟨htake, hdrop⟩ := span_escape text hrest.head?
    rw [Content.size, readContent, Content.write, htake, decode_escape, Option.bind_some, hdrop]
    rcases hrest with rfl | ⟨after, rfl⟩
    · rfl
    · rfl
  | leaf text name attributes next ih =>
    rw [Content.size] at hfuel
    cases fuel with
    | zero => exact absurd hfuel (Nat.not_succ_le_zero _)
    | succ fuel =>
      obtain ⟨after, htag, hread⟩ := readTag_emptyTag name attributes (next.write ++ rest)
      obtain ⟨htake, hdrop⟩ := @span_escape text ('<' :: after) (by simp)
      have hwrite : (Content.leaf text name attributes next).write ++ rest =
          escape text ++ '<' :: after := by
        rw [Content.write, List.append_assoc, List.append_assoc, htag]
      rw [hwrite, readContent, htake, decode_escape, Option.bind_some, hdrop]
      dsimp only
      rw [if_neg (head?_of_readTag hread), hread, Option.bind_some]
      dsimp only
      rw [if_pos rfl, ih (Nat.le_of_succ_le_succ hfuel) hrest, Option.map_some]
  | node text name attributes children next ihchildren ihnext =>
    rw [Content.size] at hfuel
    cases fuel with
    | zero => exact absurd hfuel (Nat.not_succ_le_zero _)
    | succ fuel =>
      obtain ⟨after, htag, hread⟩ := readTag_openTag name attributes
        (children.write ++ (closeTag name ++ (next.write ++ rest)))
      obtain ⟨htake, hdrop⟩ := @span_escape text ('<' :: after) (by simp)
      have hwrite : (Content.node text name attributes children next).write ++ rest =
          escape text ++ '<' :: after := by
        rw [Content.write, ← htag]
        simp only [List.append_assoc]
      have hend : IsEnd (closeTag name ++ (next.write ++ rest)) := .inr ⟨_, rfl⟩
      rw [hwrite, readContent, htake, decode_escape, Option.bind_some, hdrop]
      dsimp only
      rw [if_neg (head?_of_readTag hread), hread, Option.bind_some]
      dsimp only
      rw [if_neg Bool.false_ne_true, ihchildren (by omega) hend, Option.bind_some,
        readCloseTag_append, Option.bind_some, ihnext (by omega) hrest, Option.map_some]

theorem size_le_write (content : Content) : content.size ≤ content.write.length + 1 := by
  induction content with
  | done text => exact Nat.le_add_left _ _
  | leaf text name attributes next ih =>
    simp only [Content.size, Content.write, emptyTag, List.length_append, List.length_cons]
    omega
  | node text name attributes children next ihchildren ihnext =>
    simp only [Content.size, Content.write, openTag, closeTag, List.length_append,
      List.length_cons]
    omega

/-- **Round trip.** A document is read as the content it was written from. -/
theorem read_write (declaration : List Char) (content : Content)
    (hdeclaration : dropDeclaration (declaration ++ content.write) = some content.write) :
    read ('<' :: '?' :: (declaration ++ content.write)) = some content := by
  have hread := readContent_write (size_le_write content) (.inl rfl)
  rw [List.append_nil] at hread
  rw [read]
  dsimp only
  rw [hdeclaration, Option.bind_some, hread, Option.bind_some]
  exact if_pos rfl

/-- An element, with content unless it is a single tag. -/
structure Element where
  name : Name
  attributes : Attributes
  content : Option Content

/-- An element with nothing but text in it. -/
def Element.ofText (name : Name) (attributes : Attributes) (text : List Char) : Element :=
  ⟨name, attributes, some (.done text)⟩

def Element.write (element : Element) : List Char :=
  match element.content with
  | none => emptyTag element.name element.attributes
  | some content =>
    openTag element.name element.attributes ++ content.write ++ closeTag element.name

namespace Content

/-- A text and an element before what follows. -/
def cons (text : List Char) (element : Element) (rest : Content) : Content :=
  match element.content with
  | none => .leaf text element.name element.attributes rest
  | some content => .node text element.name element.attributes content rest

/-- Elements that all stand after the same text. -/
def block (before : List Char) (elements : List Element) (last : List Char) : Content :=
  elements.foldr (cons before) (.done last)

/-- The elements directly in a content. -/
def elements : Content → List Element
  | .done _ => []
  | .leaf _ name attributes rest => ⟨name, attributes, none⟩ :: rest.elements
  | .node _ name attributes children rest => ⟨name, attributes, some children⟩ :: rest.elements

/-- The text directly in a content. -/
def text : Content → List Char
  | .done text => text
  | .leaf text _ _ rest => text ++ rest.text
  | .node text _ _ _ rest => text ++ rest.text

/-- The elements and the names of their attributes, without any text or value. -/
def shape : Content → Content
  | .done _ => .done []
  | .leaf _ name attributes rest => .leaf [] name (attributes.map fun item ↦ (item.1, [])) rest.shape
  | .node _ name attributes children rest =>
    .node [] name (attributes.map fun item ↦ (item.1, [])) children.shape rest.shape

end Content

/-- The elements directly in an element. -/
def Element.children (element : Element) : List Element :=
  element.content.elim [] Content.elements

/-- The text directly in an element. -/
def Element.text (element : Element) : List Char := element.content.elim [] Content.text

/-- What has a name. -/
def named (name : Name) (elements : List Element) : List Element :=
  elements.filter (·.name = name)

/-- An element without any text or value in it. -/
def Element.shape (element : Element) : Element :=
  ⟨element.name, element.attributes.map fun item ↦ (item.1, []), element.content.map Content.shape⟩

namespace Content

variable (before : List Char) (element : Element) (elements : List Element) (last : List Char)

theorem cons_write (rest : Content) :
    (cons before element rest).write = escape before ++ (element.write ++ rest.write) := by
  obtain ⟨name, attributes, content⟩ := element
  cases content with
  | none => simp [cons, Element.write, write]
  | some content => simp [cons, Element.write, write]

theorem cons_elements (rest : Content) :
    (cons before element rest).elements = element :: rest.elements := by
  obtain ⟨name, attributes, content⟩ := element
  cases content <;> rfl

theorem cons_shape (rest : Content) :
    (cons before element rest).shape = cons [] element.shape rest.shape := by
  obtain ⟨name, attributes, content⟩ := element
  cases content <;> rfl

theorem block_write :
    (block before elements last).write =
      elements.flatMap (fun element ↦ escape before ++ element.write) ++ escape last := by
  induction elements with
  | nil => rfl
  | cons element elements ih =>
    calc
      (block before (element :: elements) last).write =
          escape before ++ (element.write ++ (block before elements last).write) :=
        cons_write before element _
      _ = (element :: elements).flatMap (fun element ↦ escape before ++ element.write) ++
          escape last := by
        rw [ih, List.flatMap_cons]
        simp only [List.append_assoc]

@[simp]
theorem block_elements : (block before elements last).elements = elements := by
  induction elements with
  | nil => rfl
  | cons element elements ih =>
    rw [block, List.foldr_cons, cons_elements, ← block, ih]

theorem block_shape :
    (block before elements last).shape = block [] (elements.map Element.shape) [] := by
  induction elements with
  | nil => rfl
  | cons element elements ih =>
    rw [block, List.foldr_cons, cons_shape, ← block, ih, List.map_cons]
    rfl

end Content

/-! ## Characters -/

/-- The production `Char` of XML 1.0. -/
def isXmlChar (c : Char) : Bool :=
  c == '\t' || c == '\n' || c == '\r' || 0x20 ≤ c.toNat && c.toNat ≤ 0xD7FF ||
    0xE000 ≤ c.toNat && c.toNat ≤ 0xFFFD || 0x10000 ≤ c.toNat && c.toNat ≤ 0x10FFFF

/-- A text with none but characters of XML 1.0. -/
def IsXmlText (text : List Char) : Prop := ∀ c ∈ text, isXmlChar c = true

instance (text : List Char) : Decidable (IsXmlText text) :=
  decidable_of_iff (text.all isXmlChar = true) List.all_eq_true

@[simp]
theorem isXmlText_nil : IsXmlText [] := by simp [IsXmlText]

@[simp]
theorem isXmlText_cons {c : Char} {text : List Char} :
    IsXmlText (c :: text) ↔ isXmlChar c = true ∧ IsXmlText text := List.forall_mem_cons

@[simp]
theorem isXmlText_append {first second : List Char} :
    IsXmlText (first ++ second) ↔ IsXmlText first ∧ IsXmlText second := List.forall_mem_append

/-- Escapes are of characters of XML 1.0 only. -/
theorem isXmlText_escapeChar (c : Char) : IsXmlText (escapeChar c) ↔ isXmlChar c = true := by
  unfold escapeChar
  split_ifs with hamp hlt hgt hquot hapos
  · rw [hamp]; decide
  · rw [hlt]; decide
  · rw [hgt]; decide
  · rw [hquot]; decide
  · rw [hapos]; decide
  · simp

@[simp]
theorem isXmlText_escape (text : List Char) : IsXmlText (escape text) ↔ IsXmlText text := by
  induction text with
  | nil => rfl
  | cons c text ih =>
    rw [escape_cons, isXmlText_append, isXmlText_escapeChar, ih, isXmlText_cons]

theorem isXmlChar_of_le {c : Char} (hmin : 0x20 ≤ c.toNat) (hmax : c.toNat < 0x80) :
    isXmlChar c = true := by
  have hle : c.toNat ≤ 0xD7FF := by omega
  simp [isXmlChar, hmin, hle]

theorem isXmlChar_of_isNameChar {c : Char} (h : isNameChar c = true) : isXmlChar c = true := by
  simp only [isNameChar, Bool.or_eq_true, beq_iff_eq] at h
  rcases h with (((halphanum | rfl) | rfl) | rfl) | rfl
  · change (decide (65 ≤ c.val ∧ c.val ≤ 90) || decide (97 ≤ c.val) && decide (c.val ≤ 122) ||
      decide (48 ≤ c.val) && decide (c.val ≤ 57)) = true at halphanum
    simp only [Bool.or_eq_true, Bool.and_eq_true, decide_eq_true_eq, UInt32.le_iff_toNat_le]
      at halphanum
    change ((65 ≤ c.toNat ∧ c.toNat ≤ 90) ∨ 97 ≤ c.toNat ∧ c.toNat ≤ 122) ∨
      48 ≤ c.toNat ∧ c.toNat ≤ 57 at halphanum
    exact isXmlChar_of_le (by omega) (by omega)
  all_goals decide

@[simp]
theorem Name.isXmlText (name : Name) : IsXmlText name.text :=
  fun c hc ↦ isXmlChar_of_isNameChar (List.all_eq_true.mp name.isNameChar c hc)

/-- All texts in a content, and all values of attributes, are as wanted. -/
def Content.All (ok : List Char → Prop) : Content → Prop
  | .done text => ok text
  | .leaf text _ attributes rest => ok text ∧ (∀ item ∈ attributes, ok item.2) ∧ rest.All ok
  | .node text _ attributes children rest =>
    ok text ∧ (∀ item ∈ attributes, ok item.2) ∧ children.All ok ∧ rest.All ok

/-- All texts and values in an element are as wanted. -/
def Element.All (ok : List Char → Prop) (element : Element) : Prop :=
  (∀ item ∈ element.attributes, ok item.2) ∧ ∀ content ∈ element.content, content.All ok

@[simp]
theorem isXmlText_writeAttributes (attributes : Attributes) :
    IsXmlText (writeAttributes attributes) ↔ ∀ item ∈ attributes, IsXmlText item.2 := by
  have hmarks : isXmlChar ' ' = true ∧ isXmlChar '=' = true ∧ isXmlChar '"' = true := by decide
  induction attributes with
  | nil => simp [writeAttributes]
  | cons item attributes ih =>
    rw [writeAttributes_cons]
    simp [hmarks, ih]

/-- What is written of a content has characters of XML 1.0 only if all texts and values do. -/
theorem isXmlText_write (content : Content) : IsXmlText content.write ↔ content.All IsXmlText := by
  have hmarks : isXmlChar '<' = true ∧ isXmlChar '>' = true ∧ isXmlChar '/' = true := by decide
  induction content with
  | done text => exact isXmlText_escape text
  | leaf text name attributes rest ih =>
    simp [Content.write, Content.All, emptyTag, hmarks, ih]
  | node text name attributes children rest ihChildren ihRest =>
    simp [Content.write, Content.All, openTag, closeTag, hmarks, ihChildren, ihRest]

section All

variable {ok : List Char → Prop}

@[simp]
theorem Element.ofText_all (name : Name) (attributes : Attributes) (text : List Char) :
    (Element.ofText name attributes text).All ok ↔ (∀ item ∈ attributes, ok item.2) ∧ ok text := by
  simp [Element.ofText, Element.All, Content.All]

theorem Content.cons_all (text : List Char) (element : Element) (rest : Content) :
    (Content.cons text element rest).All ok ↔ ok text ∧ element.All ok ∧ rest.All ok := by
  obtain ⟨name, attributes, content⟩ := element
  cases content <;> simp [Content.cons, Content.All, Element.All, and_assoc]

theorem Content.block_all {before last : List Char} (hbefore : ok before) (hlast : ok last)
    (elements : List Element) :
    (Content.block before elements last).All ok ↔ ∀ element ∈ elements, element.All ok := by
  induction elements with
  | nil => simpa [block, Content.All] using hlast
  | cons element elements ih =>
    rw [block, List.foldr_cons, cons_all, ← block, ih, List.forall_mem_cons, and_iff_right hbefore]

end All

end ComicStream.Xml

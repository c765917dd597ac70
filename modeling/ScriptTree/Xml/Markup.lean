import ScriptTree.Json.Lenient
import ScriptTree.Text.Search
import ScriptTree.Xml.Event

/-!
# Reading markup

Turns a text into its events. End tags must name the innermost open element; an element that is
still open at the end of the text is left to the consumer.
-/

set_option autoImplicit false

namespace ScriptTree.Xml

/-- A blank of markup. -/
def isSpace (c : Char) : Bool := c == ' ' || c == '\t' || c == '\n' || c == '\r'

/-- The text without blanks of markup at its end. -/
def trimSpaceEnd (s : List Char) : List Char := (s.reverse.dropWhile isSpace).reverse

/-- The code of a numeric reference: decimal digits, or hexadecimal ones after an `x`. -/
def referenceCode? (s : List Char) : Option Nat :=
  match s with
  | 'x' :: digits => if digits.isEmpty then none else Json.Lenient.hexValue? digits
  | digits =>
      if !digits.isEmpty && digits.all Char.isDigit then some (Number.digitsValue digits) else none

/-- The text that a reference between `&` and `;` stands for. -/
def resolveReference? (name : List Char) : Option (List Char) :=
  match name with
  | '#' :: code =>
      (referenceCode? code).bind fun n =>
        if n ≠ 0 ∧ n.isValidChar then some [Char.ofNat n] else none
  | _ =>
      if name == "lt".toList then some ['<']
      else if name == "gt".toList then some ['>']
      else if name == "amp".toList then some ['&']
      else if name == "apos".toList then some ['\'']
      else if name == "quot".toList then some ['"']
      else none

/-- Resolves the references of a text. While a reference is open, `pending` holds its characters
in reverse. -/
def resolveFrom : Option (List Char) → List Char → Option (List Char)
  | none, [] => some []
  | some _, [] => none
  | none, c :: rest =>
      if c == '&' then resolveFrom (some []) rest else (resolveFrom none rest).map (c :: ·)
  | some pending, c :: rest =>
      if c == ';' then do
        let found ← resolveReference? pending.reverse
        (resolveFrom none rest).map (found ++ ·)
      else if c == '&' then none
      else resolveFrom (some (c :: pending)) rest

/-- The text with its references resolved. -/
def unescape? (s : List Char) : Option String := (resolveFrom none s).map String.ofList

/-- One attribute at the front of a tag's text after its blanks: the key up to `=` or a blank, and
a quoted value. -/
def readAttribute? (s : List Char) : Option (List Char × List Char × List Char) :=
  match s with
  | [] => none
  | first :: rest =>
      let key := first :: rest.takeWhile fun c => !(c == '=' || isSpace c)
      match (s.drop key.length).dropWhile isSpace with
      | '=' :: rest =>
          match rest.dropWhile isSpace with
          | quote :: rest =>
              if quote == '"' || quote == '\'' then
                let value := rest.takeWhile (· != quote)
                if value.length < rest.length then
                  some (key, value, rest.drop (value.length + 1))
                else none
              else none
          | [] => none
      | _ => none

/-- The attributes of a tag's text from the left, up to the first that is malformed or repeats a
key, and whether all were sound. -/
def readAttributes (seen : List (List Char)) : Nat → List Char → List Attribute × Bool
  | 0, _ => ([], false)
  | fuel + 1, s =>
      match s.dropWhile isSpace with
      | [] => ([], true)
      | s =>
          match readAttribute? s with
          | none => ([], false)
          | some (key, value, rest) =>
              if seen.contains key then ([], false)
              else
                let (others, sound) := readAttributes (key :: seen) fuel rest
                (⟨String.ofList key, unescape? value⟩ :: others, sound)

/-- The tag of the text between its angle brackets. -/
def Tag.ofChars (s : List Char) : Tag :=
  let name := s.takeWhile fun c => !isSpace c
  let (attributes, sound) := readAttributes [] (s.length + 1) (s.drop name.length)
  ⟨String.ofList name, attributes, sound⟩

/-- Cuts a text at the first `>` outside quotes: the part before it and the part after. -/
def cutTag (quote : Option Char) : List Char → Option (List Char × List Char)
  | [] => none
  | c :: rest =>
      match quote with
      | some q =>
          (cutTag (if c == q then none else some q) rest).map fun (a, b) => (c :: a, b)
      | none =>
          if c == '>' then some ([], rest)
          else
            (cutTag (if c == '"' || c == '\'' then some c else none) rest).map
              fun (a, b) => (c :: a, b)

/-- Cuts a text at the first `>` whose preceding part, given in reverse, satisfies a condition. -/
def cutWhere (accept : List Char → Bool) (before : List Char) :
    List Char → Option (List Char × List Char)
  | [] => none
  | c :: rest =>
      if c == '>' && accept before then some (before.reverse, rest)
      else cutWhere accept (c :: before) rest

/-- As many `<` as `>` stand in a text. -/
def balanced (s : List Char) : Bool := s.count '<' == s.count '>'

/-- A declaration after `<`, which starts with `!`: character data, a comment or a document type. -/
def readDeclaration? (s : List Char) : Option (Event × List Char) :=
  match s with
  -- Character data ends at the first `]]>`; the part before `>` keeps both brackets.
  | '!' :: '[' :: _ => do
      let (body, rest) ← cutWhere (fun b => [']', ']'].isPrefixOf b) [] s
      if "![CDATA[".toList.isPrefixOf body then
        some (.data (String.ofList ((body.drop 8).dropLast.dropLast)), rest)
      else none
  -- The dashes that open a comment do not close it as well, hence the length.
  | '!' :: '-' :: _ => do
      let (body, rest) ← cutWhere (fun b => ['-', '-'].isPrefixOf b && 4 < b.length) [] s
      if "!--".toList.isPrefixOf body then some (.aside, rest) else none
  -- A document type may hold declarations of its own, so its brackets have to balance.
  | '!' :: d :: _ =>
      if d == 'D' || d == 'd' then do
        let (body, rest) ← cutWhere balanced [] s
        if (body.take 8).map Char.toLower == "!doctype".toList &&
            !((body.drop 8).dropWhile isSpace).isEmpty then
          some (.aside, rest)
        else none
      else none
  | _ => none

/-- The name of an end tag. A name of blanks alone stays as it is. -/
def endName (s : List Char) : List Char :=
  let name := trimSpaceEnd s
  if name.isEmpty then s else name

/-- Reads the markup after a `<`: its event, the names of the open elements then, and the rest. -/
def readMarkup? (opened : List String) (s : List Char) :
    Option (Event × List String × List Char) :=
  match s with
  | [] => none
  | '!' :: _ => (readDeclaration? s).map fun (event, rest) => (event, opened, rest)
  | '/' :: rest => do
      let (body, rest) ← cutTag none rest
      match opened with
      | [] => none
      | expected :: outer =>
          if String.ofList (endName body) == expected then some (.stop expected, outer, rest)
          else none
  | '?' :: _ => do
      let (body, rest) ← cutWhere (fun b => b.head? == some '?') [] s
      if 1 < body.length then some (.aside, opened, rest) else none
  | _ => do
      let (body, rest) ← cutTag none s
      if body.getLast? == some '/' then some (.empty (Tag.ofChars body.dropLast), opened, rest)
      else
        let tag := Tag.ofChars body
        some (.start tag, tag.name :: opened, rest)

/-- The events of a text, given the names of the open elements. -/
def readEvents (opened : List String) : Nat → List Char → Reading
  | 0, _ => ⟨[], false⟩
  | fuel + 1, s =>
      let s := s.dropWhile isSpace
      let raw := s.takeWhile (· != '<')
      let markup := s.drop raw.length
      let after : Reading :=
        match markup with
        | [] => ⟨[], true⟩
        | _ :: inside =>
            match readMarkup? opened inside with
            | none => ⟨[], false⟩
            | some (event, opened, rest) => (readEvents opened fuel rest).cons event
      if raw.isEmpty then after else after.cons (.text (unescape? (trimSpaceEnd raw)))

/-- The events of a whole text; a byte order mark at its front is skipped. -/
def read (text : String) : Reading :=
  let s := match text.toList with
    | c :: rest => if c.toNat == 0xFEFF then rest else c :: rest
    | [] => []
  readEvents [] (s.length + 1) s

end ScriptTree.Xml

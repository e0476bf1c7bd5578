import MessageCatalog.Toml.Scalar
import MessageCatalog.Toml.Table

/-!
TOML 1.1 documents: keys, values with their brackets, headers and lines. A document is read
into its root table, or refused for any error of form or any key that is set twice.
-/

namespace MessageCatalog.Toml

/-- How many arrays and inline tables may stand inside one another. -/
def maxDepth : Nat := 80

def isBareKeyChar (c : Char) : Bool := c.isAlphanum || c = '_' || c = '-'

def readKeyPart (cs : List Char) : Option (String × List Char) :=
  match cs.takeWhile isBareKeyChar with
  | [] => (readShortString? cs).map fun (text, rest) => (String.ofList text, rest)
  | part => some (String.ofList part, cs.dropWhile isBareKeyChar)

def maxKeyParts : Nat := 80

/-- Reads parts joined by dots, with spaces around them, at most `room` of them. -/
def readKeyParts : (room : Nat) → List Char → Option (List String × List Char)
  | 0, _ => none
  | room + 1, cs =>
    match readKeyPart (skipSpaces cs) with
    | none => none
    | some (part, rest) =>
      match skipSpaces rest with
      | '.' :: more => (readKeyParts room more).map fun (parts, rest) => (part :: parts, rest)
      | after => some ([part], after)

def readKey (cs : List Char) : Option (List String × List Char) := readKeyParts maxKeyParts cs

/-- Skips spaces, line breaks and comments; refuses what is neither these nor allowed in them. -/
def skipGaps (inComment : Bool) : List Char → Option (List Char)
  | [] => some []
  | '\r' :: '\n' :: rest => skipGaps false rest
  | c :: rest =>
    if c = '\n' then skipGaps false rest
    else if inComment then if isPlain c then skipGaps true rest else none
    else if isSpace c then skipGaps false rest
    else if c = '#' then skipGaps true rest
    else some (c :: rest)

/-- Takes the sign between key and value in an inline table, with the gaps after it. -/
def afterEquals? : List Char → Option (List Char)
  | '=' :: rest => skipGaps false rest
  | _ => none

mutual

/-- Reads a value. `room` is how many levels of nesting are left; `fuel` bounds the recursion and
never runs out when it exceeds three times the length of the text. -/
def readValue : (fuel room : Nat) → List Char → Option (Value × List Char)
  | 0, _, _ => none
  | fuel + 1, room, cs =>
    match cs with
    | [] => none
    | c :: rest =>
      if c = '"' || c = '\'' then
        (readString? cs).map fun (text, after) => (.string (String.ofList text), after)
      else if c = '[' then
        match room with
        | 0 => none
        | room + 1 => (readItems fuel room rest).map fun (items, after) => (.array items, after)
      else if c = '{' then
        match room with
        | 0 => none
        | room + 1 => (readMembers fuel room .empty rest).map fun (table, after) =>
            (.table table.toTable, after)
      else
        let (token, after) := takeToken cs
        (scalar? token).map fun value => (value, after)

/-- Reads the items of an array up to and with the closing bracket; a comma may stand after the
last one. -/
def readItems : (fuel room : Nat) → List Char → Option (List Value × List Char)
  | 0, _, _ => none
  | fuel + 1, room, cs =>
    match skipGaps false cs with
    | none => none
    | some (']' :: after) => some ([], after)
    | some cs =>
      match readValue fuel room cs with
      | none => none
      | some (item, rest) =>
        match skipGaps false rest with
        | some (',' :: more) =>
          (readItems fuel room more).map fun (items, after) => (item :: items, after)
        | some (']' :: after) => some ([item], after)
        | _ => none

/-- Reads the members of an inline table into `table`, up to and with the closing brace. Lines may
break anywhere but within a key. -/
def readMembers : (fuel room : Nat) → OpenTable → List Char → Option (OpenTable × List Char)
  | 0, _, _, _ => none
  | fuel + 1, room, table, cs =>
    match skipGaps false cs with
    | none => none
    | some ('}' :: after) => some (table, after)
    | some cs =>
      match readKey cs with
      | none => none
      | some (path, rest) =>
        match (skipGaps false rest).bind afterEquals? with
        | none => none
        | some cs =>
          match readValue fuel room cs with
          | none => none
          | some (value, rest) =>
            match table.assign value path with
            | none => none
            | some table =>
              match skipGaps false rest with
              | some (',' :: more) => readMembers fuel room table more
              | some ('}' :: after) => some (table, after)
              | _ => none

end

/-- Skips the spaces and the comment that may end a line, and the line break. -/
def endLine? (cs : List Char) : Option (List Char) :=
  let rest := match skipSpaces cs with
    | '#' :: comment => comment.dropWhile isPlain
    | rest => rest
  match rest with
  | [] => some []
  | _ => lineBreak? rest

/-- The root table and the header under which the next line stands. -/
structure Draft where
  root : OpenTable
  header : List String

def readHeader (draft : Draft) (cs : List Char) : Option (Draft × List Char) :=
  match cs with
  | '[' :: rest =>
    match readKey rest with
    | some (path, ']' :: ']' :: after) =>
      (draft.root.openItem path).map fun root => (⟨root, path⟩, after)
    | _ => none
  | _ =>
    match readKey cs with
    | some (path, ']' :: after) =>
      (draft.root.openHeader path).map fun root => (⟨root, path⟩, after)
    | _ => none

def readAssignment (draft : Draft) (cs : List Char) : Option (Draft × List Char) :=
  match readKey cs with
  | some (path, '=' :: rest) =>
    match readValue (3 * rest.length + 3) maxDepth (skipSpaces rest) with
    | none => none
    | some (value, after) =>
      (draft.root.assignUnder draft.header path value).map fun root =>
        ({ draft with root := root }, after)
  | _ => none

/-- Reads the lines of a document; the fuel exceeds their number. -/
def readLinesInto : (fuel : Nat) → Draft → List Char → Option OpenTable
  | 0, _, _ => none
  | fuel + 1, draft, cs =>
    match skipGaps false cs with
    | none => none
    | some [] => some draft.root
    | some ('[' :: rest) => (readHeader draft rest).bind fun (draft, after) =>
        (endLine? after).bind fun rest => readLinesInto fuel draft rest
    | some cs => (readAssignment draft cs).bind fun (draft, after) =>
        (endLine? after).bind fun rest => readLinesInto fuel draft rest

def skipByteOrderMark : List Char → List Char
  | '\uFEFF' :: rest => rest
  | cs => cs

def parse? (text : String) : Option (OrderedMap String Value) :=
  let cs := skipByteOrderMark text.toList
  (readLinesInto (cs.length + 1) ⟨.empty, []⟩ cs).map OpenTable.toTable

end MessageCatalog.Toml

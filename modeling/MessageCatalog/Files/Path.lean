import MessageCatalog.Text.Parts
import MessageCatalog.Text.Utf8

/-!
Paths as bytes. Joining is textual: nothing is resolved or normalised, an absolute path
replaces what it is joined to, and joining the empty path adds a slash.
-/

namespace MessageCatalog.Files

abbrev Name := Bytes

structure Path where
  bytes : Bytes
  deriving DecidableEq, Repr

inductive PathStep where
  | here
  | up
  | into (name : Name)
  deriving DecidableEq, Repr

namespace Path

def slash : UInt8 := 47

def dot : UInt8 := 46

def ofString (text : String) : Path := ⟨Text.toUtf8 text⟩

/-- The path as text, with U+FFFD for bytes that are not UTF-8. -/
def display (path : Path) : String := Text.ofUtf8Lenient path.bytes

def isAbsolute (path : Path) : Bool := path.bytes.head? == some slash

def join (base path : Path) : Path :=
  if path.isAbsolute || base.bytes.isEmpty then path
  else if base.bytes.getLast? == some slash then ⟨base.bytes ++ path.bytes⟩
  else ⟨base.bytes ++ slash :: path.bytes⟩

/-- The steps of a path. An empty component stays where it is, which must be a directory. -/
def steps (path : Path) : List PathStep :=
  (Text.parts (· == slash) path.bytes).map fun component =>
    if component == [] || component == [dot] then .here
    else if component == [dot, dot] then .up
    else .into component

/-- The last component is a dot, with or without slashes after it. -/
def endsInDot (path : Path) : Bool :=
  ((Text.parts (· == slash) path.bytes).filter (· ≠ [])).getLast? == some [dot]

/-- The part of a file name after its last dot. A dot at the very start begins no extension. -/
def extension? (name : Name) : Option Bytes :=
  let reversed := name.reverse
  match reversed.dropWhile (· ≠ dot) with
  | _ :: stem => if stem.isEmpty || name == [dot, dot] then none
      else some (reversed.takeWhile (· ≠ dot)).reverse
  | [] => none

end Path

end MessageCatalog.Files

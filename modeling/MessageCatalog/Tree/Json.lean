import MessageCatalog.Json.Writer
import MessageCatalog.Tree.Basic
import MessageCatalog.Tree.Fault

/-!
Trees as JSON values. A message is a string, a list is an array of strings and nulls,
and a namespace is an object; no other value is a tree. Reading stops at the first fault in document
order and reports the dotted path that leads to it.
-/

namespace MessageCatalog

open Json (Value)

def itemToJson : Option String → Value
  | some text => .string text
  | none => .null

namespace Tree

mutual

def toJson : Tree → Value
  | .leaf text => .string text
  | .list items => .array (items.map itemToJson)
  | .nested ⟨entries⟩ => .object ⟨entriesToJson entries⟩

def entriesToJson : List (String × Tree) → List (String × Value)
  | [] => []
  | (name, tree) :: rest => (name, tree.toJson) :: entriesToJson rest

end

/-- The path of `name` below `parent`. The root has the empty path, and so has every namespace
that only empty names lead to: an empty path is not written. -/
def joinPath (parent name : String) : String :=
  if parent.isEmpty then name else parent ++ "." ++ name

/-- Reads the items of the list at `path`, the first of which has the given index. -/
def itemsOfJson (path : String) (index : Nat) : List Value → Except Fault (List (Option String))
  | [] => .ok []
  | value :: rest => do
    let item ← match value with
      | .string text => .ok (some text)
      | .null => .ok none
      | other => .error (.unsupportedItem path index other.kind)
    let items ← itemsOfJson path (index + 1) rest
    return item :: items

mutual

def ofJsonAt (path : String) : Value → Except Fault Tree
  | .string text => .ok (.leaf text)
  | .array items => (itemsOfJson path 0 items).map .list
  | .object ⟨members⟩ => (entriesOfJson path members).map fun entries => .nested ⟨entries⟩
  | .null => .error (.unsupportedValue path .null)
  | .boolean _ => .error (.unsupportedValue path .boolean)
  | .number _ => .error (.unsupportedValue path .number)

def entriesOfJson (path : String) : List (String × Value) → Except Fault (List (String × Tree))
  | [] => .ok []
  | (name, value) :: rest => do
    let tree ← ofJsonAt (joinPath path name) value
    let entries ← entriesOfJson path rest
    return (name, tree) :: entries

end

def ofJson (value : Value) : Except Fault Tree := ofJsonAt "" value

def jsonText (tree : Tree) : String := tree.toJson.compact

end Tree

namespace Namespace

def toJson (messages : Namespace) : Value := (Tree.nested messages).toJson

/-- Reads the members of an object as one namespace, with paths that start at it. -/
def ofMembers (members : OrderedMap String Value) : Except Fault Namespace :=
  (Tree.entriesOfJson "" members.entries).map OrderedMap.mk

/-- Reads a namespace; the root must be an object. -/
def ofJson : Value → Except Fault Namespace
  | .object members => ofMembers members
  | other => .error (.rootNotObject other.kind)

end Namespace

end MessageCatalog

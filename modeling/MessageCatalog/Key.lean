import MessageCatalog.Text.Digits
import MessageCatalog.Text.Parts
import MessageCatalog.Tree.Basic

/-!
Message keys such as `menu.items[2]`: names joined by dots, each with an optional index into a
list. A part that ends in a closing bracket must be a name with an index; a key with any other
such part is refused. A key finds a message by walking namespaces to the place its last part
names.
-/

namespace MessageCatalog

structure Segment where
  name : String
  index : Option Nat
  deriving DecidableEq, Repr

structure Key where
  segments : List Segment
  deriving DecidableEq, Repr

namespace Segment

/-- Reads a part. In a part that ends in a closing bracket the index stands after the last
opening bracket, and everything before that is the name. -/
def parse? (part : List Char) : Option Segment :=
  match part.reverse with
  | ']' :: inner =>
    match inner.dropWhile (· ≠ '[') with
    | '[' :: name =>
      (Text.index? (inner.takeWhile (· ≠ '[')).reverse).map fun index =>
        ⟨String.ofList name.reverse, some index⟩
    | _ => none
  | _ => some ⟨String.ofList part, none⟩

/-- The name, followed by the bracketed index if there is one. -/
def print (segment : Segment) : List Char :=
  match segment.index with
  | none => segment.name.toList
  | some index => segment.name.toList ++ '[' :: Nat.toDigits 10 index ++ [']']

end Segment

namespace Key

def parse? (raw : String) : Option Key :=
  ((Text.parts (· == '.') raw.toList).mapM Segment.parse?).map Key.mk

def print (key : Key) : String := String.ofList (Text.join '.' (key.segments.map Segment.print))

/-- The message that the node at the end of a key holds, if the index fits the node. -/
def messageAt : Tree → Option Nat → Option String
  | .leaf text, none => some text
  | .list items, some index => (items[index]?).join
  | _, _ => none

/-- Walks from the root: every part but the last must name a namespace and bear no index. -/
def walk (root : Namespace) : List Segment → Option String
  | [] => none
  | [last] => (root.find? last.name).bind fun tree => messageAt tree last.index
  | segment :: next :: others =>
    match root.find? segment.name, segment.index with
    | some (.nested messages), none => walk messages (next :: others)
    | _, _ => none

def resolveIn (key : Key) (root : Namespace) : Option String := walk root key.segments

end Key

def Namespace.resolve (root : Namespace) (raw : String) : Option String :=
  (Key.parse? raw).bind fun key => key.resolveIn root

end MessageCatalog

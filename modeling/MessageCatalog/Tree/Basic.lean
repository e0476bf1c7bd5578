import MessageCatalog.OrderedMap

/-!
Message trees. A node is a message, a list of messages with holes, or a namespace that holds
further nodes by name, in order.
-/

namespace MessageCatalog

/-- A hole in a list is a place that was never filled; it differs from an empty message. -/
inductive Tree where
  | leaf (text : String)
  | list (items : List (Option String))
  | nested (messages : OrderedMap String Tree)

abbrev Namespace := OrderedMap String Tree

namespace Tree

instance : Inhabited Tree := ⟨.list []⟩

def text? : Tree → Option String
  | .leaf text => some text
  | _ => none

def messages? : Tree → Option Namespace
  | .nested messages => some messages
  | _ => none

def isNamespace (tree : Tree) : Bool := tree.messages?.isSome

def ofTexts (texts : List String) : Tree := .list (texts.map some)

mutual

instance decideEq : (tree other : Tree) → Decidable (tree = other)
  | .leaf text, .leaf other => decidable_of_iff (text = other) (by simp)
  | .list items, .list others => decidable_of_iff (items = others) (by simp)
  | .nested ⟨entries⟩, .nested ⟨others⟩ =>
    have : Decidable (entries = others) := decideEqBelow entries others
    decidable_of_iff (entries = others) (by simp)
  | .leaf _, .list _ | .leaf _, .nested _ | .list _, .leaf _ | .list _, .nested _
  | .nested _, .leaf _ | .nested _, .list _ => isFalse nofun

instance decideEqBelow : (entries others : List (String × Tree)) → Decidable (entries = others)
  | [], [] => isTrue rfl
  | [], _ :: _ | _ :: _, [] => isFalse nofun
  | (name, tree) :: rest, (otherName, other) :: others =>
    have : Decidable (tree = other) := decideEq tree other
    have : Decidable (rest = others) := decideEqBelow rest others
    decidable_of_iff ((name = otherName ∧ tree = other) ∧ rest = others) (by simp)

end

mutual

/-- No namespace of the tree, at any level, holds a name twice. -/
def DistinctNames : Tree → Prop
  | .leaf _ => True
  | .list _ => True
  | .nested ⟨entries⟩ => (entries.map Prod.fst).Nodup ∧ DistinctBelow entries

/-- No namespace inside the trees of these entries holds a name twice. -/
def DistinctBelow : List (String × Tree) → Prop
  | [] => True
  | (_, tree) :: rest => tree.DistinctNames ∧ DistinctBelow rest

end

mutual

instance decideDistinctNames : (tree : Tree) → Decidable tree.DistinctNames
  | .leaf _ => isTrue trivial
  | .list _ => isTrue trivial
  | .nested ⟨entries⟩ =>
    have : Decidable (DistinctBelow entries) := decideDistinctBelow entries
    inferInstanceAs (Decidable ((entries.map Prod.fst).Nodup ∧ DistinctBelow entries))

instance decideDistinctBelow : (entries : List (String × Tree)) → Decidable (DistinctBelow entries)
  | [] => isTrue trivial
  | (_, tree) :: rest =>
    have : Decidable tree.DistinctNames := decideDistinctNames tree
    have : Decidable (DistinctBelow rest) := decideDistinctBelow rest
    inferInstanceAs (Decidable (tree.DistinctNames ∧ DistinctBelow rest))

end

mutual

/-- How many lists and namespaces stand inside one another. -/
def depth : Tree → Nat
  | .leaf _ => 0
  | .list _ => 1
  | .nested ⟨entries⟩ => 1 + depthBelow entries

def depthBelow : List (String × Tree) → Nat
  | [] => 0
  | (_, tree) :: rest => max tree.depth (depthBelow rest)

end

/-- A property of trees follows when it holds of messages, of lists, and of every namespace
whose members have it. -/
theorem induction {property : Tree → Prop}
    (leaf : ∀ text, property (.leaf text))
    (list : ∀ items, property (.list items))
    (nested : ∀ messages : Namespace,
      (∀ entry ∈ messages.entries, property entry.2) → property (.nested messages)) :
    ∀ tree, property tree
  | .leaf text => leaf text
  | .list items => list items
  | .nested ⟨entries⟩ => nested ⟨entries⟩ (members entries)
where
  members : ∀ entries : List (String × Tree), ∀ entry ∈ entries, property entry.2
    | [], _, member => nomatch member
    | (_, tree) :: rest, entry, member => by
        cases member with
        | head => exact induction leaf list nested tree
        | tail _ member => exact members rest entry member

end Tree

namespace Namespace

/-- No namespace inside this one, nor this one itself, holds a name twice. -/
def DistinctNames (messages : Namespace) : Prop := (Tree.nested messages).DistinctNames

instance (messages : Namespace) : Decidable messages.DistinctNames :=
  inferInstanceAs (Decidable (Tree.nested messages).DistinctNames)

end Namespace

end MessageCatalog

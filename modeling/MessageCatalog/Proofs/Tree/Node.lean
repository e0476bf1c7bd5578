import MessageCatalog.Key
import MessageCatalog.Proofs.OrderedMap

/-!
Nodes at paths of names, and how a key is resolved through them: the names of a key lead to one
node, and the indices decide whether that node yields a message.
-/

namespace MessageCatalog

namespace Tree

/-- The node that a path of names leads to from here; only namespaces can be passed through. -/
def at? : Tree → List String → Option Tree
  | tree, [] => some tree
  | .nested messages, name :: path => (messages.find? name).bind fun tree => tree.at? path
  | _, _ :: _ => none

@[simp] theorem at?_nil (tree : Tree) : tree.at? [] = some tree := by
  cases tree <;> rfl

theorem plain_or_nested (tree : Tree) :
    tree.isNamespace = false ∨ ∃ messages : Namespace, tree = .nested messages := by
  cases tree with
  | leaf | list => exact Or.inl rfl
  | nested messages => exact Or.inr ⟨messages, rfl⟩

theorem at?_of_not_nested {tree found : Tree} {path : List String}
    (plain : tree.isNamespace = false) (reached : tree.at? path = some found) :
    path = [] ∧ found = tree := by
  cases path with
  | nil =>
      rw [at?_nil] at reached
      exact ⟨rfl, (Option.some.inj reached).symm⟩
  | cons name path =>
      cases tree with
      | leaf | list => simp [at?] at reached
      | nested messages => simp [isNamespace, messages?] at plain

/-- Only a namespace has a namespace at or below it. -/
theorem exists_nested_of_at? {tree : Tree} {path : List String} {inner : Namespace}
    (reached : tree.at? path = some (.nested inner)) :
    ∃ messages : Namespace, tree = .nested messages := by
  rcases tree.plain_or_nested with plain | nested
  · obtain ⟨_, rfl⟩ := at?_of_not_nested plain reached
    cases plain
  · exact nested

end Tree

namespace Namespace

def nodeAt? (messages : Namespace) (path : List String) : Option Tree :=
  (Tree.nested messages).at? path

@[simp] theorem nodeAt?_nil (messages : Namespace) :
    messages.nodeAt? [] = some (.nested messages) := rfl

theorem nodeAt?_cons (messages : Namespace) (name : String) (path : List String) :
    messages.nodeAt? (name :: path) = (messages.find? name).bind fun tree => tree.at? path := rfl

theorem nodeAt?_cons_of_nested {messages inner : Namespace} {name : String}
    (found : messages.find? name = some (.nested inner)) (path : List String) :
    messages.nodeAt? (name :: path) = inner.nodeAt? path := by
  rw [nodeAt?_cons, found]
  rfl

theorem nodeAt?_cons_eq_some_iff {messages : Namespace} {name : String} {path : List String}
    {node : Tree} :
    messages.nodeAt? (name :: path) = some node ↔
      ∃ tree, messages.find? name = some tree ∧ tree.at? path = some node :=
  Option.bind_eq_some_iff

end Namespace

namespace Key

def names (key : Key) : List String := key.segments.map Segment.name

/-- The message that the parts of a key take from the node at their end. Only the last part may
bear an index. -/
def messageOf (tree : Tree) : List Segment → Option String
  | [] => none
  | [last] => messageAt tree last.index
  | segment :: next :: others =>
    match segment.index with
    | none => messageOf tree (next :: others)
    | some _ => none

theorem messageOf_nested (messages : Namespace) (segments : List Segment) :
    messageOf (.nested messages) segments = none := by
  fun_induction messageOf (.nested messages) segments with
  | case1 => rfl
  | case2 last => simp [messageAt]
  | case3 segment next others plain ih => exact ih
  | case4 => rfl

theorem walk_eq (root : Namespace) (segments : List Segment) :
    walk root segments =
      (root.nodeAt? (segments.map Segment.name)).bind fun tree => messageOf tree segments := by
  fun_induction walk root segments with
  | case1 root => rfl
  | case2 root last => simp [Namespace.nodeAt?_cons, messageOf]
  | case3 root segment next others inner found plain ih =>
      simp only [List.map_cons, Namespace.nodeAt?_cons, found, Option.bind_some, messageOf, plain]
      exact ih
  | case4 root segment next others stuck =>
      cases index : segment.index with
      | some index => simp [messageOf, index]
      | none =>
          cases found : root.find? segment.name with
          | none => simp [Namespace.nodeAt?_cons, found]
          | some tree =>
              cases tree with
              | nested inner => exact absurd index (stuck inner found)
              | leaf text => simp [Namespace.nodeAt?_cons, found, Tree.at?]
              | list items => simp [Namespace.nodeAt?_cons, found, Tree.at?]

theorem resolveIn_eq (key : Key) (root : Namespace) :
    key.resolveIn root =
      (root.nodeAt? key.names).bind fun tree => messageOf tree key.segments :=
  walk_eq root key.segments

end Key

end MessageCatalog

import MessageCatalog.Tree.Basic

/-!
Merging namespaces. Where both have a namespace under one name, the two are merged; in every
other case the incoming node stands. A name keeps the position of its first appearance.
-/

namespace MessageCatalog.Tree

mutual

/-- The node that results where `incoming` meets what the target has there, if anything. -/
def mergeOver (incoming : Tree) (existing : Option Tree) : Tree :=
  match incoming, existing with
  | .nested ⟨entries⟩, some (.nested target) => .nested (mergeEntries target entries)
  | other, _ => other

def mergeEntries (target : Namespace) : List (String × Tree) → Namespace
  | [] => target
  | (name, incoming) :: rest =>
    mergeEntries (target.insert name (incoming.mergeOver (target.find? name))) rest

end

end MessageCatalog.Tree

namespace MessageCatalog.Namespace

def merge (target incoming : Namespace) : Namespace := Tree.mergeEntries target incoming.entries

end MessageCatalog.Namespace

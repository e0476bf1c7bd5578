import Mathlib.Data.List.Perm.Subperm
import MessageCatalog.Proofs.Merge.Lookup
import MessageCatalog.Proofs.Tree.Node

/-!
Containment. A tree is contained in another one when everything it holds is held there in the same
place, in whatever order. Trees have the same content when each contains the other, which is what
comparing their sizes and looking up every entry finds out.
-/

namespace MessageCatalog

namespace OrderedMap

variable {κ α : Type} [DecidableEq κ]

/-- Under the key of each entry the other map has a value that the entry's value relates to. -/
def Within (related : α → α → Prop) (map others : OrderedMap κ α) : Prop :=
  ∀ entry ∈ map.entries, ∃ other, others.find? entry.1 = some other ∧ related entry.2 other

instance (related : α → α → Prop) [∀ value other, Decidable (related value other)]
    (map others : OrderedMap κ α) : Decidable (map.Within related others) :=
  inferInstanceAs (Decidable
    (∀ entry ∈ map.entries, ∃ other ∈ others.find? entry.1, related entry.2 other))

variable {related : α → α → Prop} {first second : OrderedMap κ α}

theorem Within.find? (within : first.Within related second) {key : κ} {value : α}
    (found : first.find? key = some value) :
    ∃ other, second.find? key = some other ∧ related value other :=
  within (key, value) (mem_of_findIn found)

theorem Within.keys_subset (within : first.Within related second) : first.keys ⊆ second.keys := by
  intro key known
  obtain ⟨value, found⟩ := exists_find?_of_mem_keys known
  obtain ⟨other, there, _⟩ := within.find? found
  by_contra absent
  rw [(find?_eq_none_iff second key).mpr absent] at there
  cases there

/-- Maps of one size, each entry of the first found in the second, are within each other. -/
theorem within_and_within_iff (firstDistinct : first.Distinct) (secondDistinct : second.Distinct) :
    first.Within related second ∧ second.Within related first ↔
      first.size = second.size ∧
        first.Within (fun value other => related value other ∧ related other value) second := by
  have size (map : OrderedMap κ α) : map.size = map.keys.length := (List.length_map _).symm
  constructor
  · rintro ⟨there, back⟩
    constructor
    · rw [size, size]
      exact Nat.le_antisymm (List.Nodup.subperm firstDistinct there.keys_subset).length_le
        (List.Nodup.subperm secondDistinct back.keys_subset).length_le
    · intro entry member
      obtain ⟨other, found, forth⟩ := there entry member
      obtain ⟨value, again, reverse⟩ := back.find? found
      rw [find?_of_mem firstDistinct member] at again
      cases again
      exact ⟨other, found, forth, reverse⟩
  · rintro ⟨sizes, within⟩
    have there : first.Within related second := by
      intro entry member
      obtain ⟨other, found, forth, _⟩ := within entry member
      exact ⟨other, found, forth⟩
    refine ⟨there, fun entry member => ?_⟩
    have smaller := List.Nodup.subperm firstDistinct there.keys_subset
    have lengths : first.keys.length = second.keys.length := by rw [← size, ← size, sizes]
    have keys : first.keys.Perm second.keys := smaller.perm_of_length_le (Nat.le_of_eq lengths.symm)
    have known : entry.1 ∈ first.keys := keys.mem_iff.mpr (List.mem_map_of_mem member)
    obtain ⟨value, found⟩ := exists_find?_of_mem_keys known
    obtain ⟨other, again, _, reverse⟩ := within.find? found
    rw [find?_of_mem secondDistinct member] at again
    cases again
    exact ⟨value, found, reverse⟩

end OrderedMap

namespace Tree

mutual

/-- Everything that the tree holds is held in the same place by the other. -/
def ContainedIn : Tree → Tree → Prop
  | .leaf text, .leaf other => text = other
  | .list items, .list others => items = others
  | .nested ⟨entries⟩, .nested others => EntriesContainedIn entries others
  | _, _ => False

def EntriesContainedIn : List (String × Tree) → Namespace → Prop
  | [], _ => True
  | (name, tree) :: rest, others =>
    (match others.find? name with
      | some other => tree.ContainedIn other
      | none => False) ∧ EntriesContainedIn rest others

end

mutual

instance decideContainedIn : (tree other : Tree) → Decidable (tree.ContainedIn other)
  | .leaf text, .leaf other => inferInstanceAs (Decidable (text = other))
  | .list items, .list others => inferInstanceAs (Decidable (items = others))
  | .nested ⟨entries⟩, .nested others => decideEntriesContainedIn entries others
  | .leaf _, .list _ | .leaf _, .nested _ | .list _, .leaf _ | .list _, .nested _
  | .nested _, .leaf _ | .nested _, .list _ => isFalse not_false

instance decideEntriesContainedIn : (entries : List (String × Tree)) → (others : Namespace) →
    Decidable (EntriesContainedIn entries others)
  | [], _ => isTrue trivial
  | (name, tree) :: rest, others =>
    have : Decidable (EntriesContainedIn rest others) := decideEntriesContainedIn rest others
    match found : others.find? name with
    | some other =>
      have : Decidable (tree.ContainedIn other) := decideContainedIn tree other
      decidable_of_iff (tree.ContainedIn other ∧ EntriesContainedIn rest others)
        (by rw [EntriesContainedIn, found])
    | none => isFalse fun contained => by
      rw [EntriesContainedIn, found] at contained
      exact contained.1

end

theorem entriesContainedIn_iff {entries : List (String × Tree)} {others : Namespace} :
    EntriesContainedIn entries others ↔
      OrderedMap.Within ContainedIn ⟨entries⟩ others := by
  induction entries with
  | nil => exact iff_of_true trivial (List.forall_mem_nil _)
  | cons entry rest ih =>
      rw [EntriesContainedIn, ih]
      refine Iff.trans (and_congr ?_ Iff.rfl) List.forall_mem_cons.symm
      cases others.find? entry.1 <;> simp

theorem containedIn_iff_of_plain {tree other : Tree} (plain : tree.isNamespace = false) :
    tree.ContainedIn other ↔ tree = other := by
  cases tree with
  | leaf | list => cases other <;> simp [ContainedIn]
  | nested messages => cases plain

theorem nested_containedIn_iff {messages : Namespace} {other : Tree} :
    (nested messages).ContainedIn other ↔
      ∃ others : Namespace, other = .nested others ∧ messages.Within ContainedIn others := by
  obtain ⟨entries⟩ := messages
  cases other <;> simp [ContainedIn, entriesContainedIn_iff]

theorem ContainedIn.isNamespace_eq {tree other : Tree} (contained : tree.ContainedIn other) :
    tree.isNamespace = other.isNamespace := by
  rcases tree.plain_or_nested with plain | ⟨messages, rfl⟩
  · rw [(containedIn_iff_of_plain plain).mp contained]
  · obtain ⟨others, rfl, _⟩ := nested_containedIn_iff.mp contained
    rfl

theorem containedIn_refl {tree : Tree} (distinct : tree.DistinctNames) :
    tree.ContainedIn tree := by
  induction tree using Tree.induction with
  | leaf | list => rfl
  | nested messages members =>
      have names : messages.DistinctNames := distinct
      refine nested_containedIn_iff.mpr ⟨messages, rfl, fun entry member => ?_⟩
      exact ⟨entry.2, OrderedMap.find?_of_mem names.distinct member,
        members entry member (names.of_mem member)⟩

theorem ContainedIn.at? {tree other node : Tree} {path : List String}
    (contained : tree.ContainedIn other) (reached : tree.at? path = some node) :
    ∃ found, other.at? path = some found ∧ node.ContainedIn found := by
  induction path generalizing tree other with
  | nil =>
      rw [at?_nil] at reached
      cases reached
      exact ⟨other, at?_nil other, contained⟩
  | cons name path ih =>
      rcases tree.plain_or_nested with plain | ⟨messages, rfl⟩
      · cases (at?_of_not_nested plain reached).1
      · obtain ⟨others, rfl, within⟩ := nested_containedIn_iff.mp contained
        obtain ⟨first, found, below⟩ := Namespace.nodeAt?_cons_eq_some_iff.mp reached
        obtain ⟨second, there, inner⟩ := within.find? found
        obtain ⟨target, reached, contained⟩ := ih inner below
        exact ⟨target, Namespace.nodeAt?_cons_eq_some_iff.mpr ⟨second, there, reached⟩, contained⟩

/-- Neither tree holds anything that the other one lacks; the order of names does not count. -/
def SameContent (tree other : Tree) : Prop := tree.ContainedIn other ∧ other.ContainedIn tree

end Tree

namespace Namespace

def ContainedIn (messages others : Namespace) : Prop :=
  (Tree.nested messages).ContainedIn (.nested others)

instance (messages others : Namespace) : Decidable (messages.ContainedIn others) :=
  inferInstanceAs (Decidable ((Tree.nested messages).ContainedIn (.nested others)))

def SameContent (messages others : Namespace) : Prop :=
  messages.ContainedIn others ∧ others.ContainedIn messages

variable {messages others : Namespace}

theorem containedIn_iff :
    messages.ContainedIn others ↔ messages.Within Tree.ContainedIn others := by
  simp [ContainedIn, Tree.nested_containedIn_iff]

/-- Two namespaces have the same content when they are of one size and every entry of the first is
found in the second with the same content. -/
theorem sameContent_iff (distinct : messages.Distinct) (othersDistinct : others.Distinct) :
    messages.SameContent others ↔
      messages.size = others.size ∧ messages.Within Tree.SameContent others := by
  rw [SameContent, containedIn_iff, containedIn_iff]
  exact OrderedMap.within_and_within_iff distinct othersDistinct

theorem ContainedIn.resolve {raw message : String} (contained : messages.ContainedIn others)
    (answer : messages.resolve raw = some message) : others.resolve raw = some message := by
  obtain ⟨key, parsed, answer⟩ := Option.bind_eq_some_iff.mp answer
  refine Option.bind_eq_some_iff.mpr ⟨key, parsed, ?_⟩
  rw [Key.resolveIn_eq] at answer ⊢
  obtain ⟨node, reached, text⟩ := Option.bind_eq_some_iff.mp answer
  obtain ⟨found, there, same⟩ := Tree.ContainedIn.at? contained reached
  refine Option.bind_eq_some_iff.mpr ⟨found, there, ?_⟩
  rcases node.plain_or_nested with plain | ⟨inner, rfl⟩
  · rwa [← (Tree.containedIn_iff_of_plain plain).mp same]
  · rw [Key.messageOf_nested] at text
    cases text

end Namespace

end MessageCatalog

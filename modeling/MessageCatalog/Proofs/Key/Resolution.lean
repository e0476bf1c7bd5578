import Mathlib.Algebra.Group.Nat.Defs
import MessageCatalog.Proofs.Key.Grammar
import MessageCatalog.Proofs.Tree.Node

/-!
Which keys lead to a message. A message is addressed by the names that lead to it through nested
namespaces, written with dots between them; an item of a list has its index in brackets behind the
last name. A key resolves to a message just when it addresses it in this way.
-/

namespace MessageCatalog

def dotted (names : List String) : List Char := Text.join '.' (names.map String.toList)

namespace Namespace

/-- The text spells out where the message stands. The parents are namespaces inside one another,
and the message is what the last name stands for or an item of the list it stands for. -/
def Addresses (root : Namespace) (raw message : String) : Prop :=
  ∃ (parents : List String) (last : String),
    (∀ name ∈ parents ++ [last], '.' ∉ name.toList) ∧
    (∀ name ∈ parents, ¬EndsInBracket name) ∧
    (∀ start, start <+: parents → ∃ inner, root.nodeAt? start = some (.nested inner)) ∧
    (root.nodeAt? (parents ++ [last]) = some (.leaf message) ∧ ¬EndsInBracket last ∧
        raw.toList = dotted (parents ++ [last]) ∨
      ∃ items digits, root.nodeAt? (parents ++ [last]) = some (.list items) ∧
        digits ≠ [] ∧ (∀ c ∈ digits, c.isDigit = true) ∧
        items[Text.digitsValue digits]? = some (some message) ∧
        raw.toList = dotted (parents ++ [last]) ++ '[' :: digits ++ [']'])

/-- On the way to a node there are only namespaces. -/
theorem exists_nested_of_nodeAt?_append {root : Namespace} {start rest : List String} {node : Tree}
    (reached : root.nodeAt? (start ++ rest) = some node) (onward : rest ≠ []) :
    ∃ inner, root.nodeAt? start = some (.nested inner) := by
  induction start generalizing root with
  | nil => exact ⟨root, rfl⟩
  | cons name start ih =>
      obtain ⟨tree, found, below⟩ := nodeAt?_cons_eq_some_iff.mp reached
      rcases tree.plain_or_nested with plain | ⟨messages, rfl⟩
      · obtain ⟨ended, _⟩ := Tree.at?_of_not_nested plain below
        exact absurd (List.append_eq_nil_iff.mp ended).2 onward
      · obtain ⟨inner, there⟩ := ih below
        exact ⟨inner, nodeAt?_cons_eq_some_iff.mpr ⟨_, found, there⟩⟩

end Namespace

namespace Key

theorem messageAt_eq_some_iff {tree : Tree} {index : Option Nat} {message : String} :
    messageAt tree index = some message ↔
      tree = .leaf message ∧ index = none ∨
        ∃ items position, tree = .list items ∧ index = some position ∧
          items[position]? = some (some message) := by
  cases tree with
  | leaf text => cases index <;> simp [messageAt]
  | list items => cases index <;> simp [messageAt, Option.join_eq_some_iff]
  | nested messages => simp [messageAt]

/-- Segments without indices before a last one. -/
def chain (parents : List String) (last : Segment) : List Segment :=
  parents.map (⟨·, none⟩) ++ [last]

theorem map_name_chain (parents : List String) (last : Segment) :
    (chain parents last).map Segment.name = parents ++ [last.name] := by
  simp [chain, Function.comp_def]

theorem messageOf_eq_some_iff {tree : Tree} {segments : List Segment} {message : String} :
    messageOf tree segments = some message ↔
      ∃ parents last, segments = chain parents last ∧ messageAt tree last.index = some message := by
  fun_induction messageOf tree segments with
  | case1 => simp [chain]
  | case2 last =>
      constructor
      · intro found
        exact ⟨[], last, rfl, found⟩
      · rintro ⟨parents, other, split, found⟩
        cases parents with
        | nil =>
            obtain rfl : last = other := by simpa [chain] using split
            exact found
        | cons parent rest => simp [chain] at split
  | case3 segment next others plain ih =>
      rw [ih]
      obtain ⟨name, index⟩ := segment
      obtain rfl : index = none := plain
      constructor
      · rintro ⟨parents, last, split, found⟩
        exact ⟨name :: parents, last, congrArg _ split, found⟩
      · rintro ⟨parents, last, split, found⟩
        cases parents with
        | nil => simp [chain] at split
        | cons parent rest => exact ⟨rest, last, (List.cons.inj split).2, found⟩
  | case4 segment next others index indexed =>
      simp only [reduceCtorEq, false_iff]
      rintro ⟨parents, last, split, _⟩
      cases parents with
      | nil => simp [chain] at split
      | cons parent rest =>
          obtain ⟨rfl, _⟩ := List.cons.inj split
          cases indexed

theorem forall₂_spelled_chain_iff {texts : List (List Char)} {parents : List String}
    {last : Segment} :
    List.Forall₂ Segment.Spelled texts (chain parents last) ↔
      ∃ ending, texts = parents.map String.toList ++ [ending] ∧
        (∀ name ∈ parents, ¬EndsInBracket name) ∧ Segment.Spelled ending last := by
  induction parents generalizing texts with
  | nil => simp [chain, List.forall₂_cons_right_iff, and_comm]
  | cons name rest ih =>
      rw [show chain (name :: rest) last = ⟨name, none⟩ :: chain rest last from rfl,
        List.forall₂_cons_right_iff]
      constructor
      · rintro ⟨text, others, spelled, later, rfl⟩
        obtain ⟨ending, rfl, unclosed, spelledLast⟩ := ih.mp later
        cases spelled with
        | plain first =>
            exact ⟨ending, rfl, List.forall_mem_cons.mpr ⟨first, unclosed⟩, spelledLast⟩
      · rintro ⟨ending, rfl, unclosed, spelledLast⟩
        obtain ⟨first, later⟩ := List.forall_mem_cons.mp unclosed
        exact ⟨name.toList, _, .plain first, ih.mpr ⟨ending, rfl, later, spelledLast⟩, rfl⟩

end Key

namespace Namespace

variable {root : Namespace} {raw message : String}

/-- The parts of a key that resolves: plain names, and behind them one part that fits the node. -/
theorem resolve_eq_some_iff_spelled :
    root.resolve raw = some message ↔
      ∃ parents last ending tree,
        Text.join '.' (parents.map String.toList ++ [ending]) = raw.toList ∧
        (∀ text ∈ parents.map String.toList ++ [ending], '.' ∉ text) ∧
        (∀ name ∈ parents, ¬EndsInBracket name) ∧ Segment.Spelled ending last ∧
        root.nodeAt? (parents ++ [last.name]) = some tree ∧
        Key.messageAt tree last.index = some message := by
  simp only [resolve, Option.bind_eq_some_iff, Key.resolveIn_eq, Key.parse?_eq_some_iff,
    Key.messageOf_eq_some_iff]
  constructor
  · rintro
      ⟨⟨segments⟩, ⟨texts, spelled, -, plain, joined⟩, tree, reached, parents, last, rfl, found⟩
    obtain ⟨ending, rfl, unclosed, spelledLast⟩ := Key.forall₂_spelled_chain_iff.mp spelled
    rw [Key.names, Key.map_name_chain] at reached
    exact ⟨parents, last, ending, tree, joined, plain, unclosed, spelledLast, reached, found⟩
  · rintro ⟨parents, last, ending, tree, joined, plain, unclosed, spelledLast, reached, found⟩
    refine ⟨⟨Key.chain parents last⟩, ⟨_, ?_, by simp, plain, joined⟩, tree, ?_, parents, last, rfl,
      found⟩
    · exact Key.forall₂_spelled_chain_iff.mpr ⟨ending, rfl, unclosed, spelledLast⟩
    · rw [Key.names, Key.map_name_chain]
      exact reached

theorem dotless_iff {parents : List String} {ending : List Char} :
    (∀ text ∈ parents.map String.toList ++ [ending], '.' ∉ text) ↔
      (∀ name ∈ parents, '.' ∉ name.toList) ∧ '.' ∉ ending := by
  rw [List.forall_mem_append, List.forall_mem_map, List.forall_mem_singleton]

theorem dotted_concat (parents : List String) (last : String) :
    dotted (parents ++ [last]) = Text.join '.' (parents.map String.toList ++ [last.toList]) := by
  rw [dotted, List.map_append, List.map_singleton]

theorem dotted_concat_append (parents : List String) (last : String) (ending : List Char) :
    dotted (parents ++ [last]) ++ ending =
      Text.join '.' (parents.map String.toList ++ [last.toList ++ ending]) := by
  rw [dotted_concat, Text.join_concat_append]

theorem addresses_of_resolve (found : root.resolve raw = some message) :
    root.Addresses raw message := by
  obtain ⟨parents, ⟨last, index⟩, ending, tree, joined, plain, unclosed, spelled, reached, taken⟩ :=
    resolve_eq_some_iff_spelled.mp found
  obtain ⟨parentsPlain, endingPlain⟩ := dotless_iff.mp plain
  have nested : ∀ start, start <+: parents →
      ∃ inner, root.nodeAt? start = some (.nested inner) := by
    rintro start ⟨others, rfl⟩
    rw [List.append_assoc] at reached
    exact exists_nested_of_nodeAt?_append reached (by simp)
  have dotless (lastPlain : '.' ∉ last.toList) : ∀ name ∈ parents ++ [last], '.' ∉ name.toList :=
    List.forall_mem_append.mpr ⟨parentsPlain, List.forall_mem_singleton.mpr lastPlain⟩
  rcases Key.messageAt_eq_some_iff.mp taken with
    ⟨rfl, unindexed⟩ | ⟨items, position, rfl, indexed, item⟩
  · obtain rfl : index = none := unindexed
    cases spelled with
    | plain lastUnclosed =>
        refine ⟨parents, last, dotless endingPlain, unclosed, nested,
          Or.inl ⟨reached, lastUnclosed, ?_⟩⟩
        rw [← joined, dotted_concat]
  · obtain rfl : index = some position := indexed
    cases spelled with
    | @indexed _ digits _ read =>
        obtain ⟨nonempty, digital, value, -⟩ := Text.index?_eq_some_iff.mp read
        have lastPlain : '.' ∉ last.toList := by
          intro dot
          exact endingPlain (by simp [dot])
        refine ⟨parents, last, dotless lastPlain, unclosed, nested,
          Or.inr ⟨items, digits, reached, nonempty, digital, ?_, ?_⟩⟩
        · rw [value, item]
        · rw [← joined, List.append_assoc, List.append_assoc, dotted_concat_append]

theorem resolve_of_addresses
    (short : ∀ path items, root.nodeAt? path = some (.list items) → items.length < 2 ^ 64)
    (addressed : root.Addresses raw message) : root.resolve raw = some message := by
  obtain ⟨parents, last, plain, unclosed, -, place⟩ := addressed
  obtain ⟨parentsPlain, lastPlain⟩ := List.forall_mem_append.mp plain
  rw [List.forall_mem_singleton] at lastPlain
  apply resolve_eq_some_iff_spelled.mpr
  rcases place with ⟨reached, lastUnclosed, written⟩ |
    ⟨items, digits, reached, nonempty, digital, item, written⟩
  · refine ⟨parents, ⟨last, none⟩, last.toList, _, ?_, dotless_iff.mpr ⟨parentsPlain, lastPlain⟩,
      unclosed, .plain lastUnclosed, reached, Key.messageAt_eq_some_iff.mpr (Or.inl ⟨rfl, rfl⟩)⟩
    rw [written, dotted_concat]
  · -- The bound on lists makes the position an index that can be read.
    have below : Text.digitsValue digits < items.length := (List.getElem?_eq_some_iff.mp item).1
    have read : Text.index? digits = some (Text.digitsValue digits) :=
      Text.index?_eq_some_iff.mpr
        ⟨nonempty, digital, rfl, Nat.lt_trans below (short _ items reached)⟩
    have dotless : '.' ∉ digits := Segment.not_mem_digits read rfl
    refine ⟨parents, ⟨last, some (Text.digitsValue digits)⟩,
      last.toList ++ '[' :: digits ++ [']'], _, ?_,
      dotless_iff.mpr ⟨parentsPlain, by simp [lastPlain, dotless]⟩, unclosed,
      .indexed read, reached, Key.messageAt_eq_some_iff.mpr (Or.inr ⟨items, _, rfl, rfl, item⟩)⟩
    rw [written, List.append_assoc, List.append_assoc, dotted_concat_append]

/-- Resolution is sound and complete: a key yields a message just when it addresses it. A key that
addresses nothing yields none, and one that cannot be read addresses nothing. -/
theorem resolve_eq_some_iff_addresses (root : Namespace)
    (short : ∀ path items, root.nodeAt? path = some (.list items) → items.length < 2 ^ 64)
    (raw : String) :
    (∀ message, root.resolve raw = some message ↔ root.Addresses raw message) ∧
      ((∀ message, ¬root.Addresses raw message) → root.resolve raw = none) ∧
      (Key.parse? raw = none → ∀ message, ¬root.Addresses raw message) := by
  refine ⟨fun message => ⟨addresses_of_resolve, resolve_of_addresses short⟩, ?_, ?_⟩
  · intro nothing
    cases found : root.resolve raw with
    | none => rfl
    | some message => exact absurd (addresses_of_resolve found) (nothing message)
  · intro unreadable message addressed
    have found := resolve_of_addresses short addressed
    rw [resolve, unreadable] at found
    cases found

/-- An empty name with an index that has leading zeros, below a name that holds brackets. -/
theorem resolve_eq_some_iff_addresses_below_brackets :
    let root : Namespace := ⟨[("a]b[", .nested ⟨[("", .list [none, some "Hint"])]⟩)]⟩
    (∀ path items, root.nodeAt? path = some (.list items) → items.length < 2 ^ 64) ∧
      root.Addresses "a]b[.[001]" "Hint" ∧ root.resolve "a]b[.[001]" = some "Hint" ∧
      root.resolve "a]b[.[0]" = none ∧ ∀ message, ¬root.Addresses "a]b[.[0]" message := by
  intro root
  have short : ∀ path items, root.nodeAt? path = some (.list items) → items.length < 2 ^ 64 := by
    intro path items reached
    match path with
    | [] => cases reached
    | name :: path =>
        obtain ⟨outer, found, below⟩ := nodeAt?_cons_eq_some_iff.mp reached
        obtain ⟨rfl, rfl⟩ := Prod.mk.inj (List.mem_singleton.mp (OrderedMap.mem_of_findIn found))
        match path with
        | [] => cases below
        | inner :: path =>
            obtain ⟨node, found, below⟩ := nodeAt?_cons_eq_some_iff.mp below
            have single := List.mem_singleton.mp (OrderedMap.mem_of_findIn found)
            obtain ⟨rfl, rfl⟩ := Prod.mk.inj single
            obtain ⟨_, same⟩ := Tree.at?_of_not_nested rfl below
            cases same
            decide
  have answer := (resolve_eq_some_iff_addresses root short "a]b[.[001]").1 "Hint"
  have hole := (resolve_eq_some_iff_addresses root short "a]b[.[0]").1
  have found : root.resolve "a]b[.[001]" = some "Hint" := by decide +kernel
  have unfilled : root.resolve "a]b[.[0]" = none := by decide +kernel
  refine ⟨short, answer.mp found, found, unfilled, ?_⟩
  intro message addressed
  rw [(hole message).mpr addressed] at unfilled
  cases unfilled

end Namespace

end MessageCatalog

import MessageCatalog.Json.Value

/-!
The shape of JSON values: how deep they nest, whether their objects repeat a key, and whether they
are built from texts alone.
-/

namespace MessageCatalog.Json.Value

mutual

/-- How many arrays and objects stand inside one another. -/
def depth : Value → Nat
  | .array items => 1 + depthOfItems items
  | .object ⟨members⟩ => 1 + depthOfMembers members
  | _ => 0

def depthOfItems : List Value → Nat
  | [] => 0
  | item :: rest => max item.depth (depthOfItems rest)

def depthOfMembers : List (String × Value) → Nat
  | [] => 0
  | (_, value) :: rest => max value.depth (depthOfMembers rest)

end

mutual

/-- No object of the value, at any level, holds a key twice. -/
def DistinctKeys : Value → Prop
  | .array items => DistinctInItems items
  | .object ⟨members⟩ => (members.map Prod.fst).Nodup ∧ DistinctInMembers members
  | _ => True

def DistinctInItems : List Value → Prop
  | [] => True
  | item :: rest => item.DistinctKeys ∧ DistinctInItems rest

def DistinctInMembers : List (String × Value) → Prop
  | [] => True
  | (_, value) :: rest => value.DistinctKeys ∧ DistinctInMembers rest

end

mutual

/-- The value is a string, an array of strings and nulls, or an object of such values. -/
def Textual : Value → Prop
  | .string _ => True
  | .array items => ∀ item ∈ items, item.kind = .string ∨ item.kind = .null
  | .object ⟨members⟩ => TextualMembers members
  | _ => False

def TextualMembers : List (String × Value) → Prop
  | [] => True
  | (_, value) :: rest => value.Textual ∧ TextualMembers rest

end

/-- An object of objects in which nothing but texts is found. -/
def TextualByLocale : Value → Prop
  | .object members => ∀ member ∈ members.entries, member.2.kind = .object ∧ member.2.Textual
  | _ => False

theorem depthOfItems_le_iff {items : List Value} {bound : Nat} :
    depthOfItems items ≤ bound ↔ ∀ item ∈ items, item.depth ≤ bound := by
  induction items with
  | nil => simp [depthOfItems]
  | cons item rest ih => rw [depthOfItems, Nat.max_le, ih, List.forall_mem_cons]

theorem depthOfMembers_le_iff {members : List (String × Value)} {bound : Nat} :
    depthOfMembers members ≤ bound ↔ ∀ member ∈ members, member.2.depth ≤ bound := by
  induction members with
  | nil => simp [depthOfMembers]
  | cons member rest ih =>
      obtain ⟨key, value⟩ := member
      rw [depthOfMembers, Nat.max_le, ih, List.forall_mem_cons]

theorem distinctInItems_iff {items : List Value} :
    DistinctInItems items ↔ ∀ item ∈ items, item.DistinctKeys := by
  induction items with
  | nil => simp [DistinctInItems]
  | cons item rest ih => rw [DistinctInItems, ih, List.forall_mem_cons]

theorem distinctInMembers_iff {members : List (String × Value)} :
    DistinctInMembers members ↔ ∀ member ∈ members, member.2.DistinctKeys := by
  induction members with
  | nil => simp [DistinctInMembers]
  | cons member rest ih =>
      obtain ⟨key, value⟩ := member
      rw [DistinctInMembers, ih, List.forall_mem_cons]

theorem textualMembers_iff {members : List (String × Value)} :
    TextualMembers members ↔ ∀ member ∈ members, member.2.Textual := by
  induction members with
  | nil => simp [TextualMembers]
  | cons member rest ih =>
      obtain ⟨key, value⟩ := member
      rw [TextualMembers, ih, List.forall_mem_cons]

/-- A property of values follows when it holds of those that hold no others, and of arrays and
objects all of whose parts have it. -/
theorem induction {property : Value → Prop}
    (null : property .null)
    (boolean : ∀ value, property (.boolean value))
    (number : ∀ value, property (.number value))
    (string : ∀ text, property (.string text))
    (array : ∀ items, (∀ item ∈ items, property item) → property (.array items))
    (object : ∀ members : OrderedMap String Value,
      (∀ member ∈ members.entries, property member.2) → property (.object members)) :
    ∀ value, property value
  | .null => null
  | .boolean value => boolean value
  | .number value => number value
  | .string text => string text
  | .array items => array items (inItems items)
  | .object ⟨members⟩ => object ⟨members⟩ (inMembers members)
where
  inItems : ∀ items : List Value, ∀ item ∈ items, property item
    | [], _, member => nomatch member
    | first :: rest, item, member => by
        cases member with
        | head => exact induction null boolean number string array object first
        | tail _ member => exact inItems rest item member
  inMembers : ∀ members : List (String × Value), ∀ entry ∈ members, property entry.2
    | [], _, member => nomatch member
    | (_, value) :: rest, entry, member => by
        cases member with
        | head => exact induction null boolean number string array object value
        | tail _ member => exact inMembers rest entry member

end MessageCatalog.Json.Value

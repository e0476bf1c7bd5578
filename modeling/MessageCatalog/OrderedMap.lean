/-!
Ordered maps: finite maps that remember the order in which their keys were first
inserted. Replacing the value of a key keeps the key's position. `Distinct` says that no
key is repeated; every map built from `empty` by `insert` has it.
-/

namespace MessageCatalog

structure OrderedMap (κ α : Type) where
  entries : List (κ × α)
  deriving DecidableEq, Repr

namespace OrderedMap

variable {κ α β : Type}

def empty : OrderedMap κ α := ⟨[]⟩

instance : Inhabited (OrderedMap κ α) := ⟨empty⟩

def keys (map : OrderedMap κ α) : List κ := map.entries.map Prod.fst

def size (map : OrderedMap κ α) : Nat := map.entries.length

def isEmpty (map : OrderedMap κ α) : Bool := map.entries.isEmpty

def Distinct (map : OrderedMap κ α) : Prop := map.keys.Nodup

@[simp] theorem keys_empty : (empty : OrderedMap κ α).keys = [] := rfl

theorem distinct_empty : (empty : OrderedMap κ α).Distinct := List.nodup_nil

variable [DecidableEq κ]

instance (map : OrderedMap κ α) : Decidable map.Distinct :=
  inferInstanceAs (Decidable map.keys.Nodup)

/-- The value of `key` in a list of entries: that of its first occurrence. -/
def findIn (key : κ) : List (κ × α) → Option α
  | [] => none
  | (other, value) :: rest => if other = key then some value else findIn key rest

def find? (map : OrderedMap κ α) (key : κ) : Option α := findIn key map.entries

def contains (map : OrderedMap κ α) (key : κ) : Bool := (map.find? key).isSome

/-- Replaces the value of `key` where it stands, or adds the key at the end. -/
def insertIn (key : κ) (value : α) : List (κ × α) → List (κ × α)
  | [] => [(key, value)]
  | (other, old) :: rest =>
    if other = key then (key, value) :: rest else (other, old) :: insertIn key value rest

def insert (map : OrderedMap κ α) (key : κ) (value : α) : OrderedMap κ α :=
  ⟨insertIn key value map.entries⟩

/-- Inserts the pairs from left to right: a repeated key keeps its first position and takes
its last value. -/
def ofList (pairs : List (κ × α)) : OrderedMap κ α :=
  pairs.foldl (fun map pair => map.insert pair.1 pair.2) empty

@[simp] theorem find?_empty (key : κ) : (empty : OrderedMap κ α).find? key = none := rfl

theorem findIn_insertIn (key sought : κ) (value : α) (entries : List (κ × α)) :
    findIn sought (insertIn key value entries) =
      if key = sought then some value else findIn sought entries := by
  induction entries with
  | nil => simp [insertIn, findIn]
  | cons entry rest ih =>
      obtain ⟨other, old⟩ := entry
      by_cases same : other = key
      · subst same
        by_cases hit : other = sought <;> simp [insertIn, findIn, hit]
      · rw [insertIn, if_neg same, findIn, findIn]
        by_cases hit : other = sought
        · have missed : key ≠ sought := fun equal => same (hit.trans equal.symm)
          rw [if_pos hit, if_pos hit, if_neg missed]
        · rw [if_neg hit, if_neg hit, ih]

theorem find?_insert (map : OrderedMap κ α) (key sought : κ) (value : α) :
    (map.insert key value).find? sought =
      if key = sought then some value else map.find? sought :=
  findIn_insertIn key sought value map.entries

theorem map_fst_insertIn (key : κ) (value : α) (entries : List (κ × α)) :
    (insertIn key value entries).map Prod.fst =
      if key ∈ entries.map Prod.fst then entries.map Prod.fst
      else entries.map Prod.fst ++ [key] := by
  induction entries with
  | nil => simp [insertIn]
  | cons entry rest ih =>
      obtain ⟨other, old⟩ := entry
      by_cases same : other = key
      · subst same
        simp [insertIn]
      · have apart : key ≠ other := fun equal => same equal.symm
        by_cases known : key ∈ rest.map Prod.fst
        · rw [if_pos known] at ih
          simp [insertIn, same, ih, List.mem_map.mp known]
        · rw [if_neg known] at ih
          have unknown : key ∉ (other :: rest.map Prod.fst) := by
            simp only [List.mem_cons, not_or]
            exact ⟨apart, known⟩
          rw [List.map_cons, if_neg unknown, insertIn, if_neg same, List.map_cons, ih]
          rfl

/-- Inserting adds a new key at the end and moves no other. -/
theorem keys_insert (map : OrderedMap κ α) (key : κ) (value : α) :
    (map.insert key value).keys = if key ∈ map.keys then map.keys else map.keys ++ [key] :=
  map_fst_insertIn key value map.entries

theorem distinct_insert {map : OrderedMap κ α} (distinct : map.Distinct) (key : κ) (value : α) :
    (map.insert key value).Distinct := by
  unfold Distinct at *
  rw [keys_insert]
  by_cases known : key ∈ map.keys
  · rwa [if_pos known]
  · rw [if_neg known]
    refine List.nodup_append.mpr ⟨distinct, by simp, ?_⟩
    intro old oldKnown new newKnown equal
    rw [List.mem_singleton] at newKnown
    exact known (newKnown ▸ equal ▸ oldKnown)

theorem distinct_ofList (pairs : List (κ × α)) : (ofList pairs).Distinct := by
  suffices kept : ∀ map : OrderedMap κ α, map.Distinct →
      (pairs.foldl (fun map pair => map.insert pair.1 pair.2) map).Distinct from
    kept empty distinct_empty
  induction pairs with
  | nil => exact fun _ distinct => distinct
  | cons pair rest ih => exact fun map distinct => ih _ (distinct_insert distinct pair.1 pair.2)

end OrderedMap

end MessageCatalog

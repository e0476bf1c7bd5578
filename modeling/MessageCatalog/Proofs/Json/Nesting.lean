import Mathlib.Tactic.SplitIfs
import MessageCatalog.Json.Reader
import MessageCatalog.Proofs.Json.Structure
import MessageCatalog.Proofs.OrderedMap

/-!
What reading a text can yield: values that nest no deeper than allowed and whose objects repeat no
key, since a repeated key takes the place of the earlier one.
-/

namespace MessageCatalog.Json

/-- The value nests at most `room` deep and no object of it holds a key twice. -/
def Value.Fits (room : Nat) (value : Value) : Prop := value.depth ≤ room ∧ value.DistinctKeys

/-- What is made of no further values fits anywhere. -/
theorem fits_of_map {α : Type} {result : Option α} {made : α → Value × List Char} {found : Value}
    {after : List Char} (read : result.map made = some (found, after))
    (flat : ∀ part, (made part).1.Fits 0) (room : Nat) : found.Fits room := by
  obtain ⟨part, _, same⟩ := Option.map_eq_some_iff.mp read
  have fits := flat part
  rw [same] at fits
  exact ⟨Nat.le_trans fits.1 (Nat.zero_le room), fits.2⟩

theorem fits_array {room : Nat} {items : List Value} (fits : ∀ item ∈ items, item.Fits room) :
    (Value.array items).Fits (room + 1) := by
  have deepest : Value.depthOfItems items ≤ room :=
    Value.depthOfItems_le_iff.mpr fun item member => (fits item member).1
  refine ⟨?_, Value.distinctInItems_iff.mpr fun item member => (fits item member).2⟩
  rw [Value.depth]
  omega

theorem fits_object {room : Nat} {members : List (String × Value)}
    (fits : ∀ member ∈ members, member.2.Fits room) :
    (Value.object (.ofList members)).Fits (room + 1) := by
  have kept (member : String × Value) (known : member ∈ (OrderedMap.ofList members).entries) :
      member.2.Fits room := fits member (OrderedMap.mem_of_mem_ofList known)
  have deepest : Value.depthOfMembers (OrderedMap.ofList members).entries ≤ room :=
    Value.depthOfMembers_le_iff.mpr fun member known => (kept member known).1
  refine ⟨?_, OrderedMap.distinct_ofList members,
    Value.distinctInMembers_iff.mpr fun member known => (kept member known).2⟩
  rw [Value.depth]
  omega

/-- What is read with a certain fuel fits into the nesting that was left. -/
structure FitsWithin (fuel : Nat) : Prop where
  value : ∀ {room cs found after}, readValue fuel room cs = some (found, after) → found.Fits room
  items : ∀ {room cs found after}, readItems fuel room cs = some (found, after) →
    ∀ item ∈ found, item.Fits room
  members : ∀ {room cs found after}, readMembers fuel room cs = some (found, after) →
    ∀ member ∈ found, member.2.Fits room

theorem fits_of_readItems {fuel : Nat} (within : FitsWithin fuel) {room : Nat} {cs : List Char}
    {found : List Value} {after : List Char}
    (read : readItems (fuel + 1) room cs = some (found, after)) :
    ∀ item ∈ found, item.Fits room := by
  rw [readItems] at read
  split at read
  · cases read
  · rename_i item rest first
    have fits := within.value first
    split at read
    · obtain ⟨⟨items, last⟩, later, same⟩ := Option.map_eq_some_iff.mp read
      cases same
      exact List.forall_mem_cons.mpr ⟨fits, within.items later⟩
    · cases read
      exact List.forall_mem_singleton.mpr fits
    · cases read

theorem fits_of_readMembers {fuel : Nat} (within : FitsWithin fuel) {room : Nat}
    {cs : List Char} {found : List (String × Value)} {after : List Char}
    (read : readMembers (fuel + 1) room cs = some (found, after)) :
    ∀ member ∈ found, member.2.Fits room := by
  rw [readMembers] at read
  split at read
  case h_2 => cases read
  split at read
  case h_1 => cases read
  split at read
  case h_2 => cases read
  split at read
  case h_1 => cases read
  rename_i value rest first
  have fits := within.value first
  split at read
  · obtain ⟨⟨members, last⟩, later, same⟩ := Option.map_eq_some_iff.mp read
    cases same
    exact List.forall_mem_cons.mpr ⟨fits, within.members later⟩
  · cases read
    exact List.forall_mem_singleton.mpr fits
  · cases read

theorem fits_of_readValue {fuel : Nat} (within : FitsWithin fuel) {room : Nat} {cs : List Char}
    {found : Value} {after : List Char}
    (read : readValue (fuel + 1) room cs = some (found, after)) : found.Fits room := by
  rw [readValue] at read
  split at read
  case h_1 => cases read
  split_ifs at read with quoted bracket brace
  · exact fits_of_map read (fun _ => ⟨Nat.le_refl 0, trivial⟩) room
  · cases room with
    | zero => cases read
    | succ room =>
        simp only at read
        split at read
        · cases read
          exact fits_array (List.forall_mem_nil _)
        · obtain ⟨⟨items, last⟩, inside, same⟩ := Option.map_eq_some_iff.mp read
          cases same
          exact fits_array (within.items inside)
  · cases room with
    | zero => cases read
    | succ room =>
        simp only at read
        split at read
        · cases read
          exact fits_object (List.forall_mem_nil _)
        · obtain ⟨⟨members, last⟩, inside, same⟩ := Option.map_eq_some_iff.mp read
          cases same
          exact fits_object (within.members inside)
  all_goals exact fits_of_map read (fun _ => ⟨Nat.le_refl 0, trivial⟩) room

theorem fitsWithin (fuel : Nat) : FitsWithin fuel := by
  induction fuel with
  | zero => constructor <;> intro room cs found after read <;> cases read
  | succ fuel ih => exact ⟨fits_of_readValue ih, fits_of_readItems ih, fits_of_readMembers ih⟩

theorem fits_of_parse? {text : String} {value : Value}
    (parsed : Value.parse? text = some value) : value.Fits maxDepth := by
  rw [Value.parse?] at parsed
  split at parsed
  · rename_i found rest read
    split_ifs at parsed
    cases parsed
    exact (fitsWithin _).value read
  · cases parsed

end MessageCatalog.Json

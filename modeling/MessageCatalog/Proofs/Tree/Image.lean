import Mathlib.Data.List.Nodup
import Mathlib.Data.Set.Function
import Mathlib.Data.Set.List
import MessageCatalog.Fragment
import MessageCatalog.Proofs.Json.Structure
import MessageCatalog.Proofs.Result

/-!
Which JSON values are trees. Reading a value gives a tree exactly when the value is what that tree
is written as, so reading and writing undo one another, and all that is not built from texts is
refused. The same holds of fragments.
-/

namespace MessageCatalog

open Json (Value)

theorem exists_itemToJson_iff {value : Value} :
    (∃ item, itemToJson item = value) ↔ value.kind = .string ∨ value.kind = .null := by
  constructor
  · rintro ⟨item, rfl⟩
    cases item with
    | none => exact Or.inr rfl
    | some text => exact Or.inl rfl
  · intro textual
    cases value with
    | string text => exact ⟨some text, rfl⟩
    | null => exact ⟨none, rfl⟩
    | boolean | number | array | object => simp [Value.kind] at textual

namespace Tree

theorem itemsOfJson_map (path : String) (index : Nat) (items : List (Option String)) :
    itemsOfJson path index (items.map itemToJson) = .ok items := by
  induction items generalizing index with
  | nil => rfl
  | cons item rest ih =>
      cases item with
      | none => exact bind_eq_ok_iff.mpr ⟨none, rfl, bind_eq_ok_iff.mpr ⟨rest, ih (index + 1), rfl⟩⟩
      | some text =>
          exact bind_eq_ok_iff.mpr
            ⟨some text, rfl, bind_eq_ok_iff.mpr ⟨rest, ih (index + 1), rfl⟩⟩

theorem eq_map_of_itemsOfJson {path : String} {index : Nat} {values : List Value}
    {items : List (Option String)} (read : itemsOfJson path index values = .ok items) :
    values = items.map itemToJson := by
  induction values generalizing index items with
  | nil =>
      cases read
      rfl
  | cons value rest ih =>
      cases value with
      | string | null =>
          obtain ⟨item, ⟨⟩, read⟩ := bind_eq_ok_iff.mp read
          obtain ⟨others, later, ⟨⟩⟩ := bind_eq_ok_iff.mp read
          rw [List.map_cons, ← ih later]
          rfl
      | boolean | number | array | object => cases read

theorem entriesOfJson_of {path : String} {entries : List (String × Tree)}
    (read : ∀ entry ∈ entries, ∀ path, ofJsonAt path entry.2.toJson = .ok entry.2) :
    entriesOfJson path (entriesToJson entries) = .ok entries := by
  induction entries with
  | nil => rfl
  | cons entry rest ih =>
      obtain ⟨first, others⟩ := List.forall_mem_cons.mp read
      exact bind_eq_ok_iff.mpr ⟨entry.2, first _, bind_eq_ok_iff.mpr ⟨rest, ih others, rfl⟩⟩

theorem ofJsonAt_toJson (path : String) (tree : Tree) : ofJsonAt path tree.toJson = .ok tree := by
  induction tree using Tree.induction generalizing path with
  | leaf text => rfl
  | list items => exact map_eq_ok_iff.mpr ⟨items, itemsOfJson_map path 0 items, rfl⟩
  | nested messages members =>
      exact map_eq_ok_iff.mpr ⟨messages.entries, entriesOfJson_of members, rfl⟩

theorem eq_entriesToJson_of {path : String} {members : List (String × Value)}
    {entries : List (String × Tree)}
    (written : ∀ member ∈ members, ∀ path tree,
      ofJsonAt path member.2 = .ok tree → member.2 = tree.toJson)
    (read : entriesOfJson path members = .ok entries) : members = entriesToJson entries := by
  induction members generalizing entries with
  | nil =>
      cases read
      rfl
  | cons member rest ih =>
      obtain ⟨first, others⟩ := List.forall_mem_cons.mp written
      obtain ⟨tree, found, read⟩ := bind_eq_ok_iff.mp read
      obtain ⟨below, later, read⟩ := bind_eq_ok_iff.mp read
      cases read
      rw [entriesToJson, ← ih others later, ← first _ _ found]

theorem eq_toJson_of_ofJsonAt {path : String} {value : Value} {tree : Tree}
    (read : ofJsonAt path value = .ok tree) : value = tree.toJson := by
  induction value using Value.induction generalizing path tree with
  | null | boolean | number => cases read
  | string text =>
      cases read
      rfl
  | array items =>
      obtain ⟨texts, found, rfl⟩ := map_eq_ok_iff.mp read
      rw [toJson, eq_map_of_itemsOfJson found]
  | object members written =>
      obtain ⟨entries, found, rfl⟩ := map_eq_ok_iff.mp read
      rw [toJson, ← eq_entriesToJson_of (fun member known _ _ => written member known) found]

theorem ofJsonAt_eq_ok_iff (path : String) (value : Value) (tree : Tree) :
    ofJsonAt path value = .ok tree ↔ value = tree.toJson := by
  constructor
  · exact eq_toJson_of_ofJsonAt
  · rintro rfl
    exact ofJsonAt_toJson path tree

theorem entriesToJson_eq_map (entries : List (String × Tree)) :
    entriesToJson entries = entries.map fun entry => (entry.1, entry.2.toJson) := by
  induction entries with
  | nil => rfl
  | cons entry rest ih => rw [entriesToJson, ih, List.map_cons]

theorem toJson_nested (messages : Namespace) :
    (Tree.nested messages).toJson =
      .object ⟨messages.entries.map fun entry => (entry.1, entry.2.toJson)⟩ := by
  rw [toJson, entriesToJson_eq_map]

theorem distinctBelow_iff {entries : List (String × Tree)} :
    DistinctBelow entries ↔ ∀ entry ∈ entries, entry.2.DistinctNames := by
  induction entries with
  | nil => simp [DistinctBelow]
  | cons entry rest ih => rw [DistinctBelow, ih, List.forall_mem_cons]

theorem textual_toJson (tree : Tree) : tree.toJson.Textual := by
  induction tree using Tree.induction with
  | leaf text => trivial
  | list items =>
      intro value member
      obtain ⟨item, _, rfl⟩ := List.mem_map.mp member
      exact exists_itemToJson_iff.mp ⟨item, rfl⟩
  | nested messages members =>
      rw [toJson_nested]
      refine Value.textualMembers_iff.mpr fun member known => ?_
      obtain ⟨entry, inside, rfl⟩ := List.mem_map.mp known
      exact members entry inside

theorem exists_toJson_of_textual {value : Value} (textual : value.Textual) :
    ∃ tree : Tree, tree.toJson = value := by
  induction value using Value.induction with
  | null | boolean | number => exact textual.elim
  | string text => exact ⟨.leaf text, rfl⟩
  | array values =>
      have written : values ∈ Set.range (List.map itemToJson) := by
        rw [Set.range_list_map]
        exact fun value member => exists_itemToJson_iff.mpr (textual value member)
      obtain ⟨items, rfl⟩ := written
      exact ⟨.list items, rfl⟩
  | object members found =>
      obtain ⟨members⟩ := members
      have written : members ∈ Set.range
          (List.map fun entry : String × Tree => (entry.1, entry.2.toJson)) := by
        rw [Set.range_list_map]
        intro member known
        obtain ⟨tree, same⟩ :=
          found member known (Value.textualMembers_iff.mp textual member known)
        exact ⟨(member.1, tree), Prod.ext rfl same⟩
      obtain ⟨entries, rfl⟩ := written
      exact ⟨.nested ⟨entries⟩, toJson_nested _⟩

theorem distinctKeys_toJson_iff (tree : Tree) : tree.toJson.DistinctKeys ↔ tree.DistinctNames := by
  induction tree using Tree.induction with
  | leaf text => exact Iff.rfl
  | list items =>
      refine iff_of_true (Value.distinctInItems_iff.mpr fun value member => ?_) trivial
      obtain ⟨item, _, rfl⟩ := List.mem_map.mp member
      cases item <;> trivial
  | nested messages members =>
      obtain ⟨entries⟩ := messages
      rw [toJson_nested, Value.DistinctKeys, DistinctNames, Value.distinctInMembers_iff,
        distinctBelow_iff, List.map_map, List.forall_mem_map]
      exact and_congr Iff.rfl (forall₂_congr members)

theorem depthBelow_le_iff {entries : List (String × Tree)} {bound : Nat} :
    depthBelow entries ≤ bound ↔ ∀ entry ∈ entries, entry.2.depth ≤ bound := by
  induction entries with
  | nil => simp [depthBelow]
  | cons entry rest ih => rw [depthBelow, Nat.max_le, ih, List.forall_mem_cons]

theorem depth_toJson (tree : Tree) : tree.toJson.depth = tree.depth := by
  induction tree using Tree.induction with
  | leaf text => rfl
  | list items =>
      have flat : Value.depthOfItems (items.map itemToJson) = 0 := by
        refine Nat.le_zero.mp (Value.depthOfItems_le_iff.mpr fun value member => ?_)
        obtain ⟨item, _, rfl⟩ := List.mem_map.mp member
        cases item <;> exact Nat.le_refl 0
      rw [toJson, Value.depth, flat, depth]
  | nested messages members =>
      obtain ⟨entries⟩ := messages
      have same : Value.depthOfMembers (entries.map fun entry => (entry.1, entry.2.toJson)) =
          depthBelow entries := by
        refine eq_of_forall_ge_iff fun bound => ?_
        rw [Value.depthOfMembers_le_iff, depthBelow_le_iff, List.forall_mem_map]
        exact forall₂_congr fun entry known => by rw [members entry known]
      rw [toJson_nested, Value.depth, same, depth]

end Tree

theorem Namespace.ofMembers_eq_ok_iff (members : OrderedMap String Value) (messages : Namespace) :
    ofMembers members = .ok messages ↔ .object members = messages.toJson := by
  have read := Tree.ofJsonAt_eq_ok_iff "" (.object members) (.nested messages)
  rw [Namespace.toJson, ← read, ofMembers, Tree.ofJsonAt, map_eq_ok_iff, map_eq_ok_iff]
  simp only [Tree.nested.injEq]

namespace Fragment

def memberOf (entry : LocaleCode × Namespace) : String × Value := (entry.1.text, entry.2.toJson)

theorem toJson_eq (fragment : Fragment) :
    fragment.toJson = .object ⟨fragment.toList.map memberOf⟩ := rfl

theorem localesOfJson_map (locales : List (LocaleCode × Namespace)) :
    localesOfJson (locales.map memberOf) = .ok locales := by
  induction locales with
  | nil => rfl
  | cons entry rest ih =>
      obtain ⟨code, ⟨entries⟩⟩ := entry
      have first : Namespace.ofMembers ⟨Tree.entriesToJson entries⟩ = .ok ⟨entries⟩ :=
        (Namespace.ofMembers_eq_ok_iff _ _).mpr rfl
      exact bind_eq_ok_iff.mpr ⟨⟨entries⟩, first, bind_eq_ok_iff.mpr ⟨rest, ih, rfl⟩⟩

theorem eq_map_of_localesOfJson {members : List (String × Value)}
    {locales : List (LocaleCode × Namespace)} (read : localesOfJson members = .ok locales) :
    members = locales.map memberOf := by
  induction members generalizing locales with
  | nil =>
      cases read
      rfl
  | cons member rest ih =>
      obtain ⟨code, value⟩ := member
      cases value with
      | object members =>
          obtain ⟨messages, first, read⟩ := bind_eq_ok_iff.mp read
          obtain ⟨others, later, ⟨⟩⟩ := bind_eq_ok_iff.mp read
          have written := (Namespace.ofMembers_eq_ok_iff members messages).mp first
          rw [List.map_cons, ← ih later, memberOf, ← written]
      | null | boolean | number | string | array => cases read

theorem ofJson_eq_ok_iff (value : Value) (fragment : Fragment) :
    ofJson value = .ok fragment ↔ value = fragment.toJson := by
  constructor
  · intro read
    cases value with
    | object members =>
        obtain ⟨locales, found, rfl⟩ := map_eq_ok_iff.mp read
        rw [toJson_eq, toList, ← eq_map_of_localesOfJson found]
    | null | boolean | number | string | array => cases read
  · rintro rfl
    exact map_eq_ok_iff.mpr ⟨fragment.toList, localesOfJson_map fragment.toList, rfl⟩

theorem textualByLocale_toJson (fragment : Fragment) : fragment.toJson.TextualByLocale := by
  intro member known
  obtain ⟨entry, _, rfl⟩ := List.mem_map.mp known
  exact ⟨rfl, Tree.textual_toJson (.nested entry.2)⟩

theorem exists_toJson_of_textualByLocale {value : Value} (textual : value.TextualByLocale) :
    ∃ fragment : Fragment, fragment.toJson = value := by
  cases value with
  | null | boolean | number | string | array => exact textual.elim
  | object members =>
      obtain ⟨members⟩ := members
      have written : members ∈ Set.range (List.map memberOf) := by
        rw [Set.range_list_map]
        intro member known
        obtain ⟨isObject, textual⟩ := textual member known
        obtain ⟨tree, same⟩ := Tree.exists_toJson_of_textual textual
        cases tree with
        | leaf | list =>
            rw [← same] at isObject
            cases isObject
        | nested messages => exact ⟨(⟨member.1⟩, messages), Prod.ext rfl same⟩
      obtain ⟨locales, rfl⟩ := written
      exact ⟨⟨⟨locales⟩⟩, rfl⟩

theorem distinctKeys_toJson_iff (fragment : Fragment) :
    fragment.toJson.DistinctKeys ↔ fragment.WellFormed := by
  have codes : (fragment.toList.map fun entry => entry.1.text).Nodup ↔
      fragment.locales.Distinct := by
    have split : fragment.toList.map (fun entry => entry.1.text) =
        fragment.locales.keys.map LocaleCode.text := by
      rw [OrderedMap.keys, List.map_map]
      rfl
    have injective : Function.Injective LocaleCode.text := fun _ _ same =>
      congrArg LocaleCode.mk same
    rw [split, List.nodup_map_iff injective]
    rfl
  rw [toJson_eq, Value.DistinctKeys, Value.distinctInMembers_iff, List.map_map,
    List.forall_mem_map]
  exact and_congr codes
    (forall₂_congr fun entry _ => Tree.distinctKeys_toJson_iff (.nested entry.2))

end Fragment

section Images

variable {α : Type} {read : Value → Except Fault α} {write : α → Value} {shaped : Value → Prop}

theorem bijOn_write (inverse : ∀ value result, read value = .ok result ↔ value = write result)
    (written : ∀ result, shaped (write result))
    (reached : ∀ value, shaped value → ∃ result, write result = value) {wellFormed : α → Prop}
    (distinct : ∀ result, (write result).DistinctKeys ↔ wellFormed result) :
    Set.BijOn write {result | wellFormed result} {value | value.DistinctKeys ∧ shaped value} := by
  refine ⟨?mapsTo, ?injOn, ?surjOn⟩
  case mapsTo => exact fun result known => ⟨(distinct result).mpr known, written result⟩
  case injOn =>
    intro first _ second _ same
    have readFirst := (inverse (write first) first).mpr rfl
    rw [(inverse (write first) second).mpr same] at readFirst
    exact (Except.ok.inj readFirst).symm
  case surjOn =>
    rintro value ⟨unique, fits⟩
    obtain ⟨result, rfl⟩ := reached value fits
    exact ⟨result, (distinct result).mp unique, rfl⟩

theorem refused_iff (inverse : ∀ value result, read value = .ok result ↔ value = write result)
    (written : ∀ result, shaped (write result))
    (reached : ∀ value, shaped value → ∃ result, write result = value) (value : Value) :
    (∃ fault, read value = .error fault) ↔ ¬shaped value := by
  rw [exists_error_iff]
  refine not_congr ⟨?_, ?_⟩
  · rintro ⟨result, accepted⟩
    rw [(inverse value result).mp accepted]
    exact written result
  · intro fits
    obtain ⟨result, rfl⟩ := reached value fits
    exact ⟨result, (inverse _ result).mpr rfl⟩

end Images

/-- A value is read as a tree, or as a fragment, exactly when it is what that tree or fragment is
written as. Reading and writing are bijections between trees and the values that are built from
strings, objects, and arrays of strings and nulls; every other value is refused. -/
theorem Json.Value.read_iff_written :
    (∀ value tree, Tree.ofJson value = .ok tree ↔ value = tree.toJson) ∧
    (∀ value fragment, Fragment.ofJson value = .ok fragment ↔ value = fragment.toJson) ∧
    (∀ text, (Tree.leaf text).toJson = .string text) ∧
    (∀ items, (Tree.list items).toJson = .array (items.map itemToJson)) ∧
    (∀ messages, (Tree.nested messages).toJson =
      .object ⟨messages.entries.map fun entry => (entry.1, entry.2.toJson)⟩) ∧
    Set.BijOn Tree.toJson {tree | tree.DistinctNames}
      {value | value.DistinctKeys ∧ value.Textual} ∧
    Set.BijOn Fragment.toJson {fragment | fragment.WellFormed}
      {value | value.DistinctKeys ∧ value.TextualByLocale} ∧
    ∀ value, ((∃ fault, Tree.ofJson value = .error fault) ↔ ¬value.Textual) ∧
      ((∃ fault, Fragment.ofJson value = .error fault) ↔ ¬value.TextualByLocale) := by
  have trees (value : Value) (tree : Tree) := Tree.ofJsonAt_eq_ok_iff "" value tree
  have fragments := Fragment.ofJson_eq_ok_iff
  refine ⟨trees, fragments, fun _ => rfl, fun _ => rfl, Tree.toJson_nested, ?_, ?_,
    fun value => ⟨?_, ?_⟩⟩
  · exact bijOn_write trees Tree.textual_toJson (fun _ => Tree.exists_toJson_of_textual)
      Tree.distinctKeys_toJson_iff
  · exact bijOn_write fragments Fragment.textualByLocale_toJson
      (fun _ => Fragment.exists_toJson_of_textualByLocale) Fragment.distinctKeys_toJson_iff
  · exact refused_iff trees Tree.textual_toJson (fun _ => Tree.exists_toJson_of_textual) value
  · exact refused_iff fragments Fragment.textualByLocale_toJson
      (fun _ => Fragment.exists_toJson_of_textualByLocale) value

end MessageCatalog

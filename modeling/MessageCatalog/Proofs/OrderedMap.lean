import Mathlib.Data.List.Induction
import Mathlib.Data.List.Nodup
import MessageCatalog.OrderedMap

/-!
The entries of an ordered map. Inserting keeps or replaces what is there and adds at most one entry,
and a list of pairs without a repeated key is already a map. Two maps are equal when they have the
same keys in the same order and look up alike.
-/

namespace MessageCatalog.OrderedMap

variable {κ α : Type} [DecidableEq κ]

theorem findIn_eq_none_iff (key : κ) (entries : List (κ × α)) :
    findIn key entries = none ↔ key ∉ entries.map Prod.fst := by
  induction entries with
  | nil => simp [findIn]
  | cons entry rest ih =>
      obtain ⟨other, value⟩ := entry
      by_cases same : other = key
      · simp [findIn, same]
      · have apart : key ≠ other := fun equal => same equal.symm
        simp only [findIn, same, if_false, ih, List.map_cons, List.mem_cons, apart, false_or]

theorem mem_of_findIn {key : κ} {value : α} {entries : List (κ × α)}
    (found : findIn key entries = some value) : (key, value) ∈ entries := by
  induction entries with
  | nil => simp [findIn] at found
  | cons entry rest ih =>
      obtain ⟨other, old⟩ := entry
      simp only [findIn] at found
      split at found
      · rename_i same
        simp only [Option.some.injEq] at found
        subst same found
        exact List.mem_cons_self
      · exact List.mem_cons_of_mem _ (ih found)

theorem findIn_of_mem {key : κ} {value : α} {entries : List (κ × α)}
    (distinct : (entries.map Prod.fst).Nodup) (member : (key, value) ∈ entries) :
    findIn key entries = some value := by
  induction entries with
  | nil => simp at member
  | cons entry rest ih =>
      obtain ⟨fresh, restDistinct⟩ := List.nodup_cons.mp distinct
      rw [findIn]
      rcases List.mem_cons.mp member with rfl | later
      · exact if_pos rfl
      · have apart : entry.1 ≠ key := by
          rintro rfl
          exact fresh (List.mem_map.mpr ⟨_, later, rfl⟩)
        rw [if_neg apart]
        exact ih restDistinct later

theorem find?_of_mem {map : OrderedMap κ α} (distinct : map.Distinct) {entry : κ × α}
    (member : entry ∈ map.entries) : map.find? entry.1 = some entry.2 :=
  findIn_of_mem distinct member

theorem find?_eq_none_iff (map : OrderedMap κ α) (key : κ) :
    map.find? key = none ↔ key ∉ map.keys :=
  findIn_eq_none_iff key map.entries

theorem exists_find?_of_mem_keys {map : OrderedMap κ α} {key : κ} (known : key ∈ map.keys) :
    ∃ value, map.find? key = some value := by
  cases found : map.find? key with
  | none => exact absurd known ((find?_eq_none_iff map key).mp found)
  | some value => exact ⟨value, rfl⟩

theorem eq_of_keys_of_find? {first second : OrderedMap κ α} (distinct : first.Distinct)
    (keys : first.keys = second.keys) (lookups : ∀ key, first.find? key = second.find? key) :
    first = second := by
  have recovered (map : OrderedMap κ α) (distinct : map.Distinct) :
      map.entries.map some = map.keys.map fun key => (map.find? key).map (key, ·) := by
    rw [OrderedMap.keys, List.map_map]
    refine List.map_congr_left fun entry member => ?_
    rw [Function.comp_apply, find?_of_mem distinct member]
    rfl
  have secondDistinct : second.Distinct := by
    rwa [Distinct, ← keys]
  have same : first.entries.map some = second.entries.map some := by
    rw [recovered first distinct, recovered second secondDistinct, ← keys]
    exact List.map_congr_left fun key _ => by rw [lookups]
  have equal : first.entries = second.entries :=
    (List.map_inj_right fun _ _ => Option.some.inj).mp same
  cases first
  cases second
  exact congrArg OrderedMap.mk equal

/-- Inserting what is there already changes nothing. -/
theorem insert_of_find? {map : OrderedMap κ α} {key : κ} {value : α}
    (found : map.find? key = some value) : map.insert key value = map := by
  suffices same : ∀ entries, findIn key entries = some value →
      insertIn key value entries = entries from congrArg OrderedMap.mk (same map.entries found)
  intro entries found
  induction entries with
  | nil => simp [findIn] at found
  | cons entry rest ih =>
      rw [findIn] at found
      rw [insertIn]
      split at found
      · rename_i same
        cases found
        rw [if_pos same, ← same]
      · rename_i apart
        rw [if_neg apart, ih found]

theorem insertIn_of_not_mem {key : κ} {entries : List (κ × α)}
    (fresh : key ∉ entries.map Prod.fst) (value : α) :
    insertIn key value entries = entries ++ [(key, value)] := by
  induction entries with
  | nil => rfl
  | cons entry rest ih =>
      obtain ⟨other, old⟩ := entry
      simp only [List.map_cons, List.mem_cons, not_or] at fresh
      rw [insertIn, if_neg (Ne.symm fresh.1), ih fresh.2, List.cons_append]

theorem eq_or_mem_of_mem_insertIn {key : κ} {value : α} {entries : List (κ × α)} {entry : κ × α}
    (member : entry ∈ insertIn key value entries) : entry = (key, value) ∨ entry ∈ entries := by
  induction entries with
  | nil => exact Or.inl (List.mem_singleton.mp member)
  | cons first rest ih =>
      obtain ⟨other, old⟩ := first
      rw [insertIn] at member
      split at member
      · rcases List.mem_cons.mp member with same | later
        · exact Or.inl same
        · exact Or.inr (List.mem_cons_of_mem _ later)
      · rcases List.mem_cons.mp member with same | later
        · exact Or.inr (List.mem_cons.mpr (Or.inl same))
        · exact (ih later).imp id (List.mem_cons_of_mem _)

theorem ofList_concat (pairs : List (κ × α)) (last : κ × α) :
    ofList (pairs ++ [last]) = (ofList pairs).insert last.1 last.2 := by
  simp [ofList]

/-- Pairs whose keys are distinct stay as they are. -/
theorem ofList_of_nodup {pairs : List (κ × α)} (distinct : (pairs.map Prod.fst).Nodup) :
    ofList pairs = ⟨pairs⟩ := by
  induction pairs using List.reverseRecOn with
  | nil => rfl
  | append_singleton pairs last ih =>
      rw [List.map_append, List.map_singleton, ← List.concat_eq_append, List.nodup_concat]
        at distinct
      obtain ⟨fresh, earlier⟩ := distinct
      rw [ofList_concat, ih earlier, insert, insertIn_of_not_mem fresh]

theorem mem_of_mem_ofList {pairs : List (κ × α)} {entry : κ × α}
    (member : entry ∈ (ofList pairs).entries) : entry ∈ pairs := by
  induction pairs using List.reverseRecOn with
  | nil => exact member
  | append_singleton pairs last ih =>
      rw [ofList_concat] at member
      rcases eq_or_mem_of_mem_insertIn member with same | earlier
      · exact List.mem_append_right _ (List.mem_singleton.mpr same)
      · exact List.mem_append_left _ (ih earlier)

end MessageCatalog.OrderedMap

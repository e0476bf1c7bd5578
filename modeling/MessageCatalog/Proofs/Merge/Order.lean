import MessageCatalog.Proofs.Merge.Lookup
import MessageCatalog.Proofs.Tree.Node

/-!
The order that merging keeps. A merged namespace lists the names that were there before, then the
new ones, each group in its own order, and this holds at every depth. Locales are listed as they
were first contributed.
-/

namespace MessageCatalog

namespace OrderedMap

variable {κ α : Type} [DecidableEq κ]

/-- The keys of a map with these keys after one more was inserted. -/
def withKey (keys : List κ) (key : κ) : List κ :=
  if key ∈ keys then keys else keys ++ [key]

theorem foldl_withKey (keys added : List κ) :
    added.foldl withKey keys = keys ++ (added.filter (· ∉ keys)).eraseDups := by
  induction added generalizing keys with
  | nil => simp
  | cons key rest ih =>
      rw [List.foldl_cons, ih, withKey]
      by_cases known : key ∈ keys
      · simp [known]
      · have later : rest.filter (· ∉ keys ++ [key]) =
            (rest.filter (· ∉ keys)).filter (fun other => !other == key) := by
          rw [List.filter_filter]
          refine List.filter_congr fun other _ => ?_
          by_cases same : other = key <;> simp [same]
        rw [if_neg known, List.filter_cons_of_pos (by simpa using known), List.eraseDups_cons,
          ← later, List.append_assoc, List.singleton_append]

theorem eraseDups_of_nodup {keys : List κ} (distinct : keys.Nodup) : keys.eraseDups = keys := by
  induction keys with
  | nil => rfl
  | cons key rest ih =>
      obtain ⟨fresh, restDistinct⟩ := List.nodup_cons.mp distinct
      have untouched : rest.filter (fun other => !other == key) = rest := by
        refine List.filter_eq_self.mpr fun other member => ?_
        have apart : other ≠ key := fun same => fresh (same ▸ member)
        simpa using apart
      rw [List.eraseDups_cons, untouched, ih restDistinct]

end OrderedMap

namespace Tree

theorem keys_mergeEntries (target : Namespace) (entries : List (String × Tree)) :
    (mergeEntries target entries).keys =
      (entries.map Prod.fst).foldl OrderedMap.withKey target.keys := by
  induction entries generalizing target with
  | nil => rfl
  | cons entry rest ih =>
      rw [mergeEntries, ih, OrderedMap.keys_insert]
      rfl

end Tree

namespace Namespace

theorem keys_merge (target : Namespace) {incoming : Namespace} (distinct : incoming.Distinct) :
    (target.merge incoming).keys =
      target.keys ++ incoming.keys.filter (· ∉ target.keys) := by
  have added : (incoming.keys.filter (· ∉ target.keys)).Nodup := List.Nodup.filter _ distinct
  rw [merge, Tree.keys_mergeEntries, OrderedMap.foldl_withKey]
  exact congrArg _ (OrderedMap.eraseDups_of_nodup added)

theorem distinct_merge {target incoming : Namespace} (known : target.Distinct) :
    (target.merge incoming).Distinct :=
  Tree.mergeEntries_keeps (motive := OrderedMap.Distinct)
    (fun _ distinct _ _ => OrderedMap.distinct_insert distinct _ _) known

theorem DistinctNames.nodeAt? {messages inner : Namespace} (distinct : messages.DistinctNames)
    {path : List String} (reached : messages.nodeAt? path = some (.nested inner)) :
    inner.DistinctNames := by
  induction path generalizing messages with
  | nil =>
      cases reached
      exact distinct
  | cons name path ih =>
      obtain ⟨tree, found, below⟩ := nodeAt?_cons_eq_some_iff.mp reached
      obtain ⟨next, rfl⟩ := Tree.exists_nested_of_at? below
      exact ih (distinct.find? found) below

/-- Where both namespaces have a namespace, the merged one has these two merged. -/
theorem nodeAt?_merge {target incoming older newer : Namespace} {path : List String}
    (distinct : incoming.DistinctNames) (before : target.nodeAt? path = some (.nested older))
    (after : incoming.nodeAt? path = some (.nested newer)) :
    (target.merge incoming).nodeAt? path = some (.nested (older.merge newer)) := by
  induction path generalizing target incoming with
  | nil =>
      cases before
      cases after
      rfl
  | cons name path ih =>
      obtain ⟨first, oldFound, oldBelow⟩ := nodeAt?_cons_eq_some_iff.mp before
      obtain ⟨second, newFound, newBelow⟩ := nodeAt?_cons_eq_some_iff.mp after
      obtain ⟨known, rfl⟩ := Tree.exists_nested_of_at? oldBelow
      obtain ⟨inner, rfl⟩ := Tree.exists_nested_of_at? newBelow
      have merged := find?_merge target distinct.distinct name
      rw [oldFound, newFound, Option.map_some, Option.some_or, Tree.mergeOver_nested] at merged
      rw [nodeAt?_cons_of_nested merged]
      exact ih (distinct.find? newFound) oldBelow newBelow

/-- How a namespace is laid out that was merged from an older and a newer one: which names it has
in which order, and what stands under each name that was not merged further. -/
structure Arranged (older newer merged : Namespace) : Prop where
  keys : merged.keys = older.keys ++ newer.keys.filter (· ∉ older.keys)
  distinct : merged.keys.Nodup
  position : ∀ name ∈ older.keys, merged.keys.idxOf name = older.keys.idxOf name
  kept : ∀ name ∉ newer.keys, merged.find? name = older.find? name
  added : ∀ name ∉ older.keys, merged.find? name = newer.find? name
  replaced : ∀ name before after, older.find? name = some before →
    newer.find? name = some after → before.isNamespace = false ∨ after.isNamespace = false →
    merged.find? name = some after

theorem arranged_merge {older newer : Namespace} (known : older.Distinct)
    (distinct : newer.Distinct) : Arranged older newer (older.merge newer) where
  keys := keys_merge older distinct
  distinct := distinct_merge known
  position := by
    intro name member
    rw [keys_merge older distinct, List.idxOf_append_of_mem member]
  kept := by
    intro name absent
    have unfound := (OrderedMap.find?_eq_none_iff newer name).mpr absent
    rw [find?_merge older distinct, unfound, Option.map_none, Option.none_or]
  added := by
    intro name absent
    have unfound := (OrderedMap.find?_eq_none_iff older name).mpr absent
    rw [find?_merge older distinct, unfound]
    cases newer.find? name <;> simp
  replaced := by
    intro name before after found incoming plain
    have stands : after.mergeOver (some before) = after := by
      rcases plain with oldPlain | newPlain
      · exact after.mergeOver_plain oldPlain
      · exact Tree.mergeOver_of_not_nested (Or.inl newPlain)
    rw [find?_merge older distinct, found, incoming, Option.map_some, Option.some_or, stands]

end Namespace

namespace Registry

theorem codes_extendLocale (registry : Registry) (code : LocaleCode) (messages : Namespace) :
    (registry.extendLocale code messages).codes = OrderedMap.withKey registry.codes code :=
  OrderedMap.keys_insert _ _ _

theorem codes_merge (fragments : List Fragment) :
    (merge fragments).codes =
      (fragments.flatMap fun fragment => fragment.locales.keys).eraseDups := by
  have extended (registry : Registry) (fragment : Fragment) :
      fragment.locales.keys.foldl OrderedMap.withKey registry.codes =
        (registry.extend fragment).codes := by
    rw [OrderedMap.keys, List.foldl_map]
    exact List.foldl_hom codes fun registry entry =>
      (codes_extendLocale registry entry.1 entry.2).symm
  have merged : (merge fragments).codes =
      (fragments.flatMap fun fragment => fragment.locales.keys).foldl OrderedMap.withKey [] := by
    rw [List.foldl_flatMap]
    exact (List.foldl_hom codes extended).symm
  rw [merged, OrderedMap.foldl_withKey]
  simp

theorem distinct_merge (fragments : List Fragment) : (merge fragments).locales.Distinct := by
  refine List.foldlRecOn (motive := fun registry : Registry => registry.locales.Distinct)
    fragments _ OrderedMap.distinct_empty fun registry known fragment _ => ?_
  refine List.foldlRecOn (motive := fun registry : Registry => registry.locales.Distinct)
    fragment.toList _ known fun registry known entry _ => ?_
  exact OrderedMap.distinct_insert known entry.1 _

/-- Wherever two merged namespaces meet, at the root or below, the names that were there keep
their places and the new ones follow. Nothing is lost but what is replaced, and what stands under a
name is the older or the newer node as it was, unless both are namespaces. Locales stand in the
order of their first contribution. -/
theorem merge_keeps_order :
    (∀ target incoming : Namespace, target.DistinctNames → incoming.DistinctNames →
      ∀ (path : List String) (older newer : Namespace),
        target.nodeAt? path = some (.nested older) →
        incoming.nodeAt? path = some (.nested newer) →
        ∃ merged : Namespace, (target.merge incoming).nodeAt? path = some (.nested merged) ∧
          Namespace.Arranged older newer merged) ∧
    ∀ fragments : List Fragment,
      (merge fragments).codes =
          (fragments.flatMap fun fragment => fragment.locales.keys).eraseDups ∧
        (merge fragments).codes.Nodup := by
  refine ⟨?namespaces, fun fragments => ⟨codes_merge fragments, distinct_merge fragments⟩⟩
  intro target incoming targetDistinct incomingDistinct path older newer before after
  have olderDistinct := (targetDistinct.nodeAt? before).distinct
  have newerDistinct := (incomingDistinct.nodeAt? after).distinct
  exact ⟨older.merge newer, Namespace.nodeAt?_merge incomingDistinct before after,
    Namespace.arranged_merge olderDistinct newerDistinct⟩

theorem merge_keeps_order_below_menu :
    let older : Namespace := ⟨[("open", .leaf "Open"), ("close", .leaf "Close")]⟩
    let newer : Namespace :=
      ⟨[("quit", .leaf "Quit"), ("close", .list [none]), ("about", .leaf "About")]⟩
    let target : Namespace := ⟨[("menu", .nested older), ("title", .leaf "Title")]⟩
    let incoming : Namespace := ⟨[("hint", .leaf "Hint"), ("menu", .nested newer)]⟩
    (∃ merged : Namespace, (target.merge incoming).nodeAt? ["menu"] = some (.nested merged) ∧
      Namespace.Arranged older newer merged ∧
      merged.keys = ["open", "close", "quit", "about"] ∧
      merged.find? "close" = some (.list [none])) ∧
    (merge [⟨⟨[(⟨"pt"⟩, target), (⟨"en"⟩, target)]⟩⟩,
      ⟨⟨[(⟨"de"⟩, incoming), (⟨"pt"⟩, incoming)]⟩⟩]).codes = [⟨"pt"⟩, ⟨"en"⟩, ⟨"de"⟩] := by
  intro older newer target incoming
  obtain ⟨merged, found, arranged⟩ :=
    merge_keeps_order.1 target incoming (by decide) (by decide) ["menu"] older newer rfl rfl
  refine ⟨⟨merged, found, arranged, arranged.keys, ?_⟩, ?_⟩
  · exact arranged.replaced "close" _ _ rfl rfl (Or.inl rfl)
  · rw [(merge_keeps_order.2 _).1]
    decide

end Registry

end MessageCatalog

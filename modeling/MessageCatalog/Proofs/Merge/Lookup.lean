import MessageCatalog.Proofs.OrderedMap
import MessageCatalog.Registry

/-!
What a merge leaves under each name. In a merged namespace, and in a merged registry, a look-up
depends on the two look-ups alone: an absent name says nothing, two namespaces merge, and in
every other case the incoming node stands.
-/

namespace MessageCatalog

namespace Tree

/-- A tree that meets anything but a namespace, or is none itself, stands as it is. -/
theorem mergeOver_of_not_nested {incoming : Tree} {existing : Option Tree}
    (apart : incoming.isNamespace = false ∨ ∀ known, existing ≠ some (.nested known)) :
    incoming.mergeOver existing = incoming := by
  unfold mergeOver
  split
  · rename_i entries target
    rcases apart with plain | other
    · simp [isNamespace, messages?] at plain
    · exact absurd rfl (other target)
  · rfl

@[simp] theorem mergeOver_none (incoming : Tree) : incoming.mergeOver none = incoming :=
  mergeOver_of_not_nested (Or.inr fun _ => nofun)

theorem mergeOver_plain (incoming : Tree) {known : Tree} (plain : known.isNamespace = false) :
    incoming.mergeOver (some known) = incoming := by
  refine mergeOver_of_not_nested (Or.inr fun messages same => ?_)
  cases same
  cases plain

theorem mergeOver_nested (incoming known : Namespace) :
    (Tree.nested incoming).mergeOver (some (.nested known)) = .nested (known.merge incoming) := by
  obtain ⟨entries⟩ := incoming
  simp [mergeOver, Namespace.merge]

theorem nested_mergeOver_cases (messages : Namespace) (existing : Option Tree) :
    (∃ known : Namespace, existing = some (.nested known) ∧
      (Tree.nested messages).mergeOver existing = .nested (known.merge messages)) ∨
    (Tree.nested messages).mergeOver existing = .nested messages := by
  by_cases meets : ∃ known : Namespace, existing = some (.nested known)
  · obtain ⟨known, rfl⟩ := meets
    exact Or.inl ⟨known, rfl, mergeOver_nested messages known⟩
  · exact Or.inr (mergeOver_of_not_nested (Or.inr fun known same => meets ⟨known, same⟩))

/-- Merging keeps what inserting each merged member keeps. -/
theorem mergeEntries_keeps {motive : Namespace → Prop} {entries : List (String × Tree)}
    (insert : ∀ target, motive target → ∀ entry ∈ entries,
      motive (target.insert entry.1 (entry.2.mergeOver (target.find? entry.1))))
    {target : Namespace} (start : motive target) : motive (mergeEntries target entries) := by
  induction entries generalizing target with
  | nil => exact start
  | cons entry rest ih =>
      rw [mergeEntries]
      refine ih (fun target known other member => ?_) ?_
      · exact insert target known other (List.mem_cons_of_mem _ member)
      · exact insert target start entry List.mem_cons_self

theorem find?_mergeEntries (target : Namespace) (entries : List (String × Tree))
    (distinct : (entries.map Prod.fst).Nodup) (name : String) :
    (mergeEntries target entries).find? name =
      ((OrderedMap.findIn name entries).map fun incoming =>
        incoming.mergeOver (target.find? name)).or (target.find? name) := by
  induction entries generalizing target with
  | nil => simp [mergeEntries, OrderedMap.findIn]
  | cons entry rest ih =>
      obtain ⟨first, incoming⟩ := entry
      obtain ⟨fresh, restDistinct⟩ := List.nodup_cons.mp distinct
      simp only [mergeEntries, OrderedMap.findIn]
      rw [ih _ restDistinct, OrderedMap.find?_insert]
      by_cases same : first = name
      · have absent : OrderedMap.findIn name rest = none :=
          (OrderedMap.findIn_eq_none_iff name rest).mpr (same ▸ fresh)
        simp [absent, same]
      · simp only [same, if_false]

end Tree

namespace Namespace

theorem DistinctNames.distinct {messages : Namespace} (distinct : messages.DistinctNames) :
    messages.Distinct := by
  obtain ⟨entries⟩ := messages
  unfold DistinctNames Tree.DistinctNames at distinct
  exact distinct.1

theorem distinctNames_of_mem_entries {entries : List (String × Tree)}
    (below : Tree.DistinctBelow entries) {entry : String × Tree} (member : entry ∈ entries) :
    entry.2.DistinctNames := by
  induction entries with
  | nil => simp at member
  | cons first rest ih =>
      unfold Tree.DistinctBelow at below
      rcases List.mem_cons.mp member with same | later
      · subst same
        exact below.1
      · exact ih below.2 later

theorem DistinctNames.of_mem {messages : Namespace} (distinct : messages.DistinctNames)
    {entry : String × Tree} (member : entry ∈ messages.entries) : entry.2.DistinctNames := by
  obtain ⟨entries⟩ := messages
  unfold DistinctNames Tree.DistinctNames at distinct
  exact distinctNames_of_mem_entries distinct.2 member

theorem DistinctNames.find? {messages : Namespace} (distinct : messages.DistinctNames)
    {name : String} {tree : Tree} (found : messages.find? name = some tree) :
    tree.DistinctNames :=
  distinct.of_mem (OrderedMap.mem_of_findIn found)

theorem find?_merge (target : Namespace) {incoming : Namespace} (distinct : incoming.Distinct)
    (name : String) :
    (target.merge incoming).find? name =
      ((incoming.find? name).map fun tree => tree.mergeOver (target.find? name)).or
        (target.find? name) :=
  Tree.find?_mergeEntries target incoming.entries distinct name

end Namespace

namespace Registry

/-- The messages that a locale has after `messages` were merged into what it had. -/
def mergedMessages (known : Option Namespace) (messages : Namespace) : Namespace :=
  match known with
  | some known => known.merge messages
  | none => messages

theorem get?_extendLocale (registry : Registry) (code sought : LocaleCode) (messages : Namespace) :
    (registry.extendLocale code messages).get? sought =
      if code = sought then some (mergedMessages (registry.get? code) messages)
      else registry.get? sought :=
  OrderedMap.find?_insert _ _ _ _

theorem get?_foldl_extendLocale (registry : Registry) (entries : List (LocaleCode × Namespace))
    (distinct : (entries.map Prod.fst).Nodup) (code : LocaleCode) :
    (entries.foldl (fun registry entry => registry.extendLocale entry.1 entry.2) registry).get? code =
      ((OrderedMap.findIn code entries).map (mergedMessages (registry.get? code))).or
        (registry.get? code) := by
  induction entries generalizing registry with
  | nil => simp [OrderedMap.findIn]
  | cons entry rest ih =>
      obtain ⟨first, messages⟩ := entry
      obtain ⟨fresh, restDistinct⟩ := List.nodup_cons.mp distinct
      simp only [List.foldl_cons, OrderedMap.findIn]
      rw [ih _ restDistinct, get?_extendLocale]
      by_cases same : first = code
      · have absent : OrderedMap.findIn code rest = none :=
          (OrderedMap.findIn_eq_none_iff code rest).mpr (same ▸ fresh)
        simp [absent, same]
      · simp only [same, if_false]

theorem get?_extend (registry : Registry) {fragment : Fragment}
    (distinct : fragment.locales.Distinct) (code : LocaleCode) :
    (registry.extend fragment).get? code =
      ((fragment.get? code).map (mergedMessages (registry.get? code))).or (registry.get? code) :=
  get?_foldl_extendLocale registry fragment.toList distinct code

theorem merge_concat (fragments : List Fragment) (last : Fragment) :
    merge (fragments ++ [last]) = (merge fragments).extend last := by
  simp [merge]

end Registry

end MessageCatalog

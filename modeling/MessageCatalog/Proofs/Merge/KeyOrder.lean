import MessageCatalog.Proofs.Merge.Compatible
import MessageCatalog.Proofs.Merge.Nesting
import MessageCatalog.Translator

/-!
Merging and the order of keys. Fragments that differ only in the order of their locales and names
are merged into registries that differ in nothing else, and a translator cannot tell such registries
apart. What a merge holds under a name depends on what stood there and on what comes in under that
name, and never on when the name comes up.
-/

namespace MessageCatalog

namespace OrderedMap

variable {κ α : Type} [DecidableEq κ] {related : α → α → Prop} {first second : OrderedMap κ α}

theorem within_iff_find? (distinct : first.Distinct) :
    first.Within related second ↔ ∀ key value, first.find? key = some value →
      ∃ other, second.find? key = some other ∧ related value other := by
  constructor
  · intro within key value found
    exact within.find? found
  · intro lookups entry member
    exact lookups entry.1 entry.2 (find?_of_mem distinct member)

/-- Maps are within each other when every key is found in both or in neither, with values that
relate both ways. -/
theorem within_and_within_iff_find? (firstDistinct : first.Distinct)
    (secondDistinct : second.Distinct) :
    first.Within related second ∧ second.Within related first ↔
      ∀ key, Option.Rel (fun value other => related value other ∧ related other value)
        (first.find? key) (second.find? key) := by
  rw [within_iff_find? firstDistinct, within_iff_find? secondDistinct, ← forall_and]
  apply forall_congr'
  intro key
  cases first.find? key <;> cases second.find? key <;> simp

/-- What an update leaves under a key is alike in two maps if what was there and what comes in
are alike. -/
theorem rel_map_or {alike : α → α → Prop} {incoming others known targets : Option α}
    {change changeOther : α → α} (comes : Option.Rel alike incoming others)
    (stands : Option.Rel alike known targets)
    (changed : ∀ value ∈ incoming, ∀ other ∈ others, alike value other →
      alike (change value) (changeOther other)) :
    Option.Rel alike ((incoming.map change).or known) ((others.map changeOther).or targets) := by
  cases comes with
  | none => simpa using stands
  | some alike => exact .some (changed _ rfl _ rfl alike)

end OrderedMap

namespace Tree

theorem DistinctNames.mergeOver {incoming : Tree} (distinct : incoming.DistinctNames)
    {existing : Option Tree} (known : ∀ tree ∈ existing, tree.DistinctNames) :
    (incoming.mergeOver existing).DistinctNames := by
  have fits : incoming.Fits (max incoming.depth ((existing.map depth).getD 0)) :=
    ⟨Nat.le_max_left _ _, distinct⟩
  refine (fits_mergeOver fits fun tree found => ⟨?_, known tree found⟩).2
  rw [Option.mem_def.mp found]
  exact Nat.le_max_right _ _

theorem SameContent.eq_of_plain {tree other : Tree} (same : tree.SameContent other)
    (plain : tree.isNamespace = false) : tree = other :=
  (containedIn_iff_of_plain plain).mp same.1

theorem SameContent.exists_nested {messages : Namespace} {other : Tree}
    (same : (nested messages).SameContent other) :
    ∃ others : Namespace, other = .nested others ∧ messages.SameContent others := by
  obtain ⟨others, rfl, _⟩ := nested_containedIn_iff.mp same.1
  exact ⟨others, rfl, same⟩

end Tree

namespace Namespace

theorem sameContent_iff_find? {messages others : Namespace} (distinct : messages.Distinct)
    (othersDistinct : others.Distinct) :
    messages.SameContent others ↔
      ∀ name, Option.Rel Tree.SameContent (messages.find? name) (others.find? name) := by
  rw [SameContent, containedIn_iff, containedIn_iff]
  exact OrderedMap.within_and_within_iff_find? distinct othersDistinct

end Namespace

/-- What a merge leaves under a name has the same content if what came in and what was there
have. -/
theorem Tree.SameContent.mergeOver {incoming other : Tree} {existing known : Option Tree}
    (same : incoming.SameContent other) (existingSame : Option.Rel SameContent existing known)
    (distinct : incoming.DistinctNames) (otherDistinct : other.DistinctNames)
    (existingDistinct : ∀ tree ∈ existing, tree.DistinctNames)
    (knownDistinct : ∀ tree ∈ known, tree.DistinctNames) :
    (incoming.mergeOver existing).SameContent (other.mergeOver known) := by
  induction incoming using Tree.induction generalizing other existing known with
  | leaf | list =>
      obtain rfl := same.eq_of_plain rfl
      rw [mergeOver_of_not_nested (Or.inl rfl), mergeOver_of_not_nested (Or.inl rfl)]
      exact same
  | nested messages members =>
      obtain ⟨others, rfl, sameMessages⟩ := same.exists_nested
      cases existingSame with
      | none => simpa using same
      | @some before after sameBefore =>
          rcases before.plain_or_nested with plain | ⟨target, rfl⟩
          · obtain rfl := sameBefore.eq_of_plain plain
            rw [mergeOver_plain _ plain, mergeOver_plain _ plain]
            exact same
          · obtain ⟨targets, rfl, sameTarget⟩ := sameBefore.exists_nested
            have names : messages.DistinctNames := distinct
            have otherNames : others.DistinctNames := otherDistinct
            have targetNames : target.DistinctNames := existingDistinct _ rfl
            have targetsNames : targets.DistinctNames := knownDistinct _ rfl
            rw [mergeOver_nested, mergeOver_nested]
            apply (Namespace.sameContent_iff_find? (Namespace.distinct_merge targetNames.distinct)
              (Namespace.distinct_merge targetsNames.distinct)).mpr
            intro name
            have comes := (Namespace.sameContent_iff_find? names.distinct
              otherNames.distinct).mp sameMessages name
            have stands := (Namespace.sameContent_iff_find? targetNames.distinct
              targetsNames.distinct).mp sameTarget name
            rw [Namespace.find?_merge target names.distinct name,
              Namespace.find?_merge targets otherNames.distinct name]
            apply OrderedMap.rel_map_or comes stands
            intro tree found otherTree otherFound alike
            exact members (name, tree) (OrderedMap.mem_of_findIn found) alike stands
              (names.find? found) (otherNames.find? otherFound) (fun _ => targetNames.find?)
              (fun _ => targetsNames.find?)

namespace Fragment

/-- Neither fragment has anything that the other one lacks; order does not count. -/
def SameContent (fragment other : Fragment) : Prop :=
  fragment.locales.Within Namespace.ContainedIn other.locales ∧
    other.locales.Within Namespace.ContainedIn fragment.locales

instance (fragment other : Fragment) : Decidable (fragment.SameContent other) :=
  inferInstanceAs (Decidable (_ ∧ _))

/-- Fragments are compared by their number of locales and by looking up each locale of the first
one in the second. -/
theorem sameContent_iff {fragment other : Fragment} (wellFormed : fragment.WellFormed)
    (otherWellFormed : other.WellFormed) :
    fragment.SameContent other ↔ fragment.locales.size = other.locales.size ∧
      fragment.locales.Within Namespace.SameContent other.locales :=
  OrderedMap.within_and_within_iff wellFormed.1 otherWellFormed.1

theorem sameContent_iff_get? {fragment other : Fragment} (wellFormed : fragment.WellFormed)
    (otherWellFormed : other.WellFormed) :
    fragment.SameContent other ↔
      ∀ code, Option.Rel Namespace.SameContent (fragment.get? code) (other.get? code) :=
  OrderedMap.within_and_within_iff_find? wellFormed.1 otherWellFormed.1

theorem WellFormed.get? {fragment : Fragment} (wellFormed : fragment.WellFormed)
    {code : LocaleCode} {messages : Namespace} (found : fragment.get? code = some messages) :
    messages.DistinctNames :=
  wellFormed.2 (code, messages) (OrderedMap.mem_of_findIn found)

end Fragment

namespace Registry

theorem nested_mergedMessages (known : Option Namespace) (messages : Namespace) :
    Tree.nested (mergedMessages known messages) =
      (Tree.nested messages).mergeOver (known.map .nested) := by
  cases known with
  | none => simp [mergedMessages]
  | some known => rw [mergedMessages, Option.map_some, Tree.mergeOver_nested]

theorem WellFormed.get? {registry : Registry} (wellFormed : registry.WellFormed)
    {code : LocaleCode} {messages : Namespace} (found : registry.get? code = some messages) :
    messages.DistinctNames :=
  wellFormed.2 (code, messages) (OrderedMap.mem_of_findIn found)

theorem distinctNames_of_mem_map {known : Option Namespace}
    (distinct : ∀ messages ∈ known, messages.DistinctNames) :
    ∀ tree ∈ known.map Tree.nested, tree.DistinctNames := by
  intro tree found
  obtain ⟨messages, there, rfl⟩ := Option.map_eq_some_iff.mp found
  exact distinct messages there

theorem distinctNames_mergedMessages {known : Option Namespace} {messages : Namespace}
    (distinct : messages.DistinctNames) (knownDistinct : ∀ old ∈ known, old.DistinctNames) :
    (mergedMessages known messages).DistinctNames := by
  have trees : ((Tree.nested messages).mergeOver (known.map .nested)).DistinctNames :=
    Tree.DistinctNames.mergeOver distinct (distinctNames_of_mem_map knownDistinct)
  rwa [← nested_mergedMessages] at trees

theorem WellFormed.extend {registry : Registry} {fragment : Fragment} (known : registry.WellFormed)
    (added : fragment.WellFormed) : (registry.extend fragment).WellFormed := by
  refine List.foldlRecOn (motive := WellFormed) fragment.toList _ known ?_
  intro registry known entry member
  refine ⟨OrderedMap.distinct_insert known.1 entry.1 _, fun stored stands => ?_⟩
  rcases OrderedMap.eq_or_mem_of_mem_insertIn stands with rfl | old
  · exact distinctNames_mergedMessages (added.2 entry member) fun _ => known.get?
  · exact known.2 stored old

theorem sameContent_mergedMessages {known other : Option Namespace} {messages added : Namespace}
    (same : messages.SameContent added) (knownSame : Option.Rel Namespace.SameContent known other)
    (distinct : messages.DistinctNames) (addedDistinct : added.DistinctNames)
    (knownDistinct : ∀ old ∈ known, old.DistinctNames)
    (otherDistinct : ∀ old ∈ other, old.DistinctNames) :
    (mergedMessages known messages).SameContent (mergedMessages other added) := by
  have stands : Option.Rel Tree.SameContent (known.map .nested) (other.map .nested) := by
    cases knownSame with
    | none => exact .none
    | some alike => exact .some alike
  have trees : ((Tree.nested messages).mergeOver (known.map .nested)).SameContent
      ((Tree.nested added).mergeOver (other.map .nested)) :=
    Tree.SameContent.mergeOver same stands distinct addedDistinct
      (distinctNames_of_mem_map knownDistinct) (distinctNames_of_mem_map otherDistinct)
  rwa [← nested_mergedMessages, ← nested_mergedMessages] at trees

variable {registry other : Registry}

theorem sameContent_iff_get? (wellFormed : registry.WellFormed)
    (otherWellFormed : other.WellFormed) :
    registry.SameContent other ↔
      ∀ code, Option.Rel Namespace.SameContent (registry.get? code) (other.get? code) :=
  OrderedMap.within_and_within_iff_find? wellFormed.1 otherWellFormed.1

theorem SameContent.extend {fragment added : Fragment} (same : registry.SameContent other)
    (fragmentSame : fragment.SameContent added) (known : registry.WellFormed)
    (otherKnown : other.WellFormed) (wellFormed : fragment.WellFormed)
    (addedWellFormed : added.WellFormed) :
    (registry.extend fragment).SameContent (other.extend added) := by
  apply (sameContent_iff_get? (known.extend wellFormed) (otherKnown.extend addedWellFormed)).mpr
  intro code
  have stands := (sameContent_iff_get? known otherKnown).mp same code
  have comes := (Fragment.sameContent_iff_get? wellFormed addedWellFormed).mp fragmentSame code
  rw [get?_extend registry wellFormed.1, get?_extend other addedWellFormed.1]
  apply OrderedMap.rel_map_or comes stands
  intro messages found others otherFound alike
  exact sameContent_mergedMessages alike stands (wellFormed.get? found)
    (addedWellFormed.get? otherFound) (fun _ => known.get?) (fun _ => otherKnown.get?)

theorem SameContent.foldl_extend {fragments others : List Fragment}
    (fragmentsSame : List.Forall₂ Fragment.SameContent fragments others)
    (wellFormed : ∀ fragment ∈ fragments, fragment.WellFormed)
    (othersWellFormed : ∀ fragment ∈ others, fragment.WellFormed)
    (same : registry.SameContent other) (known : registry.WellFormed)
    (otherKnown : other.WellFormed) :
    (fragments.foldl Registry.extend registry).SameContent
      (others.foldl Registry.extend other) := by
  induction fragmentsSame generalizing registry other with
  | nil => exact same
  | cons first _ ih =>
      obtain ⟨firstFormed, wellFormed⟩ := List.forall_mem_cons.mp wellFormed
      obtain ⟨otherFormed, othersWellFormed⟩ := List.forall_mem_cons.mp othersWellFormed
      exact ih wellFormed othersWellFormed
        (same.extend first known otherKnown firstFormed otherFormed)
        (known.extend firstFormed) (otherKnown.extend otherFormed)

end Registry

/-- A translator sees of a registry only its answers. -/
theorem Translator.lookup_congr {registry other : Registry}
    (answers : ∀ code raw, registry.resolve code raw = other.resolve code raw)
    (locale : LocaleCode) (fallback : Option LocaleCode) (key : String) :
    (⟨registry, locale, fallback⟩ : Translator).lookup key =
      (⟨other, locale, fallback⟩ : Translator).lookup key := by
  simp only [lookup, primaryMessage?, answers]

namespace Registry

/-- Fragments that agree one by one up to the order of their locales and names are merged into
registries of the same content, over which every translator gives the same translations and reports
the same keys as missing. -/
theorem translations_ignore_key_order {fragments others : List Fragment}
    (wellFormed : ∀ fragment ∈ fragments, fragment.WellFormed)
    (othersWellFormed : ∀ fragment ∈ others, fragment.WellFormed)
    (same : List.Forall₂ Fragment.SameContent fragments others) :
    (merge fragments).SameContent (merge others) ∧
      ∀ locale fallback key arguments quantity,
        let first : Translator := ⟨merge fragments, locale, fallback⟩
        let second : Translator := ⟨merge others, locale, fallback⟩
        first.lookup key = second.lookup key ∧
          first.translate key arguments = second.translate key arguments ∧
          first.plural key quantity = second.plural key quantity := by
  have blank : empty.WellFormed := ⟨OrderedMap.distinct_empty, List.forall_mem_nil _⟩
  have nothing : empty.SameContent empty := ⟨List.forall_mem_nil _, List.forall_mem_nil _⟩
  have merged : (merge fragments).SameContent (merge others) :=
    nothing.foldl_extend same wellFormed othersWellFormed blank blank
  refine ⟨merged, ?_⟩
  intro locale fallback key arguments quantity first second
  have found : first.lookup key = second.lookup key :=
    Translator.lookup_congr merged.resolve locale fallback key
  refine ⟨found, ?_, ?_⟩
  · rw [Translator.translate, Translator.translate, Translator.renderWith, Translator.renderWith,
      found]
  · rw [Translator.plural, Translator.plural, Translator.renderWith, Translator.renderWith, found]

/-- Both sources list their locales and names the other way round; the key is only in the primary
language of the active locale. -/
theorem translations_ignore_key_order_in_menus :
    let english : Namespace := ⟨[("title", .leaf "Title"), ("menu", .leaf "Menu")]⟩
    let german : Namespace :=
      ⟨[("menu", .nested ⟨[("open", .leaf "\x7b0\x7d auf"), ("tips", .list [none])]⟩),
        ("title", .leaf "Titel")]⟩
    let reversed : Namespace :=
      ⟨[("title", .leaf "Titel"),
        ("menu", .nested ⟨[("tips", .list [none]), ("open", .leaf "\x7b0\x7d auf")]⟩)]⟩
    let more : Namespace := ⟨[("menu", .nested ⟨[]⟩)]⟩
    let fragments : List Fragment :=
      [⟨⟨[(⟨"en"⟩, english), (⟨"de"⟩, german)]⟩⟩, ⟨⟨[(⟨"de"⟩, more), (⟨"en"⟩, more)]⟩⟩]
    let others : List Fragment :=
      [⟨⟨[(⟨"de"⟩, reversed), (⟨"en"⟩, english)]⟩⟩, ⟨⟨[(⟨"en"⟩, more), (⟨"de"⟩, more)]⟩⟩]
    let first : Translator := ⟨merge fragments, ⟨"de-AT"⟩, some ⟨"en"⟩⟩
    let second : Translator := ⟨merge others, ⟨"de-AT"⟩, some ⟨"en"⟩⟩
    List.Forall₂ Fragment.SameContent fragments others ∧
      (merge fragments).codes ≠ (merge others).codes ∧
      (merge fragments).SameContent (merge others) ∧
      first.lookup "menu.open" = some "\x7b0\x7d auf" ∧
      first.translate "menu.open" (some (.positional ["Tür"])) =
        second.translate "menu.open" (some (.positional ["Tür"])) := by
  intro english german reversed more fragments others first second
  have wellFormed : ∀ fragment ∈ fragments, fragment.WellFormed := by decide
  have othersWellFormed : ∀ fragment ∈ others, fragment.WellFormed := by decide
  have same : List.Forall₂ Fragment.SameContent fragments others :=
    .cons (by decide) (.cons (by decide) .nil)
  obtain ⟨merged, translations⟩ := translations_ignore_key_order wellFormed othersWellFormed same
  obtain ⟨_, translated, _⟩ := translations ⟨"de-AT"⟩ (some ⟨"en"⟩) "menu.open"
    (some (.positional ["Tür"])) 0
  exact ⟨same, by decide, merged, by decide, translated⟩

end Registry

end MessageCatalog

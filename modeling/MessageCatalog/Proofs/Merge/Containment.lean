import MessageCatalog.Proofs.Tree.Containment

/-!
Merging and containment. What is merged in is contained in the result, which is contained in
everything that contains both, and merging changes nothing exactly when what is merged in was
contained before.
-/

namespace MessageCatalog

namespace Tree

theorem containedIn_mergeOver {incoming : Tree} (distinct : incoming.DistinctNames)
    (existing : Option Tree) : incoming.ContainedIn (incoming.mergeOver existing) := by
  induction incoming using Tree.induction generalizing existing with
  | leaf | list =>
      rw [mergeOver_of_not_nested (Or.inl rfl)]
      exact containedIn_refl distinct
  | nested messages members =>
      rcases nested_mergeOver_cases messages existing with ⟨known, rfl, merged⟩ | stands
      · have names : messages.DistinctNames := distinct
        rw [merged, nested_containedIn_iff]
        refine ⟨known.merge messages, rfl, fun entry member => ?_⟩
        have found := Namespace.find?_merge known names.distinct entry.1
        rw [OrderedMap.find?_of_mem names.distinct member, Option.map_some, Option.some_or] at found
        exact ⟨_, found, members entry member (names.of_mem member) _⟩
      · rw [stands]
        exact containedIn_refl distinct

theorem mergeOver_containedIn {incoming upper : Tree} {existing : Option Tree}
    (contained : incoming.ContainedIn upper) (known : ∀ tree ∈ existing, tree.ContainedIn upper) :
    (incoming.mergeOver existing).ContainedIn upper := by
  induction incoming using Tree.induction generalizing existing upper with
  | leaf | list => exact contained
  | nested messages members =>
      rcases nested_mergeOver_cases messages existing with ⟨target, rfl, merged⟩ | stands
      · obtain ⟨others, rfl, within⟩ := nested_containedIn_iff.mp contained
        rw [merged]
        refine mergeEntries_keeps (motive := fun messages =>
          (Tree.nested messages).ContainedIn (.nested others)) ?_ (known _ rfl)
        intro target kept entry member
        obtain ⟨_, ⟨⟩, older⟩ := nested_containedIn_iff.mp kept
        obtain ⟨other, there, newer⟩ := within entry member
        refine nested_containedIn_iff.mpr ⟨others, rfl, fun inserted stands => ?_⟩
        rcases OrderedMap.eq_or_mem_of_mem_insertIn stands with rfl | old
        · refine ⟨other, there, members entry member newer fun tree found => ?_⟩
          obtain ⟨again, same, below⟩ := older.find? found
          rw [there] at same
          cases same
          exact below
        · exact older inserted old
      · rwa [stands]

/-- Merging over a tree leaves it as it was just when it contains what comes in. -/
theorem mergeOver_eq_iff {incoming known : Tree} (distinct : incoming.DistinctNames) :
    incoming.mergeOver (some known) = known ↔ incoming.ContainedIn known := by
  constructor
  · intro unchanged
    have contained := containedIn_mergeOver distinct (some known)
    rwa [unchanged] at contained
  · intro contained
    induction incoming using Tree.induction generalizing known with
    | leaf | list =>
        rw [mergeOver_of_not_nested (Or.inl rfl)]
        exact (containedIn_iff_of_plain rfl).mp contained
    | nested messages members =>
        have names : messages.DistinctNames := distinct
        obtain ⟨target, rfl, within⟩ := nested_containedIn_iff.mp contained
        rw [mergeOver_nested, nested.injEq]
        refine mergeEntries_keeps (motive := fun messages => messages = target) ?_ rfl
        rintro _ rfl entry member
        obtain ⟨other, found, below⟩ := within entry member
        have stands := members entry member (names.of_mem member) below
        rw [found, stands, OrderedMap.insert_of_find? found]

end Tree

namespace Namespace

variable {target incoming : Namespace}

theorem merge_eq_self_iff (distinct : incoming.DistinctNames) :
    target.merge incoming = target ↔ incoming.ContainedIn target := by
  rw [← Tree.nested.injEq, ← Tree.mergeOver_nested]
  exact Tree.mergeOver_eq_iff distinct

theorem containedIn_merge (target : Namespace) (distinct : incoming.DistinctNames) :
    incoming.ContainedIn (target.merge incoming) := by
  have trees := Tree.containedIn_mergeOver distinct (some (.nested target))
  rwa [Tree.mergeOver_nested] at trees

theorem merge_containedIn {upper : Namespace} (known : target.ContainedIn upper)
    (contained : incoming.ContainedIn upper) : (target.merge incoming).ContainedIn upper := by
  have trees : ((Tree.nested incoming).mergeOver (some (.nested target))).ContainedIn
      (.nested upper) := Tree.mergeOver_containedIn contained fun tree found => by
    cases found
    exact known
  rwa [Tree.mergeOver_nested] at trees

theorem containedIn_refl {messages : Namespace} (distinct : messages.DistinctNames) :
    messages.ContainedIn messages :=
  Tree.containedIn_refl distinct

end Namespace

/-- Every locale of the fragment is known to the registry with messages that contain the
fragment's. -/
def Fragment.ContainedIn (fragment : Fragment) (registry : Registry) : Prop :=
  fragment.locales.Within Namespace.ContainedIn registry.locales

instance (fragment : Fragment) (registry : Registry) : Decidable (fragment.ContainedIn registry) :=
  inferInstanceAs (Decidable (fragment.locales.Within Namespace.ContainedIn registry.locales))

namespace Registry

variable {registry : Registry} {fragment : Fragment}

theorem get?_extend_of_mem (wellFormed : fragment.WellFormed) {entry : LocaleCode × Namespace}
    (member : entry ∈ fragment.toList) :
    (registry.extend fragment).get? entry.1 =
      some (mergedMessages (registry.get? entry.1) entry.2) := by
  have contributed : fragment.get? entry.1 = some entry.2 :=
    OrderedMap.find?_of_mem wellFormed.1 member
  rw [get?_extend registry wellFormed.1, contributed, Option.map_some, Option.some_or]

theorem containedIn_extend (registry : Registry) (wellFormed : fragment.WellFormed) :
    fragment.ContainedIn (registry.extend fragment) := by
  intro entry member
  refine ⟨_, get?_extend_of_mem wellFormed member, ?_⟩
  have distinct := wellFormed.2 entry member
  cases registry.get? entry.1 with
  | none => exact Namespace.containedIn_refl distinct
  | some known => exact Namespace.containedIn_merge known distinct

theorem extend_of_containedIn (wellFormed : fragment.WellFormed)
    (contained : fragment.ContainedIn registry) : registry.extend fragment = registry := by
  refine List.foldlRecOn (motive := fun extended : Registry => extended = registry)
    fragment.toList _ rfl ?_
  rintro _ rfl entry member
  obtain ⟨known, found, below⟩ := contained entry member
  have unchanged := (Namespace.merge_eq_self_iff (wellFormed.2 entry member)).mpr below
  have same := OrderedMap.insert_of_find? found
  rw [extendLocale, get?, found]
  simp only [unchanged, same]

/-- Extending a registry leaves it exactly as it was just when it contained the fragment, and
what was merged in is always contained, so doing it again changes nothing. -/
theorem extend_eq_self_iff (registry : Registry) {fragment : Fragment}
    (wellFormed : fragment.WellFormed) :
    (registry.extend fragment = registry ↔ fragment.ContainedIn registry) ∧
      fragment.ContainedIn (registry.extend fragment) ∧
      (registry.extend fragment).extend fragment = registry.extend fragment := by
  have contained := containedIn_extend registry wellFormed
  refine ⟨⟨fun unchanged => ?_, extend_of_containedIn wellFormed⟩, contained,
    extend_of_containedIn wellFormed contained⟩
  rwa [unchanged] at contained

/-- Known messages in another order change nothing; an empty namespace under a new locale, or in
the place of a message, does. -/
theorem extend_eq_self_iff_of_known_messages :
    let registry : Registry := ⟨⟨[(⟨"en"⟩,
      ⟨[("title", .leaf "Title"), ("menu", .nested ⟨[("open", .leaf "Open"),
        ("tips", .list [none, some "Hint"])]⟩)]⟩)]⟩⟩
    let known : Fragment := ⟨⟨[(⟨"en"⟩,
      ⟨[("menu", .nested ⟨[("tips", .list [none, some "Hint"])]⟩), ("title", .leaf "Title")]⟩)]⟩⟩
    let newLocale : Fragment := ⟨⟨[(⟨"de"⟩, ⟨[]⟩)]⟩⟩
    let overMessage : Fragment := ⟨⟨[(⟨"en"⟩, ⟨[("title", .nested ⟨[]⟩)]⟩)]⟩⟩
    registry.extend known = registry ∧ registry.extend newLocale ≠ registry ∧
      registry.extend overMessage ≠ registry := by
  intro registry known newLocale overMessage
  have contained : known.ContainedIn registry := by decide
  have newcomer : ¬newLocale.ContainedIn registry := by decide
  have replacing : ¬overMessage.ContainedIn registry := by decide
  have criterion (fragment : Fragment) (wellFormed : fragment.WellFormed) :=
    (extend_eq_self_iff registry wellFormed).1
  exact ⟨(criterion known (by decide)).mpr contained,
    fun same => newcomer ((criterion newLocale (by decide)).mp same),
    fun same => replacing ((criterion overMessage (by decide)).mp same)⟩

end Registry

end MessageCatalog

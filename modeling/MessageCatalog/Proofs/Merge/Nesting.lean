import MessageCatalog.Proofs.Merge.Lookup
import MessageCatalog.Proofs.OrderedMap
import MessageCatalog.Proofs.Tree.Image

/-!
What merging keeps: no name is ever held twice, and nothing nests deeper than in what was merged.
-/

namespace MessageCatalog

namespace Tree

/-- The tree nests at most `bound` deep and no namespace of it holds a name twice. -/
def Fits (bound : Nat) (tree : Tree) : Prop := tree.depth ≤ bound ∧ tree.DistinctNames

theorem fits_nested_iff {bound : Nat} {messages : Namespace} :
    (Tree.nested messages).Fits bound ↔
      ∃ inner, bound = inner + 1 ∧ messages.Distinct ∧
        ∀ entry ∈ messages.entries, entry.2.Fits inner := by
  obtain ⟨entries⟩ := messages
  rw [Fits, depth, DistinctNames, distinctBelow_iff]
  constructor
  · rintro ⟨shallow, distinct, below⟩
    have shallower : depthBelow entries ≤ bound - 1 := by omega
    exact ⟨bound - 1, by omega, distinct, fun entry member =>
      ⟨depthBelow_le_iff.mp shallower entry member, below entry member⟩⟩
  · rintro ⟨inner, rfl, distinct, fits⟩
    have shallow : depthBelow entries ≤ inner :=
      depthBelow_le_iff.mpr fun entry member => (fits entry member).1
    exact ⟨by omega, distinct, fun entry member => (fits entry member).2⟩

theorem fits_insert {inner : Nat} {messages : Namespace} {name : String} {tree : Tree}
    (fits : (Tree.nested messages).Fits (inner + 1)) (added : tree.Fits inner) :
    (Tree.nested (messages.insert name tree)).Fits (inner + 1) := by
  obtain ⟨_, ⟨⟩, distinct, entries⟩ := fits_nested_iff.mp fits
  refine fits_nested_iff.mpr
    ⟨inner, rfl, OrderedMap.distinct_insert distinct name tree, fun entry member => ?_⟩
  rcases OrderedMap.eq_or_mem_of_mem_insertIn member with rfl | known
  · exact added
  · exact entries entry known

theorem fits_mergeOver {bound : Nat} {incoming : Tree} {existing : Option Tree}
    (fits : incoming.Fits bound) (known : ∀ tree ∈ existing, tree.Fits bound) :
    (incoming.mergeOver existing).Fits bound := by
  induction incoming using Tree.induction generalizing bound existing with
  | leaf text => exact fits
  | list items => exact fits
  | nested messages members =>
      rcases nested_mergeOver_cases messages existing with ⟨target, rfl, merged⟩ | stands
      · obtain ⟨inner, rfl, _, entries⟩ := fits_nested_iff.mp fits
        rw [merged]
        refine mergeEntries_keeps
          (motive := fun messages => (Tree.nested messages).Fits (inner + 1))
          (fun target fits entry member => ?_) (known _ rfl)
        refine fits_insert fits (members entry member (entries entry member) fun tree found => ?_)
        obtain ⟨_, ⟨⟩, _, older⟩ := fits_nested_iff.mp fits
        exact older _ (OrderedMap.mem_of_findIn found)
      · rwa [stands]

end Tree

namespace Registry

/-- Every locale is known once, and its messages nest at most `bound` deep without repeating a
name. -/
def LocalesFit (bound : Nat) (locales : OrderedMap LocaleCode Namespace) : Prop :=
  locales.Distinct ∧ ∀ entry ∈ locales.entries, (Tree.nested entry.2).Fits bound

theorem localesFit_extendLocale {bound : Nat} {registry : Registry} {messages : Namespace}
    (fits : LocalesFit bound registry.locales) (added : (Tree.nested messages).Fits bound)
    (code : LocaleCode) : LocalesFit bound (registry.extendLocale code messages).locales := by
  obtain ⟨distinct, known⟩ := fits
  refine ⟨OrderedMap.distinct_insert distinct code _, fun entry member => ?_⟩
  rcases OrderedMap.eq_or_mem_of_mem_insertIn member with rfl | old
  · cases found : registry.get? code with
    | none => exact added
    | some earlier =>
        have fits := known _ (OrderedMap.mem_of_findIn found)
        have merged : ((Tree.nested messages).mergeOver (some (.nested earlier))).Fits bound :=
          Tree.fits_mergeOver added (by simpa using fits)
        rwa [Tree.mergeOver_nested] at merged
  · exact known entry old

theorem localesFit_extend {bound : Nat} {registry : Registry} {fragment : Fragment}
    (fits : LocalesFit bound registry.locales) (added : LocalesFit bound fragment.locales) :
    LocalesFit bound (registry.extend fragment).locales := by
  refine List.foldlRecOn (motive := fun registry : Registry => LocalesFit bound registry.locales)
    fragment.toList _ fits fun registry fits entry member => ?_
  exact localesFit_extendLocale fits (added.2 entry member) entry.1

theorem localesFit_merge {bound : Nat} {fragments : List Fragment}
    (fits : ∀ fragment ∈ fragments, LocalesFit bound fragment.locales) :
    LocalesFit bound (merge fragments).locales := by
  refine List.foldlRecOn (motive := fun registry : Registry => LocalesFit bound registry.locales)
    fragments _ ⟨OrderedMap.distinct_empty, List.forall_mem_nil _⟩ ?_
  exact fun registry known fragment member => localesFit_extend known (fits fragment member)

/-- A single fragment is merged into a registry of the same locales. -/
theorem merge_singleton {fragment : Fragment} (distinct : fragment.locales.Distinct) :
    merge [fragment] = ⟨fragment.locales⟩ := by
  obtain ⟨⟨entries⟩⟩ := fragment
  suffices built : entries.foldl (fun registry entry => registry.extendLocale entry.1 entry.2)
      empty = ⟨⟨entries⟩⟩ from built
  replace distinct : (entries.map Prod.fst).Nodup := distinct
  induction entries using List.reverseRecOn with
  | nil => rfl
  | append_singleton entries last ih =>
      rw [List.map_append, List.map_singleton, ← List.concat_eq_append, List.nodup_concat]
        at distinct
      obtain ⟨fresh, earlier⟩ := distinct
      have unknown : (⟨⟨entries⟩⟩ : Registry).get? last.1 = none :=
        (OrderedMap.findIn_eq_none_iff last.1 entries).mpr fresh
      rw [List.foldl_append, ih earlier, List.foldl_cons, List.foldl_nil, extendLocale, unknown,
        OrderedMap.insert, OrderedMap.insertIn_of_not_mem fresh]

end Registry

end MessageCatalog

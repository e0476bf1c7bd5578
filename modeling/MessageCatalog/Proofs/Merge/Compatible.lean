import MessageCatalog.Proofs.Merge.Containment
import MessageCatalog.Proofs.Merge.Order

/-!
Fragments without conflicts. Merging compatible fragments takes nothing away from any of them, so
the result is the least registry that contains them all, and their order decides only the order of
locales and names.
-/

namespace MessageCatalog

namespace Tree

/-- Wherever both trees have a node, both nodes are namespaces or they are the same message or
list. -/
def Compatible (first second : Tree) : Prop :=
  ∀ path left right, first.at? path = some left → second.at? path = some right →
    (left.isNamespace = true ∧ right.isNamespace = true) ∨
      (left.isNamespace = false ∧ left = right)

theorem Compatible.symm {first second : Tree} (compatible : first.Compatible second) :
    second.Compatible first := by
  intro path right left rightFound leftFound
  rcases compatible path left right leftFound rightFound with ⟨leftNested, rightNested⟩ | same
  · exact Or.inl ⟨rightNested, leftNested⟩
  · obtain ⟨plain, rfl⟩ := same
    exact Or.inr ⟨plain, rfl⟩

theorem Compatible.below {first second : Namespace} {name : String} {left right : Tree}
    (compatible : (Tree.nested first).Compatible (.nested second))
    (leftFound : first.find? name = some left) (rightFound : second.find? name = some right) :
    left.Compatible right := by
  intro path inner other reached there
  exact compatible (name :: path) inner other
    (Namespace.nodeAt?_cons_eq_some_iff.mpr ⟨left, leftFound, reached⟩)
    (Namespace.nodeAt?_cons_eq_some_iff.mpr ⟨right, rightFound, there⟩)

/-- What two trees hold that are contained in one and the same cannot conflict. -/
theorem compatible_of_containedIn {first second upper : Tree} (firstIn : first.ContainedIn upper)
    (secondIn : second.ContainedIn upper) : first.Compatible second := by
  intro path left right leftFound rightFound
  obtain ⟨node, reached, leftIn⟩ := firstIn.at? leftFound
  obtain ⟨again, same, rightIn⟩ := secondIn.at? rightFound
  rw [reached] at same
  cases same
  have leftKind := leftIn.isNamespace_eq
  have rightKind := rightIn.isNamespace_eq
  cases kind : node.isNamespace with
  | true => exact Or.inl ⟨leftKind.trans kind, rightKind.trans kind⟩
  | false =>
      have leftSame := (containedIn_iff_of_plain (leftKind.trans kind)).mp leftIn
      have rightSame := (containedIn_iff_of_plain (rightKind.trans kind)).mp rightIn
      exact Or.inr ⟨leftKind.trans kind, leftSame.trans rightSame.symm⟩

theorem ContainedIn.mergeOver {tree known incoming : Tree} (distinct : tree.DistinctNames)
    (incomingDistinct : incoming.DistinctNames) (contained : tree.ContainedIn known)
    (compatible : tree.Compatible incoming) :
    tree.ContainedIn (incoming.mergeOver (some known)) := by
  induction tree using Tree.induction generalizing known incoming with
  | leaf | list =>
      rcases compatible [] _ _ (at?_nil _) (at?_nil _) with ⟨⟨⟩, _⟩ | ⟨plain, rfl⟩
      rw [mergeOver_of_not_nested (Or.inl plain)]
      exact containedIn_refl distinct
  | nested messages members =>
      rcases compatible [] _ _ (at?_nil _) (at?_nil _) with ⟨_, isNamespace⟩ | ⟨⟨⟩, _⟩
      rcases incoming.plain_or_nested with plain | ⟨inner, rfl⟩
      · rw [plain] at isNamespace
        cases isNamespace
      · obtain ⟨others, rfl, within⟩ := nested_containedIn_iff.mp contained
        have names : messages.DistinctNames := distinct
        have innerNames : inner.DistinctNames := incomingDistinct
        rw [mergeOver_nested, nested_containedIn_iff]
        refine ⟨others.merge inner, rfl, fun entry member => ?_⟩
        have found := OrderedMap.find?_of_mem names.distinct member
        obtain ⟨other, there, below⟩ := within entry member
        have merged := Namespace.find?_merge others innerNames.distinct entry.1
        cases newer : inner.find? entry.1 with
        | none =>
            rw [newer, Option.map_none, Option.none_or, there] at merged
            exact ⟨other, merged, below⟩
        | some tree =>
            rw [newer, Option.map_some, Option.some_or, there] at merged
            exact ⟨_, merged, members entry member (names.of_mem member) (innerNames.find? newer)
              below (compatible.below found newer)⟩

end Tree

/-- The fragments are compatible in every locale that both have. -/
def Fragment.Compatible (first second : Fragment) : Prop :=
  ∀ code messages others, first.get? code = some messages → second.get? code = some others →
    (Tree.nested messages).Compatible (.nested others)

theorem Fragment.Compatible.symm {first second : Fragment} (compatible : first.Compatible second) :
    second.Compatible first :=
  fun code messages others found there => (compatible code others messages there found).symm

namespace Registry

def ContainedIn (registry upper : Registry) : Prop :=
  registry.locales.Within Namespace.ContainedIn upper.locales

/-- Neither registry knows anything that the other one does not; order does not count. -/
def SameContent (registry other : Registry) : Prop :=
  registry.ContainedIn other ∧ other.ContainedIn registry

theorem sameContent_iff {registry other : Registry} (distinct : registry.locales.Distinct)
    (otherDistinct : other.locales.Distinct) :
    registry.SameContent other ↔ registry.size = other.size ∧
      registry.locales.Within Namespace.SameContent other.locales :=
  OrderedMap.within_and_within_iff distinct otherDistinct

theorem ContainedIn.resolve {registry upper : Registry} {code : LocaleCode} {raw message : String}
    (contained : registry.ContainedIn upper)
    (answer : registry.resolve code raw = some message) :
    upper.resolve code raw = some message := by
  obtain ⟨messages, known, answer⟩ := Option.bind_eq_some_iff.mp answer
  obtain ⟨others, there, below⟩ := contained.find? known
  exact Option.bind_eq_some_iff.mpr ⟨others, there, below.resolve answer⟩

theorem SameContent.resolve {registry other : Registry} (same : registry.SameContent other)
    (code : LocaleCode) (raw : String) : registry.resolve code raw = other.resolve code raw := by
  refine Option.ext fun message => ⟨?there, ?back⟩
  case there => exact same.1.resolve
  case back => exact same.2.resolve

variable {registry upper : Registry} {fragment added : Fragment}

theorem extend_containedIn (known : registry.ContainedIn upper)
    (contained : fragment.ContainedIn upper) : (registry.extend fragment).ContainedIn upper := by
  refine List.foldlRecOn (motive := fun extended : Registry => extended.ContainedIn upper)
    fragment.toList _ known fun registry known entry member => ?_
  intro inserted stands
  rcases OrderedMap.eq_or_mem_of_mem_insertIn stands with rfl | old
  · obtain ⟨others, there, below⟩ := contained entry member
    refine ⟨others, there, ?_⟩
    cases found : registry.get? entry.1 with
    | none => exact below
    | some messages =>
        obtain ⟨again, same, older⟩ := known.find? found
        rw [there] at same
        cases same
        exact Namespace.merge_containedIn older below
  · exact known inserted old

theorem merge_containedIn {fragments : List Fragment}
    (contained : ∀ fragment ∈ fragments, fragment.ContainedIn upper) :
    (merge fragments).ContainedIn upper :=
  List.foldlRecOn (motive := fun merged : Registry => merged.ContainedIn upper) fragments _
    (List.forall_mem_nil _) fun _ known fragment member =>
      extend_containedIn known (contained fragment member)

theorem containedIn_extend_of_compatible (contained : fragment.ContainedIn registry)
    (wellFormed : fragment.WellFormed) (addedWellFormed : added.WellFormed)
    (compatible : fragment.Compatible added) : fragment.ContainedIn (registry.extend added) := by
  intro entry member
  obtain ⟨known, there, below⟩ := contained entry member
  replace there : registry.get? entry.1 = some known := there
  have extended := get?_extend registry addedWellFormed.1 entry.1
  rw [there] at extended
  cases newer : added.get? entry.1 with
  | none =>
      rw [newer, Option.map_none, Option.none_or] at extended
      exact ⟨known, extended, below⟩
  | some messages =>
      rw [newer, Option.map_some, Option.some_or] at extended
      have contributed : fragment.get? entry.1 = some entry.2 :=
        OrderedMap.find?_of_mem wellFormed.1 member
      have addedDistinct := addedWellFormed.2 _ (OrderedMap.mem_of_findIn newer)
      have kept := Tree.ContainedIn.mergeOver (wellFormed.2 entry member) addedDistinct below
        (compatible entry.1 entry.2 messages contributed newer)
      rw [Tree.mergeOver_nested] at kept
      exact ⟨known.merge messages, extended, kept⟩

theorem containedIn_merge_of_pairwise {fragments : List Fragment}
    (wellFormed : ∀ fragment ∈ fragments, fragment.WellFormed)
    (compatible : fragments.Pairwise Fragment.Compatible) :
    ∀ fragment ∈ fragments, fragment.ContainedIn (merge fragments) := by
  induction fragments using List.reverseRecOn with
  | nil => exact List.forall_mem_nil _
  | append_singleton fragments last ih =>
      obtain ⟨earlier, _, apart⟩ := List.pairwise_append.mp compatible
      have lastWellFormed := wellFormed last (by simp)
      have known (fragment : Fragment) (member : fragment ∈ fragments) :=
        wellFormed fragment (List.mem_append_left _ member)
      intro fragment member
      rw [merge_concat]
      rcases List.mem_append.mp member with old | new
      · exact containedIn_extend_of_compatible (ih known earlier fragment old)
          (known fragment old) lastWellFormed
          (apart fragment old last (List.mem_singleton_self last))
      · cases List.mem_singleton.mp new
        exact containedIn_extend _ lastWellFormed

/-- Fragments that one registry contains together do not conflict. -/
theorem pairwise_compatible_of_containedIn {fragments : List Fragment}
    (contained : ∀ fragment ∈ fragments, fragment.ContainedIn upper) :
    fragments.Pairwise Fragment.Compatible := by
  refine List.pairwise_of_forall_mem_list fun first firstMember second secondMember => ?_
  intro code messages others found there
  obtain ⟨known, reached, firstIn⟩ := (contained first firstMember).find? found
  obtain ⟨again, same, secondIn⟩ := (contained second secondMember).find? there
  rw [reached] at same
  cases same
  exact Tree.compatible_of_containedIn firstIn secondIn

/-- Compatible fragments can be merged in any order: the registries have the same content and
give the same answers. -/
theorem merge_perm {fragments others : List Fragment}
    (wellFormed : ∀ fragment ∈ fragments, fragment.WellFormed)
    (compatible : fragments.Pairwise Fragment.Compatible) (reordered : fragments.Perm others) :
    (merge fragments).SameContent (merge others) ∧
      ∀ code raw, (merge fragments).resolve code raw = (merge others).resolve code raw := by
  have othersWellFormed (fragment : Fragment) (member : fragment ∈ others) : fragment.WellFormed :=
    wellFormed fragment (reordered.mem_iff.mpr member)
  have othersCompatible : others.Pairwise Fragment.Compatible :=
    (reordered.pairwise_iff Fragment.Compatible.symm).mp compatible
  have same : (merge fragments).SameContent (merge others) := by
    constructor
    · refine merge_containedIn fun fragment member => ?_
      exact containedIn_merge_of_pairwise othersWellFormed othersCompatible fragment
        (reordered.mem_iff.mp member)
    · refine merge_containedIn fun fragment member => ?_
      exact containedIn_merge_of_pairwise wellFormed compatible fragment
        (reordered.mem_iff.mpr member)
  exact ⟨same, same.resolve⟩

theorem merge_perm_three_sources :
    let menu : Fragment := ⟨⟨[(⟨"en"⟩, ⟨[("menu", .nested ⟨[("open", .leaf "Open")]⟩),
      ("title", .leaf "Title")]⟩)]⟩⟩
    let german : Fragment := ⟨⟨[(⟨"de"⟩, ⟨[("title", .leaf "Titel")]⟩), (⟨"en"⟩, ⟨[]⟩)]⟩⟩
    let more : Fragment := ⟨⟨[(⟨"en"⟩, ⟨[("tips", .list [none, some "Hint"]),
      ("menu", .nested ⟨[("close", .leaf "Close"), ("open", .leaf "Open")]⟩)]⟩)]⟩⟩
    (merge [menu, german, more]).SameContent (merge [german, more, menu]) ∧
      (merge [menu, german, more]).codes = [⟨"en"⟩, ⟨"de"⟩] ∧
      (merge [german, more, menu]).codes = [⟨"de"⟩, ⟨"en"⟩] ∧
      (merge [menu, german, more]).resolve ⟨"en"⟩ "menu.close" =
        (merge [german, more, menu]).resolve ⟨"en"⟩ "menu.close" := by
  intro menu german more
  have wellFormed : ∀ fragment ∈ [menu, german, more], fragment.WellFormed := by decide
  have contained : ∀ fragment ∈ [menu, german, more],
      fragment.ContainedIn (merge [menu, german, more]) := by decide
  have compatible := pairwise_compatible_of_containedIn contained
  have reordered : ([menu] ++ [german, more]).Perm ([german, more] ++ [menu]) :=
    List.perm_append_comm
  obtain ⟨same, answers⟩ := merge_perm wellFormed compatible reordered
  exact ⟨same, by decide, by decide, answers _ _⟩

end Registry

end MessageCatalog

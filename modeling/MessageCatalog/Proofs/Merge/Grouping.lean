import MessageCatalog.Proofs.Merge.Order

/-!
Grouping of merges. Merging three namespaces two by two from the left or from the right gives the
same result unless the middle one puts a message or a list between two namespaces: from the left
this takes the older namespace away, from the right the older one is merged with the newer.
-/

namespace MessageCatalog

namespace Tree

/-- At this path the first has the older and the third the newer namespace, and between them the
second has a message or a list. -/
structure Interrupted (first second third : Tree) (path : List String)
    (older newer : Namespace) : Prop where
  before : first.at? path = some (.nested older)
  between : ∃ plain, second.at? path = some plain ∧ plain.isNamespace = false
  after : third.at? path = some (.nested newer)

namespace Interrupted

variable {first second third : Namespace} {older newer : Namespace}

theorem path_ne_nil {path : List String}
    (interrupted : Interrupted (.nested first) (.nested second) (.nested third) path older newer) :
    path ≠ [] := by
  rintro rfl
  obtain ⟨_, ⟨_, ⟨⟩, plain⟩, _⟩ := interrupted
  cases plain

/-- Below namespaces an interruption lies under a name that all three have. -/
theorem cons_iff {name : String} {path : List String} :
    Interrupted (.nested first) (.nested second) (.nested third) (name :: path) older newer ↔
      ∃ old middle new, first.find? name = some old ∧ second.find? name = some middle ∧
        third.find? name = some new ∧ Interrupted old middle new path older newer := by
  constructor
  · rintro ⟨before, ⟨plain, between, isPlain⟩, after⟩
    obtain ⟨old, oldFound, oldBelow⟩ := Namespace.nodeAt?_cons_eq_some_iff.mp before
    obtain ⟨middle, middleFound, middleBelow⟩ := Namespace.nodeAt?_cons_eq_some_iff.mp between
    obtain ⟨new, newFound, newBelow⟩ := Namespace.nodeAt?_cons_eq_some_iff.mp after
    exact ⟨old, middle, new, oldFound, middleFound, newFound,
      oldBelow, ⟨plain, middleBelow, isPlain⟩, newBelow⟩
  · rintro ⟨old, middle, new, oldFound, middleFound, newFound, before, ⟨plain, between, isPlain⟩,
      after⟩
    exact ⟨Namespace.nodeAt?_cons_eq_some_iff.mpr ⟨old, oldFound, before⟩,
      ⟨plain, Namespace.nodeAt?_cons_eq_some_iff.mpr ⟨middle, middleFound, between⟩, isPlain⟩,
      Namespace.nodeAt?_cons_eq_some_iff.mpr ⟨new, newFound, after⟩⟩

end Interrupted

/-- Wherever the second interrupts, the newer namespace already holds all of the older one. -/
def Regroups (first second third : Tree) : Prop :=
  ∀ path older newer, Interrupted first second third path older newer →
    older.merge newer = newer

theorem regroups_nested_iff {first second third : Namespace} :
    Regroups (.nested first) (.nested second) (.nested third) ↔
      ∀ name old middle new, first.find? name = some old → second.find? name = some middle →
        third.find? name = some new → Regroups old middle new := by
  constructor
  · intro regroups name old middle new oldFound middleFound newFound path older newer interrupted
    exact regroups (name :: path) older newer (Interrupted.cons_iff.mpr
      ⟨old, middle, new, oldFound, middleFound, newFound, interrupted⟩)
  · intro below path older newer interrupted
    cases path with
    | nil => exact absurd rfl interrupted.path_ne_nil
    | cons name path =>
        obtain ⟨old, middle, new, oldFound, middleFound, newFound, inside⟩ :=
          Interrupted.cons_iff.mp interrupted
        exact below name old middle new oldFound middleFound newFound path older newer inside

theorem regroups_of_not_nested {first second third : Tree}
    (plain : first.isNamespace = false ∨ third.isNamespace = false) :
    Regroups first second third := by
  rintro path older newer ⟨before, _, after⟩
  obtain ⟨first, rfl⟩ := exists_nested_of_at? before
  obtain ⟨third, rfl⟩ := exists_nested_of_at? after
  rcases plain with plain | plain <;> cases plain

theorem regroups_of_plain_between {second : Tree} (plain : second.isNamespace = false)
    (first third : Namespace) :
    Regroups (.nested first) second (.nested third) ↔ first.merge third = third := by
  constructor
  · intro regroups
    exact regroups [] first third ⟨rfl, ⟨second, at?_nil second, plain⟩, rfl⟩
  · rintro same path older newer ⟨before, ⟨node, between, _⟩, after⟩
    obtain ⟨rfl, _⟩ := at?_of_not_nested plain between
    cases before
    cases after
    exact same

end Tree

namespace Namespace

variable {first second third : Namespace}

theorem keys_merge_merge (secondDistinct : second.Distinct) (thirdDistinct : third.Distinct) :
    ((first.merge second).merge third).keys = (first.merge (second.merge third)).keys := by
  have tail : (third.keys.filter (· ∉ second.keys)).filter (· ∉ first.keys) =
      third.keys.filter (· ∉ first.keys ++ second.keys.filter (· ∉ first.keys)) := by
    rw [List.filter_filter]
    refine List.filter_congr fun name _ => ?_
    by_cases known : name ∈ first.keys <;> simp [known]
  rw [keys_merge _ thirdDistinct, keys_merge _ secondDistinct,
    keys_merge _ (distinct_merge secondDistinct), keys_merge _ thirdDistinct,
    List.filter_append, List.append_assoc, tail]

theorem merge_assoc_iff_find? (firstDistinct : first.Distinct) (secondDistinct : second.Distinct)
    (thirdDistinct : third.Distinct) :
    (first.merge second).merge third = first.merge (second.merge third) ↔
      ∀ name old middle new, first.find? name = some old → second.find? name = some middle →
        third.find? name = some new →
        new.mergeOver (some (middle.mergeOver (some old))) =
          (new.mergeOver (some middle)).mergeOver (some old) := by
  have newerDistinct : (second.merge third).Distinct := distinct_merge secondDistinct
  have left (name : String) := find?_merge (first.merge second) thirdDistinct name
  have right (name : String) := find?_merge first newerDistinct name
  simp only [find?_merge first secondDistinct] at left
  simp only [find?_merge second thirdDistinct] at right
  constructor
  · intro same name old middle new oldFound middleFound newFound
    have lookups := (left name).symm.trans ((congrArg (·.find? name) same).trans (right name))
    simpa [oldFound, middleFound, newFound] using lookups
  · intro agree
    refine OrderedMap.eq_of_keys_of_find? (distinct_merge (distinct_merge firstDistinct))
      (keys_merge_merge secondDistinct thirdDistinct) fun name => ?_
    rw [left, right]
    -- A name that one of the three lacks is decided by the other two alone.
    cases newFound : third.find? name with
    | none => simp
    | some new =>
        cases middleFound : second.find? name with
        | none => simp
        | some middle =>
            cases oldFound : first.find? name with
            | none => simp
            | some old => simpa using agree name old middle new oldFound middleFound newFound

end Namespace

namespace Tree

-- The induction is on the newest tree: only below its namespaces can the groupings differ.
theorem mergeOver_mergeOver_iff {first second third : Tree} (firstDistinct : first.DistinctNames)
    (secondDistinct : second.DistinctNames) (thirdDistinct : third.DistinctNames) :
    third.mergeOver (some (second.mergeOver (some first))) =
        (third.mergeOver (some second)).mergeOver (some first) ↔
      Regroups first second third := by
  induction third using Tree.induction generalizing first second with
  | leaf | list => exact iff_of_true rfl (regroups_of_not_nested (Or.inr rfl))
  | nested third members =>
      rcases second.plain_or_nested with plain | ⟨second, rfl⟩
      · rw [mergeOver_of_not_nested (Or.inl plain), mergeOver_plain _ plain]
        rcases first.plain_or_nested with apart | ⟨first, rfl⟩
        · rw [mergeOver_plain _ apart]
          exact iff_of_true rfl (regroups_of_not_nested (Or.inl apart))
        · rw [regroups_of_plain_between plain, mergeOver_nested, nested.injEq]
          exact eq_comm
      · rw [mergeOver_nested third second]
        rcases first.plain_or_nested with apart | ⟨first, rfl⟩
        · rw [mergeOver_plain _ apart, mergeOver_plain _ apart, mergeOver_nested]
          exact iff_of_true rfl (regroups_of_not_nested (Or.inl apart))
        · have firstNames : first.DistinctNames := firstDistinct
          have secondNames : second.DistinctNames := secondDistinct
          have thirdNames : third.DistinctNames := thirdDistinct
          rw [mergeOver_nested, mergeOver_nested, mergeOver_nested, nested.injEq,
            regroups_nested_iff, Namespace.merge_assoc_iff_find? firstNames.distinct
              secondNames.distinct thirdNames.distinct]
          refine forall₄_congr fun name old middle new => ?_
          refine forall₃_congr fun oldFound middleFound newFound => ?_
          exact members (name, new) (OrderedMap.mem_of_findIn newFound)
            (firstNames.find? oldFound) (secondNames.find? middleFound) (thirdNames.find? newFound)

end Tree

namespace Namespace

/-- The two groupings of three namespaces agree, order included, exactly when the newest has all
of the oldest already wherever the middle one stands between them with a message or a list. -/
theorem merge_assoc_iff {first second third : Namespace} (firstDistinct : first.DistinctNames)
    (secondDistinct : second.DistinctNames) (thirdDistinct : third.DistinctNames) :
    ((first.merge second).merge third = first.merge (second.merge third) ↔
      ∀ (path : List String) (older newer : Namespace), path ≠ [] →
        Tree.Interrupted (.nested first) (.nested second) (.nested third) path older newer →
        older.merge newer = newer) ∧
    ((∀ (path : List String) (older newer : Namespace), path ≠ [] →
        ¬Tree.Interrupted (.nested first) (.nested second) (.nested third) path older newer) →
      (first.merge second).merge third = first.merge (second.merge third)) := by
  have groupings : (first.merge second).merge third = first.merge (second.merge third) ↔
      Tree.Regroups (.nested first) (.nested second) (.nested third) := by
    have trees := Tree.mergeOver_mergeOver_iff firstDistinct secondDistinct thirdDistinct
    simpa only [Tree.mergeOver_nested, Tree.nested.injEq] using trees
  constructor
  · rw [groupings]
    constructor
    · intro regroups path older newer _ interrupted
      exact regroups path older newer interrupted
    · intro below path older newer interrupted
      exact below path older newer interrupted.path_ne_nil interrupted
  · intro apart
    refine groupings.mpr fun path older newer interrupted => ?_
    exact absurd interrupted (apart path older newer interrupted.path_ne_nil)

/-- From the left the message takes the older menu away; from the right the newer menu has taken the
message's place before the older one is met. -/
theorem merge_assoc_iff_menu_replaced :
    let first : Namespace :=
      ⟨[("menu", .nested ⟨[("open", .leaf "Open"), ("close", .leaf "Close")]⟩)]⟩
    let second : Namespace := ⟨[("menu", .leaf "Menu")]⟩
    let third : Namespace := ⟨[("menu", .nested ⟨[("open", .leaf "Open it")]⟩)]⟩
    first.DistinctNames ∧ second.DistinctNames ∧ third.DistinctNames ∧
      (first.merge second).merge third ≠ first.merge (second.merge third) := by
  intro first second third
  refine ⟨by decide, by decide, by decide, fun same => ?_⟩
  have regroups := (merge_assoc_iff (by decide) (by decide) (by decide)).1.mp same
  have unchanged := regroups ["menu"] _ _ (by simp) ⟨rfl, ⟨.leaf "Menu", rfl, rfl⟩, rfl⟩
  exact absurd (congrArg OrderedMap.size unchanged) (by decide)

end Namespace

end MessageCatalog

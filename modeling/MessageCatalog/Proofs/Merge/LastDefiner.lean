import Mathlib.Data.List.Induction
import MessageCatalog.Proofs.Merge.Lookup
import MessageCatalog.Proofs.Tree.Node

/-!
The last definer wins. A namespace settles a path when it has a message or a list on the way, or
anything at the end; merging it over other messages then decides what stands there, and otherwise
leaves the path as it was. So a merged registry answers a key as the last fragment that decides
it, and no other part of the fragments matters.
-/

namespace MessageCatalog

namespace Namespace

/-- A message or a list stands at some start of the path, or some node stands at its end. -/
def Settles (messages : Namespace) (path : List String) : Prop :=
  (∃ start tree, start ≠ [] ∧ start <+: path ∧ messages.nodeAt? start = some tree ∧
    tree.isNamespace = false) ∨
  ∃ tree, messages.nodeAt? path = some tree

def settles : Namespace → List String → Bool
  | _, [] => true
  | messages, name :: path =>
    match messages.find? name with
    | none => false
    | some (.nested inner) => settles inner path
    | some _ => true

theorem not_settles_cons_of_absent {messages : Namespace} {name : String}
    (absent : messages.find? name = none) (path : List String) :
    ¬messages.Settles (name :: path) := by
  rintro (⟨start, tree, nonempty, isStart, found, _⟩ | ⟨tree, found⟩)
  · cases start with
    | nil => exact nonempty rfl
    | cons first start =>
        obtain ⟨same, _⟩ := List.cons_prefix_cons.mp isStart
        simp [nodeAt?_cons, same, absent] at found
  · simp [nodeAt?_cons, absent] at found

theorem settles_cons_of_plain {messages : Namespace} {name : String} {tree : Tree}
    (found : messages.find? name = some tree) (plain : tree.isNamespace = false)
    (path : List String) : messages.Settles (name :: path) := by
  refine Or.inl ⟨[name], tree, by simp, ?_, by simp [nodeAt?_cons, found], plain⟩
  exact List.cons_prefix_cons.mpr ⟨rfl, List.nil_prefix⟩

theorem settles_cons_of_nested {messages inner : Namespace} {name : String}
    (found : messages.find? name = some (.nested inner)) (path : List String) :
    messages.Settles (name :: path) ↔ inner.Settles path := by
  have below := nodeAt?_cons_of_nested found
  constructor
  · rintro (⟨start, tree, nonempty, isStart, atStart, plain⟩ | ⟨tree, atEnd⟩)
    · cases start with
      | nil => exact absurd rfl nonempty
      | cons first start =>
          obtain ⟨same, isStart⟩ := List.cons_prefix_cons.mp isStart
          rw [same, below] at atStart
          refine Or.inl ⟨start, tree, ?_, isStart, atStart, plain⟩
          rintro rfl
          simp only [nodeAt?_nil, Option.some.injEq] at atStart
          subst atStart
          simp [Tree.isNamespace, Tree.messages?] at plain
    · exact Or.inr ⟨tree, by rwa [below] at atEnd⟩
  · rintro (⟨start, tree, nonempty, isStart, atStart, plain⟩ | ⟨tree, atEnd⟩)
    · refine Or.inl ⟨name :: start, tree, by simp, ?_, by rwa [below], plain⟩
      exact List.cons_prefix_cons.mpr ⟨rfl, isStart⟩
    · exact Or.inr ⟨tree, by rwa [below]⟩

theorem settles_iff (messages : Namespace) (path : List String) :
    settles messages path = true ↔ messages.Settles path := by
  fun_induction settles messages path with
  | case1 messages => exact ⟨fun _ => Or.inr ⟨_, rfl⟩, fun _ => rfl⟩
  | case2 messages name path absent =>
      simp [not_settles_cons_of_absent absent]
  | case3 messages name path inner found ih =>
      rw [ih, settles_cons_of_nested found]
  | case4 messages name path tree plain found =>
      refine iff_of_true rfl (settles_cons_of_plain found ?_ path)
      cases tree with
      | leaf => rfl
      | list => rfl
      | nested inner => exact absurd rfl (plain inner)

instance (messages : Namespace) (path : List String) : Decidable (messages.Settles path) :=
  decidable_of_iff _ (settles_iff messages path)

/-- A namespace decides a key when it settles the path of its names. -/
def Decides (messages : Namespace) (raw : String) : Prop :=
  ∃ key, Key.parse? raw = some key ∧ messages.Settles key.names

instance (messages : Namespace) (raw : String) : Decidable (messages.Decides raw) :=
  match parsed : Key.parse? raw with
  | none => isFalse fun ⟨_, found, _⟩ => by simp [parsed] at found
  | some key => decidable_of_iff (messages.Settles key.names)
      ⟨fun settled => ⟨key, parsed, settled⟩, fun ⟨other, found, settled⟩ => by
        obtain rfl : key = other := by simpa [parsed] using found
        exact settled⟩

/-! What merging leaves at a path. Namespaces at the end of a path yield no message, so only the
messages and lists that stand there are compared. -/

def plainAt? (messages : Namespace) (path : List String) : Option Tree :=
  (messages.nodeAt? path).filter fun tree => !tree.isNamespace

theorem nodeAt?_of_not_settles {messages : Namespace} {path : List String}
    (unsettled : ¬messages.Settles path) : messages.nodeAt? path = none := by
  cases found : messages.nodeAt? path with
  | none => rfl
  | some tree => exact absurd (Or.inr ⟨tree, found⟩) unsettled

theorem plainAt?_cons_of_nested {messages inner : Namespace} {name : String}
    (found : messages.find? name = some (.nested inner)) (path : List String) :
    messages.plainAt? (name :: path) = inner.plainAt? path := by
  rw [plainAt?, nodeAt?_cons_of_nested found, plainAt?]

theorem plainAt?_cons_congr {messages others : Namespace} {name : String}
    (same : messages.find? name = others.find? name) (path : List String) :
    messages.plainAt? (name :: path) = others.plainAt? (name :: path) := by
  simp [plainAt?, nodeAt?_cons, same]

theorem plainAt?_of_not_nested {messages : Namespace} {name : String} {path : List String}
    (onward : path ≠ []) (blocked : ∀ inner, messages.find? name ≠ some (.nested inner)) :
    messages.plainAt? (name :: path) = none := by
  obtain ⟨next, rest, rfl⟩ := List.exists_cons_of_ne_nil onward
  cases found : messages.find? name with
  | none => simp [plainAt?, nodeAt?_cons, found]
  | some tree =>
      cases tree with
      | leaf text => simp [plainAt?, nodeAt?_cons, found, Tree.at?]
      | list items => simp [plainAt?, nodeAt?_cons, found, Tree.at?]
      | nested inner => exact absurd found (blocked inner)

theorem plainAt?_merge (target : Namespace) {incoming : Namespace}
    (distinct : incoming.DistinctNames) (path : List String) :
    (target.merge incoming).plainAt? path =
      if incoming.Settles path then incoming.plainAt? path else target.plainAt? path := by
  induction path generalizing target incoming with
  | nil => simp [plainAt?, Option.filter_some, Tree.isNamespace, Tree.messages?]
  | cons name path ih =>
      have merged := find?_merge target distinct.distinct name
      cases found : incoming.find? name with
      | none =>
          rw [found, Option.map_none, Option.none_or] at merged
          rw [if_neg (not_settles_cons_of_absent found path)]
          exact plainAt?_cons_congr merged path
      | some tree =>
          rw [found, Option.map_some, Option.some_or] at merged
          by_cases meets : ∃ inner known, tree = .nested inner ∧
              target.find? name = some (.nested known)
          · obtain ⟨inner, known, rfl, existing⟩ := meets
            rw [existing, Tree.mergeOver_nested] at merged
            rw [plainAt?_cons_of_nested merged, plainAt?_cons_of_nested existing,
              plainAt?_cons_of_nested found]
            simp only [settles_cons_of_nested found]
            exact ih known (distinct.find? found)
          · have replaced : (target.merge incoming).find? name = incoming.find? name := by
              rw [merged, found, Tree.mergeOver_of_not_nested]
              cases plain : tree.isNamespace with
              | false => exact Or.inl rfl
              | true =>
                  cases tree with
                  | leaf => simp [Tree.isNamespace, Tree.messages?] at plain
                  | list => simp [Tree.isNamespace, Tree.messages?] at plain
                  | nested inner => exact Or.inr fun known same => meets ⟨inner, known, rfl, same⟩
            rw [plainAt?_cons_congr replaced]
            split
            · rfl
            · -- The path goes on in the incoming namespace, below what the target has there.
              rename_i unsettled
              have onward : path ≠ [] := by
                rintro rfl
                exact unsettled (Or.inr ⟨tree, by simp [nodeAt?_cons, found]⟩)
              have incomingNone : incoming.plainAt? (name :: path) = none := by
                simp [plainAt?, nodeAt?_of_not_settles unsettled]
              rw [incomingNone, plainAt?_of_not_nested onward]
              intro known existing
              cases tree with
              | leaf => exact unsettled (settles_cons_of_plain found rfl path)
              | list => exact unsettled (settles_cons_of_plain found rfl path)
              | nested inner => exact meets ⟨inner, known, rfl, existing⟩

end Namespace

namespace Key

theorem resolveIn_eq_plainAt? (key : Key) (root : Namespace) :
    key.resolveIn root =
      (root.plainAt? key.names).bind fun tree => messageOf tree key.segments := by
  rw [resolveIn_eq, Namespace.plainAt?]
  cases root.nodeAt? key.names with
  | none => rfl
  | some tree =>
      cases tree with
      | leaf => rfl
      | list => rfl
      | nested messages =>
          simp [Option.filter_some, Tree.isNamespace, Tree.messages?, messageOf_nested]

end Key

namespace Namespace

/-- A namespace that is merged in answers the keys that it decides and leaves all others. -/
theorem resolve_merge (target : Namespace) {incoming : Namespace}
    (distinct : incoming.DistinctNames) (raw : String) :
    (target.merge incoming).resolve raw =
      if incoming.Decides raw then incoming.resolve raw else target.resolve raw := by
  unfold resolve
  cases parsed : Key.parse? raw with
  | none => simp
  | some key =>
      have decides : incoming.Decides raw ↔ incoming.Settles key.names := by
        simp [Decides, parsed]
      simp only [Option.bind_some, Key.resolveIn_eq_plainAt?, plainAt?_merge target distinct, decides]
      split <;> rfl

theorem resolve_of_not_decides {messages : Namespace} {raw : String}
    (undecided : ¬messages.Decides raw) : messages.resolve raw = none := by
  unfold resolve
  cases parsed : Key.parse? raw with
  | none => rfl
  | some key =>
      have unsettled : ¬messages.Settles key.names := fun settled =>
        undecided ⟨key, parsed, settled⟩
      simp [Key.resolveIn_eq, nodeAt?_of_not_settles unsettled]

end Namespace

namespace Registry

theorem resolve_extend (registry : Registry) {fragment : Fragment}
    (wellFormed : fragment.WellFormed) (code : LocaleCode) (raw : String) :
    (registry.extend fragment).resolve code raw =
      match (fragment.get? code).filter fun messages => messages.Decides raw with
      | some messages => messages.resolve raw
      | none => registry.resolve code raw := by
  have extended := registry.get?_extend wellFormed.1 code
  unfold resolve
  cases contributed : fragment.get? code with
  | none => simp [extended, contributed]
  | some messages =>
      have distinct : messages.DistinctNames :=
        wellFormed.2 (code, messages) (OrderedMap.mem_of_findIn contributed)
      rw [extended, contributed]
      cases registry.get? code with
      | none =>
          by_cases decided : messages.Decides raw
          · simp [mergedMessages, Option.filter_some, decided]
          · simp [mergedMessages, Option.filter_some, decided,
              Namespace.resolve_of_not_decides decided]
      | some known =>
          by_cases decided : messages.Decides raw
          · simp [mergedMessages, Option.filter_some, decided,
              Namespace.resolve_merge known distinct]
          · simp [mergedMessages, Option.filter_some, decided,
              Namespace.resolve_merge known distinct]

def contributions (fragments : List Fragment) (code : LocaleCode) : List Namespace :=
  fragments.filterMap fun fragment => fragment.get? code

/-- The last namespace that the fragments have for a locale and that decides the key. -/
def lastDecider? (fragments : List Fragment) (code : LocaleCode) (raw : String) :
    Option Namespace :=
  (contributions fragments code).reverse.find? fun messages => messages.Decides raw

theorem lastDecider?_concat (fragments : List Fragment) (last : Fragment) (code : LocaleCode)
    (raw : String) :
    lastDecider? (fragments ++ [last]) code raw =
      ((last.get? code).filter fun messages => messages.Decides raw).or
        (lastDecider? fragments code raw) := by
  unfold lastDecider? contributions
  cases contributed : last.get? code with
  | none => simp [contributed]
  | some messages =>
      by_cases decided : messages.Decides raw
      · simp [contributed, Option.filter_some, decided]
      · simp [contributed, Option.filter_some, decided]

/-- A merged registry answers every key as the last namespace of the locale that decides it, and
has no message for a key that none of them decides or that cannot be read. -/
theorem resolve_merge_eq_lastDecider (fragments : List Fragment)
    (wellFormed : ∀ fragment ∈ fragments, fragment.WellFormed) (code : LocaleCode) (raw : String) :
    (merge fragments).resolve code raw =
        (lastDecider? fragments code raw).bind (fun messages => messages.resolve raw) ∧
      ((∀ messages ∈ contributions fragments code, ¬messages.Decides raw) →
        (merge fragments).resolve code raw = none) ∧
      (Key.parse? raw = none → (merge fragments).resolve code raw = none) := by
  have answer : (merge fragments).resolve code raw =
      (lastDecider? fragments code raw).bind fun messages => messages.resolve raw := by
    induction fragments using List.reverseRecOn with
    | nil => rfl
    | append_singleton fragments last ih =>
        have lastWellFormed : last.WellFormed := wellFormed last (by simp)
        have earlier := ih fun fragment member =>
          wellFormed fragment (List.mem_append_left _ member)
        rw [merge_concat, resolve_extend _ lastWellFormed, lastDecider?_concat, earlier]
        cases (last.get? code).filter fun messages => messages.Decides raw <;> rfl
  have nobody (undecided : ∀ messages ∈ contributions fragments code, ¬messages.Decides raw) :
      (merge fragments).resolve code raw = none := by
    have none : lastDecider? fragments code raw = none :=
      List.find?_eq_none.mpr fun messages member => by
        simpa using undecided messages (List.mem_reverse.mp member)
    rw [answer, none]
    rfl
  refine ⟨answer, nobody, fun unreadable => nobody fun messages _ => ?_⟩
  rintro ⟨key, parsed, _⟩
  simp [unreadable] at parsed

/-- A message that is put over a namespace and a namespace that is put over that message hide
what stood below the first one, and only that. -/
theorem resolve_merge_menu_layers :
    let english (messages : Namespace) : Fragment := ⟨⟨[(⟨"en"⟩, messages)]⟩⟩
    let layers :=
      [english ⟨[("menu", .nested ⟨[("open", .leaf "Open"), ("close", .leaf "Close")]⟩),
          ("tips", .list [none, some "Hint"])]⟩,
        english ⟨[("menu", .leaf "Menu")]⟩,
        english ⟨[("menu", .nested ⟨[("open", .leaf "Open it")]⟩)]⟩]
    (∀ fragment ∈ layers, fragment.WellFormed) ∧
      (merge layers).resolve ⟨"en"⟩ "menu.open" = some "Open it" ∧
      (merge layers).resolve ⟨"en"⟩ "menu.close" = none ∧
      (merge layers).resolve ⟨"en"⟩ "tips[1]" = some "Hint" := by
  intro english layers
  have wellFormed : ∀ fragment ∈ layers, fragment.WellFormed := by decide
  have answer (raw : String) := (resolve_merge_eq_lastDecider layers wellFormed ⟨"en"⟩ raw).1
  rw [answer, answer, answer]
  exact ⟨wellFormed, by decide, by decide, by decide⟩

end Registry

end MessageCatalog

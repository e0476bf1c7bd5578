import MessageCatalog.Proofs.Tree.FirstFault

/-!
Whether the path of a fault, read as a key, leads back to the fault. It does unless the path begins
with an empty name and goes on from there: such a beginning is not written.
-/

namespace MessageCatalog

open Json (Step Value)

/-- The names that are left of a path when it is written. -/
def writtenNames (names : List String) : List String :=
  match names.dropWhile (· = "") with
  | [] => [""]
  | first :: rest => first :: rest

theorem writtenPath_eq (names : List String) :
    writtenPath names = String.ofList (dotted (writtenNames names)) := by
  rw [writtenPath, writtenNames]
  cases names.dropWhile (· = "") <;> rfl

theorem writtenNames_ne_nil (names : List String) : writtenNames names ≠ [] := by
  rw [writtenNames]
  cases names.dropWhile (· = "") <;> simp

theorem mem_of_mem_writtenNames {names : List String} {name : String}
    (member : name ∈ writtenNames names) : name = "" ∨ name ∈ names := by
  rw [writtenNames] at member
  split at member
  · exact Or.inl (List.mem_singleton.mp member)
  · next shown =>
      rw [← shown] at member
      exact Or.inr ((List.dropWhile_sublist _).mem member)

/-- An empty name in front of others is lost. -/
theorem length_writtenNames_le {rest : List String} (more : rest ≠ []) :
    (writtenNames ("" :: rest)).length ≤ rest.length := by
  rw [writtenNames]
  split
  · exact List.length_pos_of_ne_nil more
  · next shown =>
      rw [← shown, List.dropWhile_cons_of_pos (by simp)]
      exact (List.dropWhile_sublist _).length_le

/-- A place can be found again by its names when the first of them can be seen or is the only
one. -/
def Json.Step.Traceable (place : List Step) : Prop :=
  ∃ first rest, Step.names place = first :: rest ∧ (first ≠ "" ∨ rest = [])

theorem writtenNames_eq_names_iff {place : List Step} :
    writtenNames (Step.names place) = Step.names place ↔ Step.Traceable place := by
  rw [Step.Traceable]
  cases Step.names place with
  | nil => simp [writtenNames]
  | cons first rest =>
      by_cases blank : first = ""
      · subst blank
        by_cases only : rest = []
        · subst only
          exact iff_of_true rfl ⟨"", [], rfl, Or.inr rfl⟩
        · have shorter := length_writtenNames_le only
          refine iff_of_false (fun same => ?_) ?_
          · rw [same, List.length_cons] at shorter
            omega
          · rintro ⟨_, _, ⟨⟩, visible | last⟩
            · exact visible rfl
            · exact only last
      · exact iff_of_true (by simp [writtenNames, blank]) ⟨first, rest, rfl, Or.inl blank⟩

/-- Neither separates the parts of a key nor closes an index. -/
def PlainName (name : String) : Prop := '.' ∉ name.toList ∧ ']' ∉ name.toList

instance (name : String) : Decidable (PlainName name) :=
  inferInstanceAs (Decidable ('.' ∉ name.toList ∧ ']' ∉ name.toList))

namespace Key

def ofNames (names : List String) : Key := ⟨names.map (⟨·, none⟩)⟩

@[simp] theorem names_ofNames (names : List String) : (ofNames names).names = names := by
  simp [Key.names, ofNames, Function.comp_def]

theorem parse?_dotted {names : List String} (nonempty : names ≠ [])
    (plain : ∀ name ∈ names, PlainName name) :
    parse? (String.ofList (dotted names)) = some (ofNames names) := by
  refine parse?_eq_some_iff.mpr ⟨names.map String.toList, ?spelled, by simpa using nonempty,
    ?dotless, by rw [String.toList_ofList, dotted]⟩
  case spelled =>
    rw [ofNames, List.forall₂_map_left_iff, List.forall₂_map_right_iff, List.forall₂_same]
    intro name member
    exact .plain fun closed => (plain name member).2 (List.mem_of_getLast? closed)
  case dotless =>
    exact List.forall_mem_map.mpr fun name member => (plain name member).1

/-- What a written path of plain names is read as. -/
theorem parse?_writtenPath {names : List String} (plain : ∀ name ∈ names, PlainName name) :
    parse? (writtenPath names) = some (ofNames (writtenNames names)) := by
  rw [writtenPath_eq]
  refine parse?_dotted (writtenNames_ne_nil names) fun name member => ?_
  rcases mem_of_mem_writtenNames member with rfl | known
  · decide
  · exact plain name known

end Key

namespace Namespace

theorem ofJson_eq_error_of_path {value : Value} {fault : Fault} {path : String}
    (failed : ofJson value = .error fault) (named : fault.path? = some path) :
    value.FirstFault (Tree.fault? []) fault := by
  cases value with
  | object members => exact ofMembers_eq_error_iff.mp failed
  | null | boolean | number | string | array =>
      cases failed
      cases named

theorem path_eq_of_firstFaultAt {value : Value} {place : List Step} {fault : Fault} {path : String}
    (found : value.FirstFaultAt (Tree.fault? []) place fault) (named : fault.path? = some path) :
    path = writtenPath (Step.names place) := by
  obtain ⟨node, -, faulty, -⟩ := found
  exact Option.some.inj (named.symm.trans (Tree.path?_of_fault? faulty))

/-- What the path of a first fault is read as. -/
theorem parse?_of_firstFaultAt {value : Value} {place : List Step} {fault : Fault} {path : String}
    (plain : value.EveryName PlainName) (found : value.FirstFaultAt (Tree.fault? []) place fault)
    (named : fault.path? = some path) :
    Key.parse? path = some (.ofNames (writtenNames (Step.names place))) := by
  rw [path_eq_of_firstFaultAt found named]
  obtain ⟨node, reached, -, -⟩ := found
  exact Key.parse?_writtenPath (plain place node reached)

variable {value : Value} {fault : Fault} {path : String}

/-- The path that is reported with a fault below the root of a namespace is a key, and its names
are those that lead to the fault just when its place is traceable; so a traceable place shares the
path with no other. -/
theorem fault_path_leads_back (plain : value.EveryName PlainName)
    (failed : ofJson value = .error fault) (named : fault.path? = some path) :
    ∃ place, value.FirstFaultAt (Tree.fault? []) place fault ∧
      (∃ key, Key.parse? path = some key ∧ (∀ segment ∈ key.segments, segment.index = none) ∧
        (key.names = Step.names place ↔ Step.Traceable place)) ∧
      ∀ (other : Value) (second : Fault) (elsewhere : List Step), other.EveryName PlainName →
        other.FirstFaultAt (Tree.fault? []) elsewhere second → second.path? = some path →
        Step.Traceable place → Step.Traceable elsewhere →
        Step.names place = Step.names elsewhere := by
  obtain ⟨place, found⟩ := ofJson_eq_error_of_path failed named
  have parsed := parse?_of_firstFaultAt plain found named
  refine ⟨place, found, ⟨_, parsed, ?_, ?_⟩, ?_⟩
  · exact List.forall_mem_map.mpr fun _ _ => rfl
  · rw [Key.names_ofNames, writtenNames_eq_names_iff]
  · intro other second elsewhere otherPlain otherFound otherNamed traceable otherTraceable
    have again := parse?_of_firstFaultAt otherPlain otherFound otherNamed
    have same : writtenNames (Step.names place) = writtenNames (Step.names elsewhere) := by
      simpa using congrArg (Option.map Key.names) (parsed.symm.trans again)
    rwa [writtenNames_eq_names_iff.mpr traceable, writtenNames_eq_names_iff.mpr otherTraceable]
      at same

theorem everyName_within {name : String} {value : Value} (plain : PlainName name)
    (below : value.EveryName PlainName) :
    (Value.object ⟨[(name, value)]⟩).EveryName PlainName :=
  Value.everyName_object_iff.mpr (List.forall_mem_singleton.mpr ⟨plain, below⟩)

theorem firstFaultAt_within {fault? : List Step → Value → Option Fault} {name : String}
    {value : Value} {place : List Step} {fault : Fault}
    (itself : fault? [] (.object ⟨[(name, value)]⟩) = none)
    (below : value.FirstFaultAt (fun place => fault? (.member 0 name :: place)) place fault) :
    (Value.object ⟨[(name, value)]⟩).FirstFaultAt fault? (.member 0 name :: place) fault :=
  .into itself (.member rfl) below fun _ _ _ before => absurd before (Nat.not_lt_zero _)

/-- An empty name below another is part of the path. -/
theorem fault_path_leads_back_below_menu :
    let value : Value := .object ⟨[("menu", .object ⟨[("", .boolean true)]⟩)]⟩
    value.EveryName PlainName ∧
      ofJson value = .error (.unsupportedValue "menu." .boolean) ∧
      ∃ place, value.FirstFaultAt (Tree.fault? []) place (.unsupportedValue "menu." .boolean) ∧
        (∃ key, Key.parse? "menu." = some key ∧
          (∀ segment ∈ key.segments, segment.index = none) ∧
          (key.names = Step.names place ↔ Step.Traceable place)) ∧
        ∀ (other : Value) (second : Fault) (elsewhere : List Step), other.EveryName PlainName →
          other.FirstFaultAt (Tree.fault? []) elsewhere second → second.path? = some "menu." →
          Step.Traceable place → Step.Traceable elsewhere →
          Step.names place = Step.names elsewhere := by
  intro value
  have plain : value.EveryName PlainName :=
    everyName_within (by decide) (everyName_within (by decide) (Value.everyName_boolean true))
  exact ⟨plain, rfl, fault_path_leads_back plain rfl rfl⟩

/-- The path of a fault below an empty name lacks this name, and is that of a fault elsewhere. -/
theorem fault_path_lacks_empty_name :
    let value : Value := .object ⟨[("", .object ⟨[("a", .boolean true)]⟩)]⟩
    let other : Value := .object ⟨[("a", .boolean true)]⟩
    let fault := Fault.unsupportedValue "a" .boolean
    value.EveryName PlainName ∧ other.EveryName PlainName ∧
      ofJson value = .error fault ∧ ofJson other = .error fault ∧
      value.FirstFaultAt (Tree.fault? []) [.member 0 "", .member 0 "a"] fault ∧
      other.FirstFaultAt (Tree.fault? []) [.member 0 "a"] fault ∧
      Key.parse? "a" = some (.ofNames ["a"]) ∧
      (Key.ofNames ["a"]).names ≠ Step.names [.member 0 "", .member 0 "a"] := by
  intro value other fault
  have sound : other.EveryName PlainName :=
    everyName_within (by decide) (Value.everyName_boolean true)
  refine ⟨everyName_within (by decide) sound, sound, rfl, rfl, ?_, ?_, by decide, by decide⟩
  · exact firstFaultAt_within rfl (firstFaultAt_within rfl (.here rfl))
  · exact firstFaultAt_within rfl (.here rfl)

end Namespace

end MessageCatalog

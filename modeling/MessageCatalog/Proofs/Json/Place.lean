import Mathlib.Data.List.Basic
import MessageCatalog.Proofs.Json.Structure

/-!
Places in JSON values. A place lists the members and items that are entered on the way from a value
to a node inside it, and places are in the order of the document when the positions on the way are
in lexicographic order. Among the nodes that are at fault, the first fault is that of the foremost.
-/

namespace MessageCatalog.Json

/-- Entering the member, or the item, at a position of a value. -/
inductive Step where
  | member (position : Nat) (name : String)
  | item (position : Nat)
  deriving DecidableEq, Repr

namespace Step

def position : Step → Nat
  | member position _ => position
  | item position => position

def name? : Step → Option String
  | member _ name => some name
  | item _ => none

/-- The first place stands before the second in the document, as the value around a node does. -/
def Before (place other : List Step) : Prop :=
  List.Lex (· < ·) (place.map position) (other.map position)

theorem not_before_nil {place : List Step} : ¬Before place [] := List.not_lex_nil

theorem before_cons (step : Step) (place : List Step) : Before [] (step :: place) := .nil

theorem before_cons_iff {first second : Step} {place other : List Step} :
    Before (first :: place) (second :: other) ↔
      first.position < second.position ∨ first.position = second.position ∧ Before place other :=
  List.cons_lex_cons_iff

/-- The names of the members that are entered. -/
def names (place : List Step) : List String := place.filterMap name?

theorem mem_names_cons {step : Step} {place : List Step} {name : String} :
    name ∈ names (step :: place) ↔ step.name? = some name ∨ name ∈ names place := by
  simp [names]

end Step

namespace Value

inductive Child : Value → Step → Value → Prop
  | member {members position name inner} : members[position]? = some (name, inner) →
      Child (.object ⟨members⟩) (.member position name) inner
  | item {items position inner} : items[position]? = some inner →
      Child (.array items) (.item position) inner

/-- The node is what the steps of the place lead to, one after another. -/
inductive At : Value → List Step → Value → Prop
  | here (value) : At value [] value
  | into {value step inner place node} : value.Child step inner → At inner place node →
      At value (step :: place) node

variable {value inner node : Value} {step : Step} {place : List Step}

/-- There is one child at a position. -/
theorem Child.unique {other : Step} {second : Value} (first : value.Child step inner)
    (again : value.Child other second) (same : step.position = other.position) :
    step = other ∧ inner = second := by
  cases first with
  | @member members position name _ found =>
      cases again with
      | @member _ again name _ foundAgain =>
          obtain rfl : position = again := same
          rw [found] at foundAgain
          cases foundAgain
          exact ⟨rfl, rfl⟩
  | @item items position _ found =>
      cases again with
      | @item _ again _ foundAgain =>
          obtain rfl : position = again := same
          rw [found] at foundAgain
          cases foundAgain
          exact ⟨rfl, rfl⟩

/-- Among the children with a property one stands first. -/
theorem Child.exists_first (bad : Step → Value → Prop) (child : value.Child step inner)
    (known : bad step inner) :
    ∃ step inner, value.Child step inner ∧ bad step inner ∧
      ∀ other second, value.Child other second → other.position < step.position →
        ¬bad other second := by
  induction place : step.position using Nat.strongRecOn generalizing step inner with
  | ind position earlier =>
      subst place
      by_cases clean : ∀ other second, value.Child other second →
          other.position < step.position → ¬bad other second
      · exact ⟨step, inner, child, known, clean⟩
      · simp only [not_forall, not_not, exists_prop] at clean
        obtain ⟨other, second, found, before, wrong⟩ := clean
        exact earlier other.position before found wrong rfl

theorem child_array_iff {items : List Value} :
    (Value.array items).Child step inner ↔
      ∃ position, step = .item position ∧ items[position]? = some inner := by
  constructor
  · rintro (_ | found)
    exact ⟨_, rfl, found⟩
  · rintro ⟨position, rfl, found⟩
    exact .item found

theorem child_object_iff {members : List (String × Value)} :
    (Value.object ⟨members⟩).Child step inner ↔
      ∃ position name, step = .member position name ∧
        members[position]? = some (name, inner) := by
  constructor
  · rintro (found | _)
    exact ⟨_, _, rfl, found⟩
  · rintro ⟨position, name, rfl, found⟩
    exact .member found

/-- A property of values follows when it holds of every value all of whose children have it. -/
theorem child_induction {property : Value → Prop}
    (next : ∀ value, (∀ step inner, value.Child step inner → property inner) → property value)
    (value : Value) : property value := by
  induction value using Value.induction with
  | null | boolean | number | string => exact next _ (by rintro _ _ ⟨⟩)
  | array items held =>
      refine next _ fun step inner child => ?_
      obtain ⟨position, _, found⟩ := child_array_iff.mp child
      exact held inner (List.mem_of_getElem? found)
  | object members held =>
      obtain ⟨members⟩ := members
      refine next _ fun step inner child => ?_
      obtain ⟨position, name, _, found⟩ := child_object_iff.mp child
      exact held (name, inner) (List.mem_of_getElem? found)

section Names

variable {property : String → Prop}

/-- The property holds of the keys of the value, at every level. -/
def EveryName (property : String → Prop) (value : Value) : Prop :=
  ∀ place node, value.At place node → ∀ name ∈ Step.names place, property name

theorem everyName_iff :
    value.EveryName property ↔ ∀ step inner, value.Child step inner →
      (∀ name, step.name? = some name → property name) ∧ inner.EveryName property := by
  constructor
  · intro every step inner child
    refine ⟨fun name entered => ?_, fun place node reached name member => ?_⟩
    · exact every [step] inner (.into child (.here inner)) name
        (Step.mem_names_cons.mpr (Or.inl entered))
    · exact every (step :: place) node (.into child reached) name
        (Step.mem_names_cons.mpr (Or.inr member))
  · rintro children place node (_ | ⟨child, reached⟩) name member
    · cases member
    · obtain ⟨entered, below⟩ := children _ _ child
      rcases Step.mem_names_cons.mp member with first | later
      · exact entered name first
      · exact below _ node reached name later

theorem everyName_boolean (flag : Bool) : (Value.boolean flag).EveryName property :=
  everyName_iff.mpr (by rintro _ _ ⟨⟩)

theorem everyName_object_iff {members : List (String × Value)} :
    (Value.object ⟨members⟩).EveryName property ↔
      ∀ member ∈ members, property member.1 ∧ member.2.EveryName property := by
  rw [everyName_iff]
  simp only [child_object_iff]
  constructor
  · intro children member known
    obtain ⟨position, found⟩ := List.mem_iff_getElem?.mp known
    obtain ⟨entered, below⟩ := children _ member.2 ⟨position, member.1, rfl, found⟩
    exact ⟨entered member.1 rfl, below⟩
  · rintro members _ inner ⟨position, name, rfl, found⟩
    obtain ⟨entered, below⟩ := members _ (List.mem_of_getElem? found)
    exact ⟨fun _ same => Option.some.inj same ▸ entered, below⟩

end Names

variable {ε : Type} {fault? : List Step → Value → Option ε} {fault : ε}

/-- Nothing in the value is at fault; `fault?` says what is wrong with the node at a place. -/
def Faultless (fault? : List Step → Value → Option ε) (value : Value) : Prop :=
  ∀ place node, value.At place node → fault? place node = none

/-- At the place is the foremost node that is at fault. -/
def FirstFaultAt (fault? : List Step → Value → Option ε) (value : Value) (place : List Step)
    (fault : ε) : Prop :=
  ∃ node, value.At place node ∧ fault? place node = some fault ∧
    ∀ other inner, value.At other inner → fault? other inner ≠ none → ¬Step.Before other place

def FirstFault (fault? : List Step → Value → Option ε) (value : Value) (fault : ε) : Prop :=
  ∃ place, value.FirstFaultAt fault? place fault

theorem firstFault_congr {other? : List Step → Value → Option ε}
    (same : ∀ place node, value.At place node → fault? place node = other? place node) :
    value.FirstFault fault? fault ↔ value.FirstFault other? fault := by
  refine exists₂_congr fun place node => and_congr_right fun reached => ?_
  rw [same place node reached]
  refine and_congr_right fun _ => forall₃_congr fun other inner there => ?_
  rw [same other inner there]

theorem faultless_iff :
    value.Faultless fault? ↔ fault? [] value = none ∧ ∀ step inner, value.Child step inner →
      inner.Faultless fun place => fault? (step :: place) := by
  constructor
  · intro faultless
    refine ⟨faultless [] value (.here value), fun step inner child place node reached => ?_⟩
    exact faultless (step :: place) node (.into child reached)
  · rintro ⟨itself, children⟩ place node (_ | ⟨child, reached⟩)
    · exact itself
    · exact children _ _ child _ _ reached

theorem FirstFaultAt.here (itself : fault? [] value = some fault) :
    value.FirstFaultAt fault? [] fault :=
  ⟨value, .here value, itself, fun _ _ _ _ => Step.not_before_nil⟩

theorem FirstFaultAt.into (itself : fault? [] value = none) (child : value.Child step inner)
    (below : inner.FirstFaultAt (fun place => fault? (step :: place)) place fault)
    (earlier : ∀ other second, value.Child other second → other.position < step.position →
      second.Faultless fun place => fault? (other :: place)) :
    value.FirstFaultAt fault? (step :: place) fault := by
  obtain ⟨node, reached, faulty, foremost⟩ := below
  refine ⟨node, .into child reached, faulty, ?_⟩
  rintro _ found (_ | @⟨_, other, second, rest, _, again, there⟩) wrong before
  · exact wrong itself
  · rcases Step.before_cons_iff.mp before with sooner | ⟨same, inside⟩
    · exact wrong (earlier other second again sooner rest found there)
    · obtain ⟨rfl, rfl⟩ := child.unique again same.symm
      exact foremost rest found there wrong inside

/-- The first fault is that of the value itself, or it is the first fault of a child before which
all children are without fault. -/
theorem firstFault_iff :
    value.FirstFault fault? fault ↔ fault? [] value = some fault ∨
      fault? [] value = none ∧ ∃ step inner, value.Child step inner ∧
        inner.FirstFault (fun place => fault? (step :: place)) fault ∧
        ∀ earlier other, value.Child earlier other → earlier.position < step.position →
          other.Faultless fun place => fault? (earlier :: place) := by
  constructor
  · rintro ⟨place, node, reached, faulty, foremost⟩
    cases reached with
    | here => exact Or.inl faulty
    | @into _ step inner place _ child below =>
        refine Or.inr ⟨?_, step, inner, child, ⟨place, node, below, faulty, ?_⟩, ?_⟩
        · by_contra itself
          exact foremost [] value (.here value) itself (Step.before_cons step place)
        · intro other found there wrong before
          refine foremost (step :: other) found (.into child there) wrong ?_
          exact Step.before_cons_iff.mpr (Or.inr ⟨rfl, before⟩)
        · intro earlier other found sooner place node there
          by_contra wrong
          refine foremost (earlier :: place) node (.into found there) wrong ?_
          exact Step.before_cons_iff.mpr (Or.inl sooner)
  · rintro (itself | ⟨itself, step, inner, child, ⟨place, below⟩, earlier⟩)
    · exact ⟨[], .here itself⟩
    · exact ⟨step :: place, .into itself child below earlier⟩

theorem firstFault_iff_of_root {found : ε} (itself : fault? [] value = some found) :
    value.FirstFault fault? fault ↔ found = fault := by
  rw [firstFault_iff, itself]
  simp

/-- Where no child can be at fault only the value itself is. -/
theorem firstFault_iff_of_shallow
    (shallow : ∀ step inner, value.Child step inner →
      ∀ place node, fault? (step :: place) node = none) :
    value.FirstFault fault? fault ↔ fault? [] value = some fault := by
  rw [firstFault_iff]
  refine or_iff_left ?_
  rintro ⟨_, step, inner, child, ⟨place, node, _, faulty, _⟩, _⟩
  cases faulty.symm.trans (shallow step inner child place node)

theorem firstFault_array_iff {items : List Value} :
    (Value.array items).FirstFault fault? fault ↔ fault? [] (.array items) = some fault ∨
      fault? [] (.array items) = none ∧ ∃ (position : Nat) (item : Value),
        items[position]? = some item ∧
        item.FirstFault (fun place => fault? (.item position :: place)) fault ∧
        ∀ (earlier : Nat) (other : Value), earlier < position → items[earlier]? = some other →
          other.Faultless fun place => fault? (.item earlier :: place) := by
  rw [firstFault_iff]
  refine or_congr_right (and_congr_right fun _ => ⟨?_, ?_⟩)
  · rintro ⟨_, item, @⟨⟩ | @⟨_, position, _, found⟩, first, clean⟩
    refine ⟨position, item, found, first, fun earlier other sooner there => ?_⟩
    exact clean (.item earlier) other (.item there) sooner
  · rintro ⟨position, item, found, first, clean⟩
    refine ⟨.item position, item, .item found, first, ?_⟩
    rintro _ other (_ | there) sooner
    exact clean _ other sooner there

theorem firstFault_object_iff {members : List (String × Value)} :
    (Value.object ⟨members⟩).FirstFault fault? fault ↔ fault? [] (.object ⟨members⟩) = some fault ∨
      fault? [] (.object ⟨members⟩) = none ∧ ∃ (position : Nat) (member : String × Value),
        members[position]? = some member ∧
        member.2.FirstFault (fun place => fault? (.member position member.1 :: place)) fault ∧
        ∀ (earlier : Nat) (other : String × Value), earlier < position →
          members[earlier]? = some other →
          other.2.Faultless fun place => fault? (.member earlier other.1 :: place) := by
  rw [firstFault_iff]
  refine or_congr_right (and_congr_right fun _ => ⟨?_, ?_⟩)
  · rintro ⟨_, inner, @⟨_, position, name, _, found⟩ | _, first, clean⟩
    refine ⟨position, (name, inner), found, first, fun earlier other sooner there => ?_⟩
    exact clean (.member earlier other.1) other.2 (.member there) sooner
  · rintro ⟨position, ⟨name, inner⟩, found, first, clean⟩
    refine ⟨.member position name, inner, .member found, first, ?_⟩
    rintro _ other (there | _) sooner
    exact clean _ (_, other) sooner there

theorem not_faultless_iff : ¬value.Faultless fault? ↔
    ∃ place node, value.At place node ∧ fault? place node ≠ none := by
  simp only [Faultless, not_forall, exists_prop, ne_eq]

/-- Where something is at fault there is a first fault. -/
theorem exists_firstFault (faulty : ¬value.Faultless fault?) :
    ∃ fault, value.FirstFault fault? fault := by
  induction value using child_induction generalizing fault? with
  | next value below =>
      cases itself : fault? [] value with
      | some fault => exact ⟨fault, firstFault_iff.mpr (Or.inl itself)⟩
      | none =>
          rw [faultless_iff, not_and] at faulty
          simp only [not_forall, exists_prop] at faulty
          obtain ⟨_, _, someChild, someFault⟩ := faulty itself
          obtain ⟨step, inner, child, wrong, earlier⟩ := someChild.exists_first
            (fun step inner => ¬inner.Faultless fun place => fault? (step :: place)) someFault
          obtain ⟨fault, first⟩ := below step inner child wrong
          refine ⟨fault, firstFault_iff.mpr (Or.inr ⟨itself, step, inner, child, first, ?_⟩)⟩
          exact fun other second found before => not_not.mp (earlier other second found before)

theorem exists_firstFault_iff :
    (∃ fault, value.FirstFault fault? fault) ↔ ¬value.Faultless fault? := by
  constructor
  · rintro ⟨fault, place, node, reached, faulty, _⟩ faultless
    rw [faultless place node reached] at faulty
    cases faulty
  · exact exists_firstFault

end Value

end MessageCatalog.Json

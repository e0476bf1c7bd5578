import MessageCatalog.Binding

/-!
Scenarios: listeners and observers given as data. A callback has a name and a list of
reactions; it records that it was called and then carries out, in order, the reactions that
apply. Each reaction applies to one locale or to any, and only so many times for each callback.
-/

namespace MessageCatalog.Scenario

/-- The locales that a reaction applies to. A missing locale is met only by `any`. -/
inductive Trigger where
  | any
  | locale (code : LocaleCode)
  deriving DecidableEq, Repr

def Trigger.matches (trigger : Trigger) (locale : Option LocaleCode) : Bool :=
  match trigger with
  | any => true
  | .locale code => locale == some code

mutual

inductive Action where
  | fire (store : Nat) (code : LocaleCode)
  /-- Sets a locale, with the current translator of the store `source` if one is given. -/
  | set (store : Nat) (locale : Option LocaleCode) (source : Option Nat)
  | onLocale (store : Nat) (name : String) (reactions : List Reaction)
  /-- An observer that translates the key `probe`, if there is one, whenever it is called. -/
  | subscribe (store : Nat) (name : String) (probe : Option String) (reactions : List Reaction)
  | panic (message : String)

inductive Reaction where
  | when (trigger : Trigger) (times : Nat) (actions : List Action)

end

instance : Inhabited Action := ⟨.panic ""⟩

inductive Record where
  /-- A request was made, and the call has come back while the store had this locale. -/
  | fired (who : String) (code : LocaleCode) (current : Option LocaleCode)
  | started (who : String) (code : LocaleCode)
  | ended (who : String) (code : LocaleCode)
  | observed (who : String) (state : State) (rendered : Option String)

/-- The records so far, and for each callback how often each of its reactions has applied. -/
structure Journal where
  records : List Record
  counts : List (List Nat)

namespace Journal

def blank : Journal := ⟨[], []⟩

instance : Inhabited Journal := ⟨blank⟩

def record (journal : Journal) (record : Record) : Journal :=
  { journal with records := journal.records ++ [record] }

def enrol (journal : Journal) (reactions : Nat) : Journal :=
  { journal with counts := journal.counts ++ [List.replicate reactions 0] }

def count (journal : Journal) (callback reaction : Nat) : Nat :=
  ((journal.counts[callback]?.getD [])[reaction]?).getD 0

def countUp (journal : Journal) (callback reaction : Nat) : Journal :=
  { journal with
    counts := journal.counts.modify callback fun counts => counts.modify reaction (· + 1) }

end Journal

def journalNotebook : Nat := 0

def withJournal (next : Journal → Script Journal) : Script Journal := .recall journalNotebook next

def recording (record : Record) (next : Script Journal) : Script Journal :=
  withJournal fun journal => .remember journalNotebook (journal.record record) next

/-- Translates the probe with the translator of a state, notes what is missing, and passes the
result on. -/
def probing (probe : Option String) (state : State) (next : Option String → Script Journal) :
    Script Journal :=
  match probe, state.translator with
  | some key, some translator =>
    let rendered := translator.translate key none
    .noteAll rendered.notices (next (some rendered.value))
  | _, _ => next none

mutual

def actionScript (who : String) (next : Script Journal) : Action → Script Journal
  | .fire store code =>
    .fire store code (.get store fun state => recording (.fired who code state.locale) next)
  | .set store locale none => .set store ⟨locale, none⟩ next
  | .set store locale (some source) =>
    .get source fun state => .set store ⟨locale, state.translator⟩ next
  | .onLocale store name reactions =>
    withJournal fun journal =>
      let callback := journal.counts.length
      .remember journalNotebook (journal.enrol reactions.length)
        (.onLocale store
          (fun code =>
            recording (.started name code)
              (reactionsScript name (some code) callback 0 (recording (.ended name code) .done)
                reactions))
          next)
  | .subscribe store name probe reactions =>
    withJournal fun journal =>
      let callback := journal.counts.length
      .remember journalNotebook (journal.enrol reactions.length)
        (.subscribe store
          (fun state =>
            probing probe state fun rendered =>
              recording (.observed name state rendered)
                (reactionsScript name state.locale callback 0 .done reactions))
          next)
  | .panic message => .panic message

def actionsScript (who : String) (next : Script Journal) : List Action → Script Journal
  | [] => next
  | action :: rest => actionScript who (actionsScript who next rest) action

/-- The reactions of a callback from number `index` on, to a call with the given locale, and
then `next`. -/
def reactionsScript (who : String) (locale : Option LocaleCode) (callback index : Nat)
    (next : Script Journal) : List Reaction → Script Journal
  | [] => next
  | .when trigger times actions :: rest =>
    let later := reactionsScript who locale callback (index + 1) next rest
    if trigger.matches locale then
      withJournal fun journal =>
        if journal.count callback index < times then
          .remember journalNotebook (journal.countUp callback index)
            (actionsScript who later actions)
        else later
    else later

end

/-- Carries out an action from outside any callback, under the name `who`. -/
def perform (fuel : Nat) (world : World Journal) (who : String) (action : Action) :
    Outcome Journal :=
  world.perform fuel (actionScript who .done action)

def records (world : World Journal) : List Record := (world.notebooks journalNotebook).records

end MessageCatalog.Scenario

import Mathlib.Data.List.DropRight
import MessageCatalog.Proofs.Store.Dispatcher

/-!
What a trace tells of one store. The requests that were made and whose dispatch has not begun are
those in the queue, except that a panic empties the queue: since the last panic, requests are
dispatched in the order in which they were made.
-/

namespace MessageCatalog

variable {μ : Type}

namespace Event

def fired? (store : Nat) : Event μ → Option LocaleCode
  | fired other code => if other = store then some code else none
  | _ => none

def began? (store : Nat) : Event μ → Option LocaleCode
  | began other code _ => if other = store then some code else none
  | _ => none

def listened? (store : Nat) : Event μ → Option (Listener μ)
  | listened other listener => if other = store then some listener else none
  | _ => none

def ofDispatch (store : Nat) : Event μ → Bool
  | began other _ _ => other == store
  | called other _ _ => other == store
  | ended other _ => other == store
  | _ => false

def isPanic : Event μ → Bool
  | panicked _ => true
  | _ => false

def fires (store : Nat) (trace : List (Event μ)) : List LocaleCode :=
  trace.filterMap (fired? store)

def begun (store : Nat) (trace : List (Event μ)) : List LocaleCode :=
  trace.filterMap (began? store)

def registered (store : Nat) (trace : List (Event μ)) : List (Listener μ) :=
  trace.filterMap (listened? store)

def dispatches (store : Nat) (trace : List (Event μ)) : List (Event μ) :=
  trace.filter (ofDispatch store)

def sinceLastPanic (trace : List (Event μ)) : List (Event μ) :=
  trace.rtakeWhile fun event => !event.isPanic

variable {store : Nat} {event : Option (Event μ)}

theorem filterMap_concat {α β : Type} (select : α → Option β) (entries : List α) (last : α) :
    (entries ++ [last]).filterMap select = entries.filterMap select ++ (select last).toList := by
  cases selected : select last <;> simp [selected]

theorem fires_append (first second : List (Event μ)) :
    fires store (first ++ second) = fires store first ++ fires store second :=
  List.filterMap_append

theorem begun_append (first second : List (Event μ)) :
    begun store (first ++ second) = begun store first ++ begun store second :=
  List.filterMap_append

theorem fires_concat (trace : List (Event μ)) (told : Event μ) :
    fires store (trace ++ [told]) = fires store trace ++ (told.fired? store).toList :=
  filterMap_concat (fired? store) trace told

theorem begun_concat (trace : List (Event μ)) (told : Event μ) :
    begun store (trace ++ [told]) = begun store trace ++ (told.began? store).toList :=
  filterMap_concat (began? store) trace told

theorem registered_concat (trace : List (Event μ)) (told : Event μ) :
    registered store (trace ++ [told]) =
      registered store trace ++ (told.listened? store).toList :=
  filterMap_concat (listened? store) trace told

theorem dispatches_concat (trace : List (Event μ)) (told : Event μ) :
    dispatches store (trace ++ [told]) =
      dispatches store trace ++ if told.ofDispatch store then [told] else [] := by
  simp [dispatches, List.filter_cons]

theorem silent_of_not_concerns {told : Event μ} (apart : ¬told.Concerns store) :
    told.fired? store = none ∧ told.began? store = none ∧ told.listened? store = none ∧
      told.ofDispatch store = false ∧ told.isPanic = false := by
  cases told <;> simp_all [Concerns, fired?, began?, listened?, ofDispatch, isPanic]

theorem append_idle (apart : ∀ told ∈ event, ¬told.Concerns store) (trace : List (Event μ)) :
    fires store (trace ++ event.toList) = fires store trace ∧
      begun store (trace ++ event.toList) = begun store trace ∧
      registered store (trace ++ event.toList) = registered store trace ∧
      dispatches store (trace ++ event.toList) = dispatches store trace := by
  cases event with
  | none => simp
  | some told =>
      obtain ⟨unfired, unbegun, unlistened, aside, _⟩ := silent_of_not_concerns (apart told rfl)
      simp [fires_concat, begun_concat, registered_concat, dispatches_concat, unfired, unbegun,
        unlistened, aside]

theorem sinceLastPanic_append (trace : List (Event μ)) (calm : ∀ told ∈ event, told.isPanic = false) :
    sinceLastPanic (trace ++ event.toList) = sinceLastPanic trace ++ event.toList := by
  cases event with
  | none => simp
  | some told => simp [sinceLastPanic, calm told rfl]

theorem sinceLastPanic_panic (trace : List (Event μ)) (message : String) :
    sinceLastPanic (trace ++ [.panicked message]) = [] := by
  simp [sinceLastPanic, isPanic]

theorem sinceLastPanic_of_calm {trace : List (Event μ)}
    (calm : ∀ told ∈ trace, told.isPanic = false) : sinceLastPanic trace = trace := by
  rw [sinceLastPanic, List.rtakeWhile_eq_self_iff]
  intro told member
  simp [calm told member]

theorem began?_eq_some_iff {told : Event μ} {code : LocaleCode} :
    told.began? store = some code ↔ ∃ listeners, told = .began store code listeners := by
  cases told <;> simp [began?]

theorem fired?_eq_some_iff {told : Event μ} {code : LocaleCode} :
    told.fired? store = some code ↔ told = .fired store code := by
  cases told <;> simp [fired?]

theorem first_began {trace : List (Event μ)} (dispatched : begun store trace ≠ []) :
    ∃ before code listeners later, trace = before ++ .began store code listeners :: later ∧
      begun store before = [] := by
  obtain ⟨code, codes, first⟩ := List.exists_cons_of_ne_nil dispatched
  obtain ⟨before, told, later, split, silent, began, _⟩ := List.filterMap_eq_cons_iff.mp first
  obtain ⟨listeners, rfl⟩ := began?_eq_some_iff.mp began
  exact ⟨before, code, listeners, later, split, List.filterMap_eq_nil_iff.mpr silent⟩

theorem first_fired {trace : List (Event μ)} (requested : fires store trace ≠ []) :
    ∃ before code later, trace = before ++ .fired store code :: later ∧
      fires store before = [] := by
  obtain ⟨code, codes, first⟩ := List.exists_cons_of_ne_nil requested
  obtain ⟨before, told, later, split, silent, fired, _⟩ := List.filterMap_eq_cons_iff.mp first
  obtain rfl := fired?_eq_some_iff.mp fired
  exact ⟨before, code, later, split, List.filterMap_eq_nil_iff.mpr silent⟩

theorem not_mem_of_fires {trace : List (Event μ)} (unrequested : fires store trace = [])
    (code : LocaleCode) : .fired store code ∉ trace := by
  intro member
  simpa [fired?] using List.filterMap_eq_nil_iff.mp unrequested _ member

theorem not_mem_of_begun {trace : List (Event μ)} (undispatched : begun store trace = [])
    (code : LocaleCode) (listeners : List (Listener μ)) : .began store code listeners ∉ trace := by
  intro member
  simpa [began?] using List.filterMap_eq_nil_iff.mp undispatched _ member

end Event

namespace History

variable {blank : μ} {trace : List (Event μ)} {machine : Machine μ}

open Event

theorem registered_eq (history : History (World.initial blank) trace machine) (store : Nat) :
    registered store trace = (machine.world.stores store).listeners := by
  refine history.dispatcher_induction store
    (motive := fun trace dispatcher => registered store trace = dispatcher.listeners) rfl ?_
  intro trace before event after same turn
  cases turn with
  | idle _ _ apart => rwa [(append_idle apart trace).2.2.1]
  | sleep => simpa using same
  | _ => simpa [registered_concat, listened?] using same

/-- Since the last panic the dispatched requests are the first of those made, and the others are
in the queue. -/
theorem fires_since_panic (history : History (World.initial blank) trace machine) (store : Nat) :
    fires store (sinceLastPanic trace) =
      begun store (sinceLastPanic trace) ++ (machine.world.stores store).pending := by
  refine (history.dispatcher_induction store
    (motive := fun trace dispatcher => dispatcher.Sound ∧
      fires store (sinceLastPanic trace) =
        begun store (sinceLastPanic trace) ++ dispatcher.pending) ⟨.asleep [], rfl⟩ ?_).2
  rintro trace before event after ⟨sound, account⟩ turn
  refine ⟨turn.sound sound, ?_⟩
  cases turn with
  | idle _ _ apart =>
      rw [sinceLastPanic_append _ fun told member =>
        (silent_of_not_concerns (apart told member)).2.2.2.2]
      obtain ⟨sameFires, sameBegun, _⟩ := append_idle apart (sinceLastPanic trace)
      rw [sameFires, sameBegun, account]
  | queue listeners pending underWay code | wake listeners pending underWay code =>
      rw [sinceLastPanic_append _ (by simp [isPanic])]
      simp [fires_concat, begun_concat, fired?, began?, account]
  | begin listeners later dispatching rest code =>
      rw [sinceLastPanic_append _ (by simp [isPanic])]
      simp [fires_concat, begun_concat, fired?, began?, account]
  | panic listeners pending dispatching underWay message quiet =>
      rw [Option.toList_some, sinceLastPanic_panic]
      cases sound with
      | asleep => rfl
      | between => simp at quiet
      | amid => simp at quiet
  | release listeners pending dispatching underWay message =>
      rw [Option.toList_some, sinceLastPanic_panic]
      rfl
  | sleep => simpa using account
  | listen | call | finish =>
      rw [sinceLastPanic_append _ (by simp [isPanic])]
      simpa [fires_concat, begun_concat, fired?, began?] using account

end History

end MessageCatalog

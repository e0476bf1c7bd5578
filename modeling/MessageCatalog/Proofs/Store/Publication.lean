import MessageCatalog.Proofs.Store.Dispatcher

/-!
What stores publish. The state of a store is the last one published, whatever else happened.
-/

namespace MessageCatalog

variable {μ : Type}

namespace Event

def published? (store : Nat) : Event μ → Option State
  | published other state => if other = store then some state else none
  | _ => none

def notified? (store : Nat) : Event μ → Option (Observer μ × State)
  | notified other state observer => if other = store then some (observer, state) else none
  | _ => none

def publications (store : Nat) (trace : List (Event μ)) : List State :=
  trace.filterMap (published? store)

/-- The observers of a store that were called, in order, each with what it was shown. -/
def notifications (store : Nat) (trace : List (Event μ)) : List (Observer μ × State) :=
  trace.filterMap (notified? store)

theorem publications_append (store : Nat) (first second : List (Event μ)) :
    publications store (first ++ second) = publications store first ++ publications store second :=
  List.filterMap_append

theorem notifications_append (store : Nat) (first second : List (Event μ)) :
    notifications store (first ++ second) =
      notifications store first ++ notifications store second :=
  List.filterMap_append

theorem mem_publications {store : Nat} {state : State} {trace : List (Event μ)} :
    state ∈ publications store trace ↔ .published store state ∈ trace := by
  simp only [publications, List.mem_filterMap]
  constructor
  · rintro ⟨told, member, shown⟩
    cases told with
    | published other shownState =>
        simp only [published?, Option.ite_none_right_eq_some, Option.some.injEq] at shown
        obtain ⟨rfl, rfl⟩ := shown
        exact member
    | _ => simp [published?] at shown
  · exact fun member => ⟨_, member, by simp [published?]⟩

end Event

open Event

theorem World.foldl_leave_state (world : World μ) (frames : List (Frame μ)) (store : Nat) :
    ((frames.foldl leave world).stores store).state = (world.stores store).state := by
  by_cases drained : .drain store ∈ frames
  · rw [world.foldl_leave_of_mem frames store drained]
    rfl
  · rw [world.foldl_leave_of_not_mem frames store drained]

namespace Machine

theorem Step.state_eq {machine next : Machine μ} {event : Option (Event μ)}
    (step : machine.Step event next) (store : Nat) :
    (next.world.stores store).state =
      (publications store event.toList).getLast?.getD (machine.world.stores store).state := by
  cases step with
  | done | note | consult | remember | get | notify | notified | call | finish => rfl
  | panic world rest => exact world.foldl_leave_state rest store
  | set world rest ended other state =>
      by_cases same : other = store
      · simp [publications, published?, same]
      · simp [publications, published?, same, Ne.symm same]
  | queue world rest ended other | onLocale world rest ended other
  | attach world rest ended other | subscribe world rest ended other
  | sleep world rest ended other | wake world rest ended other =>
      by_cases same : store = other <;>
        simp [publications, published?, Store.enqueue, Store.addListener, Store.addObserver, same]
  | begin world rest ended other =>
      by_cases same : store = other <;> split <;> simp [publications, published?, same]

theorem Step.state_of_unpublished {machine next : Machine μ} {event : Option (Event μ)}
    (step : machine.Step event next) {store : Nat}
    (unpublished : ∀ published, event ≠ some (.published store published)) :
    next.world.state store = machine.world.state store := by
  have silent : publications store event.toList = [] := by
    refine List.eq_nil_iff_forall_not_mem.mpr fun published member => ?_
    exact unpublished published (Option.mem_toList.mp (mem_publications.mp member))
  refine (step.state_eq store).trans ?_
  rw [silent]
  rfl

theorem Run.state_eq {machine last : Machine μ} {trace : List (Event μ)}
    (run : machine.Run trace last) (store : Nat) :
    (last.world.stores store).state =
      (publications store trace).getLast?.getD (machine.world.stores store).state := by
  induction run with
  | refl => rfl
  | step advanced _ ih =>
      rw [ih, (step_of_step? advanced).state_eq store, publications_append, List.getLast?_append]
      cases (publications store _).getLast? <;> rfl

theorem Run.last_publication {machine last : Machine μ} {trace : List (Event μ)}
    (run : Run machine trace last) {store : Nat} (published : publications store trace ≠ []) :
    (publications store trace).getLast? = some (last.world.state store) := by
  have current : last.world.state store = _ := run.state_eq store
  rw [current, List.getLast?_eq_some_getLast published]
  rfl

end Machine

theorem History.state_eq {blank : μ} {trace : List (Event μ)} {machine : Machine μ}
    (history : History (World.initial blank) trace machine) (store : Nat) :
    machine.world.state store = (publications store trace).getLast?.getD State.initial := by
  induction history with
  | start => rfl
  | call _ _ _ ih => exact ih
  | @step trace machine next _ advanced ih =>
      have before : (machine.world.stores store).state = _ := ih
      have after : next.world.state store = _ := (Machine.step_of_step? advanced).state_eq store
      rw [after, before, publications_append, List.getLast?_append]
      cases (publications store _).getLast? <;> rfl

end MessageCatalog

import MessageCatalog.Proofs.Store.Trace

/-!
One store of a machine. What a machine does to the queue and the dispatch of a store is one of a
few turns; everything else leaves the store's dispatcher as it is. Every history keeps the
dispatcher sound: at most one dispatch is under way, and a store that does not dispatch has
nothing in its queue.
-/

namespace MessageCatalog

variable {μ : Type}

namespace Event

/-- Events that tell of the listeners, the queue or the dispatch of a store, and panics. -/
def Concerns (store : Nat) : Event μ → Prop
  | listened other _ => other = store
  | fired other _ => other = store
  | began other _ _ => other = store
  | called other _ _ => other = store
  | ended other _ => other = store
  | panicked _ => True
  | subscribed _ _ => False
  | published _ _ => False
  | notified _ _ _ => False

end Event

/-- What is under way in the dispatch of one store. -/
inductive Activity (μ : Type) where
  | draining
  | delivering (code : LocaleCode) (waiting : List (Listener μ))

namespace Frame

def activity? (store : Nat) : Frame μ → Option (Activity μ)
  | .drain other => if other = store then some .draining else none
  | .deliver other code waiting => if other = store then some (.delivering code waiting) else none
  | _ => none

def activities (store : Nat) (frames : List (Frame μ)) : List (Activity μ) :=
  frames.filterMap (activity? store)

variable {store other : Nat} (rest : List (Frame μ))

@[simp] theorem activities_nil : activities store ([] : List (Frame μ)) = [] := rfl

@[simp] theorem activities_body (script : Script μ) :
    activities store (.body script :: rest) = activities store rest := rfl

@[simp] theorem activities_notify (state : State) (waiting : List (Observer μ)) :
    activities store (.notify other state waiting :: rest) = activities store rest := rfl

@[simp] theorem activities_drain :
    activities store (.drain store :: rest) = .draining :: activities store rest := by
  simp [activities, activity?]

@[simp] theorem activities_deliver (code : LocaleCode) (waiting : List (Listener μ)) :
    activities store (.deliver store code waiting :: rest) =
      .delivering code waiting :: activities store rest := by
  simp [activities, activity?]

theorem activities_drain_other (apart : other ≠ store) :
    activities store (.drain other :: rest) = activities store rest := by
  simp [activities, activity?, apart]

theorem activities_deliver_other (apart : other ≠ store) (code : LocaleCode)
    (waiting : List (Listener μ)) :
    activities store (.deliver other code waiting :: rest) = activities store rest := by
  simp [activities, activity?, apart]

theorem draining_mem_activities (store : Nat) (frames : List (Frame μ)) :
    Activity.draining ∈ activities store frames ↔ .drain store ∈ frames := by
  simp only [activities, List.mem_filterMap]
  constructor
  · rintro ⟨frame, member, active⟩
    cases frame with
    | drain other =>
        simp only [activity?, Option.ite_none_right_eq_some, and_true] at active
        exact active ▸ member
    | deliver => simp [activity?] at active
    | body => simp [activity?] at active
    | notify => simp [activity?] at active
  · exact fun member => ⟨.drain store, member, by simp [activity?]⟩

end Frame

namespace World

@[simp] theorem report_stores (world : World μ) (notices : List Notice) :
    (world.report notices).stores = world.stores := rfl

@[simp] theorem write_stores (world : World μ) (notebook : Nat) (content : μ) :
    (world.write notebook content).stores = world.stores := rfl

theorem leave_stores (world : World μ) (frame : Frame μ) (store : Nat) :
    (world.leave frame).stores store = world.stores store ∨
      frame = .drain store ∧ (world.leave frame).stores store = (world.stores store).release := by
  cases frame with
  | drain other =>
      by_cases same : other = store
      · subst same
        exact Or.inr ⟨rfl, by simp [leave]⟩
      · exact Or.inl (by simp [leave, Ne.symm same])
  | body => exact Or.inl rfl
  | notify => exact Or.inl rfl
  | deliver => exact Or.inl rfl

theorem foldl_leave_of_not_mem (world : World μ) (frames : List (Frame μ)) (store : Nat)
    (absent : .drain store ∉ frames) :
    (frames.foldl leave world).stores store = world.stores store := by
  induction frames generalizing world with
  | nil => rfl
  | cons frame rest ih =>
      simp only [List.mem_cons, not_or] at absent
      rw [List.foldl_cons, ih _ absent.2]
      exact (world.leave_stores frame store).resolve_right fun released => absent.1 released.1.symm

theorem foldl_leave_of_mem (world : World μ) (frames : List (Frame μ)) (store : Nat)
    (present : .drain store ∈ frames) :
    (frames.foldl leave world).stores store = (world.stores store).release := by
  induction frames generalizing world with
  | nil => simp at present
  | cons frame rest ih =>
      rw [List.foldl_cons]
      by_cases later : .drain store ∈ rest
      · rw [ih _ later]
        rcases world.leave_stores frame store with same | ⟨_, released⟩
        · rw [same]
        · rw [released]
          rfl
      · have first : frame = .drain store := ((List.mem_cons.mp present).resolve_right later).symm
        rw [foldl_leave_of_not_mem _ _ _ later, first]
        simp [leave]

end World

/-- The part of a machine that decides what becomes of the requests of one store. -/
structure Dispatcher (μ : Type) where
  listeners : List (Listener μ)
  pending : List LocaleCode
  dispatching : Bool
  underWay : List (Activity μ)

def Machine.dispatcher (machine : Machine μ) (store : Nat) : Dispatcher μ :=
  ⟨(machine.world.stores store).listeners, (machine.world.stores store).pending,
    (machine.world.stores store).dispatching, Frame.activities store machine.frames⟩

namespace Dispatcher

inductive Turn (store : Nat) : Dispatcher μ → Option (Event μ) → Dispatcher μ → Prop
  | idle (dispatcher event) : (∀ told ∈ event, ¬told.Concerns store) →
      Turn store dispatcher event dispatcher
  | listen (listeners pending dispatching underWay listener) :
      Turn store ⟨listeners, pending, dispatching, underWay⟩ (some (.listened store listener))
        ⟨listeners ++ [listener], pending, dispatching, underWay⟩
  | queue (listeners pending underWay code) :
      Turn store ⟨listeners, pending, true, underWay⟩ (some (.fired store code))
        ⟨listeners, pending ++ [code], true, underWay⟩
  | wake (listeners pending underWay code) :
      Turn store ⟨listeners, pending, false, underWay⟩ (some (.fired store code))
        ⟨listeners, pending ++ [code], true, .draining :: underWay⟩
  | begin (listeners later dispatching rest code) :
      Turn store ⟨listeners, code :: later, dispatching, .draining :: rest⟩
        (some (.began store code listeners))
        ⟨listeners, later, dispatching, .delivering code listeners :: .draining :: rest⟩
  | call (listeners pending dispatching rest code listener waiting) :
      Turn store ⟨listeners, pending, dispatching, .delivering code (listener :: waiting) :: rest⟩
        (some (.called store code listener))
        ⟨listeners, pending, dispatching, .delivering code waiting :: rest⟩
  | finish (listeners pending dispatching rest code) :
      Turn store ⟨listeners, pending, dispatching, .delivering code [] :: rest⟩
        (some (.ended store code)) ⟨listeners, pending, dispatching, rest⟩
  | sleep (listeners dispatching rest) :
      Turn store ⟨listeners, [], dispatching, .draining :: rest⟩ none
        ⟨listeners, [], false, rest⟩
  | panic (listeners pending dispatching underWay message) : .draining ∉ underWay →
      Turn store ⟨listeners, pending, dispatching, underWay⟩ (some (.panicked message))
        ⟨listeners, pending, dispatching, []⟩
  | release (listeners pending dispatching underWay message) : .draining ∈ underWay →
      Turn store ⟨listeners, pending, dispatching, underWay⟩ (some (.panicked message))
        ⟨listeners, [], false, []⟩

theorem Turn.of_eq {store : Nat} {before after : Dispatcher μ} {event : Option (Event μ)}
    (same : after = before) (apart : ∀ told ∈ event, ¬told.Concerns store) :
    Turn store before event after := by
  subst same
  exact .idle after event apart

end Dispatcher

theorem Machine.Step.turn {machine next : Machine μ} {event : Option (Event μ)}
    (step : machine.Step event next) (store : Nat) :
    Dispatcher.Turn store (machine.dispatcher store) event (next.dispatcher store) := by
  cases step with
  | done | note | consult | remember | get | notified | notify =>
      exact .of_eq (by simp [Machine.dispatcher]) (by simp [Event.Concerns])
  | set world rest ended other | subscribe world rest ended other =>
      refine .of_eq ?_ (by simp [Event.Concerns])
      by_cases same : store = other <;> simp [Machine.dispatcher, Store.addObserver, same]
  | panic world rest ended message =>
      by_cases drained : .drain store ∈ rest
      · have active := (Frame.draining_mem_activities store rest).mpr drained
        simp only [Machine.dispatcher, World.foldl_leave_of_mem world rest store drained]
        exact .release _ _ _ _ message active
      · have quiet := (not_congr (Frame.draining_mem_activities store rest)).mpr drained
        simp only [Machine.dispatcher, World.foldl_leave_of_not_mem world rest store drained]
        exact .panic _ _ _ _ message quiet
  | queue world rest ended other code script busy =>
      by_cases same : other = store
      · subst same
        simp only [Machine.dispatcher, World.update_stores, if_true, Store.enqueue, busy,
          Frame.activities_body]
        exact .queue _ _ _ code
      · refine .of_eq ?_ (by simp [Event.Concerns, same])
        simp [Machine.dispatcher, Ne.symm same]
  | wake world rest ended other code script idle =>
      by_cases same : other = store
      · subst same
        simp only [Machine.dispatcher, World.update_stores, if_true, Store.enqueue, idle,
          Frame.activities_body, Frame.activities_drain]
        exact .wake _ _ _ code
      · refine .of_eq ?_ (by simp [Event.Concerns, same])
        simp [Machine.dispatcher, Frame.activities_drain_other _ same, Ne.symm same]
  | onLocale world rest ended other | attach world rest ended other =>
      by_cases same : other = store
      · subst same
        simp only [Machine.dispatcher, World.update_stores, if_true, Store.addListener,
          Frame.activities_body]
        exact .listen _ _ _ _ _
      · refine .of_eq ?_ (by simp [Event.Concerns, same])
        simp [Machine.dispatcher, Ne.symm same]
  | call world rest ended other code listener waiting =>
      by_cases same : other = store
      · subst same
        simp only [Machine.dispatcher, Frame.activities_body, Frame.activities_deliver]
        exact .call _ _ _ _ code listener waiting
      · refine .of_eq ?_ (by simp [Event.Concerns, same])
        simp [Machine.dispatcher, Frame.activities_deliver_other _ same]
  | finish world rest ended other code =>
      by_cases same : other = store
      · subst same
        simp only [Machine.dispatcher, Frame.activities_deliver]
        exact .finish _ _ _ _ code
      · refine .of_eq ?_ (by simp [Event.Concerns, same])
        simp [Machine.dispatcher, Frame.activities_deliver_other _ same]
  | begin world rest ended other code later queued =>
      by_cases same : other = store
      · subst same
        simp only [Machine.dispatcher, Frame.activities_drain, Frame.activities_deliver, queued]
        split <;> simp only [World.report_stores, World.update_stores, if_true] <;>
          exact .begin _ _ _ _ code
      · refine .of_eq ?_ (by simp [Event.Concerns, same])
        simp only [Machine.dispatcher, Frame.activities_drain_other _ same,
          Frame.activities_deliver_other _ same]
        split <;> simp [Ne.symm same]
  | sleep world rest ended other empty =>
      by_cases same : other = store
      · subst same
        simp only [Machine.dispatcher, World.update_stores, if_true, Frame.activities_drain, empty]
        exact .sleep _ _ _
      · refine .of_eq ?_ (by simp)
        simp [Machine.dispatcher, Frame.activities_drain_other _ same, Ne.symm same]

theorem History.dispatcher_induction {origin : World μ} {trace : List (Event μ)}
    {machine : Machine μ} (history : History origin trace machine) (store : Nat)
    {motive : List (Event μ) → Dispatcher μ → Prop}
    (start : motive [] ((⟨origin, [], none⟩ : Machine μ).dispatcher store))
    (turn : ∀ trace before event after, motive trace before →
      Dispatcher.Turn store before event after → motive (trace ++ event.toList) after) :
    motive trace (machine.dispatcher store) := by
  induction history with
  | start => exact start
  | call script _ ended ih =>
      simpa [Machine.dispatcher, Machine.start, show _ = [] from ended] using ih
  | step _ advanced ih => exact turn _ _ _ _ ih ((Machine.step_of_step? advanced).turn store)

namespace Dispatcher

/-- At most one dispatch is under way, and a store that does not dispatch has an empty queue. -/
inductive Sound : Dispatcher μ → Prop
  | asleep (listeners) : Sound ⟨listeners, [], false, []⟩
  | between (listeners pending) : Sound ⟨listeners, pending, true, [.draining]⟩
  | amid (listeners pending code waiting) :
      Sound ⟨listeners, pending, true, [.delivering code waiting, .draining]⟩

theorem Turn.sound {store : Nat} {before after : Dispatcher μ} {event : Option (Event μ)}
    (turn : Turn store before event after) (sound : before.Sound) : after.Sound := by
  cases turn with
  | idle => exact sound
  | listen => cases sound <;> constructor
  | queue => cases sound <;> constructor
  | wake => cases sound; constructor
  | begin => cases sound; constructor
  | call => cases sound; constructor
  | finish => cases sound; constructor
  | sleep => cases sound; constructor
  | panic _ _ _ _ _ quiet =>
      cases sound with
      | asleep => constructor
      | between => simp at quiet
      | amid => simp at quiet
  | release => constructor

theorem Sound.pending_of_idle {dispatcher : Dispatcher μ} (sound : dispatcher.Sound)
    (idle : dispatcher.dispatching = false) :
    dispatcher.pending = [] ∧ dispatcher.underWay = [] := by
  cases sound with
  | asleep => exact ⟨rfl, rfl⟩
  | between => simp at idle
  | amid => simp at idle

theorem Sound.idle_of_underWay {dispatcher : Dispatcher μ} (sound : dispatcher.Sound)
    (ended : dispatcher.underWay = []) :
    dispatcher.pending = [] ∧ dispatcher.dispatching = false := by
  cases sound with
  | asleep => exact ⟨rfl, rfl⟩
  | between => simp at ended
  | amid => simp at ended

theorem Sound.alone {dispatcher : Dispatcher μ} (sound : dispatcher.Sound) {code : LocaleCode}
    {waiting : List (Listener μ)} {rest : List (Activity μ)}
    (delivering : dispatcher.underWay = .delivering code waiting :: rest) :
    rest = [.draining] := by
  cases sound with
  | asleep => simp at delivering
  | between => simp at delivering
  | amid => exact (List.cons.inj delivering).2.symm

end Dispatcher

namespace History

variable {blank : μ} {trace : List (Event μ)} {machine : Machine μ}

theorem sound (history : History (World.initial blank) trace machine) (store : Nat) :
    (machine.dispatcher store).Sound :=
  history.dispatcher_induction store (motive := fun _ dispatcher => dispatcher.Sound)
    (.asleep []) fun _ _ _ _ sound turn => turn.sound sound

theorem pending_of_idle (history : History (World.initial blank) trace machine) {store : Nat}
    (idle : (machine.world.stores store).dispatching = false) :
    (machine.world.stores store).pending = [] :=
  ((history.sound store).pending_of_idle idle).1

theorem quiet_of_ended (history : History (World.initial blank) trace machine)
    (ended : machine.Ended) (store : Nat) :
    (machine.world.stores store).dispatching = false ∧
      (machine.world.stores store).pending = [] := by
  have idle := (history.sound store).idle_of_underWay (by
    simp [Machine.dispatcher, show machine.frames = [] from ended])
  exact ⟨idle.2, idle.1⟩

end History

end MessageCatalog

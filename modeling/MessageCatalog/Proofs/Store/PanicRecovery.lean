import MessageCatalog.Proofs.Store.Ledger

/-!
Recovery from panics. A panic ends everything that is under way and drops the requests that wait;
states, listeners and observers stay. Afterwards only these matter: from two histories that agree
on them, and on the notebooks of the callbacks, all goes on alike.
-/

namespace MessageCatalog

variable {μ : Type}

namespace World

def withNotices (world : World μ) (notices : List Notice) : World μ :=
  { world with notices := notices }

@[simp] theorem withNotices_stores (world : World μ) (notices : List Notice) :
    (world.withNotices notices).stores = world.stores := rfl

theorem leave_withNotices (world : World μ) (frame : Frame μ) (notices : List Notice) :
    (world.withNotices notices).leave frame = (world.leave frame).withNotices notices := by
  cases frame <;> rfl

theorem leave_notices (world : World μ) (frame : Frame μ) :
    (world.leave frame).notices = world.notices ∧
      (world.leave frame).notebooks = world.notebooks := by
  cases frame <;> exact ⟨rfl, rfl⟩

theorem foldl_leave_withNotices (world : World μ) (frames : List (Frame μ))
    (notices : List Notice) :
    frames.foldl leave (world.withNotices notices) =
      (frames.foldl leave world).withNotices notices := by
  induction frames generalizing world with
  | nil => rfl
  | cons frame rest ih => rw [List.foldl_cons, leave_withNotices, ih, List.foldl_cons]

theorem foldl_leave_notices (world : World μ) (frames : List (Frame μ)) :
    (frames.foldl leave world).notices = world.notices ∧
      (frames.foldl leave world).notebooks = world.notebooks := by
  induction frames generalizing world with
  | nil => exact ⟨rfl, rfl⟩
  | cons frame rest ih =>
      obtain ⟨notices, notebooks⟩ := ih (world.leave frame)
      obtain ⟨firstNotices, firstNotebooks⟩ := world.leave_notices frame
      exact ⟨notices.trans firstNotices, notebooks.trans firstNotebooks⟩

end World

namespace Machine

def withNotices (machine : Machine μ) (notices : List Notice) : Machine μ :=
  { machine with world := machine.world.withNotices notices }

theorem Step.reports_nothing {machine next : Machine μ} {event : Option (Event μ)}
    (same : next.world.notices = machine.world.notices)
    (alike : ∀ earlier, (machine.withNotices earlier).Step event (next.withNotices earlier)) :
    ∃ told, next.world.notices = machine.world.notices ++ told ∧
      ∀ earlier, (machine.withNotices earlier).Step event (next.withNotices (earlier ++ told)) := by
  refine ⟨[], by rw [same, List.append_nil], fun earlier => ?_⟩
  rw [List.append_nil]
  exact alike earlier

/-- Steps report notices but never read them. -/
theorem Step.withNotices {machine next : Machine μ} {event : Option (Event μ)}
    (step : machine.Step event next) :
    ∃ told, next.world.notices = machine.world.notices ++ told ∧
      ∀ earlier, (machine.withNotices earlier).Step event (next.withNotices (earlier ++ told)) := by
  cases step with
  | note world rest ended notice script =>
      exact ⟨[notice], rfl, fun earlier => .note _ rest ended notice script⟩
  | begin world rest ended store code later queued =>
      cases unheard : (world.stores store).listeners.isEmpty with
      | true =>
          refine ⟨[.unheard code], rfl, fun earlier => ?_⟩
          have step := Step.begin (world.withNotices earlier) rest ended store code later queued
          simp only [World.withNotices_stores, unheard, if_true] at step
          exact step
      | false =>
          refine reports_nothing rfl fun earlier => ?_
          have step := Step.begin (world.withNotices earlier) rest ended store code later queued
          simp only [World.withNotices_stores, unheard, Bool.false_eq_true, if_false] at step
          exact step
  | panic world rest ended message =>
      refine reports_nothing (world.foldl_leave_notices rest).1 fun earlier => ?_
      have step := Step.panic (world.withNotices earlier) rest ended message
      rw [World.foldl_leave_withNotices] at step
      exact step
  | queue world rest ended store code script busy =>
      exact reports_nothing rfl fun earlier => .queue _ rest ended store code script busy
  | wake world rest ended store code script idle =>
      exact reports_nothing rfl fun earlier => .wake _ rest ended store code script idle
  | sleep world rest ended store empty =>
      exact reports_nothing rfl fun earlier => .sleep _ rest ended store empty
  | _ => exact reports_nothing rfl fun earlier => by constructor

/-- Machines that differ in the notices of the past alone run alike and report the same. -/
theorem run_withNotices (fuel : Nat) (machine : Machine μ) :
    ∃ told, (machine.run fuel).world.notices = machine.world.notices ++ told ∧
      ∀ earlier, (machine.withNotices earlier).run fuel =
          (machine.run fuel).withNotices (earlier ++ told) ∧
        (machine.withNotices earlier).trace fuel = machine.trace fuel := by
  induction fuel generalizing machine with
  | zero => exact ⟨[], (List.append_nil _).symm, fun earlier => by simp [Machine.run, trace]⟩
  | succ fuel ih =>
      cases advanced : machine.step? with
      | none =>
          have ended : machine.Ended := machine.step?_eq_none_iff.mp advanced
          refine ⟨[], by simp [Machine.run, advanced], fun earlier => ?_⟩
          have otherEnded : (machine.withNotices earlier).step? = none :=
            (step?_eq_none_iff _).mpr ended
          simp [Machine.run, trace, advanced, otherEnded]
      | some next =>
          obtain ⟨first, report, alike⟩ := (step_of_step? advanced).withNotices
          obtain ⟨told, reports, alikes⟩ := ih next
          refine ⟨first ++ told, ?_, fun earlier => ?_⟩
          · simp [Machine.run, advanced, reports, report]
          · -- The other machine takes the same step, and then the same run.
            obtain ⟨moved, event⟩ := (alike earlier).step?_eq
            obtain ⟨run, traced⟩ := alikes (earlier ++ first)
            simp [Machine.run, trace, advanced, moved, event, run, traced]

theorem Step.world_of_panic {machine next : Machine μ} {message : String}
    (step : machine.Step (some (.panicked message)) next) :
    next.Ended ∧ next.panicked = some message ∧
      next.world.notebooks = machine.world.notebooks ∧
      next.world.notices = machine.world.notices ∧
      ∀ store, next.world.stores store = machine.world.stores store ∨
        next.world.stores store = (machine.world.stores store).release := by
  cases step with
  | panic world rest =>
      obtain ⟨notices, notebooks⟩ := world.foldl_leave_notices rest
      refine ⟨rfl, rfl, notebooks, notices, fun store => ?_⟩
      by_cases drained : .drain store ∈ rest
      · exact Or.inr (world.foldl_leave_of_mem rest store drained)
      · exact Or.inl (world.foldl_leave_of_not_mem rest store drained)

end Machine

namespace History

variable {blank : μ} {trace : List (Event μ)} {machine : Machine μ}

/-- A panic releases every store, whichever of them were dispatching, and changes nothing else. -/
theorem released_by_panic (history : History (World.initial blank) trace machine)
    {message : String} (raised : machine.event? = some (.panicked message)) :
    ∃ after, machine.step? = some after ∧ after.Ended ∧ after.panicked = some message ∧
      after.world.notebooks = machine.world.notebooks ∧
      after.world.notices = machine.world.notices ∧
      ∀ store, after.world.stores store = (machine.world.stores store).release := by
  cases advanced : machine.step? with
  | none =>
      have ended : machine.frames = [] := machine.step?_eq_none_iff.mp advanced
      simp [Machine.event?, ended] at raised
  | some after =>
      have step := Machine.step_of_step? advanced
      rw [raised] at step
      obtain ⟨ended, panicked, notebooks, notices, stores⟩ := step.world_of_panic
      refine ⟨after, rfl, ended, panicked, notebooks, notices, fun store => ?_⟩
      rcases stores store with kept | released
      · obtain ⟨idle, empty⟩ := (history.step advanced).quiet_of_ended ended store
        rw [kept] at idle empty ⊢
        simp only [Store.release, ← idle, ← empty]
      · exact released

theorem alike_of_ended {otherBlank : μ} {otherTrace : List (Event μ)} {other : Machine μ}
    (history : History (World.initial blank) trace machine) (ended : machine.Ended)
    (otherHistory : History (World.initial otherBlank) otherTrace other) (otherEnded : other.Ended)
    (notebooks : other.world.notebooks = machine.world.notebooks)
    (stores : ∀ store,
      (other.world.stores store).state = (machine.world.stores store).state ∧
      (other.world.stores store).listeners = (machine.world.stores store).listeners ∧
      (other.world.stores store).observers = (machine.world.stores store).observers) :
    other.world = machine.world.withNotices other.world.notices := by
  have same : other.world.stores = machine.world.stores := by
    funext store
    obtain ⟨state, listeners, observers⟩ := stores store
    obtain ⟨idle, empty⟩ := history.quiet_of_ended ended store
    obtain ⟨otherIdle, otherEmpty⟩ := otherHistory.quiet_of_ended otherEnded store
    cases left : other.world.stores store
    cases right : machine.world.stores store
    simp_all
  unfold World.withNotices
  rw [← same, ← notebooks]

/-- A store that is not dispatching has an empty queue, and between calls no store dispatches. A
panic drops just what waits and changes nothing else; later dispatches are of later requests. All
that was left behind decides how later calls go, whether there was a panic or not. -/
theorem recovers_from_panics (history : History (World.initial blank) trace machine) :
    (∀ store, (machine.world.stores store).dispatching = false →
      (machine.world.stores store).pending = []) ∧
    (machine.Ended → ∀ store, (machine.world.stores store).dispatching = false ∧
      (machine.world.stores store).pending = []) ∧
    (∀ message, machine.event? = some (.panicked message) →
      ∃ after, machine.step? = some after ∧ after.Ended ∧ after.panicked = some message ∧
        after.world.notebooks = machine.world.notebooks ∧
        after.world.notices = machine.world.notices ∧
        ∀ store, after.world.stores store =
          { machine.world.stores store with pending := [], dispatching := false }) ∧
    (∀ store, Event.fires store (Event.sinceLastPanic trace) =
      Event.begun store (Event.sinceLastPanic trace) ++ (machine.world.stores store).pending) ∧
    (machine.Ended → ∀ (otherBlank : μ) (otherTrace : List (Event μ)) (other : Machine μ),
      History (World.initial otherBlank) otherTrace other → other.Ended →
      other.world.notebooks = machine.world.notebooks →
      (∀ store, (other.world.stores store).state = (machine.world.stores store).state ∧
        (other.world.stores store).listeners = (machine.world.stores store).listeners ∧
        (other.world.stores store).observers = (machine.world.stores store).observers) →
      ∀ (script : Script μ) (fuel : Nat),
        let mine := Machine.start machine.world script
        let theirs := Machine.start other.world script
        theirs.trace fuel = mine.trace fuel ∧
        ∃ told, (mine.run fuel).world.notices = machine.world.notices ++ told ∧
          theirs.run fuel = (mine.run fuel).withNotices (other.world.notices ++ told)) := by
  refine ⟨fun store => history.pending_of_idle, history.quiet_of_ended,
    fun message => history.released_by_panic, history.fires_since_panic, ?_⟩
  intro ended otherBlank otherTrace other otherHistory otherEnded notebooks stores script fuel mine
    theirs
  have same : other.world = machine.world.withNotices other.world.notices :=
    history.alike_of_ended ended otherHistory otherEnded notebooks stores
  have begun : theirs = mine.withNotices other.world.notices := by
    simp only [theirs, mine, Machine.start, Machine.withNotices, ← same]
  obtain ⟨told, reports, alike⟩ := mine.run_withNotices fuel
  rw [begun]
  exact ⟨(alike other.world.notices).2, told, reports, (alike other.world.notices).1⟩

/-- A listener requests a locale and panics: that request is dropped, a later one is dispatched. -/
theorem recovers_from_panics_behind_queue :
    let react : LocaleCode → Script Unit := fun code =>
      if code = ⟨"boom"⟩ then .fire 0 ⟨"queued"⟩ (.panic "failed") else .done
    let first := Machine.start (World.initial ()) (.onLocale 0 react (.fire 0 ⟨"boom"⟩ .done))
    let second := Machine.start (first.run 6).world (.fire 0 ⟨"en"⟩ .done)
    let told := first.trace 6 ++ second.trace 20
    ((first.run 5).world.stores 0).pending = [⟨"queued"⟩] ∧
    (∃ after, (first.run 5).step? = some after ∧ after.Ended ∧ after.panicked = some "failed" ∧
      (after.world.stores 0).pending = []) ∧
    Event.fires 0 told = [⟨"boom"⟩, ⟨"queued"⟩, ⟨"en"⟩] ∧
    Event.begun 0 (Event.sinceLastPanic told) = [⟨"en"⟩] := by
  intro react first second told
  have raising : History (World.initial ()) (first.trace 5) (first.run 5) :=
    (History.start.call _ rfl).append (first.run_trace 5)
  have broken : History (World.initial ()) (first.trace 6) (first.run 6) :=
    (History.start.call _ rfl).append (first.run_trace 6)
  have history : History (World.initial ()) told (second.run 20) :=
    (broken.call _ rfl).append (second.run_trace 20)
  obtain ⟨pending, emptied, requested, since⟩ :
      ((first.run 5).world.stores 0).pending = [⟨"queued"⟩] ∧
        (second.run 20).frames.isEmpty = true ∧
        Event.fires 0 told = [⟨"boom"⟩, ⟨"queued"⟩, ⟨"en"⟩] ∧
        Event.fires 0 (Event.sinceLastPanic told) = [⟨"en"⟩] := by
    simp only [told, second, first, react]
    decide +kernel
  obtain ⟨_, _, recovered, _, _⟩ := raising.recovers_from_panics
  obtain ⟨_, quiet, _, account, _⟩ := history.recovers_from_panics
  obtain ⟨after, advanced, ended, message, _, _, stores⟩ := recovered "failed" rfl
  refine ⟨pending, ⟨after, advanced, ended, message, by rw [stores]⟩, requested, ?_⟩
  have empty : ((second.run 20).world.stores 0).pending = [] :=
    (quiet (List.isEmpty_iff.mp emptied) 0).2
  rw [← since, account 0, empty, List.append_nil]

end History

end MessageCatalog

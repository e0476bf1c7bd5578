import MessageCatalog.Proofs.Store.InStep

/-!
Direct rounds. A state that is set from outside is shown in a round that no dispatch surrounds:
what an observer requests meanwhile is dispatched at once, before the other observers are called.
They are shown the newer states first, and the state that was set after them. Observers stay in
step with their store through a call from outside exactly if this does not happen.
-/

namespace MessageCatalog

variable {μ : Type}

/-- What may be called from outside. -/
inductive Call where
  | request (code : LocaleCode)
  | publish (state : State)

def Call.script (store : Nat) : Call → Script μ
  | request code => .fire store code .done
  | publish state => .set store state .done

open Event

/-- An observer's turn in a round, with what happened during it. -/
structure Visit (μ : Type) where
  observer : Observer μ
  during : List (Event μ)

namespace FlatLoop

variable {loop : FlatLoop μ}

def visited (loop : FlatLoop μ) (state : State) (visits : List (Visit μ)) : List (Event μ) :=
  visits.flatMap fun visit => .notified loop.store state visit.observer :: visit.during

def direct (loop : FlatLoop μ) (state : State) (visits : List (Visit μ)) : List (Event μ) :=
  .published loop.store state :: loop.visited state visits

/-- A direct round is made of the turns of the observers, and after each all is settled. -/
theorem visits_of_run (reactive : loop.Reactive) {world : World μ} {state old : State}
    (hosted : world.stores loop.store = loop.host old [] false) {waiting : List (Observer μ)}
    (observing : waiting ⊆ loop.observers) {last : Machine μ} {trace : List (Event μ)}
    (run : Machine.Run ⟨world, [.notify loop.store state waiting, .body .done], none⟩ trace last)
    (calm : last.panicked = none) (ended : last.Ended) :
    ∃ visits : List (Visit μ), visits.map Visit.observer = waiting ∧
      trace = loop.visited state visits ∧ (∀ visit ∈ visits, loop.Settled visit.during) ∧
      ∃ after, last.world.stores loop.store = loop.host after [] false := by
  induction waiting generalizing world trace old with
  | nil =>
      obtain ⟨_, rfl, finishing⟩ := run.after_step (.notified ..) ended
      obtain ⟨_, rfl, finished⟩ := finishing.after_step (.done ..) ended
      cases finished with
      | refl => exact ⟨[], rfl, rfl, by simp, old, hosted⟩
      | step advanced => simp [Machine.step?] at advanced
  | cons observer waiting ih =>
      obtain ⟨observed, others⟩ := List.cons_subset.mp observing
      obtain ⟨_, rfl, called⟩ := run.after_step (.notify ..) ended
      -- The observer's turn is a run of its own, above those who wait.
      have turns : ((Machine.start world (observer state)).above
          [.notify loop.store state waiting, .body .done]).Run _ last := called
      obtain ⟨during, later, middle, rfl, turn, back, middleCalm, rest⟩ :=
        turns.of_above ended calm rfl
      obtain ⟨settled, between, middleHosted⟩ :=
        settled_of_run reactive hosted (reactive observer observed state) turn middleCalm back
      obtain ⟨_, frames, _⟩ := middle
      obtain rfl : frames = [] := back
      obtain rfl := middleCalm
      obtain ⟨visits, visiting, rfl, allSettled, after⟩ := ih middleHosted others rest
      refine ⟨⟨observer, during⟩ :: visits, by simp [visiting], by simp [visited], ?_, after⟩
      exact List.forall_mem_cons.mpr ⟨settled, allSettled⟩

/-- Nothing was shown, requested or dispatched. -/
structure Silent (loop : FlatLoop μ) (trace : List (Event μ)) : Prop where
  shown : shown loop.store trace = []
  fires : fires loop.store trace = []
  begun : begun loop.store trace = []

theorem Settled.silent {trace : List (Event μ)} (settled : loop.Settled trace)
    (unrequested : Event.fires loop.store trace = []) : loop.Silent trace := by
  refine ⟨?_, unrequested, settled.handled.trans unrequested⟩
  rw [settled.shown, unrequested]
  rfl

theorem direct_of_silent (state : State) {visits : List (Visit μ)}
    (silent : ∀ visit ∈ visits, loop.Silent visit.during) :
    shown loop.store (loop.direct state visits) = .published loop.store state ::
        (visits.map Visit.observer).map (.notified loop.store state) ∧
      fires loop.store (loop.direct state visits) = [] ∧
      begun loop.store (loop.direct state visits) = [] := by
  suffices quiet : shown loop.store (loop.visited state visits) =
        (visits.map Visit.observer).map (.notified loop.store state) ∧
      fires loop.store (loop.visited state visits) = [] ∧
      begun loop.store (loop.visited state visits) = [] by
    refine ⟨?_, quiet.2⟩
    rw [← quiet.1]
    simp [direct, shown, ofRound]
  induction visits with
  | nil => exact ⟨rfl, rfl, rfl⟩
  | cons visit visits ih =>
      obtain ⟨silentFirst, silentRest⟩ := List.forall_mem_cons.mp silent
      obtain ⟨shownRest, firesRest, begunRest⟩ := ih silentRest
      have split : loop.visited state (visit :: visits) =
          [.notified loop.store state visit.observer] ++ visit.during ++
            loop.visited state visits := by simp [visited]
      rw [split]
      simp only [shown_append, fires_append, begun_append, shownRest, firesRest, begunRest,
        silentFirst.shown, silentFirst.fires, silentFirst.begun]
      simp [shown, ofRound, fires, fired?, begun, began?]

theorem direct_split (state : State) (earlier : List (Visit μ)) (visit : Visit μ)
    (rest : List (Visit μ)) :
    loop.direct state (earlier ++ visit :: rest) =
      loop.direct state (earlier ++ [⟨visit.observer, []⟩]) ++
        (visit.during ++ loop.visited state rest) := by
  simp [direct, visited]

theorem silent_until_called (observer : Observer μ) {earlier : List (Visit μ)}
    (silent : ∀ visit ∈ earlier, loop.Silent visit.during) :
    ∀ visit ∈ earlier ++ [⟨observer, []⟩], loop.Silent visit.during :=
  List.forall_mem_append.mpr ⟨silent, List.forall_mem_singleton.mpr ⟨rfl, rfl, rfl⟩⟩

theorem first_requesting (loop : FlatLoop μ) (visits : List (Visit μ)) :
    (∀ visit ∈ visits, fires loop.store visit.during = []) ∨
      ∃ earlier visit rest, visits = earlier ++ visit :: rest ∧
        (∀ other ∈ earlier, fires loop.store other.during = []) ∧
        fires loop.store visit.during ≠ [] := by
  induction visits with
  | nil => exact Or.inl (by simp)
  | cons visit visits ih =>
      by_cases quiet : fires loop.store visit.during = []
      · rcases ih with allQuiet | ⟨earlier, first, rest, rfl, quietEarlier, requested⟩
        · exact Or.inl (List.forall_mem_cons.mpr ⟨quiet, allQuiet⟩)
        · exact Or.inr ⟨visit :: earlier, first, rest, rfl,
            List.forall_mem_cons.mpr ⟨quiet, quietEarlier⟩, requested⟩
      · exact Or.inr ⟨[], visit, visits, rfl, by simp, quiet⟩

theorem notifications_of_silent (state : State) {visits : List (Visit μ)} {during : List (Event μ)}
    (silent : ∀ visit ∈ visits, loop.Silent visit.during)
    (unshown : shown loop.store during = []) :
    notifications loop.store (loop.direct state visits ++ during) =
        (visits.map Visit.observer).map (fun observer => (observer, state)) ∧
      publications loop.store (loop.direct state visits ++ during) = [state] := by
  rw [← notifications_shown, ← publications_shown, shown_append, unshown, List.append_nil,
    (direct_of_silent state silent).1]
  constructor
  · rw [notifications, List.filterMap_cons_none rfl]
    exact notifications_map state _ loop.store
  · rw [publications, List.filterMap_cons_some (b := state) (by simp [published?])]
    exact congrArg _ (publications_map state _ loop.store)

theorem wholeRounds_of_silent (state : State) {visits : List (Visit μ)}
    (silent : ∀ visit ∈ visits, loop.Silent visit.during)
    (visiting : visits.map Visit.observer = loop.observers) {during : List (Event μ)}
    {codes : List LocaleCode} (rounds : shown loop.store during = loop.rounds codes) :
    WholeRounds loop.store loop.observers (loop.direct state visits ++ during) := by
  have round : shown loop.store (loop.direct state visits) = loop.round state := by
    rw [(direct_of_silent state silent).1, visiting, FlatLoop.round]
  refine .append ?_ ?_
  · exact (wholeRounds_shown _ _ _).mp (round ▸ wholeRounds_round state)
  · exact (wholeRounds_shown _ _ _).mp (rounds ▸ wholeRounds_rounds codes)

end FlatLoop

theorem split_of_not_mem {α : Type} {first second before later : List α} {entry : α}
    (split : first ++ second = before ++ entry :: later) (absent : entry ∉ first) :
    ∃ middle, before = first ++ middle ∧ second = middle ++ entry :: later := by
  rcases List.append_eq_append_iff.mp split with ⟨middle, rfl, rest⟩ | ⟨middle, rfl, rest⟩
  · exact ⟨middle, rfl, rest⟩
  · cases middle with
    | nil => exact ⟨[], by simp, by simpa using rest.symm⟩
    | cons head middle =>
        obtain rfl := (List.cons.inj rest).1
        simp at absent

namespace FlatLoop

variable {loop : FlatLoop μ}

theorem inStep_of_last {state current : State} {earlier : List (Visit μ)} {last : Visit μ}
    (silent : ∀ visit ∈ earlier, loop.Silent visit.during) (settled : loop.Settled last.during)
    (visiting : (earlier ++ [last]).map Visit.observer = loop.observers)
    (publishedLast :
      (publications loop.store (loop.direct state (earlier ++ [last]))).getLast? = some current) :
    InStep loop.store loop.observers current (loop.direct state (earlier ++ [last])) ∧
      ∀ before code later, loop.direct state (earlier ++ [last]) =
          before ++ .fired loop.store code :: later →
        loop.observers.length ≤ (notifications loop.store before).length := by
  have called := silent_until_called last.observer silent
  have visitingCalled : (earlier ++ [(⟨last.observer, []⟩ : Visit μ)]).map Visit.observer =
      loop.observers := by simpa using visiting
  obtain ⟨_, unrequested, undispatched⟩ := direct_of_silent state called
  rw [direct_split state earlier last [], show loop.visited state [] = [] from rfl,
    List.append_nil] at publishedLast ⊢
  have whole := wholeRounds_of_silent state called visitingCalled settled.shown
  refine ⟨.of_whole ?_ whole publishedLast, ?_⟩
  · intro before code listeners later split
    -- Until the last observer is called nothing is requested, so nothing is handled either.
    obtain ⟨middle, rfl, within⟩ := split_of_not_mem split (not_mem_of_begun undispatched _ _)
    exact wholeRounds_of_silent state called visitingCalled
      (settled.rounds_first middle code listeners later within)
  · intro before code later split
    obtain ⟨middle, rfl, _⟩ := split_of_not_mem split (not_mem_of_fires unrequested _)
    have told := (notifications_of_silent state called (rfl : shown loop.store [] = [])).1
    rw [visitingCalled, List.append_nil] at told
    rw [notifications_append, told]
    simp

theorem inStep_direct_iff {state current : State} {visits : List (Visit μ)}
    (settled : ∀ visit ∈ visits, loop.Settled visit.during)
    (visiting : visits.map Visit.observer = loop.observers)
    (publishedLast : (publications loop.store (loop.direct state visits)).getLast? = some current) :
    InStep loop.store loop.observers current (loop.direct state visits) ↔
      ∀ before code later, loop.direct state visits = before ++ .fired loop.store code :: later →
        loop.observers.length ≤ (notifications loop.store before).length := by
  rcases loop.first_requesting visits with
    quiet | ⟨earlier, visit, rest, rfl, quiet, requested⟩
  · have silent : ∀ visit ∈ visits, loop.Silent visit.during := fun visit member =>
      (settled visit member).silent (quiet visit member)
    obtain ⟨_, unrequested, undispatched⟩ := direct_of_silent state silent
    have whole := wholeRounds_of_silent state silent visiting
      (show shown loop.store [] = loop.rounds [] from rfl)
    rw [List.append_nil] at whole
    refine iff_of_true (.of_whole ?_ whole publishedLast) ?_
    · intro before code listeners later split
      exact absurd (by simp [split]) (not_mem_of_begun undispatched code listeners)
    · intro before code later split
      exact absurd (by simp [split]) (not_mem_of_fires unrequested code)
  · obtain ⟨settledEarlier, settledRest⟩ := List.forall_mem_append.mp settled
    obtain ⟨settledVisit, _⟩ := List.forall_mem_cons.mp settledRest
    have silent : ∀ other ∈ earlier, loop.Silent other.during := fun other member =>
      (settledEarlier other member).silent (quiet other member)
    have called := silent_until_called visit.observer silent
    have size : loop.observers.length = earlier.length + 1 + rest.length := by
      rw [← visiting, List.length_map, List.length_append, List.length_cons]
      omega
    constructor
    · intro inStep
      -- The first request of this turn is handled while those behind the observer wait.
      have handled : begun loop.store visit.during ≠ [] := settledVisit.handled ▸ requested
      obtain ⟨before, code, listeners, later, split, fresh⟩ := first_began handled
      have unshown : shown loop.store before = [] := by
        rw [settledVisit.rounds_first before code listeners later split, fresh]
        rfl
      obtain ⟨notified, published⟩ := notifications_of_silent state called unshown
      have whole := inStep.rounds_first _ code listeners (later ++ loop.visited state rest) (by
        rw [direct_split, split, List.append_assoc, List.cons_append, ← List.append_assoc])
      rw [WholeRounds, notified, published, List.flatMap_singleton] at whole
      have noneBehind : rest.length = 0 := by
        have lengths := congrArg List.length whole
        simp only [List.length_map, List.length_append, List.length_singleton] at lengths
        omega
      obtain rfl := List.eq_nil_of_length_eq_zero noneBehind
      exact (inStep_of_last silent settledVisit visiting publishedLast).2
    · intro requestsLast
      obtain ⟨before, code, later, split, fresh⟩ := first_fired requested
      have unshown : shown loop.store before = [] := by
        have shownFirst := settledVisit.requested_first before code later split
        rw [fresh] at shownFirst
        exact List.prefix_nil.mp shownFirst
      have notified := (notifications_of_silent state called unshown).1
      have bound := requestsLast _ code (later ++ loop.visited state rest) (by
        rw [direct_split, split, List.append_assoc, List.cons_append, ← List.append_assoc])
      have noneBehind : rest.length = 0 := by
        rw [notified, List.length_map, List.length_map, List.length_append,
          List.length_singleton] at bound
        omega
      obtain rfl := List.eq_nil_of_length_eq_zero noneBehind
      exact (inStep_of_last silent settledVisit visiting publishedLast).1

end FlatLoop

/-- In a call from outside that comes back, the observers of a store stay in step with it, unless
the call sets a state and an observer requests a locale before all of them have been called. -/
theorem History.inStep_iff {blank : μ} {earlier : List (Event μ)} {machine : Machine μ}
    (history : History (World.initial blank) earlier machine) (ended : machine.Ended)
    (store : Nat) (bindings : List Binding) (bound : bindings ≠ [])
    (attached : (machine.world.stores store).listeners = bindings.map .binding)
    (reactive : ∀ observer ∈ (machine.world.stores store).observers, ∀ state,
      (observer state).OnlyFires store)
    (call : Call) (fuel : Nat) (after : World μ)
    (returned : machine.world.perform fuel (call.script store) = .returned after) :
    let observers := (machine.world.stores store).observers
    let told := (Machine.start machine.world (call.script store)).trace fuel
    ((after.stores store).listeners = (machine.world.stores store).listeners ∧
      (after.stores store).observers = observers) ∧
    (InStep store observers (after.state store) told ↔
      ∀ state, call = .publish state → ∀ before code later,
        told = before ++ .fired store code :: later →
          observers.length ≤ (notifications store before).length) := by
  intro observers told
  obtain ⟨idle, empty⟩ := history.quiet_of_ended ended store
  let loop : FlatLoop μ := ⟨store, bindings, observers⟩
  have hosted : machine.world.stores store =
      loop.host (machine.world.stores store).state [] false := by
    rw [FlatLoop.host, ← attached, ← empty, ← idle]
  obtain ⟨finished, calm, rfl⟩ := (Machine.perform_eq_returned_iff _ _ _ _).mp returned
  have run : (Machine.start machine.world (call.script store)).Run told _ :=
    (Machine.start machine.world (call.script store)).run_trace fuel
  generalize (Machine.start machine.world (call.script store)).run fuel = last at *
  have kept {world : World μ} {state : State}
      (host : world.stores store = loop.host state [] false) :
      (world.stores store).listeners = (machine.world.stores store).listeners ∧
        (world.stores store).observers = observers := by
    rw [host, attached]
    exact ⟨rfl, rfl⟩
  cases call with
  | request code =>
      have only : (Script.fire store code .done : Script μ).OnlyFires store := ⟨rfl, trivial⟩
      obtain ⟨settled, state, lastHosted⟩ :=
        loop.settled_of_run reactive hosted only run calm finished
      refine ⟨kept lastHosted, iff_of_true ?_ fun _ published => by cases published⟩
      obtain ⟨later, split, _⟩ := run.after_step (.wake _ _ _ _ _ _ idle) finished
      have requested : fires store told ≠ [] := by simp [split, fires, fired?]
      have published : publications store told ≠ [] := by
        intro none
        have last := loop.last_publication requested bound
        rw [← settled.shown, publications_shown, none] at last
        simp at last
      refine .of_whole ?_ ?_ (run.last_publication published)
      · intro before code listeners later split
        rw [← wholeRounds_shown, settled.rounds_first before code listeners later split]
        exact loop.wholeRounds_rounds _
      · rw [← wholeRounds_shown, settled.shown]
        exact loop.wholeRounds_rounds _
  | publish state =>
      obtain ⟨later, split, showing⟩ := run.after_step (.set ..) finished
      have shownHosted : (machine.world.update store fun old =>
          { old with state := state }).stores store = loop.host state [] false := by
        rw [World.update_stores, if_pos rfl, hosted]
        rfl
      obtain ⟨visits, visiting, rfl, settled, _, lastHosted⟩ :=
        loop.visits_of_run reactive shownHosted (List.Subset.refl observers) showing calm finished
      have direct : told = loop.direct state visits := split
      have published : publications store told ≠ [] := by
        rw [split]
        simp [publications, published?]
      refine ⟨kept lastHosted, ?_⟩
      have publishedLast := run.last_publication published
      rw [direct] at publishedLast ⊢
      refine (FlatLoop.inStep_direct_iff settled visiting publishedLast).trans ?_
      exact ⟨fun requestsLast _ _ => requestsLast, fun requestsLast => requestsLast state rfl⟩

/-- An observer that is shown one locale requests another one, which is handled after the round. -/
theorem History.inStep_iff_nested_request :
    let asking : Observer Unit := fun state =>
      if state.locale = some ⟨"en"⟩ then .fire 0 ⟨"fr"⟩ .done else .done
    let idle : Observer Unit := fun _ => .done
    let plain : Binding := ⟨Registry.merge [], none⟩
    let setup := .attach 0 plain (.subscribe 0 asking (.subscribe 0 idle .done))
    let world := ((Machine.start (World.initial ()) setup).run 4).world
    let told := (Machine.start world ((Call.request ⟨"en"⟩).script 0)).trace 60
    ∃ after, world.perform 60 ((Call.request ⟨"en"⟩).script 0) = .returned after ∧
      fires 0 told = [⟨"en"⟩, ⟨"fr"⟩] ∧ InStep 0 [asking, idle] (after.state 0) told := by
  intro asking idle plain setup world told
  have history := (History.start.call setup rfl).append
    ((Machine.start (World.initial ()) setup).run_trace 4)
  let machine := (Machine.start world ((Call.request ⟨"en"⟩).script 0)).run 60
  have returned : world.perform 60 ((Call.request ⟨"en"⟩).script 0) = .returned machine.world :=
    (Machine.perform_eq_returned_iff _ _ _ _).mpr ⟨rfl, rfl, rfl⟩
  have reactive : ∀ observer ∈ (world.stores 0).observers, ∀ state,
      (observer state).OnlyFires 0 := by
    have observers : (world.stores 0).observers = [asking, idle] := rfl
    rw [observers]
    simp only [List.forall_mem_cons, List.not_mem_nil, false_implies, implies_true, and_true]
    refine ⟨fun state => ?_, fun state => trivial⟩
    by_cases english : state.locale = some ⟨"en"⟩ <;> simp [asking, english, Script.OnlyFires]
  refine ⟨_, returned, rfl, ?_⟩
  exact (history.inStep_iff rfl 0 [plain] (by simp) rfl reactive (.request ⟨"en"⟩) 60 _
    returned).2.mpr fun _ published => by cases published

/-- The same observers when the state that one of them reacts to is set directly: the other one is
shown the state that the request led to first, and is left with the one before it. -/
theorem History.out_of_step_in_direct_round :
    let asking : Observer Unit := fun state =>
      if state.locale = some ⟨"en"⟩ then .fire 0 ⟨"fr"⟩ .done else .done
    let idle : Observer Unit := fun _ => .done
    let plain : Binding := ⟨Registry.merge [], none⟩
    let english : State := ⟨some ⟨"en"⟩, none⟩
    let setup := .attach 0 plain (.subscribe 0 asking (.subscribe 0 idle .done))
    let world := ((Machine.start (World.initial ()) setup).run 4).world
    let told := (Machine.start world ((Call.publish english).script 0)).trace 60
    (world.stores 0).listeners = [.binding plain] ∧
    (world.stores 0).observers = [asking, idle] ∧
    (∀ observer ∈ [asking, idle], ∀ state, (observer state).OnlyFires 0) ∧
    ∃ after, world.perform 60 ((Call.publish english).script 0) = .returned after ∧
      after.state 0 = plain.state ⟨"fr"⟩ ∧
      notifications 0 told = [(asking, english), (asking, plain.state ⟨"fr"⟩),
        (idle, plain.state ⟨"fr"⟩), (idle, english)] ∧
      ¬InStep 0 [asking, idle] (after.state 0) told := by
  intro asking idle plain english setup world told
  let machine := (Machine.start world ((Call.publish english).script 0)).run 60
  have returned : world.perform 60 ((Call.publish english).script 0) = .returned machine.world :=
    (Machine.perform_eq_returned_iff _ _ _ _).mpr ⟨rfl, rfl, rfl⟩
  have notified : notifications 0 told = [(asking, english), (asking, plain.state ⟨"fr"⟩),
      (idle, plain.state ⟨"fr"⟩), (idle, english)] := rfl
  refine ⟨rfl, rfl, ?_, machine.world, returned, rfl, notified, fun inStep => ?_⟩
  · simp only [List.forall_mem_cons, List.not_mem_nil, false_implies, implies_true, and_true]
    refine ⟨fun state => ?_, fun state => trivial⟩
    by_cases seen : state.locale = some ⟨"en"⟩ <;> simp [asking, seen, Script.OnlyFires]
  · have published : publications 0 told = [english, plain.state ⟨"fr"⟩] := rfl
    have whole := inStep.whole
    rw [WholeRounds, notified, published] at whole
    have locales := congrArg (List.map fun entry => entry.2.locale) whole
    simp [english, Binding.state] at locales

end MessageCatalog

import MessageCatalog.Proofs.Store.FlatLoop
import MessageCatalog.Proofs.Store.Nested

/-!
Observers in step. Observers stay in step with their store if all of them are called for a state
before the next request is handled. Callbacks that only request locales leave the observers in
step, as all that they request is dispatched in whole rounds.
-/

namespace MessageCatalog

variable {μ : Type}

namespace Event

/-- All observers were called for each state that was published, for one state after the other. -/
def WholeRounds (store : Nat) (observers : List (Observer μ)) (trace : List (Event μ)) : Prop :=
  notifications store trace =
    (publications store trace).flatMap fun state => observers.map fun observer => (observer, state)

/-- No request is handled in the middle of a round, all observers saw the same states, and the
last of them is the current one. -/
structure InStep (store : Nat) (observers : List (Observer μ)) (current : State)
    (told : List (Event μ)) : Prop where
  rounds_first : ∀ before code listeners later,
    told = before ++ .began store code listeners :: later → WholeRounds store observers before
  whole : WholeRounds store observers told
  last_current : ∀ observer ∈ observers, ∃ before later,
    notifications store told = before ++ (observer, current) :: later ∧
      observer ∉ later.map Prod.fst

variable {store : Nat}

theorem wholeRounds_shown (store : Nat) (observers : List (Observer μ)) (trace : List (Event μ)) :
    WholeRounds store observers (shown store trace) ↔ WholeRounds store observers trace := by
  unfold WholeRounds
  rw [notifications_shown, publications_shown]

theorem WholeRounds.append {store : Nat} {observers : List (Observer μ)}
    {first second : List (Event μ)} (firstWhole : WholeRounds store observers first)
    (secondWhole : WholeRounds store observers second) :
    WholeRounds store observers (first ++ second) := by
  unfold WholeRounds at *
  rw [publications_append, List.flatMap_append, ← firstWhole, ← secondWhole]
  exact notifications_append store first second

theorem last_occurrence {α : Type} {entry : α} {entries : List α} (member : entry ∈ entries) :
    ∃ before later, entries = before ++ entry :: later ∧ entry ∉ later := by
  obtain ⟨later, before, split, fresh⟩ :=
    List.eq_append_cons_of_mem (List.mem_reverse.mpr member)
  refine ⟨before.reverse, later.reverse, ?_, by simpa using fresh⟩
  simpa using congrArg List.reverse split

theorem InStep.of_whole {store : Nat} {observers : List (Observer μ)} {current : State}
    {told : List (Event μ)}
    (rounds_first : ∀ before code listeners later,
      told = before ++ .began store code listeners :: later → WholeRounds store observers before)
    (whole : WholeRounds store observers told)
    (last : (publications store told).getLast? = some current) :
    InStep store observers current told := by
  refine ⟨rounds_first, whole, fun observer member => ?_⟩
  obtain ⟨earlier, published⟩ := List.getLast?_eq_some_iff.mp last
  obtain ⟨others, later, split, fresh⟩ := last_occurrence member
  -- The last round is that of the current state.
  refine ⟨(earlier.flatMap fun state => observers.map fun observer => (observer, state)) ++
    others.map fun observer => (observer, current), later.map fun observer => (observer, current),
    ?_, by simpa using fresh⟩
  rw [whole, published, List.flatMap_append, List.flatMap_singleton, split]
  simp

end Event

open Event

namespace FlatLoop

variable {loop : FlatLoop μ}

theorem notifications_map (state : State) (observers : List (Observer μ)) (store : Nat) :
    notifications store (observers.map (.notified store state)) =
      observers.map fun observer => (observer, state) := by
  simp [notifications, List.filterMap_map, Function.comp_def, notified?]

theorem publications_map (state : State) (observers : List (Observer μ)) (store : Nat) :
    publications store (observers.map (.notified store state)) = [] := by
  simp [publications, List.filterMap_map, Function.comp_def, published?]

theorem publications_round (state : State) :
    publications loop.store (loop.round state) = [state] := by
  rw [publications, round, List.filterMap_cons_some (b := state) (by simp [published?])]
  exact congrArg _ (publications_map state loop.observers loop.store)

theorem wholeRounds_round (state : State) :
    WholeRounds loop.store loop.observers (loop.round state) := by
  rw [WholeRounds, publications_round, List.flatMap_singleton, notifications, round,
    List.filterMap_cons_none rfl]
  exact notifications_map state loop.observers loop.store

theorem wholeRounds_rounds (codes : List LocaleCode) :
    WholeRounds loop.store loop.observers (loop.rounds codes) := by
  rw [WholeRounds, notifications_rounds, publications_rounds]
  simp [List.flatMap_assoc, List.flatMap_map]

/-- What is told of callbacks that only request locales: all that they request is dispatched, in
whole rounds, and nothing else is shown. -/
structure Settled (loop : FlatLoop μ) (trace : List (Event μ)) : Prop where
  shown : shown loop.store trace = loop.rounds (fires loop.store trace)
  handled : begun loop.store trace = fires loop.store trace
  requested_first : ∀ before code later, trace = before ++ .fired loop.store code :: later →
    Event.shown loop.store before <+: loop.rounds (fires loop.store before)
  rounds_first : ∀ before code listeners later,
    trace = before ++ .began loop.store code listeners :: later →
      Event.shown loop.store before = loop.rounds (begun loop.store before)

theorem Stack.tail_ne_nil {frames : List (Frame μ)} {due : List (Event μ)}
    (stack : loop.Stack frames due) : frames.tail ≠ [] := by
  cases stack with
  | draining => simp
  | serving _ below => cases below <;> simp

theorem Owed.hosted_of_step {machine next : Machine μ} {due : List (Event μ)}
    {event : Option (Event μ)} (owed : loop.Owed machine due) (step : machine.Step event next)
    (calm : next.panicked = none) (ended : next.Ended) :
    ∃ state, next.world.stores loop.store = loop.host state [] false := by
  cases owed with
  | outside state hosted only =>
      rcases step.of_onlyFires only calm with ⟨_, rfl⟩ | ⟨_, _, _, rfl, _⟩ |
        ⟨_, _, _, _, ⟨_, rfl⟩ | ⟨_, rfl⟩⟩
      · exact ⟨state, hosted⟩
      · simp [Machine.Ended] at ended
      · simp [Machine.Ended] at ended
      · simp [Machine.Ended] at ended
  | dispatching _ _ _ stack =>
      rcases step.keeps_lower with ⟨kept, _⟩ | ⟨_, panicked⟩
      · rw [show next.frames = [] from ended] at kept
        exact absurd (List.suffix_nil.mp kept) stack.tail_ne_nil
      · exact absurd calm panicked
  | returned => cases step

theorem Owed.hosted_of_run (reactive : loop.Reactive) {machine last : Machine μ}
    {due trace : List (Event μ)} (owed : loop.Owed machine due) (active : ¬machine.Ended)
    (run : machine.Run trace last) (calm : last.panicked = none) (ended : last.Ended) :
    ∃ state, last.world.stores loop.store = loop.host state [] false := by
  induction run generalizing due with
  | refl => exact absurd ended active
  | @step machine next last trace advanced run ih =>
      have step := Machine.step_of_step? advanced
      have nextCalm := run.calm_of_calm step calm
      by_cases back : next.Ended
      · cases run with
        | refl => exact owed.hosted_of_step step nextCalm back
        | step further => simp [next.step?_eq_none_iff.mpr back] at further
      · obtain ⟨_, nextOwed, _⟩ := owed.pays reactive step nextCalm
        exact ih nextOwed back calm ended

theorem Owed.due_of_began {machine : Machine μ} {due : List (Event μ)}
    (owed : loop.Owed machine due) {code : LocaleCode} {listeners : List (Listener μ)}
    (began : machine.event? = some (.began loop.store code listeners)) :
    due = loop.rounds (machine.world.stores loop.store).pending := by
  obtain ⟨rest, draining⟩ := Machine.frames_of_began began
  cases owed with
  | outside => simp at draining
  | dispatching state pending hosted stack =>
      cases stack with
      | draining => simp [hosted, host]
      | serving owes =>
          obtain rfl := (List.cons.inj draining).1
          cases owes
  | returned => simp at draining

theorem settled_of_run (reactive : loop.Reactive) {world : World μ} {script : Script μ}
    {state : State} (hosted : world.stores loop.store = loop.host state [] false)
    (only : script.OnlyFires loop.store) {last : Machine μ} {trace : List (Event μ)}
    (run : (Machine.start world script).Run trace last) (calm : last.panicked = none)
    (ended : last.Ended) :
    loop.Settled trace ∧ ∃ after, last.world.stores loop.store = loop.host after [] false := by
  have owed : loop.Owed (Machine.start world script) [] := .outside state hosted only
  have waiting : ((Machine.start world script).world.stores loop.store).pending = [] := by
    simp [Machine.start, hosted, host]
  obtain ⟨after, lastHosted⟩ :=
    owed.hosted_of_run reactive (by simp [Machine.Ended, Machine.start]) run calm ended
  refine ⟨⟨shown_of_returned reactive hosted only run calm ended, ?_, ?_, ?_⟩, after, lastHosted⟩
  · have account := run.account calm loop.store
    simpa [waiting, lastHosted, host] using account.symm
  · intro before code later split
    obtain ⟨middle, upTo, _, middleCalm⟩ := run.at_event rfl calm split
    obtain ⟨due, _, paid⟩ := Owed.run reactive upTo middleCalm owed
    exact ⟨due, paid.symm⟩
  · intro before code listeners later split
    obtain ⟨middle, upTo, began, middleCalm⟩ := run.at_event rfl calm split
    obtain ⟨due, middleOwed, paid⟩ := Owed.run reactive upTo middleCalm owed
    have account := upTo.account middleCalm loop.store
    rw [waiting, List.nil_append] at account
    rw [middleOwed.due_of_began began, account, List.nil_append, rounds,
      List.flatMap_append] at paid
    exact (List.append_cancel_right paid).symm

end FlatLoop

end MessageCatalog

import MessageCatalog.Proofs.Store.RunToCompletion

/-!
Runs within runs. What lies below the activities under way has no part in how they run, as long as
nothing panics: a run that comes back through them is a run of those above, followed by one of
those below.
-/

namespace MessageCatalog

variable {μ : Type}

namespace Machine

def above (machine : Machine μ) (below : List (Frame μ)) : Machine μ :=
  { machine with frames := machine.frames ++ below }

theorem Step.of_above {machine next : Machine μ} {below : List (Frame μ)} {event : Option (Event μ)}
    (step : (machine.above below).Step event next) (active : ¬machine.Ended)
    (calm : next.panicked = none) :
    ∃ inner, machine.Step event inner ∧ next = inner.above below := by
  obtain ⟨world, frames, ended⟩ := machine
  cases frames with
  | nil => exact absurd rfl active
  | cons frame rest =>
      simp only [above, List.cons_append] at step
      cases step with
      | panic => simp at calm
      | done => exact ⟨_, .done .., rfl⟩
      | note => exact ⟨_, .note .., rfl⟩
      | consult => exact ⟨_, .consult .., rfl⟩
      | remember => exact ⟨_, .remember .., rfl⟩
      | get => exact ⟨_, .get .., rfl⟩
      | set => exact ⟨_, .set .., rfl⟩
      | queue _ _ _ _ _ _ busy => exact ⟨_, .queue _ _ _ _ _ _ busy, rfl⟩
      | wake _ _ _ _ _ _ idle => exact ⟨_, .wake _ _ _ _ _ _ idle, rfl⟩
      | onLocale => exact ⟨_, .onLocale .., rfl⟩
      | attach => exact ⟨_, .attach .., rfl⟩
      | subscribe => exact ⟨_, .subscribe .., rfl⟩
      | notify => exact ⟨_, .notify .., rfl⟩
      | notified => exact ⟨_, .notified .., rfl⟩
      | call => exact ⟨_, .call .., rfl⟩
      | finish => exact ⟨_, .finish .., rfl⟩
      | begin _ _ _ _ _ _ queued => exact ⟨_, .begin _ _ _ _ _ _ queued, rfl⟩
      | sleep _ _ _ _ empty => exact ⟨_, .sleep _ _ _ _ empty, rfl⟩

theorem Run.of_above {machine last : Machine μ} {below : List (Frame μ)} {trace : List (Event μ)}
    (run : Run (machine.above below) trace last) (ended : last.Ended)
    (calm : last.panicked = none) (begunCalm : machine.panicked = none) :
    ∃ first second middle, trace = first ++ second ∧ Run machine first middle ∧ middle.Ended ∧
      middle.panicked = none ∧ Run (middle.above below) second last := by
  generalize start : machine.above below = outer at run
  induction run generalizing machine with
  | refl =>
      subst start
      have back : machine.Ended := (List.append_eq_nil_iff.mp ended).1
      exact ⟨[], [], machine, rfl, .refl _, back, begunCalm, .refl _⟩
  | @step outer next last trace advanced run ih =>
      subst start
      by_cases back : machine.Ended
      · exact ⟨[], _, machine, rfl, .refl _, back, begunCalm, .step advanced run⟩
      · have step := step_of_step? advanced
        have nextCalm := run.calm_of_calm step calm
        obtain ⟨inner, inside, rfl⟩ := step.of_above back nextCalm
        have innerCalm : inner.panicked = none := nextCalm
        obtain ⟨first, second, middle, rfl, upper, back, middleCalm, lower⟩ :=
          ih ended calm innerCalm rfl
        obtain ⟨moved, told⟩ := inside.step?_eq
        refine ⟨machine.event?.toList ++ first, second, middle, ?_, .step moved upper, back,
          middleCalm, lower⟩
        rw [told, List.append_assoc]

/-- The first step of a run is the only one that can be taken. -/
theorem Run.after_step {machine next last : Machine μ} {event : Option (Event μ)}
    {trace : List (Event μ)} (run : Run machine trace last) (step : machine.Step event next)
    (ended : last.Ended) : ∃ later, trace = event.toList ++ later ∧ Run next later last := by
  obtain ⟨moved, told⟩ := step.step?_eq
  cases run with
  | refl => simp [machine.step?_eq_none_iff.mpr ended] at moved
  | @step _ other _ later advanced run =>
      obtain rfl : next = other := Option.some.inj (moved.symm.trans advanced)
      exact ⟨later, by rw [told], run⟩

theorem Run.at_event {machine last : Machine μ} {trace before after : List (Event μ)}
    {told : Event μ} (run : Run machine trace last) (begunCalm : machine.panicked = none)
    (calm : last.panicked = none) (split : trace = before ++ told :: after) :
    ∃ middle, Run machine before middle ∧ middle.event? = some told ∧
      middle.panicked = none := by
  induction run generalizing before with
  | refl => simp at split
  | @step machine next last trace advanced run ih =>
      have nextCalm := run.calm_of_calm (step_of_step? advanced) calm
      cases event : machine.event? with
      | none =>
          rw [event, Option.toList_none, List.nil_append] at split
          obtain ⟨middle, upTo, telling, middleCalm⟩ := ih nextCalm calm split
          have longer := Run.step advanced upTo
          rw [event, Option.toList_none, List.nil_append] at longer
          exact ⟨middle, longer, telling, middleCalm⟩
      | some first =>
          rw [event, Option.toList_some, List.singleton_append] at split
          cases before with
          | nil =>
              refine ⟨machine, .refl _, ?_, begunCalm⟩
              rw [event, (List.cons.inj split).1]
          | cons earliest before =>
              obtain ⟨same, rest⟩ := List.cons.inj split
              obtain ⟨middle, upTo, telling, middleCalm⟩ := ih nextCalm calm rest
              have longer := Run.step advanced upTo
              rw [event, Option.toList_some, List.singleton_append, same] at longer
              exact ⟨middle, longer, telling, middleCalm⟩

end Machine

open Event

theorem Dispatcher.Turn.account {store : Nat} {before after : Dispatcher μ}
    {event : Option (Event μ)} (turn : Dispatcher.Turn store before event after)
    (calm : ∀ told ∈ event, told.isPanic = false) :
    before.pending ++ fires store event.toList = begun store event.toList ++ after.pending := by
  cases turn with
  | idle _ _ apart =>
      obtain ⟨sameFires, sameBegun, _⟩ := append_idle apart []
      rw [List.nil_append] at sameFires sameBegun
      rw [sameFires, sameBegun]
      simp [fires, begun]
  | panic | release => simp [isPanic] at calm
  | _ => simp [fires, begun, List.filterMap_cons, fired?, began?]

/-- In a run without panics, what waited or was requested has been dispatched, or waits. -/
theorem Machine.Run.account {machine last : Machine μ} {trace : List (Event μ)}
    (run : machine.Run trace last) (calm : last.panicked = none) (store : Nat) :
    (machine.world.stores store).pending ++ fires store trace =
      begun store trace ++ (last.world.stores store).pending := by
  induction run with
  | refl => simp [fires, begun]
  | @step machine next last trace advanced run ih =>
      have step := step_of_step? advanced
      have calmStep : ∀ told ∈ machine.event?, told.isPanic = false := by
        rcases step.keeps_lower with ⟨_, quiet⟩ | ⟨_, panicked⟩
        · exact quiet
        · exact absurd (run.calm_of_calm step calm) panicked
      have paid : (machine.world.stores store).pending ++ fires store machine.event?.toList =
          begun store machine.event?.toList ++ (next.world.stores store).pending :=
        (step.turn store).account calmStep
      simp only [fires, begun, List.filterMap_append] at paid ih ⊢
      rw [← List.append_assoc, paid, List.append_assoc, ih calm, List.append_assoc]

end MessageCatalog

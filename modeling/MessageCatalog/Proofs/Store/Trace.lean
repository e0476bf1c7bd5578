import MessageCatalog.Store.Machine

/-!
Traces of machines. A step tells at most one event; a run tells the events of its steps, and a
history those of all calls from outside since the stores were set up, however the calls ended.
-/

namespace MessageCatalog

variable {μ : Type}

/-- What a step does to a store, or the panic that ends all. -/
inductive Event (μ : Type) where
  | listened (store : Nat) (listener : Listener μ)
  | subscribed (store : Nat) (observer : Observer μ)
  | fired (store : Nat) (code : LocaleCode)
  /-- The dispatch of a request begins while these listeners are registered. -/
  | began (store : Nat) (code : LocaleCode) (listeners : List (Listener μ))
  | called (store : Nat) (code : LocaleCode) (listener : Listener μ)
  | ended (store : Nat) (code : LocaleCode)
  | published (store : Nat) (state : State)
  | notified (store : Nat) (state : State) (observer : Observer μ)
  | panicked (message : String)

namespace Machine

def event? (machine : Machine μ) : Option (Event μ) :=
  match machine.frames with
  | .body (.panic message) :: _ => some (.panicked message)
  | .body (.set store state _) :: _ => some (.published store state)
  | .body (.fire store code _) :: _ => some (.fired store code)
  | .body (.onLocale store react _) :: _ => some (.listened store (.custom react))
  | .body (.attach store binding _) :: _ => some (.listened store (.binding binding))
  | .body (.subscribe store react _) :: _ => some (.subscribed store react)
  | .notify store state (observer :: _) :: _ => some (.notified store state observer)
  | .deliver store code [] :: _ => some (.ended store code)
  | .deliver store code (listener :: _) :: _ => some (.called store code listener)
  | .drain store :: _ =>
    match (machine.world.stores store).pending with
    | [] => none
    | code :: _ => some (.began store code (machine.world.stores store).listeners)
  | _ => none

def trace : Nat → Machine μ → List (Event μ)
  | 0, _ => []
  | fuel + 1, machine =>
    match machine.step? with
    | none => []
    | some next => machine.event?.toList ++ trace fuel next

/-- The ways in which a machine goes on, each with what it tells. -/
inductive Step : Machine μ → Option (Event μ) → Machine μ → Prop
  | done (world rest ended) :
      Step ⟨world, .body .done :: rest, ended⟩ none ⟨world, rest, none⟩
  | panic (world rest ended message) :
      Step ⟨world, .body (.panic message) :: rest, ended⟩ (some (.panicked message))
        ⟨rest.foldl World.leave world, [], some message⟩
  | note (world rest ended notice script) :
      Step ⟨world, .body (.note notice script) :: rest, ended⟩ none
        ⟨world.report [notice], .body script :: rest, none⟩
  | consult (world rest ended notebook script) :
      Step ⟨world, .body (.recall notebook script) :: rest, ended⟩ none
        ⟨world, .body (script (world.notebooks notebook)) :: rest, none⟩
  | remember (world rest ended notebook content script) :
      Step ⟨world, .body (.remember notebook content script) :: rest, ended⟩ none
        ⟨world.write notebook content, .body script :: rest, none⟩
  | get (world rest ended store script) :
      Step ⟨world, .body (.get store script) :: rest, ended⟩ none
        ⟨world, .body (script (world.state store)) :: rest, none⟩
  | set (world rest ended store state script) :
      Step ⟨world, .body (.set store state script) :: rest, ended⟩ (some (.published store state))
        ⟨world.update store fun old => { old with state := state },
          .notify store state (world.stores store).observers :: .body script :: rest, none⟩
  | queue (world rest ended store code script) (busy : (world.stores store).dispatching = true) :
      Step ⟨world, .body (.fire store code script) :: rest, ended⟩ (some (.fired store code))
        ⟨world.update store fun old => old.enqueue code, .body script :: rest, none⟩
  | wake (world rest ended store code script) (idle : (world.stores store).dispatching = false) :
      Step ⟨world, .body (.fire store code script) :: rest, ended⟩ (some (.fired store code))
        ⟨(world.update store fun old => old.enqueue code).update store fun old =>
          { old with dispatching := true }, .drain store :: .body script :: rest, none⟩
  | onLocale (world rest ended store react script) :
      Step ⟨world, .body (.onLocale store react script) :: rest, ended⟩
        (some (.listened store (.custom react)))
        ⟨world.update store fun old => old.addListener (.custom react), .body script :: rest, none⟩
  | attach (world rest ended store binding script) :
      Step ⟨world, .body (.attach store binding script) :: rest, ended⟩
        (some (.listened store (.binding binding)))
        ⟨world.update store fun old => old.addListener (.binding binding), .body script :: rest,
          none⟩
  | subscribe (world rest ended store react script) :
      Step ⟨world, .body (.subscribe store react script) :: rest, ended⟩
        (some (.subscribed store react))
        ⟨world.update store fun old => old.addObserver react, .body script :: rest, none⟩
  | notify (world rest ended store state observer waiting) :
      Step ⟨world, .notify store state (observer :: waiting) :: rest, ended⟩
        (some (.notified store state observer))
        ⟨world, .body (observer state) :: .notify store state waiting :: rest, none⟩
  | notified (world rest ended store state) :
      Step ⟨world, .notify store state [] :: rest, ended⟩ none ⟨world, rest, none⟩
  | call (world rest ended store code listener waiting) :
      Step ⟨world, .deliver store code (listener :: waiting) :: rest, ended⟩
        (some (.called store code listener))
        ⟨world, .body (listener.script store code) :: .deliver store code waiting :: rest, none⟩
  | finish (world rest ended store code) :
      Step ⟨world, .deliver store code [] :: rest, ended⟩ (some (.ended store code))
        ⟨world, rest, none⟩
  | begin (world rest ended store code later)
      (queued : (world.stores store).pending = code :: later) :
      Step ⟨world, .drain store :: rest, ended⟩
        (some (.began store code (world.stores store).listeners))
        ⟨(if (world.stores store).listeners.isEmpty then
            (world.update store fun old => { old with pending := later }).report [.unheard code]
          else world.update store fun old => { old with pending := later }),
          .deliver store code (world.stores store).listeners :: .drain store :: rest, none⟩
  | sleep (world rest ended store) (empty : (world.stores store).pending = []) :
      Step ⟨world, .drain store :: rest, ended⟩ none
        ⟨world.update store fun old => { old with dispatching := false }, rest, none⟩

theorem step_of_step? {machine next : Machine μ} (advanced : machine.step? = some next) :
    Step machine machine.event? next := by
  obtain ⟨world, frames, ended⟩ := machine
  cases frames with
  | nil => simp [step?] at advanced
  | cons frame rest =>
      cases frame with
      | body script =>
          simp only [step?, Option.some.injEq] at advanced
          subst advanced
          cases script with
          | fire store code script =>
              cases dispatching : (world.stores store).dispatching with
              | true => simpa [stepScript, event?, dispatching] using Step.queue _ _ _ _ _ _ dispatching
              | false => simpa [stepScript, event?, dispatching] using Step.wake _ _ _ _ _ _ dispatching
          | _ => constructor
      | notify store state waiting =>
          cases waiting <;>
            (simp only [step?, Option.some.injEq] at advanced; subst advanced; constructor)
      | deliver store code waiting =>
          cases waiting <;>
            (simp only [step?, Option.some.injEq] at advanced; subst advanced; constructor)
      | drain store =>
          simp only [step?, Option.some.injEq] at advanced
          subst advanced
          cases queued : (world.stores store).pending with
          | nil => simpa [stepDrain, event?, queued] using Step.sleep world rest ended store queued
          | cons code later =>
              simpa [stepDrain, event?, queued] using
                Step.begin world rest ended store code later queued

theorem Step.step?_eq {machine next : Machine μ} {event : Option (Event μ)}
    (step : Step machine event next) : machine.step? = some next ∧ machine.event? = event := by
  cases step with
  | queue _ _ _ _ _ _ busy => simp [step?, stepScript, event?, busy]
  | wake _ _ _ _ _ _ idle => simp [step?, stepScript, event?, idle]
  | begin _ _ _ _ _ _ queued => simp [step?, stepDrain, event?, queued]
  | sleep _ _ _ _ empty => simp [step?, stepDrain, event?, empty]
  | _ => exact ⟨rfl, rfl⟩

theorem step?_eq_none_iff (machine : Machine μ) : machine.step? = none ↔ machine.Ended := by
  obtain ⟨world, frames, ended⟩ := machine
  cases frames with
  | nil => simp [step?, Ended]
  | cons frame rest =>
      cases frame with
      | body script => simp [step?, Ended]
      | notify store state waiting => cases waiting <;> simp [step?, Ended]
      | deliver store code waiting => cases waiting <;> simp [step?, Ended]
      | drain store => simp [step?, Ended]

theorem step_of_event {machine : Machine μ} {event : Event μ} (told : machine.event? = some event) :
    ∃ next, machine.Step (some event) next := by
  cases advanced : machine.step? with
  | none =>
      have ended : machine.frames = [] := machine.step?_eq_none_iff.mp advanced
      simp [event?, ended] at told
  | some next => exact ⟨next, told ▸ step_of_step? advanced⟩

theorem frames_of_notified {machine : Machine μ} {store : Nat} {shown : State}
    {observer : Observer μ} (told : machine.event? = some (.notified store shown observer)) :
    ∃ waiting rest, machine.frames = .notify store shown (observer :: waiting) :: rest := by
  obtain ⟨next, step⟩ := step_of_event told
  cases step with
  | notify _ rest _ _ _ _ waiting => exact ⟨waiting, rest, rfl⟩

theorem frames_of_began {machine : Machine μ} {store : Nat} {code : LocaleCode}
    {listeners : List (Listener μ)} (told : machine.event? = some (.began store code listeners)) :
    ∃ rest, machine.frames = .drain store :: rest := by
  obtain ⟨next, step⟩ := step_of_event told
  cases step with
  | begin _ rest => exact ⟨rest, rfl⟩

theorem frames_of_called {machine : Machine μ} {store : Nat} {code : LocaleCode}
    {listener : Listener μ} (told : machine.event? = some (.called store code listener)) :
    ∃ waiting rest, machine.frames = .deliver store code (listener :: waiting) :: rest := by
  obtain ⟨next, step⟩ := step_of_event told
  cases step with
  | call _ rest _ _ _ _ waiting => exact ⟨waiting, rest, rfl⟩

inductive Run : Machine μ → List (Event μ) → Machine μ → Prop
  | refl (machine) : Run machine [] machine
  | step {machine next last trace} : machine.step? = some next → Run next trace last →
      Run machine (machine.event?.toList ++ trace) last

theorem run_trace (fuel : Nat) (machine : Machine μ) :
    Run machine (machine.trace fuel) (machine.run fuel) := by
  induction fuel generalizing machine with
  | zero => exact .refl machine
  | succ fuel ih =>
      unfold trace Machine.run
      cases advanced : machine.step? with
      | none => exact .refl machine
      | some next => exact .step advanced (ih next)

theorem run_of_ended {machine : Machine μ} (ended : machine.Ended) (fuel : Nat) :
    machine.run fuel = machine := by
  cases fuel with
  | zero => rfl
  | succ fuel => rw [Machine.run, (step?_eq_none_iff machine).mpr ended]

/-- A run that ends needs no more than so many steps. -/
theorem Run.exists_enough {machine last : Machine μ} {trace : List (Event μ)}
    (run : machine.Run trace last) (ended : last.Ended) :
    ∃ enough, ∀ fuel, enough ≤ fuel → machine.run fuel = last := by
  induction run with
  | refl machine => exact ⟨0, fun fuel _ => run_of_ended ended fuel⟩
  | step moved _ ih =>
      obtain ⟨enough, reached⟩ := ih ended
      refine ⟨enough + 1, fun fuel more => ?_⟩
      obtain ⟨less, rfl⟩ : ∃ less, fuel = less + 1 := ⟨fuel - 1, by omega⟩
      rw [Machine.run, moved]
      exact reached less (by omega)

/-- Once a run has ended nothing more is told. -/
theorem trace_prefix_of_ended {enough : Nat} {machine : Machine μ}
    (ended : (machine.run enough).Ended) (fuel : Nat) :
    machine.trace fuel <+: machine.trace enough := by
  induction enough generalizing machine fuel with
  | zero =>
      have stuck := (step?_eq_none_iff machine).mpr ended
      cases fuel with
      | zero => exact List.prefix_rfl
      | succ fuel => simp [trace, stuck]
  | succ enough ih =>
      cases fuel with
      | zero => exact List.nil_prefix
      | succ fuel =>
          rw [Machine.run] at ended
          rw [trace, trace]
          cases moved : machine.step? with
          | none => exact List.prefix_rfl
          | some next =>
              rw [moved] at ended
              exact List.prefix_append_right_inj _ |>.mpr (ih ended fuel)

theorem Run.exists_trace {machine last : Machine μ} {trace : List (Event μ)}
    (run : machine.Run trace last) : ∃ fuel, machine.trace fuel = trace := by
  induction run with
  | refl machine => exact ⟨0, rfl⟩
  | step moved _ ih =>
      obtain ⟨fuel, told⟩ := ih
      refine ⟨fuel + 1, ?_⟩
      rw [Machine.trace, moved]
      exact congrArg _ told

theorem Run.trans {machine middle last : Machine μ} {first second : List (Event μ)}
    (before : machine.Run first middle) (after : middle.Run second last) :
    machine.Run (first ++ second) last := by
  induction before with
  | refl machine => exact after
  | step moved _ ih =>
      rw [List.append_assoc]
      exact .step moved (ih after)

theorem perform_eq_returned_iff (fuel : Nat) (before after : World μ) (script : Script μ) :
    before.perform fuel script = .returned after ↔
      ((start before script).run fuel).Ended ∧ ((start before script).run fuel).panicked = none ∧
        ((start before script).run fuel).world = after := by
  unfold World.perform
  generalize (start before script).run fuel = machine
  obtain ⟨world, frames, panicked⟩ := machine
  cases frames with
  | nil => cases panicked <;> simp [Outcome.ofMachine, Ended]
  | cons frame rest => simp [Outcome.ofMachine, Ended]

theorem Run.calm_of_calm {machine next last : Machine μ} {event : Option (Event μ)}
    {trace : List (Event μ)} (step : Step machine event next) (run : Run next trace last)
    (calm : last.panicked = none) : next.panicked = none := by
  cases step with
  | panic world rest ended message =>
      cases run with
      | refl => exact calm
      | step advanced _ => simp [step?] at advanced
  | _ => rfl

/-- Steps that are taken while more than `depth` activities are under way. -/
inductive Within (depth : Nat) : Machine μ → List (Event μ) → Machine μ → Prop
  | refl (machine) : Within depth machine [] machine
  | step {machine next last trace} : depth < machine.frames.length →
      machine.step? = some next → Within depth next trace last →
      Within depth machine (machine.event?.toList ++ trace) last

/-- The operation that is carried out next comes back: everything that it put under way has
ended, and no more. -/
def Returns (machine : Machine μ) (trace : List (Event μ)) (after : Machine μ) : Prop :=
  ∃ next during, machine.step? = some next ∧
    Within machine.frames.length next during after ∧
    after.frames.length = machine.frames.length ∧ trace = machine.event?.toList ++ during

theorem Within.run {depth : Nat} {machine last : Machine μ} {trace : List (Event μ)}
    (within : Within depth machine trace last) : Run machine trace last := by
  induction within with
  | refl machine => exact .refl machine
  | step _ advanced _ ih => exact .step advanced ih

theorem Returns.run {machine after : Machine μ} {trace : List (Event μ)}
    (returns : machine.Returns trace after) : Run machine trace after := by
  obtain ⟨next, during, advanced, within, _, rfl⟩ := returns
  exact .step advanced within.run

end Machine

/-- What happened from `origin` on, and the machine as it then is. -/
inductive History (origin : World μ) : List (Event μ) → Machine μ → Prop
  | start : History origin [] ⟨origin, [], none⟩
  | call {trace machine} (script : Script μ) : History origin trace machine → machine.Ended →
      History origin trace (Machine.start machine.world script)
  | step {trace machine next} : History origin trace machine → machine.step? = some next →
      History origin (trace ++ machine.event?.toList) next

theorem History.append {origin : World μ} {earlier trace : List (Event μ)}
    {machine last : Machine μ} (history : History origin earlier machine)
    (run : machine.Run trace last) : History origin (earlier ++ trace) last := by
  induction run generalizing earlier with
  | refl machine => simpa using history
  | step advanced _ ih => simpa using ih (history.step advanced)

end MessageCatalog

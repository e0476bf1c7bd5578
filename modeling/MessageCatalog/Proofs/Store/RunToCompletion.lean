import MessageCatalog.Proofs.Store.Ledger

/-!
Run to completion. As long as nothing panics, the requests of a store are dispatched one after
another, in the order in which they were made, each to the listeners that are registered when its
dispatch begins. A request made during a dispatch of the store comes back at once; any other comes
back when every request of the store has been dispatched.
-/

namespace MessageCatalog

variable {μ : Type}

namespace Event

def wholeDispatch (store : Nat) (code : LocaleCode) (listeners : List (Listener μ)) :
    List (Event μ) :=
  .began store code listeners :: listeners.map (.called store code) ++ [.ended store code]

/-- The dispatches of a store follow one another, each is whole, and they are those of the
requests that were made, in order. -/
def CompletelyDispatched (store : Nat) (trace : List (Event μ)) : Prop :=
  ∃ done : List (LocaleCode × List (Listener μ)),
    dispatches store trace = done.flatMap (fun dispatch => wholeDispatch store dispatch.1 dispatch.2) ∧
      fires store trace = done.map Prod.fst

/-- Whole dispatches, followed by the one that is under way as far as it has come. -/
def Logged (store : Nat) (log : List (Event μ)) (codes : List LocaleCode) :
    List (Activity μ) → Prop
  | .delivering code waiting :: _ =>
    ∃ (done : List (LocaleCode × List (Listener μ))) (told : List (Listener μ)),
      log = done.flatMap (fun dispatch => wholeDispatch store dispatch.1 dispatch.2) ++
        .began store code (told ++ waiting) :: told.map (.called store code) ∧
      codes = done.map Prod.fst ++ [code]
  | _ =>
    ∃ done : List (LocaleCode × List (Listener μ)),
      log = done.flatMap (fun dispatch => wholeDispatch store dispatch.1 dispatch.2) ∧
      codes = done.map Prod.fst

end Event

open Event

namespace Dispatcher

theorem Turn.logged {store : Nat} {before after : Dispatcher μ} {event : Option (Event μ)}
    (turn : Turn store before event after) (sound : before.Sound) (trace : List (Event μ))
    (calm : ∀ told ∈ event, told.isPanic = false)
    (logged : Logged store (dispatches store trace) (begun store trace) before.underWay) :
    Logged store (dispatches store (trace ++ event.toList)) (begun store (trace ++ event.toList))
      after.underWay := by
  cases turn with
  | idle _ _ apart =>
      obtain ⟨_, sameBegun, _, sameLog⟩ := append_idle apart trace
      rwa [sameBegun, sameLog]
  | listen | queue =>
      simpa [dispatches_concat, begun_concat, ofDispatch, began?] using logged
  | wake =>
      cases sound
      simpa [dispatches_concat, begun_concat, ofDispatch, began?, Logged] using logged
  | begin listeners later dispatching rest code =>
      obtain ⟨done, log, codes⟩ := logged
      refine ⟨done, [], ?_, ?_⟩
      · simp [dispatches_concat, ofDispatch, log]
      · simp [begun_concat, began?, codes]
  | call listeners pending dispatching rest code listener waiting =>
      obtain ⟨done, told, log, codes⟩ := logged
      refine ⟨done, told ++ [listener], ?_, ?_⟩
      · simp [dispatches_concat, ofDispatch, log]
      · simp [begun_concat, began?, codes]
  | finish listeners pending dispatching rest code =>
      cases sound
      obtain ⟨done, told, log, codes⟩ := logged
      refine ⟨done ++ [(code, told)], ?_, ?_⟩
      · simp [dispatches_concat, ofDispatch, log, wholeDispatch]
      · simp [begun_concat, began?, codes]
  | sleep =>
      cases sound
      simpa [Logged] using logged
  | panic | release => simp [isPanic] at calm

end Dispatcher

namespace Machine

/-- A step leaves what lies below the innermost activity under way, or it is a panic. -/
theorem Step.keeps_lower {machine next : Machine μ} {event : Option (Event μ)}
    (step : machine.Step event next) :
    machine.frames.tail <:+ next.frames ∧ (∀ told ∈ event, told.isPanic = false) ∨
      next.frames = [] ∧ next.panicked ≠ none := by
  cases step with
  | panic => exact Or.inr ⟨rfl, by simp⟩
  | _ => exact Or.inl ⟨by simp [List.suffix_cons_iff], by simp [isPanic]⟩

theorem Within.keeps_lower {depth : Nat} {machine last : Machine μ} {trace : List (Event μ)}
    (within : Within depth machine trace last) {lower : List (Frame μ)}
    (isLower : lower <:+ machine.frames) (size : lower.length = depth)
    (unbroken : last.frames ≠ []) :
    lower <:+ last.frames ∧ ∀ told ∈ trace, told.isPanic = false := by
  induction within with
  | refl => exact ⟨isLower, by simp⟩
  | @step machine next last trace deep advanced within ih =>
      rcases (step_of_step? advanced).keeps_lower with ⟨kept, calm⟩ | ⟨broken, _⟩
      · have tail : lower <:+ machine.frames.tail := by
          cases frames : machine.frames with
          | nil => simp [frames] at deep
          | cons frame rest =>
              rw [frames] at isLower deep
              rcases List.suffix_cons_iff.mp isLower with whole | below
              · rw [← size, whole] at deep
                simp at deep
              · exact below
        obtain ⟨isLower, later⟩ := ih (tail.trans kept) unbroken
        refine ⟨isLower, fun told member => ?_⟩
        rcases List.mem_append.mp member with first | rest
        · exact calm told (Option.mem_toList.mp first)
        · exact later told rest
      · cases within with
        | refl => exact absurd broken unbroken
        | step deeper => simp [broken] at deeper

/-- Once a request comes back, what was under way around it is under way again. -/
theorem Returns.of_fire {machine after : Machine μ} {during : List (Event μ)}
    (returns : machine.Returns during after) {store : Nat} {code : LocaleCode} {script : Script μ}
    {rest : List (Frame μ)} (firing : machine.frames = .body (.fire store code script) :: rest) :
    after.frames = .body script :: rest ∧ ∀ told ∈ during, told.isPanic = false := by
  obtain ⟨next, later, advanced, within, level, rfl⟩ := returns
  have started : .body script :: rest <:+ next.frames := by
    obtain ⟨world, frames, ended⟩ := machine
    obtain rfl : frames = .body (.fire store code script) :: rest := firing
    cases step_of_step? advanced with
    | queue => simp
    | wake => simp
  have size : (Frame.body script :: rest).length = machine.frames.length := by simp [firing]
  have unbroken : after.frames ≠ [] := by
    intro broken
    simp [broken, firing] at level
  obtain ⟨kept, calm⟩ := within.keeps_lower started size unbroken
  refine ⟨(kept.eq_of_length (size.trans level.symm)).symm, ?_⟩
  intro told member
  rcases List.mem_append.mp member with first | rest
  · have silent : machine.event? = some (.fired store code) := by simp [event?, firing]
    rw [silent, Option.toList_some, List.mem_singleton] at first
    rw [first]
    rfl
  · exact calm told rest

theorem returns_fire_iff {machine : Machine μ} {store : Nat} {code : LocaleCode}
    {script : Script μ} {rest : List (Frame μ)}
    (firing : machine.frames = .body (.fire store code script) :: rest)
    (busy : (machine.world.stores store).dispatching = true) (during : List (Event μ))
    (after : Machine μ) :
    machine.Returns during after ↔
      during = [.fired store code] ∧
        after = ⟨machine.world.update store fun old => old.enqueue code, .body script :: rest,
          none⟩ := by
  obtain ⟨world, frames, ended⟩ := machine
  obtain rfl : frames = .body (.fire store code script) :: rest := firing
  obtain ⟨advanced, told⟩ := (Step.queue world rest ended store code script busy).step?_eq
  constructor
  · rintro ⟨next, later, moved, within, -, rfl⟩
    rw [advanced, Option.some.injEq] at moved
    subst moved
    cases within with
    | refl => simp [told]
    | step deep => simp at deep
  · rintro ⟨rfl, rfl⟩
    exact ⟨_, [], advanced, .refl _, by simp, by simp [told]⟩

theorem listeners_of_began {machine : Machine μ} {store : Nat} {code : LocaleCode}
    {listeners : List (Listener μ)} (told : machine.event? = some (.began store code listeners)) :
    listeners = (machine.world.stores store).listeners := by
  obtain ⟨next, step⟩ := step_of_event told
  cases step with
  | begin => rfl

end Machine

namespace History

variable {blank : μ} {trace : List (Event μ)} {machine : Machine μ}

theorem at_event {origin : World μ} (history : History origin trace machine)
    {before after : List (Event μ)} {told : Event μ} (split : trace = before ++ told :: after) :
    ∃ earlier, History origin before earlier ∧ earlier.event? = some told := by
  induction history generalizing after with
  | start => simp at split
  | call _ _ _ ih => exact ih split
  | @step trace machine next history advanced ih =>
      cases event : machine.event? with
      | none =>
          rw [event, Option.toList_none, List.append_nil] at split
          exact ih split
      | some last =>
          rw [event, Option.toList_some] at split
          rcases List.eq_nil_or_concat after with rfl | ⟨others, final, rfl⟩
          · obtain ⟨rfl, same⟩ := List.append_inj' split rfl
            simp only [List.cons.injEq, and_true] at same
            exact ⟨machine, history, by rw [event, same]⟩
          · have moved : trace ++ [last] = (before ++ told :: others) ++ [final] := by
              simpa using split
            exact ih (List.append_inj' moved rfl).1

theorem logged (history : History (World.initial blank) trace machine)
    (calm : ∀ told ∈ trace, told.isPanic = false) (store : Nat) :
    Logged store (dispatches store trace) (begun store trace)
      (machine.dispatcher store).underWay := by
  refine (history.dispatcher_induction store
    (motive := fun trace dispatcher => dispatcher.Sound ∧
      ((∀ told ∈ trace, told.isPanic = false) →
        Logged store (dispatches store trace) (begun store trace) dispatcher.underWay))
    ⟨.asleep [], fun _ => ⟨[], rfl, rfl⟩⟩ ?_).2 calm
  rintro trace before event after ⟨sound, logged⟩ turn
  refine ⟨turn.sound sound, fun calm => turn.logged sound trace ?_ (logged ?_)⟩
  · exact fun told member => calm told (List.mem_append_right _ (Option.mem_toList.mpr member))
  · exact fun told member => calm told (List.mem_append_left _ member)

theorem completelyDispatched (history : History (World.initial blank) trace machine)
    (calm : ∀ told ∈ trace, told.isPanic = false) {store : Nat}
    (quiet : (machine.dispatcher store).underWay = []) : CompletelyDispatched store trace := by
  have logged := history.logged calm store
  rw [quiet] at logged
  obtain ⟨done, log, codes⟩ := logged
  have account := history.fires_since_panic store
  rw [sinceLastPanic_of_calm calm] at account
  have empty : (machine.world.stores store).pending = [] :=
    ((history.sound store).idle_of_underWay quiet).1
  rw [empty, List.append_nil] at account
  exact ⟨done, log, account.trans codes⟩

theorem began_listeners (history : History (World.initial blank) trace machine)
    {store : Nat} {code : LocaleCode} {listeners : List (Listener μ)}
    {before after : List (Event μ)} (split : trace = before ++ .began store code listeners :: after) :
    listeners = registered store before := by
  obtain ⟨earlier, history, told⟩ := history.at_event split
  rw [history.registered_eq, Machine.listeners_of_began told]

/-- Dispatches of a store do not overlap and are those of its requests in order, each with the
listeners registered before it began; a request made while the store dispatches calls no listener
before it comes back, and any other comes back when all requests have been dispatched. -/
theorem runs_to_completion (history : History (World.initial blank) trace machine)
    (calm : ∀ told ∈ trace, told.isPanic = false) (store : Nat) :
    (machine.Ended → CompletelyDispatched store trace) ∧
    (∀ before code listeners after, trace = before ++ .began store code listeners :: after →
      listeners = registered store before) ∧
    ∀ code script rest, machine.frames = .body (.fire store code script) :: rest →
      ((machine.world.stores store).dispatching = true →
        (∃ during after, machine.Returns during after) ∧
        ∀ during after, machine.Returns during after →
          ∀ other locale listener, .called other locale listener ∉ during) ∧
      ((machine.world.stores store).dispatching = false →
        ∀ during after, machine.Returns during after →
          CompletelyDispatched store (trace ++ during)) := by
  refine ⟨?_, fun before code listeners after => history.began_listeners, ?_⟩
  · intro ended
    exact history.completelyDispatched calm (by simp [Machine.dispatcher, show _ = [] from ended])
  · intro code script rest firing
    refine ⟨fun busy => ⟨?_, ?_⟩, ?_⟩
    · exact ⟨_, _, (Machine.returns_fire_iff firing busy _ _).mpr ⟨rfl, rfl⟩⟩
    · intro during after returns
      obtain ⟨rfl, _⟩ := (Machine.returns_fire_iff firing busy during after).mp returns
      simp
    · intro idle during after returns
      obtain ⟨restored, calmDuring⟩ := returns.of_fire firing
      have quiet : (machine.dispatcher store).underWay = [] :=
        ((history.sound store).pending_of_idle idle).2
      refine (history.append returns.run).completelyDispatched ?_ ?_
      · intro told member
        rcases List.mem_append.mp member with earlier | later
        · exact calm told earlier
        · exact calmDuring told later
      · simpa [Machine.dispatcher, restored, firing] using quiet

/-- A listener of each store requests a locale of the other one. -/
theorem runs_to_completion_between_stores :
    let echo : LocaleCode → Script Unit := fun code =>
      if code = ⟨"en"⟩ then .fire 1 ⟨"de"⟩ .done else .done
    let session : Script Unit :=
      .onLocale 0 echo (.onLocale 1 (fun _ => .fire 0 ⟨"fr"⟩ .done) (.fire 0 ⟨"en"⟩ .done))
    let machine := Machine.start (World.initial ()) session
    (machine.run 30).Ended ∧ (∀ told ∈ machine.trace 30, told.isPanic = false) ∧
      CompletelyDispatched 0 (machine.trace 30) ∧
      fires 0 (machine.trace 30) = [⟨"en"⟩, ⟨"fr"⟩] := by
  intro echo session machine
  have history : History (World.initial ()) (machine.trace 30) (machine.run 30) :=
    (History.start.call session rfl).append (machine.run_trace 30)
  obtain ⟨emptied, calm, requested⟩ : (machine.run 30).frames.isEmpty = true ∧
      (∀ told ∈ machine.trace 30, told.isPanic = false) ∧
      fires 0 (machine.trace 30) = [⟨"en"⟩, ⟨"fr"⟩] := by
    simp only [machine, session, echo]
    decide +kernel
  have ended : (machine.run 30).Ended := List.isEmpty_iff.mp emptied
  exact ⟨ended, calm, (history.runs_to_completion calm 0).1 ended, requested⟩

end History

end MessageCatalog

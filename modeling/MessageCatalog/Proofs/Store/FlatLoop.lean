import MessageCatalog.Proofs.Store.Ledger
import MessageCatalog.Proofs.Store.Publication

/-!
The flat event loop. Where all listeners of a store apply bindings and its observers only request
locales of the same store, calls nest, but what the observers are shown is a plain loop: over the
requests in order, over the bindings, over the observers.

What is still to be shown is read off the stack. Each step pays for what it shows out of it and
adds what it requests, so that in the end all has been shown.
-/

namespace MessageCatalog

variable {μ : Type}

/-- A callback that does nothing to stores but request locales of one of them. What it requests
may depend on all that it sees. -/
def Script.OnlyFires (store : Nat) : Script μ → Prop
  | .done => True
  | .panic _ => True
  | .note _ next => next.OnlyFires store
  | .recall _ next => ∀ content, (next content).OnlyFires store
  | .remember _ _ next => next.OnlyFires store
  | .get _ next => ∀ state, (next state).OnlyFires store
  | .fire other _ next => other = store ∧ next.OnlyFires store
  | .set _ _ _ => False
  | .onLocale _ _ _ => False
  | .attach _ _ _ => False
  | .subscribe _ _ _ => False

theorem Machine.Step.of_onlyFires {world : World μ} {rest : List (Frame μ)}
    {ended : Option String} {script : Script μ} {event : Option (Event μ)} {next : Machine μ}
    {store : Nat} (only : script.OnlyFires store)
    (step : Machine.Step ⟨world, .body script :: rest, ended⟩ event next)
    (calm : next.panicked = none) :
    event = none ∧ next = ⟨world, rest, none⟩ ∨
    (∃ other later, event = none ∧ next = ⟨other, .body later :: rest, none⟩ ∧
      other.stores = world.stores ∧ later.OnlyFires store) ∨
    ∃ code later, event = some (.fired store code) ∧ later.OnlyFires store ∧
      ((world.stores store).dispatching = true ∧
          next = ⟨world.update store fun old => old.enqueue code, .body later :: rest, none⟩ ∨
        (world.stores store).dispatching = false ∧
          next = ⟨(world.update store fun old => old.enqueue code).update store fun old =>
            { old with dispatching := true }, .drain store :: .body later :: rest, none⟩) := by
  cases step with
  | done => exact Or.inl ⟨rfl, rfl⟩
  | panic => simp at calm
  | note _ _ _ notice later => exact Or.inr (Or.inl ⟨_, later, rfl, rfl, rfl, only⟩)
  | consult _ _ _ notebook later => exact Or.inr (Or.inl ⟨_, _, rfl, rfl, rfl, only _⟩)
  | remember _ _ _ notebook content later => exact Or.inr (Or.inl ⟨_, later, rfl, rfl, rfl, only⟩)
  | get _ _ _ other later => exact Or.inr (Or.inl ⟨_, _, rfl, rfl, rfl, only _⟩)
  | queue _ _ _ other code later busy =>
      obtain ⟨rfl, only⟩ := only
      exact Or.inr (Or.inr ⟨code, later, rfl, only, Or.inl ⟨busy, rfl⟩⟩)
  | wake _ _ _ other code later idle =>
      obtain ⟨rfl, only⟩ := only
      exact Or.inr (Or.inr ⟨code, later, rfl, only, Or.inr ⟨idle, rfl⟩⟩)
  | set | onLocale | attach | subscribe => exact absurd only id

namespace Event

def ofRound (store : Nat) : Event μ → Bool
  | published other _ => other == store
  | notified other _ _ => other == store
  | _ => false

def shown (store : Nat) (trace : List (Event μ)) : List (Event μ) := trace.filter (ofRound store)

theorem shown_append (store : Nat) (first second : List (Event μ)) :
    shown store (first ++ second) = shown store first ++ shown store second :=
  List.filter_append first second

theorem notifications_shown (store : Nat) (trace : List (Event μ)) :
    notifications store (shown store trace) = notifications store trace := by
  unfold notifications shown
  rw [List.filterMap_filter]
  congr
  funext event
  cases event <;> simp [ofRound, notified?]

theorem publications_shown (store : Nat) (trace : List (Event μ)) :
    publications store (shown store trace) = publications store trace := by
  unfold publications shown
  rw [List.filterMap_filter]
  congr
  funext event
  cases event <;> simp [ofRound, published?]

end Event

open Event

structure FlatLoop (μ : Type) where
  store : Nat
  bindings : List Binding
  observers : List (Observer μ)

namespace FlatLoop

variable (loop : FlatLoop μ)

def round (state : State) : List (Event μ) :=
  .published loop.store state :: loop.observers.map (.notified loop.store state)

def roundsOf (code : LocaleCode) : List (Event μ) :=
  loop.bindings.flatMap fun binding => loop.round (binding.state code)

def rounds (codes : List LocaleCode) : List (Event μ) := codes.flatMap loop.roundsOf

/-- The store: nobody else listens to it or observes it. -/
def host (state : State) (pending : List LocaleCode) (dispatching : Bool) : Store μ :=
  ⟨state, loop.bindings.map .binding, loop.observers, pending, dispatching⟩

def Reactive : Prop :=
  ∀ observer ∈ loop.observers, ∀ state, (observer state).OnlyFires loop.store

/-- What an activity of a dispatch is still to show. -/
inductive Owes : Frame μ → List (Event μ) → Prop
  | asking {script} : script.OnlyFires loop.store → Owes (.body script) []
  | applying (binding : Binding) (code) :
      Owes (.body (binding.script loop.store code)) (loop.round (binding.state code))
  | publishing (state) : Owes (.body (.set loop.store state .done)) (loop.round state)
  | showing {waiting} (state) : waiting ⊆ loop.observers →
      Owes (.notify loop.store state waiting) (waiting.map (.notified loop.store state))
  | telling (code) (waiting : List Binding) :
      Owes (.deliver loop.store code (waiting.map .binding))
        (waiting.flatMap fun binding => loop.round (binding.state code))

inductive Stack : List (Frame μ) → List (Event μ) → Prop
  | draining {script} : script.OnlyFires loop.store →
      Stack [.drain loop.store, .body script] []
  | serving {frame rest first later} : loop.Owes frame first → Stack rest later →
      Stack (frame :: rest) (first ++ later)

/-- What is still to be shown before a call that only requests locales of the store returns. -/
inductive Owed : Machine μ → List (Event μ) → Prop
  | outside {world script ended} (state) :
      world.stores loop.store = loop.host state [] false → script.OnlyFires loop.store →
      Owed ⟨world, [.body script], ended⟩ []
  | dispatching {world frames ended due} (state pending) :
      world.stores loop.store = loop.host state pending true → loop.Stack frames due →
      Owed ⟨world, frames, ended⟩ (due ++ loop.rounds pending)
  | returned {world ended} : Owed ⟨world, [], ended⟩ []

/-- A step that shows what was due first, and after which the rest and the rounds of what it
requested are due. -/
def Pays (due : List (Event μ)) (event : Option (Event μ)) (next : Machine μ) : Prop :=
  ∃ later, loop.Owed next later ∧
    due ++ loop.rounds (fires loop.store event.toList) = shown loop.store event.toList ++ later

variable {loop} {world : World μ} {rest : List (Frame μ)} {script : Script μ}
  {ended : Option String} {event : Option (Event μ)} {next : Machine μ} {due : List (Event μ)}
  {state : State} {pending : List LocaleCode}

theorem pays_outside (hosted : world.stores loop.store = loop.host state [] false)
    (only : script.OnlyFires loop.store)
    (step : Machine.Step ⟨world, [.body script], ended⟩ event next)
    (calm : next.panicked = none) : loop.Pays [] event next := by
  rcases step.of_onlyFires only calm with ⟨rfl, rfl⟩ | ⟨other, later, rfl, rfl, same, only⟩ |
    ⟨code, later, rfl, only, queued⟩
  · exact ⟨[], .returned, rfl⟩
  · exact ⟨[], .outside state (same ▸ hosted) only, rfl⟩
  · rcases queued with ⟨busy, _⟩ | ⟨_, rfl⟩
    · simp [hosted, host] at busy
    · refine ⟨_, .dispatching state [code] ?_ (.draining only), ?_⟩
      · simp [hosted, host, Store.enqueue]
      · simp [fires, fired?, shown, ofRound]

theorem pays_draining (hosted : world.stores loop.store = loop.host state pending true)
    (only : script.OnlyFires loop.store)
    (step : Machine.Step ⟨world, [.drain loop.store, .body script], ended⟩ event next) :
    loop.Pays (loop.rounds pending) event next := by
  cases step with
  | sleep _ _ _ _ empty =>
      obtain rfl : pending = [] := by simpa [hosted, host] using empty
      refine ⟨[], .outside state ?_ only, rfl⟩
      simp [hosted, host]
  | begin _ _ _ _ code later queued =>
      obtain rfl : pending = code :: later := by simpa [hosted, host] using queued
      have listeners : (world.stores loop.store).listeners = loop.bindings.map .binding := by
        rw [hosted]
        rfl
      have telling : loop.Owes (.deliver loop.store code (loop.bindings.map .binding)) _ :=
        .telling code loop.bindings
      rw [listeners]
      refine ⟨_, .dispatching state later ?_
        (.serving telling (.draining only)), ?_⟩
      · split <;> simp [hosted, host]
      · simp [rounds, roundsOf, fires, fired?, shown, ofRound]

theorem pays_asking (hosted : world.stores loop.store = loop.host state pending true)
    (only : script.OnlyFires loop.store) (below : loop.Stack rest due)
    (step : Machine.Step ⟨world, .body script :: rest, ended⟩ event next)
    (calm : next.panicked = none) : loop.Pays (due ++ loop.rounds pending) event next := by
  rcases step.of_onlyFires only calm with ⟨rfl, rfl⟩ | ⟨other, later, rfl, rfl, same, only⟩ |
    ⟨code, later, rfl, only, queued⟩
  · exact ⟨_, .dispatching state pending hosted below, by simp [fires, rounds, shown]⟩
  · exact ⟨_, .dispatching state pending (same ▸ hosted) (.serving (.asking only) below),
      by simp [fires, rounds, shown]⟩
  · rcases queued with ⟨_, rfl⟩ | ⟨idle, _⟩
    · refine ⟨_, .dispatching state (pending ++ [code]) ?_
        (.serving (.asking only) below), ?_⟩
      · simp [hosted, host, Store.enqueue]
      · simp [rounds, fires, fired?, shown, ofRound]
    · simp [hosted, host] at idle

theorem pays_serving (reactive : loop.Reactive)
    (hosted : world.stores loop.store = loop.host state pending true) {frame : Frame μ}
    {first : List (Event μ)} (owes : loop.Owes frame first) (below : loop.Stack rest due)
    (step : Machine.Step ⟨world, frame :: rest, ended⟩ event next)
    (calm : next.panicked = none) : loop.Pays (first ++ due ++ loop.rounds pending) event next := by
  cases owes with
  | asking only => exact pays_asking hosted only below step calm
  | applying binding code =>
      cases step with
      | note =>
          refine ⟨_, .dispatching state pending hosted (.serving (.publishing _) below), ?_⟩
          simp [rounds, fires, shown]
  | publishing published =>
      cases step with
      | set =>
          have observers : (world.stores loop.store).observers = loop.observers := by
            rw [hosted]
            rfl
          have finishing : loop.Owes (.body .done) [] := .asking trivial
          rw [observers]
          refine ⟨_, .dispatching published pending ?_
            (.serving (.showing published (List.Subset.refl _)) (.serving finishing below)), ?_⟩
          · simp [hosted, host]
          · simp [round, rounds, fires, fired?, shown, ofRound]
  | @showing waiting shown observing =>
      cases waiting with
      | nil =>
          cases step with
          | notified =>
              refine ⟨_, .dispatching state pending hosted below, ?_⟩
              simp [rounds, fires, Event.shown]
      | cons observer waiting =>
          cases step with
          | notify =>
              obtain ⟨observed, others⟩ := List.cons_subset.mp observing
              have only := reactive observer observed shown
              refine ⟨_, .dispatching state pending hosted
                (.serving (.asking only) (.serving (.showing shown others) below)), ?_⟩
              simp [rounds, fires, fired?, Event.shown, ofRound]
  | telling code waiting =>
      cases waiting with
      | nil =>
          cases step with
          | finish =>
              refine ⟨_, .dispatching state pending hosted below, ?_⟩
              simp [rounds, fires, fired?, shown, ofRound]
      | cons binding waiting =>
          cases step with
          | call =>
              refine ⟨_, .dispatching state pending hosted
                (.serving (.applying binding code) (.serving (.telling code waiting) below)), ?_⟩
              simp [rounds, fires, fired?, shown, ofRound]

theorem Owed.pays (reactive : loop.Reactive) {machine : Machine μ} (owed : loop.Owed machine due)
    (step : machine.Step event next) (calm : next.panicked = none) :
    loop.Pays due event next := by
  cases owed with
  | outside state hosted only => exact pays_outside hosted only step calm
  | dispatching state pending hosted stack =>
      cases stack with
      | draining only => exact pays_draining hosted only step
      | serving owes below => exact pays_serving reactive hosted owes below step calm
  | returned => cases step

theorem Owed.run (reactive : loop.Reactive) {machine last : Machine μ} {trace : List (Event μ)}
    (run : machine.Run trace last) (calm : last.panicked = none) (owed : loop.Owed machine due) :
    ∃ later, loop.Owed last later ∧
      due ++ loop.rounds (fires loop.store trace) = shown loop.store trace ++ later := by
  induction run generalizing due with
  | refl => exact ⟨due, owed, by simp [rounds, fires, shown]⟩
  | @step machine next last trace advanced run ih =>
      have step := Machine.step_of_step? advanced
      obtain ⟨between, owed, paid⟩ := owed.pays reactive step (run.calm_of_calm step calm)
      obtain ⟨later, owed, paidLater⟩ := ih calm owed
      refine ⟨later, owed, ?_⟩
      calc due ++ loop.rounds (fires loop.store (machine.event?.toList ++ trace))
          = due ++ loop.rounds (fires loop.store machine.event?.toList) ++
              loop.rounds (fires loop.store trace) := by simp [fires, rounds]
        _ = shown loop.store machine.event?.toList ++
              (between ++ loop.rounds (fires loop.store trace)) := by
            rw [paid, List.append_assoc]
        _ = shown loop.store (machine.event?.toList ++ trace) ++ later := by
            rw [paidLater]
            simp [shown]

/-- A call that only requests locales of the store shows the rounds of what was requested during
it, and nothing else. -/
theorem shown_of_returned (reactive : loop.Reactive)
    (hosted : world.stores loop.store = loop.host state [] false)
    (only : script.OnlyFires loop.store) {last : Machine μ} {trace : List (Event μ)}
    (run : (Machine.start world script).Run trace last) (calm : last.panicked = none)
    (returned : last.Ended) :
    shown loop.store trace = loop.rounds (fires loop.store trace) := by
  obtain ⟨later, owed, paid⟩ := Owed.run reactive run calm (.outside state hosted only)
  cases owed with
  | returned => simpa using paid.symm
  | outside => simp [Machine.Ended] at returned
  | dispatching _ _ _ stack =>
      cases stack with
      | draining => simp [Machine.Ended] at returned
      | serving => simp [Machine.Ended] at returned

theorem notifications_rounds (codes : List LocaleCode) :
    notifications loop.store (loop.rounds codes) =
      codes.flatMap fun code => loop.bindings.flatMap fun binding =>
        loop.observers.map fun observer => (observer, binding.state code) := by
  have round (state : State) : (loop.round state).filterMap (notified? loop.store) =
      loop.observers.map fun observer => (observer, state) := by
    rw [FlatLoop.round, List.filterMap_cons_none rfl, List.filterMap_map]
    simp [Function.comp_def, notified?]
  simp only [notifications, rounds, roundsOf, List.filterMap_flatMap, round]

theorem publications_rounds (codes : List LocaleCode) :
    publications loop.store (loop.rounds codes) =
      codes.flatMap fun code => loop.bindings.map fun binding => binding.state code := by
  have round (state : State) : (loop.round state).filterMap (published? loop.store) = [state] := by
    simp [FlatLoop.round, published?]
  simp only [publications, rounds, roundsOf, List.filterMap_flatMap, round, ← List.map_eq_flatMap]

theorem last_publication {codes : List LocaleCode} (requested : codes ≠ [])
    (bound : loop.bindings ≠ []) :
    (publications loop.store (loop.rounds codes)).getLast? =
      some ((loop.bindings.getLast bound).state (codes.getLast requested)) := by
  obtain ⟨earlier, last, rfl⟩ : ∃ earlier last, codes = earlier ++ [last] :=
    ⟨_, _, (List.dropLast_append_getLast requested).symm⟩
  simp [publications_rounds, List.getLast?_eq_some_getLast bound]

end FlatLoop

/-- A binding puts a store into the requested locale and in the hands of its own registry and
fallback. -/
theorem Binding.state_eq (binding : Binding) (code : LocaleCode) :
    binding.state code = ⟨some code, some ⟨binding.registry, code, binding.fallback⟩⟩ := rfl

/-- During a request from outside, the observers of a store are shown what a flat loop shows them:
for each request made meanwhile, in order, and each binding, every observer is called with the
requested locale and a translator over what is bound. The last request and the last binding decide
the state that remains. -/
theorem History.refines_flat_loop {blank : μ} {earlier : List (Event μ)} {machine : Machine μ}
    (history : History (World.initial blank) earlier machine) (ended : machine.Ended)
    (store : Nat) (bindings : List Binding) (bound : bindings ≠ [])
    (attached : (machine.world.stores store).listeners = bindings.map .binding)
    (reactive : ∀ observer ∈ (machine.world.stores store).observers, ∀ state,
      (observer state).OnlyFires store)
    (first : LocaleCode) (fuel : Nat) (after : World μ)
    (returned : machine.world.perform fuel (.fire store first .done) = .returned after) :
    let told := (Machine.start machine.world (.fire store first .done)).trace fuel
    ∃ later, fires store told = first :: later ∧
      (notifications store told =
        (first :: later).flatMap fun code => bindings.flatMap fun binding =>
          (machine.world.stores store).observers.map fun observer =>
            (observer, ⟨some code, some ⟨binding.registry, code, binding.fallback⟩⟩)) ∧
      let last := (first :: later).getLast (List.cons_ne_nil first later)
      let binding := bindings.getLast bound
      (after.stores store).state =
        ⟨some last, some ⟨binding.registry, last, binding.fallback⟩⟩ := by
  intro told
  obtain ⟨idle, empty⟩ := history.quiet_of_ended ended store
  let loop : FlatLoop μ := ⟨store, bindings, (machine.world.stores store).observers⟩
  have hosted : machine.world.stores store =
      loop.host (machine.world.stores store).state [] false := by
    rw [FlatLoop.host, ← attached, ← empty, ← idle]
  obtain ⟨finished, calm, rfl⟩ := (Machine.perform_eq_returned_iff _ _ _ _).mp returned
  have run := (Machine.start machine.world (.fire store first .done)).run_trace fuel
  have only : (Script.fire store first .done : Script μ).OnlyFires store := ⟨rfl, trivial⟩
  have shown : shown store told = loop.rounds (fires store told) :=
    loop.shown_of_returned reactive hosted only run calm finished
  obtain ⟨later, requested⟩ : ∃ later, fires store told = first :: later := by
    cases fuel with
    | zero => cases finished
    | succ fuel =>
        refine ⟨fires store
          ((Machine.stepScript machine.world [] (.fire store first .done)).trace fuel), ?_⟩
        simp [told, Machine.trace, Machine.start, Machine.step?, Machine.event?, fires, fired?]
  refine ⟨later, requested, ?_, ?_⟩
  · simp only [← Binding.state_eq]
    rw [← notifications_shown, shown, requested]
    exact loop.notifications_rounds (first :: later)
  · intro last binding
    rw [run.state_eq store, ← publications_shown, shown, requested,
      loop.last_publication (List.cons_ne_nil first later) bound, Option.getD_some,
      Binding.state_eq]

/-- An observer that counts its calls asks for another locale once. The bindings have messages of
their own, and the second one has a fallback. -/
theorem History.refines_flat_loop_two_bindings :
    let counting : Observer Nat := fun _ => .recall 0 fun seen =>
      .remember 0 (seen + 1) (if seen = 1 then .fire 0 ⟨"fr"⟩ .done else .done)
    let idle : Observer Nat := fun _ => .done
    let english : Registry := ⟨⟨[(⟨"en"⟩, ⟨[("a", .leaf "x")]⟩)]⟩⟩
    let german : Registry := ⟨⟨[(⟨"de"⟩, ⟨[("a", .leaf "y")]⟩)]⟩⟩
    let setup := .attach 0 ⟨english, none⟩
      (.attach 0 ⟨german, some ⟨"de"⟩⟩ (.subscribe 0 counting (.subscribe 0 idle .done)))
    let world := ((Machine.start (World.initial 0) setup).run 5).world
    let call := Machine.start world (.fire 0 ⟨"en"⟩ .done)
    (∃ after, world.perform 100 (.fire 0 ⟨"en"⟩ .done) = .returned after ∧
      (after.stores 0).state = ⟨some ⟨"fr"⟩, some ⟨german, ⟨"fr"⟩, some ⟨"de"⟩⟩⟩) ∧
    fires 0 (call.trace 100) = [⟨"en"⟩, ⟨"fr"⟩] ∧
    notifications 0 (call.trace 100) =
      [(counting, ⟨some ⟨"en"⟩, some ⟨english, ⟨"en"⟩, none⟩⟩),
        (idle, ⟨some ⟨"en"⟩, some ⟨english, ⟨"en"⟩, none⟩⟩),
        (counting, ⟨some ⟨"en"⟩, some ⟨german, ⟨"en"⟩, some ⟨"de"⟩⟩⟩),
        (idle, ⟨some ⟨"en"⟩, some ⟨german, ⟨"en"⟩, some ⟨"de"⟩⟩⟩),
        (counting, ⟨some ⟨"fr"⟩, some ⟨english, ⟨"fr"⟩, none⟩⟩),
        (idle, ⟨some ⟨"fr"⟩, some ⟨english, ⟨"fr"⟩, none⟩⟩),
        (counting, ⟨some ⟨"fr"⟩, some ⟨german, ⟨"fr"⟩, some ⟨"de"⟩⟩⟩),
        (idle, ⟨some ⟨"fr"⟩, some ⟨german, ⟨"fr"⟩, some ⟨"de"⟩⟩⟩)] := by
  intro counting idle english german setup world call
  have history := (History.start.call setup rfl).append
    ((Machine.start (World.initial 0) setup).run_trace 5)
  obtain ⟨requested, emptied, calm⟩ : fires 0 (call.trace 100) = [⟨"en"⟩, ⟨"fr"⟩] ∧
      (call.run 100).frames.isEmpty = true ∧ (call.run 100).panicked = none := by
    simp only [call, world, setup, counting, idle, english, german]
    decide +kernel
  have returned : world.perform 100 (.fire 0 ⟨"en"⟩ .done) = .returned (call.run 100).world :=
    (Machine.perform_eq_returned_iff _ _ _ _).mpr ⟨List.isEmpty_iff.mp emptied, calm, rfl⟩
  have reactive : ∀ observer ∈ (world.stores 0).observers, ∀ state,
      (observer state).OnlyFires 0 := by
    have observers : (world.stores 0).observers = [counting, idle] := by rfl
    rw [observers]
    simp only [List.mem_cons, List.not_mem_nil, or_false, forall_eq_or_imp, forall_eq]
    refine ⟨fun state seen => ?_, fun state => trivial⟩
    by_cases second : seen = 1 <;> simp [Script.OnlyFires, second]
  obtain ⟨later, codes, notified, state⟩ :=
    history.refines_flat_loop rfl 0 [⟨english, none⟩, ⟨german, some ⟨"de"⟩⟩] (by simp) rfl
      reactive ⟨"en"⟩ 100 _ returned
  obtain rfl : [⟨"fr"⟩] = later := by
    rw [requested] at codes
    exact (List.cons.inj codes).2
  exact ⟨⟨_, returned, state⟩, requested, notified⟩

end MessageCatalog

import MessageCatalog.Proofs.Store.Coherence

/-!
Requests that nobody disturbs. As long as no callback requests a locale, sets a state of its own or
panics, a request is dispatched to all listeners of the store and comes back; when a binding listens
last, its state is the one the store is left in.
-/

namespace MessageCatalog

variable {μ : Type}

namespace Event

/-- After the first event nothing is requested; nothing panics, and what is published is published
by the listeners of bindings. -/
structure Undisturbed (trace : List (Event μ)) : Prop where
  unrequested : ∀ store code, .fired store code ∉ trace.tail
  unharmed : ∀ message, .panicked message ∉ trace
  onlyBindings : ∀ store, OnlyBindingsPublish store trace

theorem Undisturbed.of_beginning {first whole : List (Event μ)} (undisturbed : Undisturbed whole)
    (begun : first <+: whole) : Undisturbed first := by
  obtain ⟨rest, rfl⟩ := begun
  refine ⟨fun store code member => undisturbed.unrequested store code ?_, fun message member => ?_,
    fun store => (undisturbed.onlyBindings store).of_append⟩
  · cases first with
    | nil => cases member
    | cons told first => exact List.mem_append_left rest member
  · exact undisturbed.unharmed message (List.mem_append_left rest member)

/-- Nothing is requested or ends in a panic, and only the listener of a binding publishes. -/
def Linked (before : Event μ) : Event μ → Bool
  | fired _ _ => false
  | panicked _ => false
  | published store _ => before.callsBinding store
  | _ => true

theorem exists_linked {first : Event μ} {rest : List (Event μ)}
    (linked : (first :: rest).IsChain fun before told => before.Linked told = true) :
    ∀ told ∈ rest, ∃ before : Event μ, before.Linked told = true := by
  induction rest generalizing first with
  | nil => exact List.forall_mem_nil _
  | cons second rest ih =>
      obtain ⟨here, later⟩ := List.isChain_cons_cons.mp linked
      exact List.forall_mem_cons.mpr ⟨⟨first, here⟩, ih later⟩

theorem undisturbed_of_isChain {store : Nat} {code : LocaleCode} {during : List (Event μ)}
    (linked : (.fired store code :: during).IsChain fun before told => before.Linked told = true) :
    Undisturbed (.fired store code :: during) := by
  have follows := exists_linked linked
  refine ⟨fun other later member => ?_, fun message member => ?_, fun other => ?_⟩
  · obtain ⟨before, linked⟩ := follows _ member
    cases linked
  · obtain ⟨before, linked⟩ := follows _ ((List.mem_cons.mp member).resolve_left (by simp))
    cases linked
  · refine onlyBindingsPublish_of_isChain (by simp [published?]) (linked.imp ?_)
    intro before told linked
    cases told with
    | published shower state =>
        by_cases same : shower = other
        · subst same
          exact Or.inl linked
        · exact Or.inr (by simp [published?, same])
    | _ => exact Or.inr rfl

theorem Undisturbed.fires_eq {store : Nat} {code : LocaleCode} {during : List (Event μ)}
    (undisturbed : Undisturbed (.fired store code :: during)) (other : Nat) :
    fires other (.fired store code :: during) = if store = other then [code] else [] := by
  have silent : fires other during = [] := by
    refine List.filterMap_eq_nil_iff.mpr fun told member => ?_
    cases told with
    | fired requested later => exact absurd member (undisturbed.unrequested requested later)
    | _ => rfl
  rw [fires] at silent ⊢
  by_cases same : store = other <;> simp [fired?, silent, same]

end Event

open Event

/-- The store has the same state and the same requests wait. -/
def World.Keeps (store : Nat) (world after : World μ) : Prop :=
  after.state store = world.state store ∧
    (after.stores store).pending = (world.stores store).pending

theorem World.Keeps.trans {store : Nat} {first second third : World μ}
    (before : first.Keeps store second) (after : second.Keeps store third) :
    first.Keeps store third :=
  ⟨after.1.trans before.1, after.2.trans before.2⟩

theorem World.Keeps.refl {store : Nat} (world : World μ) : world.Keeps store world := ⟨rfl, rfl⟩

theorem World.keeps_addListener {store : Nat} (world : World μ) (other : Nat)
    (listener : Listener μ) :
    world.Keeps store (world.update other fun old => old.addListener listener) := by
  by_cases same : store = other <;> simp [Keeps, World.state, Store.addListener, same]

theorem World.keeps_addObserver {store : Nat} (world : World μ) (other : Nat)
    (observer : Observer μ) :
    world.Keeps store (world.update other fun old => old.addObserver observer) := by
  by_cases same : store = other <;> simp [Keeps, World.state, Store.addObserver, same]

/-- The request is queued, and its dispatch is about to begin. -/
def World.wake (world : World μ) (store : Nat) (code : LocaleCode) : World μ :=
  (world.update store fun old => old.enqueue code).update store fun old =>
    { old with dispatching := true }

namespace Machine

theorem Within.of_step {depth : Nat} {machine next last : Machine μ} {event : Option (Event μ)}
    {trace : List (Event μ)} (step : machine.Step event next)
    (under : depth < machine.frames.length) (within : Within depth next trace last) :
    Within depth machine (event.toList ++ trace) last := by
  obtain ⟨moved, told⟩ := step.step?_eq
  rw [← told]
  exact .step under moved within

theorem Within.trans {depth : Nat} {machine middle last : Machine μ} {first second : List (Event μ)}
    (before : Within depth machine first middle) (after : Within depth middle second last) :
    Within depth machine (first ++ second) last := by
  induction before with
  | refl => exact after
  | step under moved _ ih =>
      rw [List.append_assoc]
      exact .step under moved (ih after)

/-- Whatever is told while more than `depth` activities are under way continues a trace that is
undisturbed, and the listener of a binding has not just been called. -/
def Calm (depth : Nat) (machine : Machine μ) : Prop :=
  ∃ earlier told, (∀ store, told.callsBinding store = false) ∧
    ∀ during last, machine.Within depth during last → Undisturbed (earlier ++ told :: during)

/-- The machine comes to have these frames and no others, undisturbed, and keeps the store. -/
def ComesBack (depth store : Nat) (machine : Machine μ) (frames : List (Frame μ)) : Prop :=
  ∃ trace after, machine.Within depth trace ⟨after, frames, none⟩ ∧
    Calm depth ⟨after, frames, none⟩ ∧ machine.world.Keeps store after

section Calm

variable {depth store : Nat} {machine next : Machine μ} {event : Option (Event μ)}

theorem Calm.undisturbed (calm : machine.Calm depth) (step : machine.Step event next)
    (under : depth < machine.frames.length) :
    ∃ earlier told, (∀ store, told.callsBinding store = false) ∧
      Undisturbed (earlier ++ told :: event.toList) := by
  obtain ⟨earlier, told, plain, undisturbed⟩ := calm
  refine ⟨earlier, told, plain, ?_⟩
  simpa using undisturbed _ next (.of_step step under (.refl next))

theorem Calm.step (calm : machine.Calm depth) (step : machine.Step event next)
    (under : depth < machine.frames.length)
    (harmless : ∀ told ∈ event, ∀ store, told.callsBinding store = false) : next.Calm depth := by
  obtain ⟨earlier, told, plain, undisturbed⟩ := calm
  cases event with
  | none =>
      refine ⟨earlier, told, plain, fun during last within => ?_⟩
      exact undisturbed _ last (.of_step step under within)
  | some later =>
      refine ⟨earlier ++ [told], later, harmless later rfl, fun during last within => ?_⟩
      simpa using undisturbed _ last (.of_step step under within)

theorem Calm.not_fired {code : LocaleCode} (calm : machine.Calm depth)
    (step : machine.Step (some (.fired store code)) next) (under : depth < machine.frames.length) :
    False := by
  obtain ⟨earlier, told, -, undisturbed⟩ := calm.undisturbed step under
  refine undisturbed.unrequested store code ?_
  cases earlier <;> simp

theorem Calm.not_panicked {message : String} (calm : machine.Calm depth)
    (step : machine.Step (some (.panicked message)) next) (under : depth < machine.frames.length) :
    False := by
  obtain ⟨earlier, told, -, undisturbed⟩ := calm.undisturbed step under
  exact undisturbed.unharmed message (by simp)

theorem Calm.not_published {state : State} (calm : machine.Calm depth)
    (step : machine.Step (some (.published store state)) next)
    (under : depth < machine.frames.length) : False := by
  obtain ⟨earlier, told, plain, undisturbed⟩ := calm.undisturbed step under
  obtain ⟨others, code, binding, split⟩ :=
    undisturbed.onlyBindings store (earlier ++ [told]) state [] (by simp)
  obtain ⟨-, same⟩ := List.append_inj' split rfl
  obtain rfl := (List.cons.inj same).1
  simp [callsBinding] at plain

theorem ComesBack.of_step {frames : List (Frame μ)} (step : machine.Step event next)
    (under : depth < machine.frames.length) (keeps : machine.world.Keeps store next.world)
    (onward : next.ComesBack depth store frames) : machine.ComesBack depth store frames := by
  obtain ⟨trace, after, within, calm, kept⟩ := onward
  exact ⟨_, after, .of_step step under within, calm, keeps.trans kept⟩

theorem ComesBack.trans {middle frames : List (Frame μ)}
    (first : machine.ComesBack depth store middle)
    (onward : ∀ after, Calm depth ⟨after, middle, none⟩ →
      ComesBack depth store ⟨after, middle, none⟩ frames) :
    machine.ComesBack depth store frames := by
  obtain ⟨before, between, within, calm, kept⟩ := first
  obtain ⟨later, after, onward, calmAfter, keptAfter⟩ := onward between calm
  exact ⟨before ++ later, after, within.trans onward, calmAfter, kept.trans keptAfter⟩

theorem ComesBack.of_last {frames : List (Frame μ)} {after : World μ} (calm : machine.Calm depth)
    (step : machine.Step event ⟨after, frames, none⟩) (under : depth < machine.frames.length)
    (harmless : ∀ told ∈ event, ∀ store, told.callsBinding store = false)
    (keeps : machine.world.Keeps store after) : machine.ComesBack depth store frames :=
  .of_step step under keeps
    ⟨[], after, .refl _, calm.step step under harmless, World.Keeps.refl after⟩

end Calm

variable {depth : Nat} {world : World μ} {rest : List (Frame μ)} {ended : Option String}

/-- A callback that disturbs nothing ends, whatever it does otherwise. -/
theorem Calm.body {script : Script μ}
    (calm : Calm depth ⟨world, .body script :: rest, ended⟩) (deep : depth ≤ rest.length)
    (store : Nat) : ComesBack depth store ⟨world, .body script :: rest, ended⟩ rest := by
  have under : depth < rest.length + 1 := Nat.lt_succ_of_le deep
  induction script generalizing world ended with
  | done => exact .of_last calm (.done ..) under nofun (.refl world)
  | panic => exact (calm.not_panicked (.panic ..) under).elim
  | set => exact (calm.not_published (.set ..) under).elim
  | fire other code script =>
      cases active : (world.stores other).dispatching with
      | true => exact (calm.not_fired (.queue _ _ _ _ _ _ active) under).elim
      | false => exact (calm.not_fired (.wake _ _ _ _ _ _ active) under).elim
  | note notice script ih =>
      exact .of_step (.note ..) under ⟨rfl, rfl⟩ (ih (calm.step (.note ..) under nofun))
  | «recall» notebook script ih =>
      exact .of_step (.consult ..) under ⟨rfl, rfl⟩ (ih _ (calm.step (.consult ..) under nofun))
  | remember notebook content script ih =>
      exact .of_step (.remember ..) under ⟨rfl, rfl⟩ (ih (calm.step (.remember ..) under nofun))
  | get other script ih =>
      exact .of_step (.get ..) under ⟨rfl, rfl⟩ (ih _ (calm.step (.get ..) under nofun))
  | onLocale other react script _ ih =>
      exact .of_step (.onLocale ..) under (world.keeps_addListener other _)
        (ih (calm.step (.onLocale ..) under (by simp [callsBinding])))
  | attach other binding script ih =>
      exact .of_step (.attach ..) under (world.keeps_addListener other _)
        (ih (calm.step (.attach ..) under (by simp [callsBinding])))
  | subscribe other react script _ ih =>
      exact .of_step (.subscribe ..) under (world.keeps_addObserver other _)
        (ih (calm.step (.subscribe ..) under (by simp [callsBinding])))

/-- A round in which nobody disturbs anything ends. -/
theorem Calm.round {shower : Nat} {state : State} {waiting : List (Observer μ)}
    (calm : Calm depth ⟨world, .notify shower state waiting :: rest, ended⟩)
    (deep : depth ≤ rest.length) (store : Nat) :
    ComesBack depth store ⟨world, .notify shower state waiting :: rest, ended⟩ rest := by
  have under : depth < rest.length + 1 := Nat.lt_succ_of_le deep
  induction waiting generalizing world ended with
  | nil => exact .of_last calm (.notified ..) under nofun (.refl world)
  | cons observer waiting ih =>
      have called := calm.step (.notify ..) under (by simp [callsBinding])
      refine .of_step (.notify ..) under (.refl world) ?_
      exact (called.body (Nat.le_succ_of_le deep) store).trans fun after calmAfter => ih calmAfter

section Listeners

variable {store : Nat} {code : LocaleCode} {binding : Binding} {waiting : List (Listener μ)}

theorem Within.to_round (under : depth < rest.length + 1) :
    Within depth ⟨world, .deliver store code (.binding binding :: waiting) :: rest, ended⟩
      [.called store code (.binding binding), .published store (binding.state code)]
      ⟨(world.report [.applying code]).update store fun old =>
          { old with state := binding.state code },
        .notify store (binding.state code) (world.stores store).observers :: .body .done ::
          .deliver store code waiting :: rest, none⟩ := by
  have deeper : depth < rest.length + 2 := Nat.lt_succ_of_lt under
  refine .of_step (.call ..) under ?_
  exact .of_step (.note ..) deeper (.of_step (.set ..) deeper (.refl _))

/-- The listener of a binding publishes the state of that binding, and comes back after the
round. -/
theorem Calm.call_binding
    (calm : Calm depth ⟨world, .deliver store code (.binding binding :: waiting) :: rest, ended⟩)
    (deep : depth ≤ rest.length) :
    ∃ trace after,
      Within depth ⟨world, .deliver store code (.binding binding :: waiting) :: rest, ended⟩ trace
        ⟨after, .deliver store code waiting :: rest, none⟩ ∧
      Calm depth ⟨after, .deliver store code waiting :: rest, none⟩ ∧
      (after.stores store).pending = (world.stores store).pending ∧
      after.state store = binding.state code := by
  have under : depth < rest.length + 1 := Nat.lt_succ_of_le deep
  obtain ⟨earlier, told, -, undisturbed⟩ := calm
  have calmRound : Calm depth ⟨(world.report [.applying code]).update store fun old =>
        { old with state := binding.state code },
      .notify store (binding.state code) (world.stores store).observers :: .body .done ::
        .deliver store code waiting :: rest, none⟩ := by
    refine ⟨earlier ++ [told, .called store code (.binding binding)],
      .published store (binding.state code), fun _ => rfl, fun during last within => ?_⟩
    simpa using undisturbed _ last ((Within.to_round under).trans within)
  have deeper : depth ≤ (Frame.body .done :: .deliver store code waiting :: rest).length := by
    simp only [List.length_cons]
    omega
  obtain ⟨trace, after, within, calmAfter, state, pending⟩ :=
    (calmRound.round deeper store).trans fun between calmBetween =>
      calmBetween.body (Nat.le_of_lt under) store
  refine ⟨_, after, (Within.to_round under).trans within, calmAfter, pending.trans ?_,
    state.trans ?_⟩
  · simp [World.report]
  · simp [World.state]

theorem Calm.call {listener : Listener μ}
    (calm : Calm depth ⟨world, .deliver store code (listener :: waiting) :: rest, ended⟩)
    (deep : depth ≤ rest.length) :
    ∃ trace after,
      Within depth ⟨world, .deliver store code (listener :: waiting) :: rest, ended⟩ trace
        ⟨after, .deliver store code waiting :: rest, none⟩ ∧
      Calm depth ⟨after, .deliver store code waiting :: rest, none⟩ ∧
      (after.stores store).pending = (world.stores store).pending := by
  cases listener with
  | binding binding =>
      obtain ⟨trace, after, within, calmAfter, pending, _⟩ := calm.call_binding deep
      exact ⟨trace, after, within, calmAfter, pending⟩
  | custom react =>
      have under : depth < rest.length + 1 := Nat.lt_succ_of_le deep
      have called := calm.step (.call ..) under (by simp [callsBinding])
      obtain ⟨trace, after, within, calmAfter, _, pending⟩ :=
        called.body (Nat.le_succ_of_le deep) store
      exact ⟨_, after, .of_step (.call ..) under within, calmAfter, pending⟩

/-- All listeners but the last few are called, one after another. -/
theorem Calm.deliver {later : List (Listener μ)}
    (calm : Calm depth ⟨world, .deliver store code (waiting ++ later) :: rest, none⟩)
    (deep : depth ≤ rest.length) :
    ∃ trace after,
      Within depth ⟨world, .deliver store code (waiting ++ later) :: rest, none⟩ trace
        ⟨after, .deliver store code later :: rest, none⟩ ∧
      Calm depth ⟨after, .deliver store code later :: rest, none⟩ ∧
      (after.stores store).pending = (world.stores store).pending := by
  induction waiting generalizing world with
  | nil => exact ⟨[], world, .refl _, calm, rfl⟩
  | cons listener waiting ih =>
      obtain ⟨first, between, within, calmBetween, pending⟩ := calm.call deep
      obtain ⟨others, after, onward, calmAfter, kept⟩ := ih calmBetween
      exact ⟨first ++ others, after, within.trans onward, calmAfter, kept.trans pending⟩

end Listeners

/-- The dispatch of a request ends and leaves the store in the state of the binding that listens
last. -/
theorem Calm.drain {store : Nat} {code : LocaleCode} {binding : Binding}
    {front : List (Listener μ)}
    (calm : Calm depth ⟨world, .drain store :: rest, none⟩) (deep : depth ≤ rest.length)
    (queued : (world.stores store).pending = [code])
    (last : (world.stores store).listeners = front ++ [.binding binding]) :
    ∃ trace after, Within depth ⟨world, .drain store :: rest, none⟩ trace ⟨after, rest, none⟩ ∧
      after.state store = binding.state code := by
  have under : depth < rest.length + 1 := Nat.lt_succ_of_le deep
  have deeper : depth < rest.length + 2 := Nat.lt_succ_of_lt under
  have begin := Step.begin world rest none store code [] queued
  have begun := calm.step begin under (by simp [callsBinding])
  rw [last] at begin begun
  obtain ⟨others, between, toLast, calmLast, waiting⟩ := begun.deliver (Nat.le_of_lt under)
  obtain ⟨lastly, after, toEnd, calmEnd, still, state⟩ := calmLast.call_binding (Nat.le_of_lt under)
  have empty : (after.stores store).pending = [] := by
    rw [still, waiting]
    split <;> simp [World.report]
  refine ⟨_, _, .of_step begin under (toLast.trans (toEnd.trans
    (.of_step (.finish ..) deeper (.of_step (.sleep _ _ _ _ empty) under (.refl _))))), ?_⟩
  simpa [World.state] using state

/-- What is told from the operation on that is carried out next, until it comes back or before. -/
def Performing (machine : Machine μ) (trace : List (Event μ)) : Prop :=
  ∃ next during last, machine.step? = some next ∧
    Within machine.frames.length next during last ∧ trace = machine.event?.toList ++ during

/-- A request that nobody disturbs comes back and leaves the store in the state of the binding that
listens last, whatever bindings listen before it. -/
theorem returns_of_undisturbed {store : Nat} {code : LocaleCode} {binding : Binding}
    {front : List (Listener μ)} {next : Script μ}
    (idle : (world.stores store).dispatching = false) (empty : (world.stores store).pending = [])
    (last : (world.stores store).listeners = front ++ [.binding binding])
    (undisturbed : ∀ trace,
      Performing ⟨world, .body (.fire store code next) :: rest, ended⟩ trace → Undisturbed trace) :
    ∃ trace after, Returns ⟨world, .body (.fire store code next) :: rest, ended⟩ trace
        ⟨after, .body next :: rest, none⟩ ∧
      after.state store = binding.state code ∧
      ∀ other, fires other trace = if store = other then [code] else [] := by
  obtain ⟨moved, told⟩ := (Step.wake world rest ended store code next idle).step?_eq
  have calm : Calm (rest.length + 1)
      ⟨world.wake store code, .drain store :: .body next :: rest, none⟩ := by
    refine ⟨[], .fired store code, fun _ => rfl, fun during last within => ?_⟩
    exact undisturbed _ ⟨_, during, last, moved, within, by rw [told]; rfl⟩
  have queued : ((world.wake store code).stores store).pending = [code] := by
    simp [World.wake, Store.enqueue, empty]
  have listening : ((world.wake store code).stores store).listeners =
      front ++ [.binding binding] := by
    simpa [World.wake, Store.enqueue] using last
  obtain ⟨during, after, within, state⟩ := calm.drain (Nat.le_refl _) queued listening
  refine ⟨_, after, ⟨_, during, moved, within, rfl, rfl⟩, state, fun other => ?_⟩
  have whole := undisturbed _ ⟨_, during, _, moved, within, rfl⟩
  rw [told] at whole ⊢
  exact whole.fires_eq other

end Machine

end MessageCatalog

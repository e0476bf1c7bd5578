import Mathlib.Data.List.Chain
import MessageCatalog.Binding
import MessageCatalog.Proofs.Store.Nested
import MessageCatalog.Proofs.Store.Publication
import MessageCatalog.Proofs.Store.Sources

/-!
Coherent states. As long as a store is set by its bindings alone, its locale and its translator
belong together: both are missing until a binding is first called, and from then on they are those
of a requested locale and an attached binding. Observers are never shown a state that is out of
date.
-/

namespace MessageCatalog

variable {μ : Type}

namespace Event

/-- Each state of the store is published by the listener of a binding, called just before. -/
def OnlyBindingsPublish (store : Nat) (trace : List (Event μ)) : Prop :=
  ∀ before state after, trace = before ++ .published store state :: after →
    ∃ earlier code binding, before = earlier ++ [.called store code (.binding binding)]

def callsBinding (store : Nat) : Event μ → Bool
  | called other _ (.binding _) => other == store
  | _ => false

theorem callsBinding_iff {store : Nat} {told : Event μ} :
    told.callsBinding store = true ↔
      ∃ code binding, told = .called store code (.binding binding) := by
  cases told with
  | called other code listener =>
      cases listener <;> simp [callsBinding]
  | _ => simp [callsBinding]

theorem OnlyBindingsPublish.of_append {store : Nat} {first second : List (Event μ)}
    (published : OnlyBindingsPublish store (first ++ second)) :
    OnlyBindingsPublish store first := by
  rintro before state after rfl
  exact published before state (after ++ second) (by simp)

theorem onlyBindingsPublish_of_isChain {store : Nat} {trace : List (Event μ)}
    (silent : ∀ first ∈ trace.head?, first.published? store = none)
    (linked : trace.IsChain fun first second =>
      first.callsBinding store = true ∨ second.published? store = none) :
    OnlyBindingsPublish store trace := by
  rintro before state after rfl
  rcases List.eq_nil_or_concat before with rfl | ⟨earlier, last, rfl⟩
  · simp [published?] at silent
  · rw [List.concat_eq_append, List.append_assoc, List.singleton_append,
      List.isChain_append_cons_cons] at linked
    obtain ⟨code, binding, rfl⟩ :=
      callsBinding_iff.mp (linked.2.1.resolve_right (by simp [published?]))
    exact ⟨earlier, code, binding, List.concat_eq_append⟩

end Event

open Event

namespace Frame

/-- Each round of a store that is under way shows this state, within a delivery of the store. -/
def Showing (store : Nat) (state : State) : List (Frame μ) → Prop
  | [] => True
  | .notify other shown _ :: rest =>
    (other = store → shown = state ∧
      ∃ code waiting, .delivering code waiting ∈ activities store rest) ∧
    Showing store state rest
  | _ :: rest => Showing store state rest

theorem Showing.of_quiet {store : Nat} {old : State} (state : State) {frames : List (Frame μ)}
    (showing : Showing store old frames)
    (quiet : ∀ code waiting, .delivering code waiting ∉ activities store frames) :
    Showing store state frames := by
  induction frames with
  | nil => trivial
  | cons frame rest ih =>
      have quietRest : ∀ code waiting, .delivering code waiting ∉ activities store rest := by
        intro code waiting member
        refine quiet code waiting ?_
        simp only [activities, List.filterMap_cons] at member ⊢
        split
        · exact member
        · exact List.mem_cons_of_mem _ member
      cases frame with
      | notify other shown waiting =>
          refine ⟨fun same => ?_, ih showing.2 quietRest⟩
          obtain ⟨_, code, still, member⟩ := showing.1 same
          exact absurd member (quietRest code still)
      | _ => exact ih showing quietRest

end Frame

namespace Machine

/-- The listener of a binding is under way and has not published its state yet. -/
def Applying (machine : Machine μ) (store : Nat) (code : LocaleCode) (binding : Binding) : Prop :=
  ∃ waiting rest,
    machine.frames = .body (binding.script store code) :: .deliver store code waiting :: rest ∨
    machine.frames =
      .body (.set store (binding.state code) .done) :: .deliver store code waiting :: rest

theorem Applying.publishes {machine : Machine μ} {store : Nat} {code : LocaleCode}
    {binding : Binding} (applying : machine.Applying store code binding) {told : Event μ}
    (event : machine.event? = some told) :
    told = .published store (binding.state code) ∧ ∃ waiting rest, machine.frames =
      .body (.set store (binding.state code) .done) :: .deliver store code waiting :: rest := by
  obtain ⟨waiting, rest, noting | setting⟩ := applying
  · simp [event?, noting, Binding.script] at event
  · refine ⟨?_, waiting, rest, setting⟩
    simpa [event?, setting] using event.symm

theorem Step.applying {machine next : Machine μ} {event : Option (Event μ)}
    (step : machine.Step event next) {store : Nat} {code : LocaleCode} {binding : Binding}
    (event_eq : event = some (.called store code (.binding binding)) ∨
      event = none ∧ machine.Applying store code binding) :
    next.Applying store code binding := by
  rcases event_eq with rfl | ⟨rfl, waiting, rest, noting | setting⟩
  · cases step with
    | call world rest _ _ _ _ waiting => exact ⟨waiting, rest, Or.inl rfl⟩
  · obtain ⟨world, frames, ended⟩ := machine
    subst noting
    cases step with
    | note => exact ⟨waiting, rest, Or.inr rfl⟩
  · obtain ⟨world, frames, ended⟩ := machine
    subst setting
    cases step

theorem Step.showing {machine next : Machine μ} {event : Option (Event μ)}
    (step : machine.Step event next) {store : Nat} {state : State}
    (unpublished : ∀ published, event ≠ some (.published store published))
    (showing : Frame.Showing store state machine.frames) :
    Frame.Showing store state next.frames := by
  cases step with
  | panic => trivial
  | set world rest ended other published script =>
      refine ⟨fun same => ?_, showing⟩
      subst same
      exact absurd rfl (unpublished published)
  | notified => exact showing.2
  | _ => exact showing

theorem Step.showing_of_set {machine next : Machine μ} {event : Option (Event μ)}
    (step : machine.Step event next) {store : Nat} {state : State} {code : LocaleCode}
    {waiting : List (Listener μ)} {rest : List (Frame μ)}
    (setting : machine.frames =
      .body (.set store state .done) :: .deliver store code waiting :: rest)
    (sound : (machine.dispatcher store).Sound)
    (showing : Frame.Showing store (machine.world.state store) machine.frames) :
    Frame.Showing store (next.world.state store) next.frames := by
  obtain ⟨world, frames, ended⟩ := machine
  subst setting
  -- A store delivers one request at a time, so no older round of it is under way below.
  have quiet : ∀ other still, .delivering other still ∉ Frame.activities store rest := by
    have delivering : Frame.activities store (.deliver store code waiting :: rest) =
        .delivering code waiting :: Frame.activities store rest :=
      Frame.activities_deliver rest code waiting
    simp [sound.alone delivering]
  cases step with
  | set =>
      have published : (world.update store fun old => { old with state := state }).state store =
          state := by simp [World.state]
      rw [published]
      have below : Frame.Showing store (world.state store) rest := showing
      exact ⟨fun _ => ⟨rfl, code, waiting, by simp⟩, below.of_quiet state quiet⟩

end Machine

namespace History

variable {blank : μ} {trace : List (Event μ)} {machine : Machine μ}

/-- After the call of a binding nothing happens before it has published its state. -/
theorem applying {origin : World μ} (history : History origin trace machine)
    {earlier : List (Event μ)} {store : Nat} {code : LocaleCode} {binding : Binding}
    (called : trace = earlier ++ [.called store code (.binding binding)]) :
    machine.Applying store code binding := by
  induction history with
  | start => simp at called
  | call script _ ended ih =>
      obtain ⟨_, _, underWay⟩ := ih called
      simp [show _ = [] from ended] at underWay
  | @step trace machine next _ advanced ih =>
      refine (Machine.step_of_step? advanced).applying ?_
      cases event : machine.event? with
      | none =>
          rw [event, Option.toList_none, List.append_nil] at called
          exact Or.inr ⟨rfl, ih called⟩
      | some told =>
          rw [event, Option.toList_some] at called
          obtain ⟨-, same⟩ := List.append_inj' called rfl
          exact Or.inl (congrArg some (List.cons.inj same).1)

theorem published_by_binding {origin : World μ} (history : History origin trace machine)
    {store : Nat} (onlyBindings : OnlyBindingsPublish store trace) {state : State}
    (member : state ∈ publications store trace) :
    ∃ earlier code binding later, state = binding.state code ∧
      trace = earlier ++ .called store code (.binding binding) ::
        .published store state :: later := by
  obtain ⟨before, after, split⟩ := List.append_of_mem (mem_publications.mp member)
  obtain ⟨earlier, code, binding, rfl⟩ := onlyBindings before state after split
  obtain ⟨publishing, atPublication, event⟩ := history.at_event split
  obtain ⟨same, _⟩ := (atPublication.applying rfl).publishes event
  refine ⟨earlier, code, binding, after, (Event.published.inj same).2, ?_⟩
  rw [split, List.append_assoc, List.singleton_append]

theorem published_after_call {origin : World μ} (history : History origin trace machine)
    {store : Nat} {before after : List (Event μ)} {code : LocaleCode} {binding : Binding}
    (split : trace = before ++ .called store code (.binding binding) :: after)
    (later : after ≠ []) : publications store trace ≠ [] := by
  obtain ⟨told, others, rfl⟩ := List.exists_cons_of_ne_nil later
  have next : trace = (before ++ [.called store code (.binding binding)]) ++ told :: others := by
    simpa using split
  obtain ⟨publishing, atNext, event⟩ := history.at_event next
  obtain ⟨rfl, _⟩ := (atNext.applying rfl).publishes event
  have told : .published store (binding.state code) ∈ trace := by simp [split]
  exact List.ne_nil_of_mem (mem_publications.mpr told)

theorem showing (history : History (World.initial blank) trace machine) {store : Nat}
    (onlyBindings : OnlyBindingsPublish store trace) :
    Frame.Showing store (machine.world.state store) machine.frames := by
  induction history with
  | start => trivial
  | call => trivial
  | @step trace machine next history advanced ih =>
      have step := Machine.step_of_step? advanced
      have before := ih onlyBindings.of_append
      by_cases publishes : ∃ published, machine.event? = some (.published store published)
      · obtain ⟨published, event⟩ := publishes
        rw [event, Option.toList_some] at onlyBindings
        obtain ⟨earlier, code, binding, called⟩ := onlyBindings trace published [] rfl
        obtain ⟨_, waiting, rest, setting⟩ := (history.applying called).publishes event
        exact step.showing_of_set setting (history.sound store) before
      · have unpublished := not_exists.mp publishes
        rw [step.state_of_unpublished unpublished]
        exact step.showing unpublished before

theorem shown_is_current (history : History (World.initial blank) trace machine) {store : Nat}
    (onlyBindings : OnlyBindingsPublish store trace) {shown : State} {observer : Observer μ}
    (event : machine.event? = some (.notified store shown observer)) :
    shown = machine.world.state store := by
  have showing := history.showing onlyBindings
  obtain ⟨waiting, rest, notifying⟩ := Machine.frames_of_notified event
  rw [notifying] at showing
  exact (showing.1 rfl).1

theorem state_cases (history : History (World.initial blank) trace machine) {store : Nat}
    (onlyBindings : OnlyBindingsPublish store trace) :
    publications store trace = [] ∧ machine.world.state store = State.initial ∨
      ∃ earlier code binding later, machine.world.state store = binding.state code ∧
        trace = earlier ++ .called store code (.binding binding) ::
          .published store (binding.state code) :: later := by
  rw [history.state_eq store]
  rcases List.eq_nil_or_concat (publications store trace) with none | ⟨others, last, published⟩
  · exact Or.inl ⟨none, by rw [none]; rfl⟩
  · have member : last ∈ publications store trace := by simp [published]
    obtain ⟨earlier, code, binding, later, rfl, split⟩ :=
      history.published_by_binding onlyBindings member
    exact Or.inr ⟨earlier, code, binding, later, by simp [published], split⟩

theorem state_initial_iff (history : History (World.initial blank) trace machine) {store : Nat}
    (onlyBindings : OnlyBindingsPublish store trace) :
    machine.world.state store = State.initial ↔
      ∀ before code binding after,
        trace = before ++ .called store code (.binding binding) :: after → after = [] := by
  rcases history.state_cases onlyBindings with
    ⟨unpublished, initial⟩ | ⟨earlier, code, binding, later, state, split⟩
  · refine iff_of_true initial fun before code binding after split => ?_
    by_contra others
    exact history.published_after_call split others unpublished
  · refine iff_of_false ?_ fun lastOnly => ?_
    · simp [state, Binding.state, State.initial]
    · exact List.cons_ne_nil _ _ (lastOnly earlier code binding _ split)

/-- At every moment the locale and the translator of a store are both missing, or they are those of
a requested locale and an attached binding, and the handles render accordingly. They are missing
until a binding is first called, which publishes before anyone can ask for the state again; and
observers are shown the state as it is. -/
theorem coherent (history : History (World.initial blank) trace machine) (store : Nat)
    (onlyBindings : OnlyBindingsPublish store trace) :
    let state := machine.world.state store
    (state = State.initial ∧
        (∀ handle : Handle, handle.store = store → ∀ key arguments quantity,
          handle.translate machine.world key arguments = ⟨key, []⟩ ∧
          handle.plural machine.world key quantity = ⟨key, []⟩) ∨
      ∃ code ∈ fires store trace, ∃ binding translator,
        .binding binding ∈ (machine.world.stores store).listeners ∧
        state = ⟨some code, some translator⟩ ∧ translator.locale = code ∧
        translator.registry = binding.registry ∧ translator.fallback = binding.fallback ∧
        ∀ handle : Handle, handle.store = store → ∀ key arguments quantity,
          handle.translate machine.world key arguments = translator.translate key arguments ∧
          handle.plural machine.world key quantity = translator.plural key quantity) ∧
    (state = State.initial ↔
      ∀ before code binding after,
        trace = before ++ .called store code (.binding binding) :: after → after = []) ∧
    (machine.Ended ∨ (∃ next rest, machine.frames = .body (.get store next) :: rest) →
      (state = State.initial ↔ ∀ code binding, .called store code (.binding binding) ∉ trace)) ∧
    ∀ shown observer, machine.event? = some (.notified store shown observer) → shown = state := by
  intro state
  have initially : state = State.initial ↔ _ := history.state_initial_iff onlyBindings
  refine ⟨?_, initially, fun looking => ⟨?_, ?_⟩,
    fun shown observer => history.shown_is_current onlyBindings⟩
  · rcases history.state_cases onlyBindings with
      ⟨_, initial⟩ | ⟨earlier, code, binding, later, applied, split⟩
    · refine Or.inl ⟨initial, ?_⟩
      rintro handle rfl key arguments quantity
      have missing : handle.translator machine.world = none := by
        rw [Handle.translator, Handle.state, initial]
        rfl
      simp [Handle.translate, Handle.plural, Handle.renderWith, missing]
    · have called : .called store code (.binding binding) ∈ trace := by simp [split]
      obtain ⟨requested, attached⟩ := history.called_sourced called
      refine Or.inr ⟨code, requested, binding, binding.translator code, attached, applied, rfl, rfl,
        rfl, ?_⟩
      rintro handle rfl key arguments quantity
      have current : handle.translator machine.world = some (binding.translator code) := by
        rw [Handle.translator, Handle.state, applied]
        rfl
      simp [Handle.translate, Handle.plural, Handle.renderWith, current]
  · intro initial code binding called
    -- The call would be the last event, but the listener it started is not under way.
    obtain ⟨before, after, split⟩ := List.append_of_mem called
    obtain rfl : after = [] := initially.mp initial before code binding after split
    obtain ⟨waiting, below, underWay⟩ := history.applying split
    rcases looking with ended | ⟨next, rest, getting⟩
    · simp [show machine.frames = [] from ended] at underWay
    · simp [getting, Binding.script] at underWay
  · intro uncalled
    refine initially.mpr fun before code binding after split => ?_
    exact absurd (by simp [split]) (uncalled code binding)

/-- One binding publishes, a listener panics, and the other binding is not called. -/
theorem coherent_after_panic :
    let plain : Binding := ⟨Registry.merge [], none⟩
    let german : Binding := ⟨Registry.merge [], some ⟨"de"⟩⟩
    let failing : LocaleCode → Script Unit := fun code =>
      if code = ⟨"boom"⟩ then .panic "failed" else .done
    let setup : Script Unit := .attach 0 plain (.onLocale 0 failing (.attach 0 german .done))
    let first := Machine.start (World.initial ()) setup
    let second := Machine.start (first.run 4).world (.fire 0 ⟨"boom"⟩ .done)
    let told := first.trace 4 ++ second.trace 20
    (second.run 20).Ended ∧ (second.run 20).panicked = some "failed" ∧
    OnlyBindingsPublish 0 told ∧ fires 0 told = [⟨"boom"⟩] ∧
    ∃ translator, (second.run 20).world.state 0 = ⟨some ⟨"boom"⟩, some translator⟩ ∧
      translator.locale = ⟨"boom"⟩ := by
  intro plain german failing setup first second told
  have earlier : History (World.initial ()) (first.trace 4) (first.run 4) :=
    (History.start.call setup rfl).append (first.run_trace 4)
  have history : History (World.initial ()) told (second.run 20) :=
    (earlier.call _ rfl).append (second.run_trace 20)
  obtain ⟨emptied, panicked, requested, silent, linked, heard⟩ :
      (second.run 20).frames.isEmpty = true ∧ (second.run 20).panicked = some "failed" ∧
        fires 0 told = [⟨"boom"⟩] ∧
        (∀ head ∈ told.head?, (head.published? 0).isNone = true) ∧
        (told.IsChain fun before after =>
          before.callsBinding 0 = true ∨ (after.published? 0).isNone = true) ∧
        told.any (callsBinding 0) = true := by
    simp only [told, second, first, setup, failing, plain, german]
    decide +kernel
  have onlyBindings : OnlyBindingsPublish 0 told := by
    refine onlyBindingsPublish_of_isChain (by simpa using silent) ?_
    simpa using linked
  have ended : (second.run 20).Ended := List.isEmpty_iff.mp emptied
  refine ⟨ended, panicked, onlyBindings, requested, ?_⟩
  obtain ⟨cases, _, initially, _⟩ := history.coherent 0 onlyBindings
  rcases cases with ⟨initial, _⟩ | ⟨code, member, binding, translator, _, state, locale, _⟩
  · obtain ⟨call, among, applies⟩ := List.any_eq_true.mp heard
    obtain ⟨code, binding, rfl⟩ := callsBinding_iff.mp applies
    exact absurd among ((initially (Or.inl ended)).mp initial code binding)
  · rw [requested, List.mem_singleton] at member
    subst member
    exact ⟨translator, state, locale⟩

end History

end MessageCatalog

import MessageCatalog.Proofs.Store.PanicRecovery

/-!
Activities that keep to one store. A callback is confined to a store when it and all that it
registers work with that store alone, and with notebooks that belong to it. Confined activities
change nothing else, and nothing else decides how they run.
-/

namespace MessageCatalog

variable {μ : Type}

/-- The script works with one store, and with the notebooks of which `owner` says that they belong
to that store. What it registers is confined in the same way. -/
def Script.Confined (owner : Nat → Nat) (store : Nat) : Script μ → Prop
  | .done => True
  | .panic _ => True
  | .note _ next => next.Confined owner store
  | .recall notebook next => owner notebook = store ∧ ∀ content, (next content).Confined owner store
  | .remember notebook _ next => owner notebook = store ∧ next.Confined owner store
  | .get other next => other = store ∧ ∀ state, (next state).Confined owner store
  | .set other _ next => other = store ∧ next.Confined owner store
  | .fire other _ next => other = store ∧ next.Confined owner store
  | .onLocale other react next =>
    other = store ∧ (∀ code, (react code).Confined owner store) ∧ next.Confined owner store
  | .attach other _ next => other = store ∧ next.Confined owner store
  | .subscribe other react next =>
    other = store ∧ (∀ state, (react state).Confined owner store) ∧ next.Confined owner store

def Listener.Confined (owner : Nat → Nat) (store : Nat) (listener : Listener μ) : Prop :=
  ∀ code, (listener.script store code).Confined owner store

def Observer.Confined (owner : Nat → Nat) (store : Nat) (observer : Observer μ) : Prop :=
  ∀ state, (observer state).Confined owner store

theorem Listener.confined_binding (owner : Nat → Nat) (store : Nat) (binding : Binding) :
    (Listener.binding binding : Listener μ).Confined owner store :=
  fun _ => ⟨rfl, trivial⟩

/-- Everyone who is registered with the store is confined to it. -/
structure Store.Confined (owner : Nat → Nat) (number : Nat) (store : Store μ) : Prop where
  listeners : ∀ listener ∈ store.listeners, listener.Confined owner number
  observers : ∀ observer ∈ store.observers, Observer.Confined owner number observer

def Frame.Confined (owner : Nat → Nat) (store : Nat) : Frame μ → Prop
  | .body script => script.Confined owner store
  | .notify other _ waiting =>
    other = store ∧ ∀ observer ∈ waiting, Observer.Confined owner store observer
  | .deliver other _ waiting => other = store ∧ ∀ listener ∈ waiting, listener.Confined owner store
  | .drain other => other = store

namespace Store
variable {owner : Nat → Nat} {number : Nat} {store : Store μ}

theorem Confined.addListener (confined : store.Confined owner number) {listener : Listener μ}
    (added : listener.Confined owner number) :
    (store.addListener listener).Confined owner number := by
  refine ⟨List.forall_mem_append.mpr ⟨confined.listeners, ?_⟩, confined.observers⟩
  exact List.forall_mem_singleton.mpr added

theorem Confined.addObserver (confined : store.Confined owner number) {observer : Observer μ}
    (added : Observer.Confined owner number observer) :
    (store.addObserver observer).Confined owner number := by
  refine ⟨confined.listeners, List.forall_mem_append.mpr ⟨confined.observers, ?_⟩⟩
  exact List.forall_mem_singleton.mpr added

/-- Only who is registered counts. -/
theorem Confined.of_registered (confined : store.Confined owner number) {other : Store μ}
    (listeners : other.listeners = store.listeners)
    (observers : other.observers = store.observers) :
    other.Confined owner number := by
  obtain ⟨heard, seen⟩ := confined
  exact ⟨listeners ▸ heard, observers ▸ seen⟩

end Store

namespace World

/-- The worlds are the same as far as activities confined to the store can tell. -/
structure Agrees (owner : Nat → Nat) (store : Nat) (world other : World μ) : Prop where
  stores : other.stores store = world.stores store
  notebooks : ∀ notebook, owner notebook = store →
    other.notebooks notebook = world.notebooks notebook

variable {owner : Nat → Nat} {store : Nat} {world other : World μ}

theorem Agrees.refl (world : World μ) : world.Agrees owner store world :=
  ⟨rfl, fun _ _ => rfl⟩

theorem Agrees.symm (agrees : world.Agrees owner store other) : other.Agrees owner store world :=
  ⟨agrees.stores.symm, fun notebook own => (agrees.notebooks notebook own).symm⟩

theorem Agrees.trans {third : World μ} (first : world.Agrees owner store other)
    (second : other.Agrees owner store third) : world.Agrees owner store third :=
  ⟨second.stores.trans first.stores,
    fun notebook own => (second.notebooks notebook own).trans (first.notebooks notebook own)⟩

theorem Agrees.update (agrees : world.Agrees owner store other) (change : Store μ → Store μ) :
    (world.update store change).Agrees owner store (other.update store change) := by
  refine ⟨?_, agrees.notebooks⟩
  rw [update_stores, update_stores, if_pos rfl, if_pos rfl, agrees.stores]

theorem Agrees.write (agrees : world.Agrees owner store other) (notebook : Nat) (content : μ) :
    (world.write notebook content).Agrees owner store (other.write notebook content) := by
  refine ⟨agrees.stores, fun sought own => ?_⟩
  simp only [World.write]
  split
  · rfl
  · exact agrees.notebooks sought own

theorem Agrees.report (agrees : world.Agrees owner store other) (notices : List Notice) :
    (world.report notices).Agrees owner store (other.report notices) :=
  ⟨agrees.stores, agrees.notebooks⟩

theorem Agrees.foldl_leave (agrees : world.Agrees owner store other) (frames : List (Frame μ)) :
    (frames.foldl leave world).Agrees owner store (frames.foldl leave other) := by
  constructor
  · by_cases drained : .drain store ∈ frames
    · rw [foldl_leave_of_mem _ _ _ drained, foldl_leave_of_mem _ _ _ drained, agrees.stores]
    · rw [foldl_leave_of_not_mem _ _ _ drained, foldl_leave_of_not_mem _ _ _ drained,
        agrees.stores]
  · rw [(world.foldl_leave_notices frames).2, (other.foldl_leave_notices frames).2]
    exact agrees.notebooks

end World

namespace World
variable {owner : Nat → Nat} {store other : Nat}

theorem agrees_update_of_ne (world : World μ) (apart : other ≠ store) (change : Store μ → Store μ) :
    world.Agrees owner other (world.update store change) :=
  ⟨by rw [update_stores, if_neg apart], fun _ _ => rfl⟩

theorem agrees_write_of_ne (world : World μ) {notebook : Nat} (apart : other ≠ owner notebook)
    (content : μ) : world.Agrees owner other (world.write notebook content) := by
  refine ⟨rfl, fun sought own => ?_⟩
  simp only [World.write]
  split
  · next same => exact absurd (own.symm.trans (congrArg owner same)) apart
  · rfl

theorem agrees_foldl_leave_of_confined (world : World μ) (apart : other ≠ store)
    {frames : List (Frame μ)} (confined : ∀ frame ∈ frames, frame.Confined owner store) :
    world.Agrees owner other (frames.foldl leave world) := by
  refine ⟨world.foldl_leave_of_not_mem frames other fun drained => ?_, ?_⟩
  · exact apart (confined _ drained)
  · rw [(world.foldl_leave_notices frames).2]
    exact fun _ _ => rfl

end World

namespace Machine

def within (machine : Machine μ) (world : World μ) : Machine μ := { machine with world := world }

/-- Everything under way is confined to the store, and so is everyone registered with it. -/
structure Confined (owner : Nat → Nat) (store : Nat) (machine : Machine μ) : Prop where
  frames : ∀ frame ∈ machine.frames, frame.Confined owner store
  registered : (machine.world.stores store).Confined owner store

variable {owner : Nat → Nat} {store : Nat} {machine next : Machine μ} {event : Option (Event μ)}

theorem Step.mirror_of_silent (silent : next.world.notices = machine.world.notices)
    (alike : ∀ other, machine.world.Agrees owner store other →
      ∃ after, (machine.within other).Step event (next.within after) ∧
        next.world.Agrees owner store after ∧ after.notices = other.notices) :
    ∃ told, next.world.notices = machine.world.notices ++ told ∧
      ∀ other, machine.world.Agrees owner store other →
        ∃ after, (machine.within other).Step event (next.within after) ∧
          next.world.Agrees owner store after ∧ after.notices = other.notices ++ told := by
  refine ⟨[], by rw [silent, List.append_nil], fun other agrees => ?_⟩
  rw [List.append_nil]
  exact alike other agrees

/-- In a world that looks the same from the store, confined activities take the same step, tell and
report the same, and the worlds go on looking the same. -/
theorem Step.mirror (step : machine.Step event next) (confined : machine.Confined owner store) :
    ∃ told, next.world.notices = machine.world.notices ++ told ∧
      ∀ other, machine.world.Agrees owner store other →
        ∃ after, (machine.within other).Step event (next.within after) ∧
          next.world.Agrees owner store after ∧ after.notices = other.notices ++ told := by
  have frames := confined.frames
  -- What a step reads belongs to the store, and so is the same in the other world.
  cases step with
  | done | notify | notified | call | finish =>
      exact mirror_of_silent rfl fun other agrees => ⟨other, by constructor, agrees, rfl⟩
  | note world rest ended notice script =>
      exact ⟨[notice], rfl, fun other agrees =>
        ⟨other.report [notice], .note .., agrees.report _, rfl⟩⟩
  | panic world rest ended message =>
      refine mirror_of_silent (world.foldl_leave_notices rest).1 fun other agrees => ?_
      exact ⟨rest.foldl World.leave other, .panic .., agrees.foldl_leave rest,
        (other.foldl_leave_notices rest).1⟩
  | consult world rest ended notebook script =>
      obtain ⟨own, _⟩ : owner notebook = store ∧ _ := frames _ List.mem_cons_self
      refine mirror_of_silent rfl fun other agrees => ⟨other, ?_, agrees, rfl⟩
      have step := Step.consult other rest ended notebook script
      rw [agrees.notebooks notebook own] at step
      exact step
  | remember world rest ended notebook content script =>
      exact mirror_of_silent rfl fun other agrees => ⟨_, .remember .., agrees.write _ _, rfl⟩
  | get world rest ended number script =>
      obtain ⟨rfl, _⟩ : number = store ∧ _ := frames _ List.mem_cons_self
      refine mirror_of_silent rfl fun other agrees => ⟨other, ?_, agrees, rfl⟩
      have step := Step.get other rest ended number script
      rw [World.state, agrees.stores] at step
      exact step
  | set world rest ended number state script =>
      obtain ⟨rfl, _⟩ : number = store ∧ _ := frames _ List.mem_cons_self
      refine mirror_of_silent rfl fun other (agrees : world.Agrees owner number other) =>
        ⟨_, ?_, agrees.update fun old => { old with state := state }, rfl⟩
      have step := Step.set other rest ended number state script
      rw [agrees.stores] at step
      exact step
  | queue world rest ended number code script busy =>
      obtain ⟨rfl, _⟩ : number = store ∧ _ := frames _ List.mem_cons_self
      refine mirror_of_silent rfl fun other (agrees : world.Agrees owner number other) =>
        ⟨_, .queue other rest ended number code script ?_, agrees.update (·.enqueue code), rfl⟩
      rw [agrees.stores, busy]
  | wake world rest ended number code script idle =>
      obtain ⟨rfl, _⟩ : number = store ∧ _ := frames _ List.mem_cons_self
      refine mirror_of_silent rfl fun other (agrees : world.Agrees owner number other) =>
        ⟨_, .wake other rest ended number code script ?_,
          (agrees.update (·.enqueue code)).update fun old => { old with dispatching := true }, rfl⟩
      rw [agrees.stores, idle]
  | onLocale world rest ended number react script =>
      obtain ⟨rfl, _⟩ : number = store ∧ _ := frames _ List.mem_cons_self
      exact mirror_of_silent rfl fun other agrees =>
        ⟨_, .onLocale .., agrees.update (·.addListener (.custom react)), rfl⟩
  | attach world rest ended number binding script =>
      obtain ⟨rfl, _⟩ : number = store ∧ _ := frames _ List.mem_cons_self
      exact mirror_of_silent rfl fun other agrees =>
        ⟨_, .attach .., agrees.update (·.addListener (.binding binding)), rfl⟩
  | subscribe world rest ended number react script =>
      obtain ⟨rfl, _⟩ : number = store ∧ _ := frames _ List.mem_cons_self
      exact mirror_of_silent rfl fun other agrees =>
        ⟨_, .subscribe .., agrees.update (·.addObserver react), rfl⟩
  | sleep world rest ended number empty =>
      obtain rfl : number = store := frames _ List.mem_cons_self
      refine mirror_of_silent rfl fun other (agrees : world.Agrees owner number other) =>
        ⟨_, .sleep other rest ended number ?_,
          agrees.update fun old => { old with dispatching := false }, rfl⟩
      rw [agrees.stores, empty]
  | begin world rest ended number code later queued =>
      obtain rfl : number = store := frames _ List.mem_cons_self
      let take (old : Store μ) : Store μ := { old with pending := later }
      have step (other : World μ) (agrees : world.Agrees owner number other) :=
        Step.begin other rest ended number code later (by rw [agrees.stores, queued])
      cases unheard : (world.stores number).listeners.isEmpty with
      | true =>
          refine ⟨[.unheard code], by simp [World.report, World.update], fun other agrees =>
            ⟨(other.update number take).report [.unheard code], ?_, ?_, rfl⟩⟩
          · have step := step other agrees
            simp only [agrees.stores, unheard, if_true] at step
            exact step
          · have agrees : world.Agrees owner number other := agrees
            simpa using (agrees.update take).report [.unheard code]
      | false =>
          refine mirror_of_silent (by simp [World.update]) fun other agrees =>
            ⟨other.update number take, ?_, ?_, rfl⟩
          · have step := step other agrees
            simp only [agrees.stores, unheard, Bool.false_eq_true, if_false] at step
            exact step
          · have agrees : world.Agrees owner number other := agrees
            simpa using agrees.update take

theorem Step.registered_confined (step : machine.Step event next)
    (confined : machine.Confined owner store) :
    (next.world.stores store).Confined owner store := by
  obtain ⟨frames, registered⟩ := confined
  cases step with
  | panic world rest =>
      by_cases drained : .drain store ∈ rest
      · rw [world.foldl_leave_of_mem _ _ drained]
        exact registered.of_registered rfl rfl
      · rw [world.foldl_leave_of_not_mem _ _ drained]
        exact registered
  | onLocale world rest ended number react script =>
      obtain ⟨rfl, reacts, _⟩ : number = store ∧ (Listener.custom react).Confined owner store ∧ _ :=
        frames _ List.mem_cons_self
      simpa using registered.addListener reacts
  | attach world rest ended number binding script =>
      obtain ⟨rfl, _⟩ : number = store ∧ _ := frames _ List.mem_cons_self
      simpa using registered.addListener (Listener.confined_binding owner number binding)
  | subscribe world rest ended number react script =>
      obtain ⟨rfl, reacts, _⟩ : number = store ∧ _ ∧ _ := frames _ List.mem_cons_self
      simpa using registered.addObserver reacts
  | set world rest ended number | queue world rest ended number | wake world rest ended number
  | sleep world rest ended number =>
      apply registered.of_registered <;> by_cases same : store = number <;>
        simp [same, Store.enqueue]
  | begin world rest ended number =>
      apply registered.of_registered <;> by_cases same : store = number <;> split <;> simp [same]
  | _ => exact registered

theorem Step.frames_confined (step : machine.Step event next)
    (confined : machine.Confined owner store) :
    ∀ frame ∈ next.frames, frame.Confined owner store := by
  obtain ⟨frames, registered⟩ := confined
  cases step with
  | panic => exact List.forall_mem_nil _
  | done | notified | finish | sleep => exact (List.forall_mem_cons.mp frames).2
  | note =>
      obtain ⟨first, rest⟩ := List.forall_mem_cons.mp frames
      exact List.forall_mem_cons.mpr ⟨first, rest⟩
  | consult | get =>
      obtain ⟨⟨_, first⟩, rest⟩ := List.forall_mem_cons.mp frames
      exact List.forall_mem_cons.mpr ⟨first _, rest⟩
  | remember | queue | attach =>
      obtain ⟨⟨_, first⟩, rest⟩ := List.forall_mem_cons.mp frames
      exact List.forall_mem_cons.mpr ⟨first, rest⟩
  | onLocale | subscribe =>
      obtain ⟨⟨_, _, first⟩, rest⟩ := List.forall_mem_cons.mp frames
      exact List.forall_mem_cons.mpr ⟨first, rest⟩
  | set =>
      obtain ⟨⟨rfl, first⟩, rest⟩ := List.forall_mem_cons.mp frames
      exact List.forall_mem_cons.mpr
        ⟨⟨rfl, registered.observers⟩, List.forall_mem_cons.mpr ⟨first, rest⟩⟩
  | wake =>
      obtain ⟨⟨rfl, first⟩, rest⟩ := List.forall_mem_cons.mp frames
      exact List.forall_mem_cons.mpr ⟨rfl, List.forall_mem_cons.mpr ⟨first, rest⟩⟩
  | notify | call =>
      obtain ⟨⟨rfl, waiting⟩, rest⟩ := List.forall_mem_cons.mp frames
      obtain ⟨first, later⟩ := List.forall_mem_cons.mp waiting
      exact List.forall_mem_cons.mpr ⟨first _, List.forall_mem_cons.mpr ⟨⟨rfl, later⟩, rest⟩⟩
  | begin =>
      obtain ⟨rfl, rest⟩ := List.forall_mem_cons.mp frames
      exact List.forall_mem_cons.mpr ⟨⟨rfl, registered.listeners⟩, frames⟩

/-- Confined activities leave everything else as it is. -/
theorem Step.agrees_elsewhere (step : machine.Step event next)
    (confined : machine.Confined owner store)
    {other : Nat} (apart : other ≠ store) : machine.world.Agrees owner other next.world := by
  have frames := confined.frames
  cases step with
  | panic world =>
      exact world.agrees_foldl_leave_of_confined apart (List.forall_mem_cons.mp frames).2
  | remember world =>
      obtain ⟨⟨rfl, _⟩, _⟩ := List.forall_mem_cons.mp frames
      exact world.agrees_write_of_ne apart _
  | set world | queue world | onLocale world | attach world | subscribe world =>
      obtain ⟨⟨rfl, _⟩, _⟩ := List.forall_mem_cons.mp frames
      dsimp only
      exact world.agrees_update_of_ne apart _
  | wake world rest ended number code =>
      obtain ⟨⟨rfl, _⟩, _⟩ := List.forall_mem_cons.mp frames
      dsimp only
      exact (world.agrees_update_of_ne apart _).trans (World.agrees_update_of_ne _ apart _)
  | sleep world =>
      obtain rfl := (List.forall_mem_cons.mp frames).1
      dsimp only
      exact world.agrees_update_of_ne apart _
  | begin world rest ended number code later =>
      obtain rfl := (List.forall_mem_cons.mp frames).1
      have taken : world.Agrees owner other
          (world.update number fun old => { old with pending := later }) :=
        world.agrees_update_of_ne apart _
      split
      · exact ⟨taken.stores, taken.notebooks⟩
      · exact taken
  | note world => exact ⟨rfl, fun _ _ => rfl⟩
  | _ => exact .refl _

theorem Step.confined (step : machine.Step event next) (confined : machine.Confined owner store) :
    next.Confined owner store :=
  ⟨step.frames_confined confined, step.registered_confined confined⟩

variable {last : Machine μ} {trace : List (Event μ)}

theorem Run.confined (run : machine.Run trace last) (confined : machine.Confined owner store) :
    last.Confined owner store := by
  induction run with
  | refl => exact confined
  | step advanced _ ih => exact ih ((step_of_step? advanced).confined confined)

theorem Run.agrees_elsewhere (run : machine.Run trace last)
    (confined : machine.Confined owner store) {other : Nat} (apart : other ≠ store) :
    machine.world.Agrees owner other last.world := by
  induction run with
  | refl => exact .refl _
  | step advanced _ ih =>
      have step := step_of_step? advanced
      exact (step.agrees_elsewhere confined apart).trans (ih (step.confined confined))

theorem Run.mirror (run : machine.Run trace last) (confined : machine.Confined owner store) :
    ∃ told, last.world.notices = machine.world.notices ++ told ∧
      ∀ other, machine.world.Agrees owner store other →
        ∃ after, (machine.within other).Run trace (last.within after) ∧
          last.world.Agrees owner store after ∧ after.notices = other.notices ++ told := by
  induction run with
  | refl machine =>
      exact ⟨[], by simp, fun other agrees => ⟨other, .refl _, agrees, by simp⟩⟩
  | @step machine next last trace advanced run ih =>
      have step := step_of_step? advanced
      obtain ⟨first, reported, alike⟩ := step.mirror confined
      obtain ⟨told, later, alikes⟩ := ih (step.confined confined)
      refine ⟨first ++ told, by rw [later, reported, List.append_assoc], fun other agrees => ?_⟩
      obtain ⟨between, mirrored, agreesThen, noticed⟩ := alike other agrees
      obtain ⟨after, runs, agreesAfter, noticedAfter⟩ := alikes between agreesThen
      obtain ⟨moved, event⟩ := mirrored.step?_eq
      refine ⟨after, ?_, agreesAfter, by rw [noticedAfter, noticed, List.append_assoc]⟩
      rw [← event]
      exact .step moved runs

end Machine

end MessageCatalog

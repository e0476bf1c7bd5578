import MessageCatalog.Proofs.Store.RunToCompletion

/-!
Where calls come from. Whatever a store dispatches was requested of it, and whoever it calls has
registered, also after a panic.
-/

namespace MessageCatalog

variable {μ : Type}

open Event

namespace Dispatcher

structure Sourced (codes : List LocaleCode) (dispatcher : Dispatcher μ) : Prop where
  queued : ∀ code ∈ dispatcher.pending, code ∈ codes
  underWay : ∀ code waiting, .delivering code waiting ∈ dispatcher.underWay →
    code ∈ codes ∧ ∀ listener ∈ waiting, listener ∈ dispatcher.listeners

theorem Sourced.mono {codes more : List LocaleCode} {dispatcher : Dispatcher μ}
    (sourced : dispatcher.Sourced codes) (grown : codes ⊆ more) : dispatcher.Sourced more := by
  refine ⟨fun code member => grown (sourced.queued code member), fun code waiting member => ?_⟩
  obtain ⟨requested, registered⟩ := sourced.underWay code waiting member
  exact ⟨grown requested, registered⟩

theorem Turn.sourced {store : Nat} {before after : Dispatcher μ} {event : Option (Event μ)}
    (turn : Turn store before event after) {codes : List LocaleCode}
    (sourced : before.Sourced codes) : after.Sourced (codes ++ fires store event.toList) := by
  obtain ⟨queued, underWay⟩ :=
    sourced.mono (List.subset_append_left codes (fires store event.toList))
  cases turn with
  | idle => exact ⟨queued, underWay⟩
  | listen listeners pending dispatching active listener =>
      refine ⟨queued, fun code waiting member => ?_⟩
      obtain ⟨requested, registered⟩ := underWay code waiting member
      exact ⟨requested, fun other among => List.mem_append_left _ (registered other among)⟩
  | queue listeners pending active code | wake listeners pending active code =>
      refine ⟨List.forall_mem_append.mpr ⟨queued, ?_⟩, fun other waiting member => ?_⟩
      · simp [fires, fired?]
      · exact underWay other waiting (by simpa using member)
  | begin listeners later dispatching active code =>
      obtain ⟨first, rest⟩ := List.forall_mem_cons.mp queued
      refine ⟨rest, fun other waiting member => ?_⟩
      rcases List.mem_cons.mp member with begun | earlier
      · obtain ⟨rfl, rfl⟩ := Activity.delivering.inj begun
        exact ⟨first, fun _ among => among⟩
      · exact underWay other waiting earlier
  | call listeners pending dispatching active code listener waiting =>
      obtain ⟨requested, registered⟩ := underWay code _ List.mem_cons_self
      refine ⟨queued, fun other still member => ?_⟩
      rcases List.mem_cons.mp member with current | earlier
      · obtain ⟨rfl, rfl⟩ := Activity.delivering.inj current
        exact ⟨requested, fun heard among => registered heard (List.mem_cons_of_mem _ among)⟩
      · exact underWay other still (List.mem_cons_of_mem _ earlier)
  | finish | sleep =>
      refine ⟨queued, fun other waiting member => ?_⟩
      exact underWay other waiting (List.mem_cons_of_mem _ member)
  | panic => exact ⟨queued, fun _ _ member => absurd member List.not_mem_nil⟩
  | release =>
      exact ⟨List.forall_mem_nil _, fun _ _ member => absurd member List.not_mem_nil⟩

end Dispatcher

namespace History

variable {blank : μ} {trace : List (Event μ)} {machine : Machine μ}

theorem sourced (history : History (World.initial blank) trace machine) (store : Nat) :
    (machine.dispatcher store).Sourced (fires store trace) := by
  refine history.dispatcher_induction store
    (motive := fun trace dispatcher => dispatcher.Sourced (fires store trace)) ⟨nofun, nofun⟩ ?_
  intro trace before event after sourced turn
  rw [fires_append]
  exact turn.sourced sourced

/-- The listeners of a store that were called are registered, and for a request that was made. -/
theorem called_sourced (history : History (World.initial blank) trace machine) {store : Nat}
    {code : LocaleCode} {listener : Listener μ} (member : .called store code listener ∈ trace) :
    code ∈ fires store trace ∧ listener ∈ (machine.world.stores store).listeners := by
  obtain ⟨before, after, split⟩ := List.append_of_mem member
  obtain ⟨calling, atCall, told⟩ := history.at_event split
  obtain ⟨waiting, rest, delivering⟩ := Machine.frames_of_called told
  have underWay : .delivering code (listener :: waiting) ∈ (calling.dispatcher store).underWay := by
    simp [Machine.dispatcher, delivering]
  obtain ⟨requested, known⟩ := (atCall.sourced store).underWay code _ underWay
  have knownThen : listener ∈ registered store before := by
    rw [atCall.registered_eq]
    exact known listener List.mem_cons_self
  rw [← history.registered_eq, split, fires_append, registered, List.filterMap_append]
  exact ⟨List.mem_append_left _ requested, List.mem_append_left _ knownThen⟩

end History

end MessageCatalog

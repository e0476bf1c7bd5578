import MessageCatalog.Binding
import MessageCatalog.Proofs.Store.Confined

/-!
Sessions: calls from outside on several stores, one after another. As long as the activities of
every store are confined to it, each store gives the answers, tells the events and is left in the
states that its own calls give on their own.
-/

namespace MessageCatalog

variable {μ : Type}

/-- What a caller outside asks of a store, or of a handle on it. -/
inductive Request (μ : Type) where
  | bind (fallback : Option LocaleCode) (fragments : List Fragment)
  /-- Requests locales, sets states and registers callbacks, as the script says. -/
  | carryOut (script : Script μ)
  | state
  | translate (binding : Binding) (key : String) (arguments : Option Arguments)
  | plural (binding : Binding) (key : String) (quantity : Float)

inductive Answer where
  | done
  | panicked (message : String)
  | handle (handle : Handle)
  | state (state : State)
  | text (text : String)

structure Operation (μ : Type) where
  store : Nat
  request : Request μ

/-- What comes of a call: the events and notices on the way, the answer, and the store as the call
leaves it. -/
structure Report (μ : Type) where
  events : List (Event μ)
  notices : List Notice
  answer : Answer
  left : Store μ

def Machine.answer (machine : Machine μ) : Answer :=
  match machine.panicked with
  | some message => .panicked message
  | none => .done

def Request.Confined (owner : Nat → Nat) (store : Nat) : Request μ → Prop
  | .carryOut script => script.Confined owner store
  | _ => True

def Operation.Confined (owner : Nat → Nat) (call : Operation μ) : Prop :=
  call.request.Confined owner call.store

/-- A call that ends: a panic ends no more than the call itself. -/
inductive Operation.Served : Operation μ → World μ → Report μ → World μ → Prop
  | bind (world : World μ) (store fallback fragments) :
      Served ⟨store, .bind fallback fragments⟩ world
        ⟨[.listened store (.binding (world.bind store fallback fragments).1.binding)],
          [Registry.mergeNotice fragments],
          .handle (world.bind store fallback fragments).1,
          (world.bind store fallback fragments).2.stores store⟩
        (world.bind store fallback fragments).2
  | carryOut (world : World μ) (store script) {events notices} {machine : Machine μ} :
      (Machine.start world script).Run events machine → machine.Ended →
      machine.world.notices = world.notices ++ notices →
      Served ⟨store, .carryOut script⟩ world
        ⟨events, notices, machine.answer, machine.world.stores store⟩ machine.world
  | state (world : World μ) (store) :
      Served ⟨store, .state⟩ world
        ⟨[], [], .state (world.state store), world.stores store⟩ world
  | translate (world : World μ) (store binding key arguments) {text : Noted String} :
      (Handle.mk store binding).translate world key arguments = text →
      Served ⟨store, .translate binding key arguments⟩ world
        ⟨[], text.notices, .text text.value, world.stores store⟩ (world.report text.notices)
  | plural (world : World μ) (store binding key quantity) {text : Noted String} :
      (Handle.mk store binding).plural world key quantity = text →
      Served ⟨store, .plural binding key quantity⟩ world
        ⟨[], text.notices, .text text.value, world.stores store⟩ (world.report text.notices)

/-- Calls from outside, one after another, each with what came of it. -/
inductive Session : World μ → List (Operation μ × Report μ) → World μ → Prop
  | start (world) : Session world [] world
  | call {world next last call report records} :
      call.Served world report next → Session next records last →
      Session world ((call, report) :: records) last

def World.Confined (owner : Nat → Nat) (world : World μ) : Prop :=
  ∀ store, (world.stores store).Confined owner store

theorem World.initial_confined (owner : Nat → Nat) (blank : μ) :
    (World.initial blank).Confined owner :=
  fun _ => ⟨List.forall_mem_nil _, List.forall_mem_nil _⟩

theorem Machine.Run.unique {machine last other : Machine μ} {trace otherTrace : List (Event μ)}
    (run : machine.Run trace last) (ended : last.Ended)
    (otherRun : machine.Run otherTrace other) (otherEnded : other.Ended) :
    otherTrace = trace ∧ other = last := by
  induction run generalizing otherTrace with
  | refl machine =>
      cases otherRun with
      | refl => exact ⟨rfl, rfl⟩
      | step advanced _ => simp [(step?_eq_none_iff machine).mpr ended] at advanced
  | @step machine next last trace advanced _ ih =>
      cases otherRun with
      | refl => simp [(step?_eq_none_iff _).mpr otherEnded] at advanced
      | step otherwise otherRun =>
          rw [advanced, Option.some.injEq] at otherwise
          subst otherwise
          obtain ⟨rfl, rfl⟩ := ih ended otherRun
          exact ⟨rfl, rfl⟩

theorem Handle.renderWith_eq {owner : Nat → Nat} {world other : World μ} {handle : Handle}
    (agrees : world.Agrees owner handle.store other) (key : String)
    (render : Translator → Noted String) :
    handle.renderWith other key render = handle.renderWith world key render := by
  have same : handle.translator other = handle.translator world := by
    simp only [Handle.translator, Handle.state, World.state, agrees.stores]
  rw [Handle.renderWith, Handle.renderWith, same]

namespace Operation.Served
variable {owner : Nat → Nat} {call : Operation μ} {world next : World μ} {report : Report μ}

theorem unique (served : call.Served world report next) {otherReport : Report μ} {other : World μ}
    (again : call.Served world otherReport other) : otherReport = report ∧ other = next := by
  cases served with
  | bind | state =>
      cases again
      exact ⟨rfl, rfl⟩
  | translate _ _ _ _ _ rendered =>
      cases again with
      | translate _ _ _ _ _ same =>
          subst rendered same
          exact ⟨rfl, rfl⟩
  | plural _ _ _ _ _ rendered =>
      cases again with
      | plural _ _ _ _ _ same =>
          subst rendered same
          exact ⟨rfl, rfl⟩
  | carryOut _ _ _ run ended told =>
      cases again with
      | carryOut _ _ _ otherRun otherEnded otherTold =>
          obtain ⟨rfl, rfl⟩ := run.unique ended otherRun otherEnded
          obtain rfl := List.append_cancel_left (told.symm.trans otherTold)
          exact ⟨rfl, rfl⟩

theorem of_run (store : Nat) {fuel : Nat} {script : Script μ}
    (ended : ((Machine.start world script).run fuel).Ended) :
    ∃ report, Operation.Served ⟨store, .carryOut script⟩ world report
        ((Machine.start world script).run fuel).world ∧
      report.answer = ((Machine.start world script).run fuel).answer := by
  obtain ⟨told, reports, _⟩ := (Machine.start world script).run_withNotices fuel
  exact ⟨_, .carryOut world store script (Machine.run_trace fuel _) ended reports, rfl⟩

theorem machine_confined {store : Nat} {script : Script μ} (confined : script.Confined owner store)
    (registered : (world.stores store).Confined owner store) :
    (Machine.start world script).Confined owner store :=
  ⟨List.forall_mem_singleton.mpr confined, registered⟩

/-- A confined call is served alike in every world that its store cannot tell from this one. -/
theorem mirror (served : call.Served world report next) (confined : call.Confined owner)
    (registered : (world.stores call.store).Confined owner call.store) {other : World μ}
    (agrees : world.Agrees owner call.store other) :
    ∃ after, call.Served other report after ∧ next.Agrees owner call.store after := by
  cases served with
  | bind _ store fallback fragments =>
      have bound : (world.bind store fallback fragments).2.Agrees owner store
          (other.bind store fallback fragments).2 :=
        (agrees.report _).update fun old => old.addListener (.binding _)
      refine ⟨(other.bind store fallback fragments).2, ?_, bound⟩
      rw [← bound.stores]
      exact .bind other store fallback fragments
  | carryOut _ store script run ended told =>
      obtain ⟨reported, later, alike⟩ := run.mirror (machine_confined confined registered)
      obtain ⟨after, mirrored, agreesAfter, noticed⟩ := alike other agrees
      obtain rfl := List.append_cancel_left (later.symm.trans told)
      refine ⟨after, ?_, agreesAfter⟩
      rw [← agreesAfter.stores]
      exact .carryOut other store script mirrored ended noticed
  | state _ store =>
      refine ⟨other, ?_, agrees⟩
      have served := Operation.Served.state other store
      rwa [World.state, agrees.stores] at served
  | translate _ store binding key arguments rendered =>
      refine ⟨_, ?_, agrees.report _⟩
      rw [← agrees.stores]
      refine .translate other store binding key arguments ?_
      rw [← rendered]
      exact Handle.renderWith_eq agrees key _
  | plural _ store binding key quantity rendered =>
      refine ⟨_, ?_, agrees.report _⟩
      rw [← agrees.stores]
      refine .plural other store binding key quantity ?_
      rw [← rendered]
      exact Handle.renderWith_eq agrees key _

theorem agrees_elsewhere (served : call.Served world report next) (confined : call.Confined owner)
    (registered : (world.stores call.store).Confined owner call.store) {other : Nat}
    (apart : other ≠ call.store) : world.Agrees owner other next := by
  cases served with
  | bind _ store fallback fragments =>
      have reported : world.Agrees owner other (world.report [Registry.mergeNotice fragments]) :=
        ⟨rfl, fun _ _ => rfl⟩
      have attached : World.Agrees owner other _ (world.bind store fallback fragments).2 :=
        World.agrees_update_of_ne (world.report [Registry.mergeNotice fragments]) apart
          fun old => old.addListener (.binding ⟨Registry.merge fragments, fallback⟩)
      exact reported.trans attached
  | carryOut _ store script run =>
      exact run.agrees_elsewhere (machine_confined confined registered) apart
  | state => exact .refl _
  | translate | plural => exact ⟨rfl, fun _ _ => rfl⟩

theorem world_confined (served : call.Served world report next) (confined : call.Confined owner)
    (registered : world.Confined owner) : next.Confined owner := by
  intro other
  by_cases apart : other = call.store
  · subst apart
    cases served with
    | bind _ store fallback fragments =>
        have attached := (registered store).addListener
          (Listener.confined_binding owner store ⟨Registry.merge fragments, fallback⟩)
        simpa [World.bind, World.report] using attached
    | carryOut _ store script run =>
        exact (run.confined (machine_confined confined (registered store))).registered
    | _ => exact registered _
  · have agrees := served.agrees_elsewhere confined (registered call.store) apart
    rw [agrees.stores]
    exact registered other

end Operation.Served

namespace Session
variable {owner : Nat → Nat} {world last : World μ} {records : List (Operation μ × Report μ)}

theorem unique (session : Session world records last)
    {otherRecords : List (Operation μ × Report μ)} {other : World μ}
    (again : Session world otherRecords other)
    (sameCalls : otherRecords.map Prod.fst = records.map Prod.fst) :
    otherRecords = records ∧ other = last := by
  induction session generalizing otherRecords with
  | start world =>
      obtain rfl := List.map_eq_nil_iff.mp sameCalls
      cases again
      exact ⟨rfl, rfl⟩
  | call served _ ih =>
      cases again with
      | start => simp at sameCalls
      | call otherServed again =>
          obtain ⟨rfl, sameLater⟩ := List.cons.inj sameCalls
          obtain ⟨rfl, rfl⟩ := served.unique otherServed
          obtain ⟨rfl, rfl⟩ := ih again sameLater
          exact ⟨rfl, rfl⟩

/-- The calls on one store come to the same without the others. -/
theorem alone (session : Session world records last)
    (confined : ∀ record ∈ records, record.1.Confined owner) (registered : world.Confined owner)
    (store : Nat) {other : World μ} (agrees : world.Agrees owner store other) :
    ∃ after, Session other (records.filter (·.1.store == store)) after ∧
      last.Agrees owner store after := by
  induction session generalizing other with
  | start => exact ⟨other, .start other, agrees⟩
  | @call world next last call report records served session ih =>
      obtain ⟨first, later⟩ := List.forall_mem_cons.mp confined
      have keeps := served.world_confined first registered
      by_cases concerned : call.store = store
      · subst concerned
        obtain ⟨between, mirrored, agreesThen⟩ := served.mirror first (registered _) agrees
        obtain ⟨after, rest, agreesAfter⟩ := ih later keeps agreesThen
        refine ⟨after, ?_, agreesAfter⟩
        rw [List.filter_cons_of_pos (by simp)]
        exact .call mirrored rest
      · have elsewhere := served.agrees_elsewhere first (registered _) (Ne.symm concerned)
        obtain ⟨after, rest, agreesAfter⟩ := ih later keeps (elsewhere.symm.trans agrees)
        refine ⟨after, ?_, agreesAfter⟩
        rwa [List.filter_cons_of_neg (by simpa using concerned)]

/-- Calls that all end when the stores are on their own also end when they are interleaved. -/
theorem together (calls : List (Operation μ)) (confined : ∀ call ∈ calls, call.Confined owner)
    (registered : world.Confined owner)
    (apart : ∀ store, ∃ other records after, world.Agrees owner store other ∧
      Session other records after ∧ records.map Prod.fst = calls.filter (·.store == store)) :
    ∃ records last, Session world records last ∧ records.map Prod.fst = calls := by
  induction calls generalizing world with
  | nil => exact ⟨[], world, .start world, rfl⟩
  | cons call calls ih =>
      obtain ⟨first, later⟩ := List.forall_mem_cons.mp confined
      obtain ⟨other, records, after, agrees, session, sameCalls⟩ := apart call.store
      rw [List.filter_cons_of_pos (by simp)] at sameCalls
      cases session with
      | start => simp at sameCalls
      | @call _ otherNext _ own report records ownServed ownSession =>
          obtain ⟨rfl, sameLater⟩ := List.cons.inj sameCalls
          have otherRegistered := agrees.stores ▸ registered own.store
          -- The call goes as it goes on its own, and the other stores cannot tell that it happened.
          obtain ⟨next, served, agreesThen⟩ := ownServed.mirror first otherRegistered agrees.symm
          have keeps := served.world_confined first registered
          obtain ⟨rest, last, session, restCalls⟩ := ih later keeps fun store => by
            by_cases concerned : store = own.store
            · subst concerned
              exact ⟨otherNext, records, after, agreesThen.symm, ownSession, sameLater⟩
            · obtain ⟨other, records, after, agrees, session, sameCalls⟩ := apart store
              rw [List.filter_cons_of_neg (by simpa using Ne.symm concerned)] at sameCalls
              have elsewhere := served.agrees_elsewhere first (registered _) concerned
              exact ⟨other, records, after, elsewhere.symm.trans agrees, session, sameCalls⟩
          exact ⟨(own, report) :: rest, last, .call served session, by simp [restCalls]⟩

/-- Stores do not interfere: however calls on them are interleaved, panics included, all calls end
just when those of each store end on their own, and then every store gives the same answers, tells
the same events and is left the same, with its registrations and notebooks. -/
theorem stores_do_not_interfere (blank : μ) {calls : List (Operation μ)}
    (confined : ∀ call ∈ calls, call.Confined owner) :
    ((∃ records last, Session (World.initial blank) records last ∧
        records.map Prod.fst = calls) ↔
      ∀ store, ∃ own alone, Session (World.initial blank) own alone ∧
        own.map Prod.fst = calls.filter (·.store == store)) ∧
    ∀ records last, Session (World.initial blank) records last → records.map Prod.fst = calls →
      ∀ store own alone, Session (World.initial blank) own alone →
        own.map Prod.fst = calls.filter (·.store == store) →
        own = records.filter (·.1.store == store) ∧
        alone.stores store = last.stores store ∧
        ∀ notebook, owner notebook = store →
          alone.notebooks notebook = last.notebooks notebook := by
  have registered := World.initial_confined owner blank
  have separate (records : List (Operation μ × Report μ)) (last : World μ)
      (session : Session (World.initial blank) records last)
      (sameCalls : records.map Prod.fst = calls) (store : Nat) :
      (records.filter (·.1.store == store)).map Prod.fst = calls.filter (·.store == store) ∧
        ∃ after, Session (World.initial blank) (records.filter (·.1.store == store)) after ∧
          last.Agrees owner store after := by
    subst sameCalls
    refine ⟨by rw [List.filter_map]; rfl, ?_⟩
    refine session.alone (fun record member => ?_) registered store (.refl _)
    exact confined record.1 (List.mem_map_of_mem member)
  refine ⟨⟨?_, ?_⟩, ?_⟩
  · rintro ⟨records, last, session, sameCalls⟩ store
    obtain ⟨ownCalls, after, own, _⟩ := separate records last session sameCalls store
    exact ⟨_, after, own, ownCalls⟩
  · intro apart
    refine together calls confined registered fun store => ?_
    obtain ⟨own, alone, session, ownCalls⟩ := apart store
    exact ⟨World.initial blank, own, alone, .refl _, session, ownCalls⟩
  · intro records last session sameCalls store own alone ownSession ownCalls
    obtain ⟨filtered, after, separated, agrees⟩ := separate records last session sameCalls store
    obtain ⟨rfl, rfl⟩ := separated.unique ownSession (ownCalls.trans filtered.symm)
    exact ⟨rfl, agrees.stores, agrees.notebooks⟩

/-- An observer of store 0 requests another locale, and a listener of store 1 counts and panics. -/
theorem stores_do_not_interfere_one_panicking :
    let follow : State → Script Nat := fun shown =>
      if shown.locale = some ⟨"en"⟩ then .fire 0 ⟨"de"⟩ .done else .done
    let failing : LocaleCode → Script Nat := fun _ =>
      .recall 1 fun count => .remember 1 (count + 1) (.panic "failed")
    let calls : List (Operation Nat) :=
      [⟨0, .bind none []⟩, ⟨1, .carryOut (.onLocale 1 failing .done)⟩,
        ⟨0, .carryOut (.subscribe 0 follow .done)⟩, ⟨1, .carryOut (.fire 1 ⟨"fr"⟩ .done)⟩,
        ⟨0, .carryOut (.fire 0 ⟨"en"⟩ .done)⟩]
    (∀ call ∈ calls, call.Confined id) ∧
    ∃ records last own alone, Session (World.initial 0) records last ∧
      records.map Prod.fst = calls ∧ (last.state 0).locale = some ⟨"de"⟩ ∧
      Session (World.initial 0) own alone ∧
      own.map Prod.fst = calls.filter (·.store == 1) ∧
      (∃ record ∈ own, record.2.answer = .panicked "failed") ∧ alone.notebooks 1 = 1 := by
  intro follow failing calls
  have follows (shown : State) : (follow shown).Confined id 0 := by
    simp only [follow]
    split <;> simp [Script.Confined]
  have confined : ∀ call ∈ calls, call.Confined id := by
    simp [calls, Operation.Confined, Request.Confined, Script.Confined, failing, follows]
  let bound := ((World.initial 0).bind 0 none []).2
  let heard := (Machine.start bound (.onLocale 1 failing .done)).run 30
  let observed := (Machine.start heard.world (.subscribe 0 follow .done)).run 30
  let failed := (Machine.start observed.world (.fire 1 ⟨"fr"⟩ .done)).run 30
  let applied := (Machine.start failed.world (.fire 0 ⟨"en"⟩ .done)).run 30
  obtain ⟨ended, panicked, locale, count⟩ :
      (∀ machine ∈ [heard, observed, failed, applied], machine.frames.isEmpty = true) ∧
        failed.panicked = some "failed" ∧ (applied.world.state 0).locale = some ⟨"de"⟩ ∧
        applied.world.notebooks 1 = 1 := by
    simp only [applied, failed, observed, heard, bound, follow, failing]
    decide +kernel
  simp only [List.forall_mem_cons, List.isEmpty_iff] at ended
  obtain ⟨heardEnded, observedEnded, failedEnded, appliedEnded, _⟩ := ended
  obtain ⟨records, last, session, sameCalls, raised, locale, count⟩ :
      ∃ records last, Session (World.initial 0) records last ∧ records.map Prod.fst = calls ∧
        (∃ record ∈ records, record.1.store = 1 ∧ record.2.answer = .panicked "failed") ∧
        (last.state 0).locale = some ⟨"de"⟩ ∧ last.notebooks 1 = 1 := by
    obtain ⟨_, listening, _⟩ := Operation.Served.of_run 1 heardEnded
    obtain ⟨_, observing, _⟩ := Operation.Served.of_run 0 observedEnded
    obtain ⟨failure, failing, answer⟩ := Operation.Served.of_run 1 failedEnded
    obtain ⟨_, applying, _⟩ := Operation.Served.of_run 0 appliedEnded
    have bound := Operation.Served.bind (World.initial 0) 0 none []
    have session := Session.call bound (.call listening (.call observing
      (.call failing (.call applying (.start _)))))
    have raised : failure.answer = .panicked "failed" := by rw [answer, Machine.answer, panicked]
    refine ⟨_, applied.world, session, rfl, ?_, locale, count⟩
    exact ⟨_, .tail _ (.tail _ (.tail _ (.head _))), rfl, raised⟩
  obtain ⟨apart, alike⟩ := stores_do_not_interfere 0 confined
  obtain ⟨own, alone, ownSession, ownCalls⟩ := apart.mp ⟨records, last, session, sameCalls⟩ 1
  obtain ⟨rfl, _, notebooks⟩ := alike records last session sameCalls 1 own alone ownSession ownCalls
  obtain ⟨record, among, concerned, answer⟩ := raised
  refine ⟨confined, records, last, _, alone, session, sameCalls, locale, ownSession, ownCalls,
    ⟨record, ?_, answer⟩, (notebooks 1 rfl).trans count⟩
  exact List.mem_filter.mpr ⟨among, by simp [concerned]⟩

end Session

end MessageCatalog

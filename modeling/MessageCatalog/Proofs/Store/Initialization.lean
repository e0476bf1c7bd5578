import MessageCatalog.Proofs.Result
import MessageCatalog.Proofs.Store.Undisturbed
import MessageCatalog.Proofs.Text.Utf8

/-!
Initialization of a store, from values or from the files that a configuration points to. All
messages are read before anything is attached, so what fails leaves every store as it is; what
succeeds attaches one binding behind the listeners that are there, and only then requests the
default locale.
-/

namespace MessageCatalog

variable {μ : Type}

namespace Notice

/-- Only directories and files that were read are reported. -/
def OfLoading : Notice → Prop
  | discovered _ _ => True
  | loaded _ _ => True
  | _ => False

end Notice

section Attempts

variable {α β : Type} {reported : Notice → Prop}

theorem Attempt.forall_notices_andThen {first : Attempt α} {next : α → Attempt β}
    (before : ∀ notice ∈ first.notices, reported notice)
    (after : ∀ value, ∀ notice ∈ (next value).notices, reported notice) :
    ∀ notice ∈ (Attempt.andThen first next).notices, reported notice := by
  unfold Attempt.andThen
  cases first.value with
  | error fault => exact before
  | ok value => exact List.forall_mem_append.mpr ⟨before, after value⟩

theorem Attempt.forall_notices_each {work : α → Attempt β}
    (each : ∀ item, ∀ notice ∈ (work item).notices, reported notice) (items : List α) :
    ∀ notice ∈ (Attempt.each work items).notices, reported notice := by
  induction items with
  | nil => exact List.forall_mem_nil _
  | cons item rest ih =>
      refine forall_notices_andThen (each item) fun _ => forall_notices_andThen ih fun _ => ?_
      exact List.forall_mem_nil _

end Attempts

section Loading

variable (files : Files.Entry) (localesPath : Files.Path)

theorem LocaleFiles.ofLoading_loadFile (code : LocaleCode) (file : Files.Path) :
    ∀ notice ∈ (loadFile files code file).notices, notice.OfLoading := by
  unfold loadFile
  split
  · exact List.forall_mem_nil _
  · exact List.forall_mem_singleton.mpr trivial

theorem LocaleFiles.ofLoading_loadLocale (code : LocaleCode) :
    ∀ notice ∈ (loadLocale files localesPath code).notices, notice.OfLoading := by
  refine Attempt.forall_notices_andThen (List.forall_mem_nil _) fun _ => ?_
  exact Attempt.forall_notices_each (fun _ => ofLoading_loadFile files code _) _

theorem LocaleFiles.ofLoading_available :
    ∀ notice ∈ (available files localesPath).notices, notice.OfLoading := by
  unfold available
  split
  · exact List.forall_mem_nil _
  · exact List.forall_mem_singleton.mpr trivial

theorem LocaleFiles.ofLoading_load :
    ∀ notice ∈ (load files localesPath).notices, notice.OfLoading := by
  refine Attempt.forall_notices_andThen (ofLoading_available files localesPath) fun codes => ?_
  refine Attempt.forall_notices_andThen ?_ fun _ => List.forall_mem_nil _
  exact Attempt.forall_notices_each (ofLoading_loadLocale files localesPath) codes

theorem Configuration.ofLoading_loadFragments (configuration : Configuration)
    (base project : Option Files.Path) :
    ∀ notice ∈ (configuration.loadFragments files base project).notices, notice.OfLoading :=
  Attempt.forall_notices_andThen (List.forall_mem_nil _) fun localesPath =>
    LocaleFiles.ofLoading_load files localesPath

end Loading

/-! Initialization as a part of a script, which goes on with what comes of it. -/

namespace Script

def bind (store : Nat) (fallback : Option LocaleCode) (fragments : List Fragment)
    (next : Handle → Script μ) : Script μ :=
  let binding : Binding := ⟨Registry.merge fragments, fallback⟩
  .note (Registry.mergeNotice fragments) (.attach store binding (next ⟨store, binding⟩))

def bindJson (store : Nat) (values : List Json.Value) (next : Except Fault Handle → Script μ) :
    Script μ :=
  match values.mapM Fragment.ofJson with
  | .error fault => next (.error fault)
  | .ok fragments => bind store none fragments fun handle => next (.ok handle)

def bindConfigured (store : Nat) (configuration : Configuration) (files : Files.Entry)
    (base project : Option Files.Path) (next : Except ConfigurationFault Handle → Script μ) :
    Script μ :=
  let loaded := configuration.loadFragments files base project
  .noteAll loaded.notices (match loaded.value with
    | .error fault => next (.error fault)
    | .ok fragments => bind store configuration.fallbackLocale fragments fun handle =>
      match configuration.defaultLocale with
      | some code => .fire store code (next (.ok handle))
      | none => next (.ok handle))

end Script

theorem World.report_nil (world : World μ) : world.report [] = world := by
  rw [report, List.append_nil]

/-- The script is carried out next, with other activities under way. -/
def World.carrying (world : World μ) (script : Script μ) (rest : List (Frame μ)) : Machine μ :=
  ⟨world, .body script :: rest, none⟩

namespace Machine

variable {world : World μ} {rest : List (Frame μ)}

theorem run_noteAll (notices : List Notice) (next : Script μ) :
    (world.carrying (.noteAll notices next) rest).Run []
      ((world.report notices).carrying next rest) := by
  induction notices generalizing world with
  | nil =>
      rw [World.report_nil]
      exact .refl _
  | cons notice notices ih =>
      have split : world.report (notice :: notices) = (world.report [notice]).report notices := by
        simp [World.report]
      rw [split]
      exact .step rfl ih

theorem run_bind (store : Nat) (fallback : Option LocaleCode) (fragments : List Fragment)
    (next : Handle → Script μ) :
    (world.carrying (.bind store fallback fragments next) rest).Run
      [.listened store (.binding (world.bind store fallback fragments).1.binding)]
      ((world.bind store fallback fragments).2.carrying
        (next (world.bind store fallback fragments).1) rest) :=
  .step rfl (.step rfl (.refl _))

end Machine

namespace World

variable {world : World μ} {store : Nat} {values : List Json.Value}

theorem bindJson_eq_error_iff {fault : Fault} :
    world.bindJson store values = .error fault ↔ values.mapM Fragment.ofJson = .error fault :=
  bind_pure_eq_error_iff

theorem bindJson_eq_ok_iff {handle : Handle} {bound : World μ} :
    world.bindJson store values = .ok (handle, bound) ↔
      ∃ fragments, values.mapM Fragment.ofJson = .ok fragments ∧
        world.bind store none fragments = (handle, bound) := by
  rw [bindJson, bind_eq_ok_iff]
  simp only [pure, Except.pure, Except.ok.injEq]

/-- Nothing is changed but what was reported of loading. -/
structure LeftAlone (world told : World μ) : Prop where
  stores : told.stores = world.stores
  notebooks : told.notebooks = world.notebooks
  notices : ∃ notices, told.notices = world.notices ++ notices ∧
    ∀ notice ∈ notices, notice.OfLoading

theorem leftAlone_report {notices : List Notice}
    (reading : ∀ notice ∈ notices, notice.OfLoading) : world.LeftAlone (world.report notices) :=
  ⟨rfl, rfl, notices, rfl, reading⟩

/-- The store has one more listener, behind the others, and nothing else is changed but what was
reported. The handle is one over all fragments. -/
structure Attached (world : World μ) (store : Nat) (fallback : Option LocaleCode)
    (fragments : List Fragment) (notices : List Notice) (handle : Handle) (bound : World μ) :
    Prop where
  handle_eq : handle = ⟨store, ⟨Registry.merge fragments, fallback⟩⟩
  gained : bound.stores store = (world.stores store).addListener (.binding handle.binding)
  others : ∀ other, other ≠ store → bound.stores other = world.stores other
  notebooks : bound.notebooks = world.notebooks
  notices : bound.notices = world.notices ++ notices ++ [Registry.mergeNotice fragments]

theorem attached_iff {fallback : Option LocaleCode} {fragments : List Fragment}
    {notices : List Notice} {handle : Handle} {bound : World μ} :
    world.Attached store fallback fragments notices handle bound ↔
      (world.report notices).bind store fallback fragments = (handle, bound) := by
  constructor
  · rintro ⟨rfl, gained, others, notebooks, told⟩
    obtain ⟨stores, books, reported⟩ := bound
    subst notebooks told
    have same : stores = (((world.report notices).bind store fallback fragments).2).stores := by
      funext other
      by_cases here : other = store
      · subst here
        simpa [bind, report] using gained
      · simpa [bind, report, here] using others other here
    rw [same]
    rfl
  · intro attached
    obtain ⟨rfl, rfl⟩ := Prod.mk.inj attached
    exact ⟨rfl, by simp [report], fun other apart => by simp [report, apart], rfl, rfl⟩

end World

open Event Machine

/-- When nobody disturbs a request for a locale, it comes back with the store in the given state,
and is the only one that is made meanwhile. It may be made amid other activities or from outside. -/
structure World.Applies (bound : World μ) (store : Nat) (code : LocaleCode) (applied : State) :
    Prop where
  within : ∀ next rest,
    (∀ trace, (bound.carrying (.fire store code next) rest).Performing trace →
      Undisturbed trace) →
    ∃ (trace : List (Event μ)) (after : World μ),
      (bound.carrying (.fire store code next) rest).Returns trace (after.carrying next rest) ∧
      after.state store = applied ∧
      ∀ other, fires other trace = if store = other then [code] else []
  outside :
    (∀ steps, Undisturbed ((bound.carrying (.fire store code .done) []).trace steps)) →
    ∃ enough after,
      (∀ fuel, enough ≤ fuel → bound.perform fuel (.fire store code .done) = .returned after) ∧
      after.state store = applied

section Requests

variable {blank : μ} {earlier : List (Event μ)} {machine : Machine μ} {store : Nat}
  {fallback : Option LocaleCode} {fragments : List Fragment} {handle : Handle} {bound : World μ}
  {notices : List Notice}

/-- A request that follows the attachment leaves the store in the hands of the new binding. -/
theorem World.Attached.applies
    (attached : machine.world.Attached store fallback fragments notices handle bound)
    (history : History (World.initial blank) earlier machine)
    (idle : (machine.world.stores store).dispatching = false) (code : LocaleCode) :
    bound.Applies store code ⟨some code, some ⟨Registry.merge fragments, code, fallback⟩⟩ := by
  obtain ⟨rfl, gained, -⟩ := attached
  have stillIdle : (bound.stores store).dispatching = false := by
    rw [gained]
    exact idle
  have empty : (bound.stores store).pending = [] := by
    rw [gained]
    exact history.pending_of_idle idle
  have last : (bound.stores store).listeners = (machine.world.stores store).listeners ++
      [.binding ⟨Registry.merge fragments, fallback⟩] := by
    rw [gained]
    rfl
  refine ⟨fun next rest undisturbed => ?within, fun undisturbed => ?outside⟩
  case within => exact returns_of_undisturbed stillIdle empty last undisturbed
  case outside =>
    -- From outside nothing is under way but the request, so the call ends where it comes back.
    have told (trace : List (Event μ))
        (performing : Performing (start bound (.fire store code .done)) trace) :
        Undisturbed trace := by
      obtain ⟨next, during, last, moved, within, rfl⟩ := performing
      obtain ⟨steps, same⟩ := (Run.step moved within.run).exists_trace
      exact same ▸ undisturbed steps
    obtain ⟨trace, after, returns, state, -⟩ :=
      returns_of_undisturbed stillIdle empty last told
    have run : Run (start bound (.fire store code .done)) _ ⟨after, [], none⟩ :=
      returns.run.trans (.step rfl (.refl _))
    obtain ⟨enough, reached⟩ := run.exists_enough rfl
    refine ⟨enough, after, fun fuel more => ?_, state⟩
    rw [World.perform, reached fuel more]
    rfl

end Requests

section Configured

variable {configuration : Configuration} {files : Files.Entry} {base project : Option Files.Path}

theorem World.bindConfigured_of_error {fault : ConfigurationFault}
    (failed : (configuration.loadFragments files base project).value = .error fault)
    (world : World μ) (store : Nat) :
    let told := world.report (configuration.loadFragments files base project).notices
    (∀ fuel, world.bindConfigured fuel store configuration files base project =
      .error (fault, told)) ∧
    ∀ next rest,
      (world.carrying (.bindConfigured store configuration files base project next) rest).Run []
        (told.carrying (next (.error fault)) rest) := by
  refine ⟨fun fuel => ?_, fun next rest => ?_⟩
  · simp only [bindConfigured, failed]
  · simp only [Script.bindConfigured, failed]
    exact run_noteAll _ _

theorem World.bindConfigured_of_ok {fragments : List Fragment}
    (loaded : (configuration.loadFragments files base project).value = .ok fragments)
    (world : World μ) (store : Nat) :
    ∃ handle bound, world.Attached store configuration.fallbackLocale fragments
        (configuration.loadFragments files base project).notices handle bound ∧
      (∀ fuel, world.bindConfigured fuel store configuration files base project =
        .ok (handle, match configuration.defaultLocale with
          | some code => bound.perform fuel (.fire store code .done)
          | none => .returned bound)) ∧
      ∀ next rest,
        (world.carrying (.bindConfigured store configuration files base project next) rest).Run
          [.listened store (.binding handle.binding)]
          (bound.carrying (match configuration.defaultLocale with
            | some code => .fire store code (next (.ok handle))
            | none => next (.ok handle)) rest) := by
  refine ⟨_, _, attached_iff.mpr rfl, fun fuel => ?_, fun next rest => ?_⟩
  · simp only [bindConfigured, loaded]
    rfl
  · simp only [Script.bindConfigured, loaded]
    exact (run_noteAll _ _).trans (run_bind store _ fragments _)

end Configured

/-- What comes of binding values. It fails when one of them cannot be read, and goes on at once
without a step. Otherwise one binding of all fragments is attached, and no event is told besides. -/
structure World.BindsJson (world : World μ) (store : Nat) (values : List Json.Value) : Prop where
  fails_iff : (∃ fault, world.bindJson store values = .error fault) ↔
    ∃ value ∈ values, ∃ fault, Fragment.ofJson value = .error fault
  fails : ∀ fault, world.bindJson store values = .error fault →
    ∀ next : Except Fault Handle → Script μ, .bindJson store values next = next (.error fault)
  binds : ∀ handle bound, world.bindJson store values = .ok (handle, bound) →
    ∃ fragments,
      List.Forall₂ (fun value fragment => Fragment.ofJson value = .ok fragment)
        values fragments ∧
      world.Attached store none fragments [] handle bound ∧
      ∀ next rest, (world.carrying (.bindJson store values next) rest).Run
        [.listened store (.binding handle.binding)] (bound.carrying (next (.ok handle)) rest)

theorem World.bindsJson (world : World μ) (store : Nat) (values : List Json.Value) :
    world.BindsJson store values where
  fails_iff := by
    simp only [bindJson_eq_error_iff]
    exact exists_mapM_eq_error_iff
  fails := by
    intro fault failed next
    simp only [Script.bindJson, bindJson_eq_error_iff.mp failed]
  binds := by
    intro handle bound initialized
    obtain ⟨fragments, read, attached⟩ := bindJson_eq_ok_iff.mp initialized
    refine ⟨fragments, mapM_eq_ok_iff.mp read, attached_iff.mpr ?_, fun next rest => ?_⟩
    · rw [report_nil]
      exact attached
    · obtain ⟨rfl, rfl⟩ := Prod.mk.inj attached
      simp only [Script.bindJson, read]
      exact run_bind store none fragments _

/-- What comes of binding what a configuration points to. It fails when that cannot be read, with
nothing changed but what was reported. Otherwise one binding of all fragments is attached, and only
then the default locale is requested, if there is one; no event is told besides. -/
structure World.BindsConfigured (world : World μ) (store : Nat) (configuration : Configuration)
    (files : Files.Entry) (base project : Option Files.Path) : Prop where
  fails_iff : ∀ fuel,
    (∃ failure,
      world.bindConfigured fuel store configuration files base project = .error failure) ↔
    ∃ fault, (configuration.loadFragments files base project).value = .error fault
  fails : ∀ fault, (configuration.loadFragments files base project).value = .error fault →
    ∃ told, world.LeftAlone told ∧
      (∀ fuel, world.bindConfigured fuel store configuration files base project =
        .error (fault, told)) ∧
      ∀ next rest,
        (world.carrying (.bindConfigured store configuration files base project next) rest).Run []
          (told.carrying (next (.error fault)) rest)
  binds : ∀ fragments, (configuration.loadFragments files base project).value = .ok fragments →
    ∃ handle bound, world.Attached store configuration.fallbackLocale fragments
        (configuration.loadFragments files base project).notices handle bound ∧
      (configuration.defaultLocale = none →
        (∀ fuel, world.bindConfigured fuel store configuration files base project =
          .ok (handle, .returned bound)) ∧
        ∀ next rest,
          (world.carrying (.bindConfigured store configuration files base project next) rest).Run
            [.listened store (.binding handle.binding)]
            (bound.carrying (next (.ok handle)) rest)) ∧
      ∀ code, configuration.defaultLocale = some code →
        (∀ fuel, world.bindConfigured fuel store configuration files base project =
          .ok (handle, bound.perform fuel (.fire store code .done))) ∧
        (∀ next rest,
          (world.carrying (.bindConfigured store configuration files base project next) rest).Run
            [.listened store (.binding handle.binding)]
            (bound.carrying (.fire store code (next (.ok handle))) rest)) ∧
        bound.Applies store code
          ⟨some code, some ⟨Registry.merge fragments, code, configuration.fallbackLocale⟩⟩

namespace History

variable {blank : μ} {earlier : List (Event μ)} {machine : Machine μ}

theorem bindsConfigured (history : History (World.initial blank) earlier machine) {store : Nat}
    (idle : (machine.world.stores store).dispatching = false) (configuration : Configuration)
    (files : Files.Entry) (base project : Option Files.Path) :
    machine.world.BindsConfigured store configuration files base project where
  fails_iff := by
    intro fuel
    cases read : (configuration.loadFragments files base project).value with
    | error fault =>
        obtain ⟨failed, -⟩ := World.bindConfigured_of_error read machine.world store
        exact iff_of_true ⟨_, failed fuel⟩ ⟨fault, rfl⟩
    | ok fragments =>
        obtain ⟨handle, bound, -, done, -⟩ :=
          World.bindConfigured_of_ok read machine.world store
        refine iff_of_false ?_ (by simp)
        rintro ⟨failure, failed⟩
        cases (done fuel).symm.trans failed
  fails := by
    intro fault read
    obtain ⟨failed, run⟩ := World.bindConfigured_of_error read machine.world store
    have reading := configuration.ofLoading_loadFragments files base project
    exact ⟨_, World.leftAlone_report reading, failed, run⟩
  binds := by
    intro fragments read
    obtain ⟨handle, bound, attached, done, run⟩ :=
      World.bindConfigured_of_ok read machine.world store
    refine ⟨handle, bound, attached, fun missing => ?_, fun code given => ?_⟩
    · rw [missing] at done run
      exact ⟨done, run⟩
    · rw [given] at done run
      exact ⟨done, run, attached.applies history idle code⟩

/-- Initialization, at any moment at which the store is not dispatching and in whatever is under
way. It fails when some value, or the directory, cannot be read, and then no event is told and all
stores are as they were. Otherwise one binding of all fragments is attached behind the listeners
that are there; no event is told besides, but that the default locale of a configuration is
requested after it. When nobody disturbs that request, it comes back with the store in that locale
and in the hands of the new binding. -/
theorem initializes_all_or_nothing
    (history : History (World.initial blank) earlier machine) {store : Nat}
    (idle : (machine.world.stores store).dispatching = false) :
    (∀ values, machine.world.BindsJson store values) ∧
    ∀ configuration files base project,
      machine.world.BindsConfigured store configuration files base project :=
  ⟨machine.world.bindsJson store, history.bindsConfigured idle⟩

/-- An older binding, a listener that brings another observer, and an observer that brings another
listener. -/
theorem initializes_all_or_nothing_behind_another_binding :
    let older : Binding := ⟨Registry.merge [], none⟩
    let watching : LocaleCode → Script Unit := fun _ => .subscribe 0 (fun _ => .done) .done
    let looking : State → Script Unit := fun _ => .get 0 fun _ => .onLocale 0 (fun _ => .done) .done
    let first := Machine.start (World.initial ())
      (.attach 0 older (.onLocale 0 watching (.subscribe 0 looking .done)))
    let world := (first.run 4).world
    let good : Json.Value := .object ⟨[("en", .object ⟨[("a", .string "x")]⟩)]⟩
    let configuration : Configuration := ⟨"l", some ⟨"de"⟩, some ⟨"en"⟩⟩
    let root : Files.Path := .ofString "/"
    let files : Files.Entry := .directory [(Text.toUtf8 "l", .directory [(Text.toUtf8 "en",
      .directory [(Text.toUtf8 "a.json", .file (Text.toUtf8 "\x7b\"a\":\"x\"\x7d"))])])]
    let merged : Registry := ⟨⟨[(⟨"en"⟩, ⟨[("a", .leaf "x")]⟩)]⟩⟩
    (world.stores 0).dispatching = false ∧
      (∃ fault, world.bindJson 0 [good, .null] = .error fault) ∧
      (∃ failure, world.bindConfigured 9 0 configuration files none none = .error failure) ∧
      ∃ enough after,
        after.state 0 = ⟨some ⟨"de"⟩, some ⟨merged, ⟨"de"⟩, some ⟨"en"⟩⟩⟩ ∧
        ∀ fuel, enough ≤ fuel →
          world.bindConfigured fuel 0 configuration files (some root) none =
            .ok (⟨0, merged, some ⟨"en"⟩⟩, .returned after) := by
  intro older watching looking first world good configuration root files merged
  have history : History (World.initial ()) (first.trace 4) (first.run 4) :=
    (History.start.call _ rfl).append (first.run_trace 4)
  have idle : (world.stores 0).dispatching = false := rfl
  obtain ⟨values, configured⟩ := history.initializes_all_or_nothing idle
  let fragments : List Fragment := [⟨⟨[(⟨"en"⟩, ⟨[("a", .leaf "x")]⟩)]⟩⟩]
  have loaded : (configuration.loadFragments files (some root) none).value = .ok fragments := by
    apply toOption_eq_some_iff.mp
    simp only [configuration, root, files, fragments, Configuration.loadFragments,
      Configuration.localesPath, Files.Path.ofString, Text.toUtf8_eq]
    decide +kernel
  have whole : Registry.merge fragments = merged := by decide
  refine ⟨idle, ?_, ?_, ?_⟩
  · exact (values [good, .null]).fails_iff.mpr ⟨.null, by simp, _, rfl⟩
  · exact ((configured configuration files none none).fails_iff 9).mpr ⟨_, rfl⟩
  · obtain ⟨handle, bound, attached, -, requested⟩ :=
      (configured configuration files (some root) none).binds fragments loaded
    obtain ⟨done, -, applies⟩ := requested ⟨"de"⟩ rfl
    obtain ⟨rfl, rfl⟩ := Prod.mk.inj (World.attached_iff.mp attached)
    let told := world.report (configuration.loadFragments files (some root) none).notices
    let bound := (told.bind 0 (some ⟨"en"⟩) fragments).2
    let requesting := bound.carrying (.fire 0 ⟨"de"⟩ .done) []
    have ended : (requesting.run 30).frames.isEmpty = true := by decide +kernel
    have linked : (requesting.trace 30).IsChain fun before told => before.Linked told = true := by
      decide +kernel
    have opening : requesting.trace 30 = .fired 0 ⟨"de"⟩ :: (requesting.trace 30).tail := rfl
    rw [opening] at linked
    have undisturbed (steps : Nat) : Undisturbed (requesting.trace steps) := by
      refine .of_beginning ?_ (trace_prefix_of_ended (List.isEmpty_iff.mp ended) steps)
      rw [opening]
      exact undisturbed_of_isChain linked
    obtain ⟨enough, after, returned, state⟩ := applies.outside undisturbed
    rw [whole] at state
    refine ⟨enough, after, state, fun fuel more => ?_⟩
    rw [done, returned fuel more, whole]

end History

end MessageCatalog

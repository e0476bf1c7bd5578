import MessageCatalog.Store.World

/-!
How stores run. A request made of a store that is dispatching only joins its queue; otherwise
the queue is worked off, and each request is dispatched to the listeners that are registered
when its dispatch begins. Setting a state shows it at once to the observers registered at that
moment. A panic ends everything that is under way and releases the stores it was dispatching
in.

A machine is a world with the activities under way, the innermost first. It advances in small
steps, so that what holds between any two operations of any callback can be stated.
-/

namespace MessageCatalog

variable {μ : Type}

/-- An activity under way, with what is left of it. -/
inductive Frame (μ : Type) where
  /-- A callback, or the call from outside. -/
  | body (script : Script μ)
  /-- The observers that are still to be shown a state. -/
  | notify (store : Nat) (state : State) (waiting : List (Observer μ))
  /-- The listeners that are still to be told of a request. -/
  | deliver (store : Nat) (code : LocaleCode) (waiting : List (Listener μ))
  /-- The dispatch of one queued request of a store after another. -/
  | drain (store : Nat)

structure Machine (μ : Type) where
  world : World μ
  frames : List (Frame μ)
  /-- The message of the panic that ended the run, if one did. -/
  panicked : Option String

/-- A panic leaves an activity: only a store that was dispatching is changed. -/
def World.leave (world : World μ) (frame : Frame μ) : World μ :=
  match frame with
  | .drain store => world.update store Store.release
  | _ => world

namespace Machine

def stepScript (world : World μ) (rest : List (Frame μ)) : Script μ → Machine μ
  | .done => ⟨world, rest, none⟩
  | .panic message => ⟨rest.foldl World.leave world, [], some message⟩
  | .note notice next => ⟨world.report [notice], .body next :: rest, none⟩
  | .recall notebook next => ⟨world, .body (next (world.notebooks notebook)) :: rest, none⟩
  | .remember notebook content next => ⟨world.write notebook content, .body next :: rest, none⟩
  | .get store next => ⟨world, .body (next (world.state store)) :: rest, none⟩
  | .set store state next =>
    ⟨world.update store fun old => { old with state := state },
      .notify store state (world.stores store).observers :: .body next :: rest, none⟩
  | .fire store code next =>
    let queued := world.update store fun old => old.enqueue code
    if (world.stores store).dispatching then ⟨queued, .body next :: rest, none⟩
    else ⟨queued.update store fun old => { old with dispatching := true },
      .drain store :: .body next :: rest, none⟩
  | .onLocale store react next =>
    ⟨world.update store fun old => old.addListener (.custom react), .body next :: rest, none⟩
  | .attach store binding next =>
    ⟨world.update store fun old => old.addListener (.binding binding), .body next :: rest, none⟩
  | .subscribe store react next =>
    ⟨world.update store fun old => old.addObserver react, .body next :: rest, none⟩

/-- Takes the next request from the queue of a store, or ends its dispatch. -/
def stepDrain (world : World μ) (rest : List (Frame μ)) (store : Nat) : Machine μ :=
  match (world.stores store).pending with
  | [] => ⟨world.update store fun old => { old with dispatching := false }, rest, none⟩
  | code :: later =>
    let listeners := (world.stores store).listeners
    let taken := world.update store fun old => { old with pending := later }
    let heard := if listeners.isEmpty then taken.report [.unheard code] else taken
    ⟨heard, .deliver store code listeners :: .drain store :: rest, none⟩

def step? (machine : Machine μ) : Option (Machine μ) :=
  match machine.frames with
  | [] => none
  | .body script :: rest => some (stepScript machine.world rest script)
  | .notify _ _ [] :: rest => some ⟨machine.world, rest, none⟩
  | .notify store state (observer :: waiting) :: rest =>
    some ⟨machine.world, .body (observer state) :: .notify store state waiting :: rest, none⟩
  | .deliver _ _ [] :: rest => some ⟨machine.world, rest, none⟩
  | .deliver store code (listener :: waiting) :: rest =>
    some ⟨machine.world,
      .body (listener.script store code) :: .deliver store code waiting :: rest, none⟩
  | .drain store :: rest => some (stepDrain machine.world rest store)

/-- The call of a script from outside, with nothing else under way. -/
def start (world : World μ) (script : Script μ) : Machine μ := ⟨world, [.body script], none⟩

def run : Nat → Machine μ → Machine μ
  | 0, machine => machine
  | fuel + 1, machine =>
    match machine.step? with
    | none => machine
    | some next => run fuel next

/-- The calls under way have ended, with or without a panic. -/
def Ended (machine : Machine μ) : Prop := machine.frames = []

end Machine

inductive Outcome (μ : Type) where
  | returned (world : World μ)
  | panicked (world : World μ) (message : String)
  /-- It has not ended within the steps that were allowed. -/
  | unfinished (world : World μ)

namespace Outcome

def world : Outcome μ → World μ
  | returned world => world
  | panicked world _ => world
  | unfinished world => world

def ofMachine (machine : Machine μ) : Outcome μ :=
  match machine.frames, machine.panicked with
  | _ :: _, _ => unfinished machine.world
  | [], none => returned machine.world
  | [], some message => panicked machine.world message

end Outcome

def World.perform (fuel : Nat) (world : World μ) (script : Script μ) : Outcome μ :=
  .ofMachine ((Machine.start world script).run fuel)

end MessageCatalog

import MessageCatalog.Store.Script

/-!
Stores and what surrounds them. A store holds its current state, those who listen for requests
and those who observe states, the requests that wait, and whether one is being dispatched. A
world is a family of stores, all empty at first, with the notebooks of the callbacks and the
notices reported so far.
-/

namespace MessageCatalog

variable {μ : Type}

inductive Listener (μ : Type) where
  | binding (binding : Binding)
  | custom (react : LocaleCode → Script μ)

def Listener.script (listener : Listener μ) (store : Nat) (code : LocaleCode) : Script μ :=
  match listener with
  | .binding attached => attached.script store code
  | .custom react => react code

/-- An observer is known by what it does when it is shown a state. -/
abbrev Observer (μ : Type) := State → Script μ

structure Store (μ : Type) where
  state : State
  listeners : List (Listener μ)
  observers : List (Observer μ)
  pending : List LocaleCode
  dispatching : Bool

namespace Store

def empty : Store μ := ⟨State.initial, [], [], [], false⟩

instance : Inhabited (Store μ) := ⟨empty⟩

def addListener (store : Store μ) (listener : Listener μ) : Store μ :=
  { store with listeners := store.listeners ++ [listener] }

def addObserver (store : Store μ) (observer : Observer μ) : Store μ :=
  { store with observers := store.observers ++ [observer] }

def enqueue (store : Store μ) (code : LocaleCode) : Store μ :=
  { store with pending := store.pending ++ [code] }

/-- What a panic leaves of a store whose dispatch it ends: the queue is dropped and nothing is
under way, but state, listeners and observers stay. -/
def release (store : Store μ) : Store μ := { store with pending := [], dispatching := false }

end Store

structure World (μ : Type) where
  stores : Nat → Store μ
  notebooks : Nat → μ
  notices : List Notice

namespace World

def initial (blank : μ) : World μ := ⟨fun _ => .empty, fun _ => blank, []⟩

def update (world : World μ) (store : Nat) (change : Store μ → Store μ) : World μ :=
  let changed := change (world.stores store)
  { world with stores := fun other => if other = store then changed else world.stores other }

def write (world : World μ) (notebook : Nat) (content : μ) : World μ :=
  { world with notebooks := fun other => if other = notebook then content else world.notebooks other }

def report (world : World μ) (notices : List Notice) : World μ :=
  { world with notices := world.notices ++ notices }

def state (world : World μ) (store : Nat) : State := (world.stores store).state

@[simp] theorem update_stores (world : World μ) (store other : Nat)
    (change : Store μ → Store μ) :
    (world.update store change).stores other =
      if other = store then change (world.stores store) else world.stores other := rfl

end World

end MessageCatalog

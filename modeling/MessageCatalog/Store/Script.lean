import MessageCatalog.Translator

/-!
What callbacks do. A store is told of locale requests by its users and tells its listeners and
observers; what those do in turn is a script: a finite sequence of operations on stores in
which every operation may depend on what the earlier ones returned. Callbacks keep what they
want to remember in numbered notebooks, of which they may use one alone or share one.
-/

namespace MessageCatalog

/-- What a store publishes. Both parts are missing until a locale has been applied. -/
structure State where
  locale : Option LocaleCode
  translator : Option Translator

namespace State

def initial : State := ⟨none, none⟩

instance : Inhabited State := ⟨initial⟩

end State

/-- A registry that is to be applied to the locales requested of a store. -/
structure Binding where
  registry : Registry
  fallback : Option LocaleCode

namespace Binding

def translator (binding : Binding) (code : LocaleCode) : Translator :=
  ⟨binding.registry, code, binding.fallback⟩

def state (binding : Binding) (code : LocaleCode) : State := ⟨some code, some (binding.translator code)⟩

end Binding

/-- A sequence of operations; `μ` is what a notebook holds. -/
inductive Script (μ : Type) where
  | done
  /-- Gives up; every callback and call under way ends. -/
  | panic (message : String)
  | note (notice : Notice) (next : Script μ)
  | recall (notebook : Nat) (next : μ → Script μ)
  | remember (notebook : Nat) (content : μ) (next : Script μ)
  /-- Asks for the current state of a store. -/
  | get (store : Nat) (next : State → Script μ)
  /-- Replaces the state of a store and tells its observers before going on. -/
  | set (store : Nat) (state : State) (next : Script μ)
  /-- Requests a locale of a store. -/
  | fire (store : Nat) (code : LocaleCode) (next : Script μ)
  /-- Registers a listener for the locales requested of a store. -/
  | onLocale (store : Nat) (react : LocaleCode → Script μ) (next : Script μ)
  /-- Registers the listener that applies a binding to the locales requested of a store. -/
  | attach (store : Nat) (binding : Binding) (next : Script μ)
  /-- Registers an observer of the states of a store. -/
  | subscribe (store : Nat) (react : State → Script μ) (next : Script μ)

namespace Script

variable {μ : Type}

def noteAll (notices : List Notice) (next : Script μ) : Script μ := notices.foldr note next

end Script

/-- What a binding does when a locale is requested: it publishes that locale with a translator
of its own. -/
def Binding.script {μ : Type} (binding : Binding) (store : Nat) (code : LocaleCode) : Script μ :=
  .note (.applying code) (.set store (binding.state code) .done)

end MessageCatalog

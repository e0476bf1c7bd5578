import MessageCatalog.LocaleFiles
import MessageCatalog.Store.Machine

/-!
Bindings. Binding fragments to a store merges them and attaches a listener that applies every
requested locale; the handle that results reads the current state of the store.
-/

namespace MessageCatalog

variable {μ : Type}

structure Handle where
  store : Nat
  binding : Binding

def World.bind (world : World μ) (store : Nat) (fallback : Option LocaleCode)
    (fragments : List Fragment) : Handle × World μ :=
  let binding : Binding := ⟨Registry.merge fragments, fallback⟩
  (⟨store, binding⟩,
    (world.report [Registry.mergeNotice fragments]).update store fun old =>
      old.addListener (.binding binding))

/-- Reads all fragments, then binds them; the first fault prevents everything. -/
def World.bindJson (world : World μ) (store : Nat) (values : List Json.Value) :
    Except Fault (Handle × World μ) := do
  let fragments ← values.mapM Fragment.ofJson
  return world.bind store none fragments

def bindingFaultMessage (fault : Fault) : String := "Invalid locale fragment: " ++ fault.message

namespace Handle

def state (handle : Handle) (world : World μ) : State := world.state handle.store

def locale (handle : Handle) (world : World μ) : Option LocaleCode := (handle.state world).locale

def translator (handle : Handle) (world : World μ) : Option Translator :=
  (handle.state world).translator

/-- Applies the current translator to `key`; while there is none, the key is the result. -/
def renderWith (handle : Handle) (world : World μ) (key : String)
    (render : Translator → Noted String) : Noted String :=
  match handle.translator world with
  | some translator => render translator
  | none => ⟨key, []⟩

def translate (handle : Handle) (world : World μ) (key : String) (arguments : Option Arguments) :
    Noted String :=
  handle.renderWith world key fun translator => translator.translate key arguments

def plural (handle : Handle) (world : World μ) (key : String) (quantity : Float) : Noted String :=
  handle.renderWith world key fun translator => translator.plural key quantity

/-- Requests a locale of the store; any code is accepted. -/
def requestLocale (handle : Handle) (code : LocaleCode) : Script μ :=
  .fire handle.store code .done

end Handle

/-- Loads the files that a configuration points to, binds them with its fallback locale, and
requests its default locale, if it has one. If loading fails nothing is bound; the world then
differs only in what was reported. -/
def World.bindConfigured (fuel : Nat) (world : World μ) (store : Nat)
    (configuration : Configuration) (files : Files.Entry) (base project : Option Files.Path) :
    Except (ConfigurationFault × World μ) (Handle × Outcome μ) :=
  let loaded := configuration.loadFragments files base project
  let told := world.report loaded.notices
  match loaded.value with
  | .error fault => .error (fault, told)
  | .ok fragments =>
    let (handle, bound) := told.bind store configuration.fallbackLocale fragments
    .ok (handle, match configuration.defaultLocale with
      | some code => bound.perform fuel (handle.requestLocale code)
      | none => .returned bound)

end MessageCatalog

import MessageCatalog.Fragment
import MessageCatalog.Key
import MessageCatalog.Notice
import MessageCatalog.Tree.Merge

/-!
Registries: the merged messages of every known locale. Locales keep the order in which they
were first contributed, and of two conflicting messages the later one stands.
-/

namespace MessageCatalog

structure Registry where
  locales : OrderedMap LocaleCode Namespace
  deriving DecidableEq

namespace Registry

def empty : Registry := ⟨.empty⟩

instance : Inhabited Registry := ⟨empty⟩

def toList (registry : Registry) : List (LocaleCode × Namespace) := registry.locales.entries

def codes (registry : Registry) : List LocaleCode := registry.locales.keys

def size (registry : Registry) : Nat := registry.locales.size

def isEmpty (registry : Registry) : Bool := registry.locales.isEmpty

def get? (registry : Registry) (code : LocaleCode) : Option Namespace :=
  registry.locales.find? code

def contains (registry : Registry) (code : LocaleCode) : Bool := registry.locales.contains code

/-- Merges the messages of one locale into those that are known of it. -/
def extendLocale (registry : Registry) (code : LocaleCode) (messages : Namespace) : Registry :=
  ⟨registry.locales.insert code
    (match registry.get? code with
    | some known => known.merge messages
    | none => messages)⟩

def extend (registry : Registry) (fragment : Fragment) : Registry :=
  fragment.toList.foldl (fun registry entry => registry.extendLocale entry.1 entry.2) registry

def merge (fragments : List Fragment) : Registry := fragments.foldl extend empty

def mergeNotice (fragments : List Fragment) : Notice :=
  .merged fragments.length (merge fragments).size

/-- The message of `key` in the tree of a locale; none when either is unknown. -/
def resolve (registry : Registry) (code : LocaleCode) (key : String) : Option String :=
  (registry.get? code).bind fun messages => messages.resolve key

/-- Locale codes and, below them, names occur once each. -/
def WellFormed (registry : Registry) : Prop :=
  registry.locales.Distinct ∧ ∀ entry ∈ registry.toList, entry.2.DistinctNames

def toJson (registry : Registry) : Json.Value := Fragment.localesToJson registry.toList

end Registry

end MessageCatalog

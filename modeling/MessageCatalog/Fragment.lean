import MessageCatalog.LocaleCode
import MessageCatalog.Tree.Json

/-!
Fragments: the messages that one source contributes to one or more locales.
-/

namespace MessageCatalog

open Json (Value)

structure Fragment where
  locales : OrderedMap LocaleCode Namespace
  deriving DecidableEq

namespace Fragment

def empty : Fragment := ⟨.empty⟩

instance : Inhabited Fragment := ⟨empty⟩

/-- Sets the messages of a locale; a locale that is known keeps its position. -/
def insert (fragment : Fragment) (code : LocaleCode) (messages : Namespace) : Fragment :=
  ⟨fragment.locales.insert code messages⟩

def get? (fragment : Fragment) (code : LocaleCode) : Option Namespace :=
  fragment.locales.find? code

def toList (fragment : Fragment) : List (LocaleCode × Namespace) := fragment.locales.entries

def ofList (pairs : List (LocaleCode × Namespace)) : Fragment := ⟨OrderedMap.ofList pairs⟩

/-- Locale codes and, below them, names occur once each. -/
def WellFormed (fragment : Fragment) : Prop :=
  fragment.locales.Distinct ∧ ∀ entry ∈ fragment.toList, entry.2.DistinctNames

instance (fragment : Fragment) : Decidable fragment.WellFormed :=
  inferInstanceAs (Decidable (_ ∧ ∀ entry ∈ fragment.toList, entry.2.DistinctNames))

/-- Reads the members of a fragment, each a locale with its namespace. -/
def localesOfJson : List (String × Value) → Except Fault (List (LocaleCode × Namespace))
  | [] => .ok []
  | (code, value) :: rest => do
    let messages ← match value with
      | .object members => Namespace.ofMembers members
      | other => .error (.localeNotObject code other.kind)
    let locales ← localesOfJson rest
    return (⟨code⟩, messages) :: locales

/-- Reads a fragment: an object whose members are locales and whose values are namespaces. -/
def ofJson : Value → Except Fault Fragment
  | .object members => (localesOfJson members.entries).map fun locales => ⟨⟨locales⟩⟩
  | other => .error (.rootNotObject other.kind)

def localesToJson (locales : List (LocaleCode × Namespace)) : Value :=
  .object ⟨locales.map fun (code, messages) => (code.text, messages.toJson)⟩

def toJson (fragment : Fragment) : Value := localesToJson fragment.toList

end Fragment

end MessageCatalog

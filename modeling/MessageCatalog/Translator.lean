import MessageCatalog.Plural
import MessageCatalog.Registry
import MessageCatalog.Template

/-!
Translators: a registry seen from an active locale. With a fallback locale, a key that the
active locale lacks is looked up in its primary language and then in the fallback. Translating
never fails: a key that is found nowhere stands for itself, and that is noted.
-/

namespace MessageCatalog

structure Translator where
  registry : Registry
  locale : LocaleCode
  fallback : Option LocaleCode

namespace Translator

/-- The message in the primary language of the active locale, unless that is the fallback. -/
def primaryMessage? (translator : Translator) (fallback : LocaleCode) (key : String) :
    Option String :=
  match translator.locale.primaryLanguage? with
  | some primary =>
    if primary = fallback then none else translator.registry.resolve primary key
  | none => none

def lookup (translator : Translator) (key : String) : Option String :=
  match translator.registry.resolve translator.locale key with
  | some message => some message
  | none =>
    match translator.fallback with
    | none => none
    | some fallback =>
      match translator.primaryMessage? fallback key with
      | some message => some message
      | none =>
        if fallback = translator.locale then none
        else translator.registry.resolve fallback key

/-- Applies `render` to the message for `key`; without one the key is the result. -/
def renderWith (translator : Translator) (key : String) (render : String → String) :
    Noted String :=
  match translator.lookup key with
  | some message => ⟨render message, []⟩
  | none => ⟨key, [.missing key translator.locale]⟩

def translate (translator : Translator) (key : String) (arguments : Option Arguments) :
    Noted String :=
  translator.renderWith key fun message => interpolate message arguments

def plural (translator : Translator) (key : String) (quantity : Float) : Noted String :=
  translator.renderWith key fun message => Plural.select message quantity

end Translator

end MessageCatalog

import MessageCatalog.LocaleCode

/-!
Notices: what the catalog reports about its own work, each with a level, a sentence and named
details.
-/

namespace MessageCatalog

inductive Notice where
  /-- Fragments were merged into a registry of so many locales. -/
  | merged (fragments locales : Nat)
  /-- No message was found for a key in a locale or its fallbacks. -/
  | missing (key : String) (locale : LocaleCode)
  /-- A locale was requested while nobody listened. -/
  | unheard (locale : LocaleCode)
  /-- A binding is about to apply a requested locale. -/
  | applying (locale : LocaleCode)
  /-- So many locale directories were found below a path. -/
  | discovered (count : Nat) (path : String)
  /-- A file with messages of a locale was read. -/
  | loaded (locale : LocaleCode) (file : String)
  deriving DecidableEq, Repr

namespace Notice

inductive Level where
  | debug
  | info
  | warn
  deriving DecidableEq, Repr

def level : Notice → Level
  | merged _ _ => .debug
  | missing _ _ => .warn
  | unheard _ => .warn
  | applying _ => .debug
  | discovered _ _ => .info
  | loaded _ _ => .debug

def message : Notice → String
  | merged _ _ => "Merged locale fragments"
  | missing key locale =>
    "Translation for '" ++ key ++ "' not found in locale '" ++ locale.text ++ "'"
  | unheard locale =>
    "Locale '" ++ locale.text ++ "' requested before any i18n binding was attached"
  | applying _ => "Applying locale change"
  | discovered count path => "Discovered " ++ toString count ++ " locale(s) in '" ++ path ++ "'"
  | loaded _ _ => "Loaded locale file"

def details : Notice → List (String × String)
  | merged fragments locales =>
    [("fragments", toString fragments), ("locales", toString locales)]
  | applying locale => [("locale", locale.text)]
  | loaded locale file => [("locale", locale.text), ("file", file)]
  | _ => []

end Notice

/-- A result together with what was reported on the way to it. -/
structure Noted (α : Type) where
  value : α
  notices : List Notice

end MessageCatalog

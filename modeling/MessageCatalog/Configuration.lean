import MessageCatalog.Files.Tree
import MessageCatalog.Fragment
import MessageCatalog.Toml.Document

/-!
The configuration of a project: where its locales are, which one is active at first and which
one to fall back to. It is read from a TOML file, by default the one in the project directory.
-/

namespace MessageCatalog

open Files (Entry Path)

structure Configuration where
  localesDir : String
  defaultLocale : Option LocaleCode
  fallbackLocale : Option LocaleCode
  deriving DecidableEq, Repr

inductive ConfigurationFault where
  /-- There is no configuration file, or no project directory to look in. -/
  | notFound
  | unreadable (failure : Files.Failure)
  /-- The configuration file is no TOML or lacks what it needs. -/
  | unparsable
  | invalidJson (file : Path)
  | invalidTree (file : Path) (fault : Fault)
  /-- The name of a locale directory is not UTF-8. -/
  | invalidDirectory (name : Files.Name)
  deriving DecidableEq, Repr

/-- The sentence for a fault, where it does not depend on the system or on a parser. -/
def ConfigurationFault.message? : ConfigurationFault → Option String
  | notFound => some "i18n.toml configuration file not found"
  | unreadable _ => none
  | unparsable => none
  | invalidJson file => some ("Failed to parse locale file '" ++ file.display ++ "'")
  | invalidTree file _ => some ("Invalid message tree in '" ++ file.display ++ "'")
  | invalidDirectory name =>
    some ("Locales directory contains a non UTF-8 entry: " ++ Text.ofUtf8Lenient name)

namespace Configuration

def fileName : Path := .ofString "i18n.toml"

/-- A string under a key that may be missing; the outer none stands for another kind of value. -/
def optionalText (table : OrderedMap String Toml.Value) (key : String) : Option (Option String) :=
  match table.find? key with
  | none => some none
  | some value => value.text?.map some

/-- The configuration in a table; keys that are not known are ignored. -/
def ofTable? (table : OrderedMap String Toml.Value) : Option Configuration := do
  let localesDir ← (← table.find? "locales_dir").text?
  let defaultLocale ← optionalText table "default_locale"
  let fallbackLocale ← optionalText table "fallback_locale"
  return ⟨localesDir, defaultLocale.map LocaleCode.mk, fallbackLocale.map LocaleCode.mk⟩

def ofToml? (text : String) : Option Configuration := (Toml.parse? text).bind ofTable?

def read (files : Entry) (path : Path) : Except ConfigurationFault Configuration :=
  if files.contains path then
    match files.readText path with
    | .error failure => .error (.unreadable failure)
    | .ok text =>
      match ofToml? text with
      | some configuration => .ok configuration
      | none => .error .unparsable
  else .error .notFound

def readIn (files : Entry) (directory : Path) : Except ConfigurationFault Configuration :=
  read files (directory.join fileName)

/-- The given directory, or else the project directory, if there is one. -/
def baseOr (base project : Option Path) : Except ConfigurationFault Path :=
  match base.or project with
  | some directory => .ok directory
  | none => .error .notFound

def readProject (files : Entry) (project : Option Path) : Except ConfigurationFault Configuration := do
  readIn files (← baseOr none project)

/-- The directory of the locales: below `base`, or else below the project directory. -/
def localesPath (configuration : Configuration) (base project : Option Path) :
    Except ConfigurationFault Path := do
  return (← baseOr base project).join (.ofString configuration.localesDir)

end Configuration

end MessageCatalog

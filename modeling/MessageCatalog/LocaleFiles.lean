import MessageCatalog.Configuration
import MessageCatalog.Json.Reader
import MessageCatalog.Notice

/-!
Loading locale files. Every directory below the locales directory is a locale, and every
regular file in it with the extension `json` holds messages of it. Locales are visited in the
order of their codes and the files of one locale in the order of the bytes of their names, so
that the order in which directories are listed does not matter. Loading stops at the first file
that cannot be read, and what was reported until then is kept.
-/

namespace MessageCatalog

open Files (Entry Name Path)

/-- Something that may fail, with what was reported until then. -/
abbrev Attempt (α : Type) := Noted (Except ConfigurationFault α)

namespace Attempt

variable {α β : Type}

def fail (fault : ConfigurationFault) : Attempt α := ⟨.error fault, []⟩

def ofExcept (result : Except ConfigurationFault α) : Attempt α := ⟨result, []⟩

def andThen (first : Attempt α) (next : α → Attempt β) : Attempt β :=
  match first.value with
  | .error fault => ⟨.error fault, first.notices⟩
  | .ok value =>
    let second := next value
    ⟨second.value, first.notices ++ second.notices⟩

/-- The results for all items, one after another, up to the first failure. -/
def each (work : α → Attempt β) : List α → Attempt (List β)
  | [] => ⟨.ok [], []⟩
  | item :: rest =>
    andThen (work item) fun result => andThen (each work rest) fun results =>
      ⟨.ok (result :: results), []⟩

end Attempt

namespace LocaleFiles

def isDirectory : Entry → Bool
  | .directory _ => true
  | _ => false

def isFile : Entry → Bool
  | .file _ => true
  | _ => false

def list (files : Entry) (path : Path) : Except ConfigurationFault (List (Name × Entry)) :=
  match files.readDirectory path with
  | .ok entries => .ok entries
  | .error failure => .error (.unreadable failure)

def codeOfName (name : Name) : Except ConfigurationFault LocaleCode :=
  match Text.ofUtf8? name with
  | some text => .ok ⟨text⟩
  | none => .error (.invalidDirectory name)

/-- The locales that have a directory among these entries, in order and without repetition. -/
def localesAmong (entries : List (Name × Entry)) : Except ConfigurationFault (List LocaleCode) := do
  let codes ← ((entries.filter fun entry => isDirectory entry.2).map Prod.fst).mapM codeOfName
  return (LocaleCode.sort codes).eraseReps

def available (files : Entry) (localesPath : Path) : Attempt (List LocaleCode) :=
  match (list files localesPath).bind localesAmong with
  | .error fault => .fail fault
  | .ok codes => ⟨.ok codes, [.discovered codes.length localesPath.display]⟩

def jsonExtension : Bytes := Text.toUtf8 "json"

def messageFilesAmong (entries : List (Name × Entry)) : List Name :=
  ((entries.filter fun entry => isFile entry.2 && Path.extension? entry.1 == some jsonExtension).map
    Prod.fst).mergeSort fun left right => decide (left ≤ right)

def readMessages (files : Entry) (file : Path) : Except ConfigurationFault Namespace :=
  match files.readText file with
  | .error failure => .error (.unreadable failure)
  | .ok text =>
    match Json.Value.parse? text with
    | none => .error (.invalidJson file)
    | some value =>
      match Namespace.ofJson value with
      | .error fault => .error (.invalidTree file fault)
      | .ok messages => .ok messages

def loadFile (files : Entry) (code : LocaleCode) (file : Path) : Attempt Fragment :=
  match readMessages files file with
  | .error fault => .fail fault
  | .ok messages => ⟨.ok (Fragment.empty.insert code messages), [.loaded code file.display]⟩

def loadLocale (files : Entry) (localesPath : Path) (code : LocaleCode) :
    Attempt (List Fragment) :=
  let directory := localesPath.join (.ofString code.text)
  Attempt.andThen (.ofExcept (list files directory)) fun entries =>
    Attempt.each (fun name => loadFile files code (directory.join ⟨name⟩))
      (messageFilesAmong entries)

/-- Reads all message files of all locales, each file as one fragment. -/
def load (files : Entry) (localesPath : Path) : Attempt (List Fragment) :=
  Attempt.andThen (available files localesPath) fun codes =>
    Attempt.andThen (Attempt.each (loadLocale files localesPath) codes) fun fragments =>
      ⟨.ok fragments.flatten, []⟩

end LocaleFiles

namespace Configuration

def availableLocales (configuration : Configuration) (files : Entry) (base project : Option Path) :
    Attempt (List LocaleCode) :=
  Attempt.andThen (.ofExcept (configuration.localesPath base project)) (LocaleFiles.available files)

def loadFragments (configuration : Configuration) (files : Entry) (base project : Option Path) :
    Attempt (List Fragment) :=
  Attempt.andThen (.ofExcept (configuration.localesPath base project)) (LocaleFiles.load files)

end Configuration

end MessageCatalog

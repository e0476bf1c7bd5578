import MessageCatalog.Text.Parts

/-!
Language tags. A tag begins with a language and may go on with a script, a region and variants, in
this order. Its subtags stand between hyphens or low lines, and their letters may have any case.
-/

namespace MessageCatalog

/-- A tag that has been read. Only the language is put into its normal form, which is lower case;
a tag that begins with `und` leaves the language open. -/
structure LanguageTag where
  language : Option (List Char)
  script : Option (List Char) := none
  region : Option (List Char) := none
  variants : List (List Char) := []
  deriving DecidableEq, Repr

namespace LanguageTag

def isAsciiLetter (c : Char) : Bool := ('a' ≤ c && c ≤ 'z') || ('A' ≤ c && c ≤ 'Z')

def isAsciiAlphanumeric (c : Char) : Bool := isAsciiLetter c || c.isDigit

def isSeparator (c : Char) : Bool := c == '-' || c == '_'

def isLanguage (subtag : List Char) : Bool :=
  subtag.all isAsciiLetter &&
    (subtag.length == 2 || subtag.length == 3 || (5 ≤ subtag.length && subtag.length ≤ 8))

def isScript (subtag : List Char) : Bool := subtag.length == 4 && subtag.all isAsciiLetter

def isRegion (subtag : List Char) : Bool :=
  (subtag.length == 2 && subtag.all isAsciiLetter) || (subtag.length == 3 && subtag.all Char.isDigit)

/-- Variants have four to eight ASCII characters, none of them NUL. With more than four all are
alphanumeric; with four it is enough that the first is a digit or that the others are
alphanumeric. -/
def isVariant (subtag : List Char) : Bool :=
  4 ≤ subtag.length && subtag.length ≤ 8 && subtag.all (fun c => 0 < c.toNat && c.toNat < 128) &&
    match subtag with
    | [first, second, third, fourth] =>
      first.isDigit || [second, third, fourth].all isAsciiAlphanumeric
    | _ => subtag.all isAsciiAlphanumeric

/-- How far a tag has been read: up to its language, up to its script, or further. -/
inductive Stage where
  | language
  | script
  | further
  deriving DecidableEq, Repr

/-- What stands for a language that is left open. -/
def undetermined : List Char := ['u', 'n', 'd']

def ofLanguage (subtag : List Char) : LanguageTag :=
  let normal := subtag.map Char.toLower
  { language := if normal = undetermined then none else some normal }

/-- Four letters after the language are a script, and a variant anywhere later. -/
def readSubtag? (tag : LanguageTag) (stage : Stage) (subtag : List Char) :
    Option (LanguageTag × Stage) :=
  if stage = .language ∧ isScript subtag then some ({ tag with script := some subtag }, .script)
  else if stage ≠ .further ∧ isRegion subtag then some ({ tag with region := some subtag }, .further)
  else if isVariant subtag then
    some ({ tag with variants := tag.variants ++ [subtag] }, .further)
  else none

def readSubtags? (tag : LanguageTag) (stage : Stage) : List (List Char) → Option LanguageTag
  | [] => some tag
  | subtag :: rest =>
    match tag.readSubtag? stage subtag with
    | some (longer, next) => longer.readSubtags? next rest
    | none => none

def subtags (text : List Char) : List (List Char) := Text.parts isSeparator text

def parse? (text : List Char) : Option LanguageTag :=
  match subtags text with
  | language :: rest =>
    if isLanguage language then (ofLanguage language).readSubtags? .language rest else none
  | [] => none

def languageText (tag : LanguageTag) : List Char := tag.language.getD undetermined

def hasSubtags (tag : LanguageTag) : Bool :=
  tag.script.isSome || tag.region.isSome || !tag.variants.isEmpty

end LanguageTag

end MessageCatalog

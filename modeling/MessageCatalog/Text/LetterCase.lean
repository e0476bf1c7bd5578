import MessageCatalog.Text.Blank
import MessageCatalog.Text.CaseMapping
import MessageCatalog.Text.CaseProperty

/-!
Letter case of whole texts. Upper and lower case use the full forms of each character, and a
capital sigma becomes final at the end of a word. Capital and title case raise first characters
and leave all others as they are.
-/

namespace MessageCatalog.Text

/-- The nearest character that is not ignorable for case is a cased letter. -/
def casedFollows (cs : List Char) : Bool :=
  match cs.dropWhile isCaseIgnorable with
  | c :: _ => isCased c
  | [] => false

/-- The lower case form of a text after `before`, whose last character comes first: a capital
sigma with a letter before it and none after it takes the final form. -/
def lowerAfter (before : List Char) : List Char → List Char
  | [] => []
  | c :: rest =>
    let form :=
      if c = 'Σ' then
        if casedFollows before && !casedFollows rest then ['ς'] else ['σ']
      else lowerForm c
    form ++ lowerAfter (c :: before) rest

def capitalChars : List Char → List Char
  | [] => []
  | first :: rest => upperForm first ++ rest

/-- The first character of every word in upper case; `atStart` says whether a word may begin. -/
def titleChars (atStart : Bool) : List Char → List Char
  | [] => []
  | c :: rest =>
    if isBlank c then c :: titleChars true rest
    else if atStart then upperForm c ++ titleChars false rest
    else c :: titleChars false rest

end MessageCatalog.Text

namespace MessageCatalog

def upper (text : String) : String := String.ofList (text.toList.flatMap Text.upperForm)

def lower (text : String) : String := String.ofList (Text.lowerAfter [] text.toList)

def capital (text : String) : String := String.ofList (Text.capitalChars text.toList)

/-- The first character of every word in upper case; words are separated by blanks. -/
def title (text : String) : String := String.ofList (Text.titleChars true text.toList)

end MessageCatalog

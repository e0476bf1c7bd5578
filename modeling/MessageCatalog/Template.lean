import MessageCatalog.OrderedMap
import MessageCatalog.Text.Digits

/-!
Message templates. A slot is a token in braces that itself contains no brace; all other
characters of a message are literal. Filling puts the arguments into the slots, all at once:
what is put in is not scanned again, and a slot without an argument stays as it is.
-/

namespace MessageCatalog

/-- The values for the slots of a message, all by position or all by name. -/
inductive Arguments where
  | positional (values : List String)
  | named (values : OrderedMap String String)

namespace Arguments

def isEmpty : Arguments → Bool
  | positional values => values.isEmpty
  | named values => values.isEmpty

/-- The value for a token: a position is a non-empty run of digits, a name is the whole token. -/
def value? : Arguments → List Char → Option String
  | positional values, token => (Text.index? token).bind fun index => values[index]?
  | named values, token => values.find? (String.ofList token)

end Arguments

inductive Piece where
  | literal (c : Char)
  | slot (token : List Char)
  deriving DecidableEq, Repr

namespace Piece

def print : Piece → List Char
  | literal c => [c]
  | slot token => '{' :: token ++ ['}']

/-- The text that stands for the piece once the arguments are known. -/
def fill (arguments : Arguments) (piece : Piece) : List Char :=
  match piece with
  | literal _ => piece.print
  | slot token =>
    match arguments.value? token with
    | some value => value.toList
    | none => piece.print

end Piece

namespace Template

/-- The pieces of a text. After an opening brace, `opened` holds the characters since then, last
one first; they become literal when the text ends or when another brace is opened. -/
def pieces (opened : Option (List Char)) : List Char → List Piece
  | [] =>
    match opened with
    | none => []
    | some token => .literal '{' :: token.reverse.map .literal
  | c :: rest =>
    match opened with
    | none => if c = '{' then pieces (some []) rest else .literal c :: pieces none rest
    | some token =>
      if c = '}' then .slot token.reverse :: pieces none rest
      else if c = '{' then
        .literal '{' :: token.reverse.map .literal ++ pieces (some []) rest
      else pieces (some (c :: token)) rest

end Template

/-- The message with its slots filled. Without arguments it is left as it is. -/
def interpolate (message : String) (arguments : Option Arguments) : String :=
  match arguments with
  | none => message
  | some arguments =>
    if arguments.isEmpty then message
    else String.ofList ((Template.pieces none message.toList).flatMap (Piece.fill arguments))

end MessageCatalog

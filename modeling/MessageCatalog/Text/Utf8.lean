/-!
UTF-8. Bytes are read one after another; each well-formed sequence is a character, and each
longest start of a sequence that cannot go on is one malformed unit. Strict decoding refuses
malformed units, lenient decoding puts the replacement character for each.
-/

namespace MessageCatalog

abbrev Bytes := List UInt8

namespace Text

/-- A sequence that has begun: how many bytes are missing, between which bounds the next one
must lie, and the bits read so far. -/
structure OpenSequence where
  missing : Nat
  low : UInt8
  high : UInt8
  bits : Nat

def openSequence? (byte : UInt8) : Option OpenSequence :=
  let bits (mask : Nat) := byte.toNat - mask
  if 0xC2 ≤ byte && byte ≤ 0xDF then some ⟨1, 0x80, 0xBF, bits 0xC0⟩
  else if byte = 0xE0 then some ⟨2, 0xA0, 0xBF, 0⟩
  else if byte = 0xED then some ⟨2, 0x80, 0x9F, bits 0xE0⟩
  else if 0xE1 ≤ byte && byte ≤ 0xEF then some ⟨2, 0x80, 0xBF, bits 0xE0⟩
  else if byte = 0xF0 then some ⟨3, 0x90, 0xBF, 0⟩
  else if 0xF1 ≤ byte && byte ≤ 0xF3 then some ⟨3, 0x80, 0xBF, bits 0xF0⟩
  else if byte = 0xF4 then some ⟨3, 0x80, 0x8F, bits 0xF0⟩
  else none

def OpenSequence.push (sequence : OpenSequence) (byte : UInt8) : OpenSequence :=
  ⟨sequence.missing - 1, 0x80, 0xBF, sequence.bits * 64 + (byte.toNat - 0x80)⟩

/-- What a byte that continues nothing completes, with none for a malformed unit, and the
sequence that it begins. -/
def beginUnit (byte : UInt8) : List (Option Char) × Option OpenSequence :=
  if byte < 0x80 then ([some (Char.ofNat byte.toNat)], none)
  else match openSequence? byte with
    | some sequence => ([], some sequence)
    | none => ([none], none)

/-- What a byte completes after `opened`, and the sequence that is open then. A byte that cannot
continue the open sequence leaves that malformed and stands for itself. -/
def utf8Step (opened : Option OpenSequence) (byte : UInt8) :
    List (Option Char) × Option OpenSequence :=
  match opened with
  | none => beginUnit byte
  | some sequence =>
    if sequence.low ≤ byte && byte ≤ sequence.high then
      let longer := sequence.push byte
      if longer.missing = 0 then ([some (Char.ofNat longer.bits)], none) else ([], some longer)
    else (none :: (beginUnit byte).1, (beginUnit byte).2)

/-- The units of a text in UTF-8, with none for each malformed one; `opened` is the sequence
that has begun before these bytes. -/
def utf8Units (opened : Option OpenSequence) : Bytes → List (Option Char)
  | [] => if opened.isSome then [none] else []
  | byte :: rest =>
    let (units, next) := utf8Step opened byte
    units ++ utf8Units next rest

def ofUtf8? (bytes : Bytes) : Option String := ((utf8Units none bytes).mapM id).map String.ofList

/-- The text that the bytes encode, with U+FFFD for each malformed unit. -/
def ofUtf8Lenient (bytes : Bytes) : String :=
  String.ofList ((utf8Units none bytes).map fun unit => unit.getD '\uFFFD')

def toUtf8 (text : String) : Bytes := text.toUTF8.toList

/-- The number of bytes that a text takes up. -/
def byteSize : List Char → Nat
  | [] => 0
  | c :: rest => c.utf8Size + byteSize rest

/-- The start of a text that takes up `size` bytes. There is none if it would end inside a
character or behind the text. -/
def startOfSize? (size : Nat) : List Char → Option (List Char)
  | [] => if size = 0 then some [] else none
  | c :: rest =>
    if size = 0 then some []
    else if c.utf8Size ≤ size then (startOfSize? (size - c.utf8Size) rest).map (c :: ·)
    else none

end Text

end MessageCatalog

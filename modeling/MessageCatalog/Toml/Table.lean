import MessageCatalog.Toml.Value

/-!
Tables under construction. Headers and dotted keys create tables as they go, and the rules of
TOML say which of them may be opened later: a table that only headers have passed through can
still be named by a header or be entered by a dotted key, a table that a dotted key has entered
only by further dotted keys, and a table that a header has named by neither. Headers pass through
all of them. Values, among them inline tables and arrays, are closed.
-/

namespace MessageCatalog.Toml

inductive Origin where
  /-- Only headers passed through it. -/
  | implied
  /-- A dotted key entered it. -/
  | dotted
  /-- A header names it. -/
  | headed
  deriving DecidableEq, Repr

inductive Node where
  | value (value : Value)
  | table (origin : Origin) (members : OrderedMap String Node)
  /-- An array of tables, of which the last is open. -/
  | tables (items : List (OrderedMap String Node))

abbrev OpenTable := OrderedMap String Node

mutual

def Node.toValue : Node → Value
  | .value value => value
  | .table _ ⟨members⟩ => .table ⟨membersToValues members⟩
  | .tables items => .array (tablesToValues items)

def membersToValues : List (String × Node) → List (String × Value)
  | [] => []
  | (key, node) :: rest => (key, node.toValue) :: membersToValues rest

def tablesToValues : List (OrderedMap String Node) → List Value
  | [] => []
  | ⟨members⟩ :: rest => .table ⟨membersToValues members⟩ :: tablesToValues rest

end

namespace OpenTable

def toTable (table : OpenTable) : OrderedMap String Value := ⟨membersToValues table.entries⟩

def changeLast (change : OpenTable → Option OpenTable) :
    List OpenTable → Option (List OpenTable)
  | [] => none
  | [last] => (change last).map fun changed => [changed]
  | first :: second :: others =>
    (changeLast change (second :: others)).map fun changed => first :: changed

/-- Sets the value of a dotted key, which must be new. The tables that the key enters become
dotted, and a table that a header has named is not entered. An array of tables on the way is
passed through to its last table, which cannot hold the value itself. -/
def assign (table : OpenTable) (value : Value) : List String → Option OpenTable
  | [] => none
  | [key] => if table.contains key then none else some (table.insert key (.value value))
  | key :: next :: rest =>
    match table.find? key with
    | none =>
      (assign .empty value (next :: rest)).map fun inner => table.insert key (.table .dotted inner)
    | some (.table .headed _) => none
    | some (.table _ inner) =>
      (assign inner value (next :: rest)).map fun inner => table.insert key (.table .dotted inner)
    | some (.tables items) =>
      if rest.isEmpty then none
      else (changeLast (fun last => assign last value (next :: rest)) items).map fun items =>
        table.insert key (.tables items)
    | some (.value _) => none

/-- Changes the table that a header leads to; the tables on the way are implied. `finish` is given
the table that holds the last key, and that key. -/
def descend (finish : OpenTable → String → Option OpenTable) (table : OpenTable) :
    List String → Option OpenTable
  | [] => none
  | [key] => finish table key
  | key :: next :: rest =>
    match table.find? key with
    | none => (descend finish .empty (next :: rest)).map fun inner =>
        table.insert key (.table .implied inner)
    | some (.table origin inner) => (descend finish inner (next :: rest)).map fun inner =>
        table.insert key (.table origin inner)
    | some (.tables items) =>
      (changeLast (fun last => descend finish last (next :: rest)) items).map fun items =>
        table.insert key (.tables items)
    | some (.value _) => none

def openHeader (table : OpenTable) (path : List String) : Option OpenTable :=
  descend (fun table key =>
    match table.find? key with
    | none => some (table.insert key (.table .headed .empty))
    | some (.table .implied inner) => some (table.insert key (.table .headed inner))
    | _ => none) table path

def openItem (table : OpenTable) (path : List String) : Option OpenTable :=
  descend (fun table key =>
    match table.find? key with
    | none => some (table.insert key (.tables [.empty]))
    | some (.tables items) => some (table.insert key (.tables (items ++ [.empty])))
    | _ => none) table path

/-- Sets the value of a key in the table that the last header opened. -/
def assignUnder (header path : List String) (value : Value) (table : OpenTable) :
    Option OpenTable :=
  if header.isEmpty then assign table value path
  else descend (fun table key =>
    match table.find? key with
    | some (.table origin inner) => (assign inner value path).map fun inner =>
        table.insert key (.table origin inner)
    | some (.tables items) =>
      (changeLast (fun last => assign last value path) items).map fun items =>
        table.insert key (.tables items)
    | _ => none) table header

end OpenTable

end MessageCatalog.Toml

import MessageCatalog.Files.Path

/-!
Trees of files. A directory holds its entries in the order in which listing it gives them,
which nothing else may depend on. Paths are walked from the root, through symbolic links, of
which one walk follows only so many.
-/

namespace MessageCatalog.Files

inductive Entry where
  | file (content : Bytes)
  | link (target : Path)
  | directory (entries : List (Name × Entry))

inductive Failure where
  | notFound
  | notADirectory
  | isADirectory
  /-- The path holds a NUL byte. -/
  | invalidInput
  /-- The content is not UTF-8. -/
  | invalidData
  /-- Too many symbolic links. -/
  | linkLoop
  /-- The path, or a name on it, has too many bytes. -/
  | nameTooLong
  deriving DecidableEq, Repr

namespace Entry

instance : Inhabited Entry := ⟨.directory []⟩

def findIn (name : Name) : List (Name × Entry) → Option Entry
  | [] => none
  | (other, entry) :: rest => if other = name then some entry else findIn name rest

/-- The entry at the end of a chain of names, without following any link. -/
def at? (root : Entry) : List Name → Option Entry
  | [] => some root
  | name :: rest =>
    match root with
    | directory entries => (findIn name entries).bind fun entry => entry.at? rest
    | _ => none

/-- How far a walk comes before it has to follow a link. -/
inductive Progress where
  | arrived (place : List Name)
  /-- The walk met a link in the directory `place`, with `rest` still to go. -/
  | atLink (place : List Name) (target : Path) (rest : List PathStep)
  /-- There is nothing of that name in `place`. -/
  | missing (place : List Name) (name : Name) (rest : List PathStep)
  /-- The walk met a name that no entry can have. -/
  | unnameable
  /-- The walk met something that is no directory. -/
  | blocked

def nameLimit : Nat := 255

/-- Walks on from `place`, the names from the root on. A link at the very end is followed only
if `through` says so. -/
def advance (root : Entry) (through : Bool) (place : List Name) : List PathStep → Progress
  | [] => .arrived place
  | step :: rest =>
    match root.at? place with
    | some (directory entries) =>
      match step with
      | .here => advance root through place rest
      | .up => advance root through place.dropLast rest
      | .into name =>
        if nameLimit < name.length then .unnameable
        else match findIn name entries with
          | none => .missing place name rest
          | some (link target) =>
            if rest.isEmpty && !through then .arrived (place ++ [name])
            else .atLink place target rest
          | some _ => advance root through (place ++ [name]) rest
    | _ => .blocked

def linkLimit : Nat := 40

/-- Walks to the end, following at most so many links; none stands for too many of them. -/
def walk (root : Entry) (through : Bool) : Nat → List Name → List PathStep → Option Progress
  | links, place, steps =>
    match advance root through place steps with
    | .atLink place target rest =>
      match links with
      | 0 => none
      | links + 1 =>
        walk root through links (if target.isAbsolute then [] else place) (target.steps ++ rest)
    | progress => some progress

def pathLimit : Nat := 4095

def stepsOf (path : Path) : Except Failure (List PathStep) :=
  if path.bytes.isEmpty then .error .notFound
  else if path.bytes.contains 0 then .error .invalidInput
  else if pathLimit < path.bytes.length then .error .nameTooLong
  else .ok path.steps

def resolve (root : Entry) (path : Path) : Except Failure (List Name) := do
  match walk root true linkLimit [] (← stepsOf path) with
  | none => .error .linkLoop
  | some (.arrived place) => .ok place
  | some (.missing _ _ _) => .error .notFound
  | some .unnameable => .error .nameTooLong
  | some _ => .error .notADirectory

def contains (root : Entry) (path : Path) : Bool := (root.resolve path).isOk

def open? (root : Entry) (path : Path) : Except Failure Entry := do
  let place ← root.resolve path
  match root.at? place with
  | some entry => .ok entry
  | none => .error .notFound

def readFile (root : Entry) (path : Path) : Except Failure Bytes := do
  match ← root.open? path with
  | file content => .ok content
  | _ => .error .isADirectory

def readText (root : Entry) (path : Path) : Except Failure String := do
  match Text.ofUtf8? (← root.readFile path) with
  | some text => .ok text
  | none => .error .invalidData

def readDirectory (root : Entry) (path : Path) : Except Failure (List (Name × Entry)) := do
  match ← root.open? path with
  | directory entries => .ok entries
  | _ => .error .notADirectory

/-! Changing a tree. What cannot be done leaves the tree as it is. -/

/-- Changes the entry of that name; `change` is given what is there and gives what is to be. -/
def alterIn (name : Name) (change : Option Entry → Option Entry) :
    List (Name × Entry) → List (Name × Entry)
  | [] => ((change none).map fun entry => (name, entry)).toList
  | (other, entry) :: rest =>
    if other = name then ((change (some entry)).map fun entry => (name, entry)).toList ++ rest
    else (other, entry) :: alterIn name change rest

/-- Puts an entry at a place in a directory that is there; none takes away what is there. -/
def put (entry : Option Entry) : List Name → Entry → Entry
  | [name], directory entries => directory (alterIn name (fun _ => entry) entries)
  | name :: rest, directory entries =>
    directory (alterIn name (fun former => former.map (put entry rest)) entries)
  | _, tree => tree

/-- Walks from the directory `place` and makes each directory that is missing on the way, also
one that the next step leaves again. The walk ends early at what leads to no directory: a file,
a link to nothing, or a name that no entry can have. -/
def makeAlong (root : Entry) (place : List Name) : List PathStep → Entry
  | [] => root
  | .here :: rest => makeAlong root place rest
  | .up :: rest => makeAlong root place.dropLast rest
  | .into name :: rest =>
    let next := place ++ [name]
    if (root.at? next).isSome then
      match walk root true linkLimit place [.into name, .here] with
      | some (.arrived reached) => makeAlong root reached rest
      | _ => root
    else if nameLimit < name.length then root
    else makeAlong (put (some (directory [])) next root) next rest

def makeAbove (root : Entry) (path : Path) : Entry :=
  match stepsOf path with
  | .ok steps => makeAlong root [] (steps.reverse.dropWhile (· == .here)).tail.reverse
  | .error _ => root

/-- Makes a directory with those on the way to it; one that is there stays as it is. A dot at
the end stands for a directory that is there already, so only what is above it is made. -/
def makeDirectory (root : Entry) (path : Path) : Entry :=
  if path.endsInDot then root.makeAbove path
  else match stepsOf path with
    | .ok steps => makeAlong root [] steps
    | .error _ => root

/-- The place where the end of a path is, or would be if it alone is missing. -/
def placeOf? (root : Entry) (through : Bool) (path : Path) : Option (List Name) := do
  let steps ← (stepsOf path).toOption
  match walk root through linkLimit [] steps with
  | some (.arrived place) => some place
  | some (.missing place name []) => some (place ++ [name])
  | _ => none

/-- Writes a file, which may be at the end of a link, with the directories on the way to it. -/
def writeFile (root : Entry) (path : Path) (content : Bytes) : Entry :=
  let root := root.makeAbove path
  match root.placeOf? true path with
  | none => root
  | some place =>
    match root.at? place with
    | some (directory _) => root
    | _ => put (some (file content)) place root

/-- Makes a link where nothing is, with the directories on the way to it. -/
def makeLink (root : Entry) (path target : Path) : Entry :=
  let root := root.makeAbove path
  match root.placeOf? false path with
  | none => root
  | some place =>
    if (root.at? place).isSome then root else put (some (link target)) place root

/-- Takes away what is at the end of a path; of a link, the link itself. -/
def remove (root : Entry) (path : Path) : Entry :=
  match root.placeOf? false path with
  | none => root
  | some place => put none place root

end Entry

end MessageCatalog.Files

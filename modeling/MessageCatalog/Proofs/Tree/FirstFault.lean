import MessageCatalog.Binding
import MessageCatalog.Proofs.Json.Place
import MessageCatalog.Proofs.Key.Resolution
import MessageCatalog.Proofs.Result

/-!
Which fault is reported when a value is no tree, no namespace or no fragment: that of the foremost
node at fault, with the names that lead to it.
-/

namespace MessageCatalog

open Json (Kind Step Value)

/-- The names with dots between them. Empty names in front of all others leave no trace. -/
def writtenPath (names : List String) : String := String.ofList (dotted (names.dropWhile (· = "")))

theorem writtenPath_of_ne {names : List String} (nonempty : names.head? ≠ some "") :
    writtenPath names = String.ofList (dotted names) := by
  cases names with
  | nil => rfl
  | cons first rest =>
      have visible : first ≠ "" := fun same => nonempty (congrArg some same)
      rw [writtenPath, List.dropWhile_cons_of_neg (by simpa using visible)]

theorem dotted_append_singleton {names : List String} (nonempty : names ≠ []) (name : String) :
    dotted (names ++ [name]) = dotted names ++ '.' :: name.toList := by
  induction names with
  | nil => exact absurd rfl nonempty
  | cons first rest ih =>
      cases rest with
      | nil => rfl
      | cons second others =>
          have later := ih (List.cons_ne_nil _ _)
          simp only [dotted, List.map_cons, List.cons_append] at later ⊢
          rw [Text.join, later, Text.join, List.append_assoc, List.cons_append]

theorem dotted_ne_nil {first : String} (visible : first ≠ "") (rest : List String) :
    dotted (first :: rest) ≠ [] := by
  have letters : first.toList ≠ [] := fun none => visible (String.toList_eq_nil_iff.mp none)
  cases rest with
  | nil => exact letters
  | cons second others => exact List.append_ne_nil_of_left_ne_nil letters _

/-- A path that is built name by name consists of these names. -/
theorem joinPath_writtenPath (names : List String) (name : String) :
    Tree.joinPath (writtenPath names) name = writtenPath (names ++ [name]) := by
  rw [Tree.joinPath, writtenPath, writtenPath, List.dropWhile_append]
  cases shown : names.dropWhile (· = "") with
  | nil => by_cases blank : name = "" <;> simp [blank, dotted, Text.join]
  | cons first rest =>
      have visible : first ≠ "" := by
        have kept := List.head?_dropWhile_not (· = "") names
        simpa [shown] using kept
      have written : (String.ofList (dotted (first :: rest))).isEmpty = false := by
        simpa using dotted_ne_nil visible rest
      rw [written, if_neg (by simp), if_neg (by simp),
        dotted_append_singleton (List.cons_ne_nil first rest)]
      apply String.toList_injective
      simp

section Reports

variable {ε α : Type} {value : Value} {fault? : List Step → Value → Option ε}

theorem exists_ok_iff_faultless {result : Except ε α}
    (reported : ∀ fault, result = .error fault ↔ value.FirstFault fault? fault) :
    (∃ found, result = .ok found) ↔ value.Faultless fault? := by
  rw [← not_iff_not, ← exists_error_iff, ← Value.exists_firstFault_iff]
  exact exists_congr reported

/-- Work on the members of an object reports the first fault of the object when on each member it
reports the first fault of that. -/
theorem mapM_members_eq_error_iff {members : List (String × Value)}
    {work : String × Value → Except ε α}
    (whole : fault? [] (.object ⟨members⟩) = none)
    (reported : ∀ position, ∀ member ∈ members, ∀ fault, work member = .error fault ↔
      member.2.FirstFault (fun place => fault? (.member position member.1 :: place)) fault)
    (fault : ε) :
    members.mapM work = .error fault ↔ (Value.object ⟨members⟩).FirstFault fault? fault := by
  rw [mapM_eq_error_iff_getElem?, Value.firstFault_object_iff, whole]
  simp only [reduceCtorEq, false_or, true_and]
  refine exists₂_congr fun position member => and_congr_right fun found => ?_
  refine and_congr (reported position member (List.mem_of_getElem? found) fault) ?_
  refine forall₄_congr fun earlier other _ there => ?_
  exact exists_ok_iff_faultless (reported earlier other (List.mem_of_getElem? there))

end Reports

/-- The path that a fault names, if it stands below a locale. -/
def Fault.path? : Fault → Option String
  | rootNotObject _ => none
  | localeNotObject _ _ => none
  | unsupportedValue path _ => some path
  | unsupportedItem path _ _ => some path

namespace Tree

/-- What is wrong with the node at a place below the given names. In a list, nothing is looked at
but its items themselves. -/
def fault? (above : List String) : List Step → Value → Option Fault
  | [], node =>
    if node.kind ∈ [.null, .boolean, .number] then
      some (.unsupportedValue (writtenPath above) node.kind)
    else none
  | .member _ name :: below, node => fault? (above ++ [name]) below node
  | [.item index], node =>
    if node.kind ∈ [.string, .null] then none
    else some (.unsupportedItem (writtenPath above) index node.kind)
  | .item _ :: _ :: _, _ => none

variable {above : List String} {fault : Fault}

def itemOfJson (path : String) (index : Nat) : Value → Except Fault (Option String)
  | .string text => .ok (some text)
  | .null => .ok none
  | other => .error (.unsupportedItem path index other.kind)

theorem itemsOfJson_eq_mapM (path : String) (index : Nat) (items : List Value) :
    itemsOfJson path index items =
      (items.zipIdx index).mapM fun (item, index) => itemOfJson path index item := by
  induction items generalizing index with
  | nil => rfl
  | cons item rest ih =>
      cases item with
      | null | boolean | number | string | array | object =>
          simp only [itemsOfJson, ih, List.zipIdx_cons, List.mapM_cons, itemOfJson]

theorem entriesOfJson_eq_mapM (path : String) (members : List (String × Value)) :
    entriesOfJson path members = members.mapM fun member =>
      (ofJsonAt (joinPath path member.1) member.2).map (Prod.mk member.1) := by
  induction members with
  | nil => rfl
  | cons member rest ih =>
      obtain ⟨name, value⟩ := member
      rw [entriesOfJson, ih, List.mapM_cons]
      cases ofJsonAt (joinPath path name) value <;> rfl

theorem itemOfJson_eq_error_iff {index : Nat} {item : Value} :
    itemOfJson (writtenPath above) index item = .error fault ↔
      item.FirstFault (fun place => fault? above (.item index :: place)) fault := by
  rw [Value.firstFault_iff_of_shallow fun _ _ _ _ _ => rfl]
  cases item <;> simp [itemOfJson, fault?, Value.kind]

theorem itemsOfJson_eq_error_iff {items : List Value} :
    itemsOfJson (writtenPath above) 0 items = .error fault ↔
      (Value.array items).FirstFault (fault? above) fault := by
  have sound (index : Nat) (item : Value) :=
    exists_ok_iff_faultless fun fault => @itemOfJson_eq_error_iff above fault index item
  have whole : fault? above [] (.array items) = none := rfl
  rw [itemsOfJson_eq_mapM, mapM_eq_error_iff_getElem?, Value.firstFault_array_iff, whole]
  simp only [List.getElem?_zipIdx, Option.map_eq_some_iff, Nat.zero_add, itemOfJson_eq_error_iff,
    sound, reduceCtorEq, false_or, true_and]
  constructor
  · rintro ⟨position, _, ⟨item, found, rfl⟩, first, clean⟩
    refine ⟨position, item, found, first, fun earlier other sooner there => ?_⟩
    exact clean earlier _ sooner ⟨other, there, rfl⟩
  · rintro ⟨position, item, found, first, clean⟩
    refine ⟨position, _, ⟨item, found, rfl⟩, first, ?_⟩
    rintro earlier _ sooner ⟨other, there, rfl⟩
    exact clean earlier other sooner there

theorem ofJsonAt_eq_error_iff {value : Value} :
    ofJsonAt (writtenPath above) value = .error fault ↔ value.FirstFault (fault? above) fault := by
  induction value using Value.induction generalizing above fault with
  | null | boolean | number =>
      rw [Value.firstFault_iff_of_shallow (by rintro _ _ ⟨⟩)]
      simp [ofJsonAt, fault?, Value.kind]
  | string =>
      rw [Value.firstFault_iff_of_shallow (by rintro _ _ ⟨⟩)]
      simp [ofJsonAt, fault?, Value.kind]
  | array items => rw [ofJsonAt, map_eq_error_iff, itemsOfJson_eq_error_iff]
  | object members below =>
      obtain ⟨members⟩ := members
      rw [ofJsonAt, map_eq_error_iff, entriesOfJson_eq_mapM]
      refine mapM_members_eq_error_iff rfl (fun position member known fault => ?_) fault
      rw [map_eq_error_iff, joinPath_writtenPath]
      exact below member known

theorem path?_of_fault? {place : List Step} {node : Value}
    (faulty : fault? above place node = some fault) :
    fault.path? = some (writtenPath (above ++ Step.names place)) := by
  fun_induction fault? above place node with
  | case1 above node scalar =>
      cases faulty
      simp [Fault.path?, Step.names]
  | case2 => cases faulty
  | case3 above position name below node ih =>
      rw [ih faulty, List.append_assoc]
      rfl
  | case4 => cases faulty
  | case5 above index node misplaced =>
      cases faulty
      rw [show Step.names [.item index] = [] from rfl, List.append_nil]
      rfl
  | case6 => cases faulty

end Tree

theorem Namespace.ofMembers_eq_error_iff {members : OrderedMap String Value} {fault : Fault} :
    ofMembers members = .error fault ↔
      (Value.object members).FirstFault (Tree.fault? []) fault := by
  have read := @Tree.ofJsonAt_eq_error_iff [] fault (.object members)
  rw [← read, ofMembers, Tree.ofJsonAt, map_eq_error_iff, map_eq_error_iff]
  rfl

namespace Fragment

/-- What is wrong with the node at a place of a value that is read as a fragment: the value and
the members of it must be objects. -/
def fault? : List Step → Value → Option Fault
  | [], root => if root.isObject then none else some (.rootNotObject root.kind)
  | [.member _ code], messages =>
    if messages.isObject then none else some (.localeNotObject code messages.kind)
  | .member _ _ :: step :: below, node => Tree.fault? [] (step :: below) node
  | .item _ :: _, _ => none

def localeOfJson (code : String) : Value → Except Fault Namespace
  | .object members => Namespace.ofMembers members
  | other => .error (.localeNotObject code other.kind)

theorem localesOfJson_eq_mapM (members : List (String × Value)) :
    localesOfJson members =
      members.mapM fun member => (localeOfJson member.1 member.2).map (Prod.mk ⟨member.1⟩) := by
  induction members with
  | nil => rfl
  | cons member rest ih =>
      obtain ⟨code, value⟩ := member
      cases value with
      | object members =>
          rw [localesOfJson, ih, List.mapM_cons, localeOfJson]
          cases Namespace.ofMembers members <;> rfl
      | null | boolean | number | string | array =>
          simp only [localesOfJson, List.mapM_cons, localeOfJson]
          rfl

theorem localeOfJson_eq_error_iff (position : Nat) (code : String) (value : Value) (fault : Fault) :
    localeOfJson code value = .error fault ↔
      value.FirstFault (fun place => fault? (.member position code :: place)) fault := by
  cases value with
  | object members =>
      rw [localeOfJson, Namespace.ofMembers_eq_error_iff]
      refine Value.firstFault_congr fun place node reached => ?_
      cases reached <;> rfl
  | null | boolean | number | string | array =>
      rw [Value.firstFault_iff_of_root rfl]
      simp [localeOfJson]

theorem ofJson_eq_error_iff (value : Value) (fault : Fault) :
    ofJson value = .error fault ↔ value.FirstFault fault? fault := by
  cases value with
  | object members =>
      rw [ofJson, map_eq_error_iff, localesOfJson_eq_mapM]
      refine mapM_members_eq_error_iff rfl (fun position member _ fault => ?_) fault
      rw [map_eq_error_iff, localeOfJson_eq_error_iff position]
  | null | boolean | number | string | array =>
      rw [Value.firstFault_iff_of_root rfl]
      simp [ofJson]

theorem path_of_fault? {position : Nat} {code : String} {below : List Step} {node : Value}
    {fault : Fault} {path : String}
    (faulty : fault? (.member position code :: below) node = some fault)
    (named : fault.path? = some path) : path = writtenPath (Step.names below) := by
  cases below with
  | nil =>
      rw [fault?] at faulty
      split at faulty
      · cases faulty
      · cases faulty
        cases named
  | cons step below =>
      rw [fault?] at faulty
      exact Option.some.inj (named.symm.trans (Tree.path?_of_fault? faulty))

end Fragment

/-- Reading a value as a fragment fails when there is a node at fault, and reports the fault of the
foremost such node. -/
theorem Fragment.reports_first_fault :
    (∀ value fault, ofJson value = .error fault ↔ value.FirstFault fault? fault) ∧
    (∀ value, (∃ fault, ofJson value = .error fault) ↔
      ∃ place node, value.At place node ∧ fault? place node ≠ none) ∧
    (∀ value, value.isObject = false → ofJson value = .error (.rootNotObject value.kind)) ∧
    (∀ position code below node fault path,
      fault? (.member position code :: below) node = some fault → fault.path? = some path →
      (∀ name ∈ Step.names below, name ≠ "") →
      path = String.ofList (dotted (Step.names below))) ∧
    (∀ {μ : Type} (world : World μ) store values fault, world.bindJson store values = .error fault ↔
      ∃ before value after, values = before ++ value :: after ∧
        (∀ known ∈ before, ∃ fragment, ofJson known = .ok fragment) ∧
        ofJson value = .error fault) := by
  refine ⟨ofJson_eq_error_iff, fun value => ?_, fun value scalar => ?_, ?_, ?_⟩
  · rw [← Value.not_faultless_iff, ← Value.exists_firstFault_iff]
    exact exists_congr (ofJson_eq_error_iff value)
  · refine (ofJson_eq_error_iff value _).mpr (Value.firstFault_iff_of_root ?_ |>.mpr rfl)
    simp [fault?, scalar]
  · intro position code below node fault path faulty named nonempty
    rw [path_of_fault? faulty named, writtenPath_of_ne]
    exact fun first => nonempty "" (List.mem_of_head? first) rfl
  · intro μ world store values fault
    rw [World.bindJson, bind_pure_eq_error_iff, mapM_eq_error_iff]

example : Fragment.ofJson (.object ⟨[
    ("en", .object ⟨[("tips", .array [.string "a", .null, .array []]), ("flag", .boolean true)]⟩),
    ("de", .null)]⟩) = .error (.unsupportedItem "tips" 2 .array) := rfl

end MessageCatalog

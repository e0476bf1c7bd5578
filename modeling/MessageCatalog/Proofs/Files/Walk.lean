import Mathlib.Tactic.SplitIfs
import MessageCatalog.Files.Tree
import MessageCatalog.Proofs.Text.Parts

/-!
Walking to the entries of a directory. If a path leads to a directory, the path joined with the
name of an entry leads to that entry, through whatever links the first path goes.
-/

namespace MessageCatalog.Files

/-- A name that an entry of a directory can have. -/
structure ProperName (name : Name) : Prop where
  nonempty : name ≠ []
  slashless : Path.slash ∉ name
  complete : 0 ∉ name
  notHere : name ≠ [Path.dot]
  notUp : name ≠ [Path.dot, Path.dot]
  short : name.length ≤ Entry.nameLimit

namespace Path

def stepOf (component : Bytes) : PathStep :=
  if component == [] || component == [dot] then .here
  else if component == [dot, dot] then .up
  else .into component

theorem steps_eq (path : Path) :
    path.steps = (Text.parts (· == slash) path.bytes).map stepOf := rfl

theorem steps_of_proper {name : Name} (proper : ProperName name) :
    (Path.mk name).steps = [.into name] := by
  have whole : Text.parts (· == slash) name = [name] := by
    apply Text.parts_of_plain
    intro byte member
    exact beq_eq_false_iff_ne.mpr fun same => proper.slashless (same ▸ member)
  rw [steps_eq, whole, List.map_singleton, stepOf, if_neg, if_neg]
  · simpa using proper.notUp
  · simp [proper.nonempty, proper.notHere]

theorem steps_append_slash (front back : Bytes) :
    (Path.mk (front ++ slash :: back)).steps = (Path.mk front).steps ++ (Path.mk back).steps := by
  have cut := Text.parts_append_separator (· == slash) front back (beq_self_eq_true slash)
  rw [steps_eq, cut, List.map_append]
  rfl

theorem join_of_proper {path : Path} {name : Name} (present : path.bytes ≠ [])
    (proper : ProperName name) :
    path.join ⟨name⟩ =
      if path.bytes.getLast? == some slash then ⟨path.bytes ++ name⟩
      else ⟨path.bytes ++ slash :: name⟩ := by
  have relative : (Path.mk name).isAbsolute = false := by
    refine beq_eq_false_iff_ne.mpr fun leading => ?_
    exact proper.slashless (List.mem_of_mem_head? leading)
  simp [join, relative, present]

/-- Joining a name takes one more step, which takes the place of the stay that a slash at the end
stands for. -/
theorem steps_join {path : Path} {name : Name} (present : path.bytes ≠ [])
    (proper : ProperName name) :
    ∃ front back, (back = [] ∨ back = [.here]) ∧ path.steps = front ++ back ∧
      (path.join ⟨name⟩).steps = front ++ [.into name] := by
  rw [join_of_proper present proper]
  by_cases ending : path.bytes.getLast? = some slash
  · obtain ⟨front, cut⟩ := List.getLast?_eq_some_iff.mp ending
    obtain ⟨bytes⟩ := path
    obtain rfl : bytes = front ++ [slash] := cut
    refine ⟨(Path.mk front).steps, [.here], Or.inr rfl, steps_append_slash front [], ?_⟩
    rw [if_pos (beq_iff_eq.mpr ending), List.append_assoc, List.singleton_append,
      steps_append_slash, steps_of_proper proper]
  · refine ⟨path.steps, [], Or.inl rfl, (List.append_nil _).symm, ?_⟩
    rw [if_neg (by simpa using ending), steps_append_slash, steps_of_proper proper]

end Path

namespace Entry

/-- Every directory in the tree holds each name once, and only names that an entry can have. -/
inductive WellFormed : Entry → Prop
  | file (content) : WellFormed (.file content)
  | link (target) : WellFormed (.link target)
  | directory {entries} : (entries.map Prod.fst).Nodup →
      (∀ named ∈ entries, ProperName named.1) → (∀ named ∈ entries, named.2.WellFormed) →
      WellFormed (.directory entries)

variable {root entry : Entry} {name : Name} {entries : List (Name × Entry)}

theorem findIn_of_mem (distinct : (entries.map Prod.fst).Nodup) (member : (name, entry) ∈ entries) :
    findIn name entries = some entry := by
  induction entries with
  | nil => cases member
  | cons first rest ih =>
      obtain ⟨other, known⟩ := first
      obtain ⟨fresh, later⟩ := List.nodup_cons.mp distinct
      rcases List.mem_cons.mp member with same | member
      · cases same
        exact if_pos rfl
      · have apart : other ≠ name := by
          rintro rfl
          exact fresh (List.mem_map.mpr ⟨_, member, rfl⟩)
        rw [findIn, if_neg apart, ih later member]

theorem mem_of_findIn (found : findIn name entries = some entry) : (name, entry) ∈ entries := by
  induction entries with
  | nil => cases found
  | cons first rest ih =>
      obtain ⟨other, known⟩ := first
      rw [findIn] at found
      split at found
      · cases found
        subst_vars
        exact List.mem_cons_self
      · exact List.mem_cons_of_mem _ (ih found)

theorem at?_append (root : Entry) (place rest : List Name) :
    root.at? (place ++ rest) = (root.at? place).bind fun entry => entry.at? rest := by
  induction place generalizing root with
  | nil => rfl
  | cons name place ih =>
      cases root with
      | directory entries =>
          simp only [List.cons_append, at?]
          cases findIn name entries with
          | none => rfl
          | some entry => exact ih entry
      | file | link => rfl

theorem at?_concat {place : List Name} (directory : root.at? place = some (.directory entries))
    (name : Name) : root.at? (place ++ [name]) = findIn name entries := by
  rw [at?_append, directory]
  simp only [Option.bind_some, at?]
  cases findIn name entries <;> rfl

theorem WellFormed.at? (wellFormed : root.WellFormed) {place : List Name}
    (found : root.at? place = some entry) : entry.WellFormed := by
  induction place generalizing root with
  | nil =>
      cases found
      exact wellFormed
  | cons name place ih =>
      cases wellFormed with
      | file | link => cases found
      | @directory entries _ _ below =>
          rw [Entry.at?] at found
          obtain ⟨first, known, found⟩ := Option.bind_eq_some_iff.mp found
          exact ih (below _ (mem_of_findIn known)) found

/-! Walking through a longer path goes the way of its start first. -/

def Progress.andThen (progress : Progress) (back : List PathStep) (next : List Name → Progress) :
    Progress :=
  match progress with
  | .arrived place => next place
  | .atLink place target rest => .atLink place target (rest ++ back)
  | .missing place name rest => .missing place name (rest ++ back)
  | other => other

theorem advance_append (root : Entry) (place : List Name) (front back : List PathStep) :
    advance root true place (front ++ back) =
      (advance root true place front).andThen back fun place => advance root true place back := by
  induction front generalizing place with
  | nil => rfl
  | cons step front ih =>
      rw [List.cons_append, advance, advance]
      cases root.at? place with
      | none => rfl
      | some entry =>
          cases entry with
          | file | link => rfl
          | directory entries =>
              cases step with
              | here | up => exact ih _
              | into name =>
                  dsimp only
                  split
                  · rfl
                  · cases findIn name entries with
                    | none => rfl
                    | some entry =>
                        cases entry with
                        | link => simp [Progress.andThen]
                        | file | directory => exact ih _

theorem advance_idle {back : List PathStep} (idle : back = [] ∨ back = [.here])
    (place : List Name) :
    advance root true place back = .arrived place ∨ advance root true place back = .blocked := by
  rcases idle with rfl | rfl
  · exact Or.inl rfl
  · rw [advance]
    split
    · exact Or.inl rfl
    · exact Or.inr rfl

theorem advance_into {place : List Name} (directory : root.at? place = some (.directory entries))
    (found : findIn name entries = some entry) (plain : ∀ target, entry ≠ .link target)
    (short : name.length ≤ nameLimit) :
    advance root true place [.into name] = .arrived (place ++ [name]) := by
  rw [advance, directory]
  dsimp only
  rw [if_neg (Nat.not_lt.mpr short), found]
  cases entry with
  | link target => exact absurd rfl (plain target)
  | file | directory => rfl

theorem advance_of_arrived {place reached : List Name} {front back : List PathStep}
    (idle : back = [] ∨ back = [.here])
    (arrived : advance root true place (front ++ back) = .arrived reached) :
    advance root true place front = .arrived reached := by
  rw [advance_append] at arrived
  cases progress : advance root true place front with
  | arrived between =>
      rw [progress] at arrived
      rcases advance_idle idle between with stayed | blocked
      · rwa [Progress.andThen, stayed] at arrived
      · rw [Progress.andThen, blocked] at arrived
        cases arrived
  | atLink | missing | unnameable | blocked =>
      rw [progress] at arrived
      cases arrived

theorem advance_of_atLink {place stop : List Name} {front back rest : List PathStep}
    {target : Path} (idle : back = [] ∨ back = [.here])
    (met : advance root true place (front ++ back) = .atLink stop target rest) :
    ∃ left, rest = left ++ back ∧ advance root true place front = .atLink stop target left := by
  rw [advance_append] at met
  cases progress : advance root true place front with
  | atLink =>
      rw [progress] at met
      cases met
      exact ⟨_, rfl, rfl⟩
  | arrived between =>
      rw [progress] at met
      rcases advance_idle idle between with stayed | blocked
      · rw [Progress.andThen, stayed] at met
        cases met
      · rw [Progress.andThen, blocked] at met
        cases met
  | missing | unnameable | blocked =>
      rw [progress] at met
      cases met

theorem walk_into {front back : List PathStep} (idle : back = [] ∨ back = [.here]) {links : Nat}
    {place reached : List Name}
    (arrived : walk root true links place (front ++ back) = some (.arrived reached))
    (directory : root.at? reached = some (.directory entries))
    (found : findIn name entries = some entry) (plain : ∀ target, entry ≠ .link target)
    (short : name.length ≤ nameLimit) :
    walk root true links place (front ++ [.into name]) =
      some (.arrived (reached ++ [name])) := by
  have last := advance_into directory found plain short
  -- On the links that may still be followed; what is left after each ends in the same stay.
  induction links generalizing place front with
  | zero =>
      rw [walk] at arrived ⊢
      split at arrived
      · cases arrived
      · rw [Option.some.injEq] at arrived
        rw [advance_append, advance_of_arrived idle arrived, Progress.andThen, last]
  | succ links ih =>
      rw [walk] at arrived ⊢
      split at arrived
      · next stop target rest met =>
          obtain ⟨left, rfl, before⟩ := advance_of_atLink idle met
          dsimp only at arrived
          rw [← List.append_assoc] at arrived
          rw [advance_append, before]
          simpa only [Progress.andThen, List.append_assoc] using ih arrived
      · rw [Option.some.injEq] at arrived
        rw [advance_append, advance_of_arrived idle arrived, Progress.andThen, last]

/-! What is found at the end of a path. -/

variable {path : Path}

theorem open?_eq_ok_iff :
    root.open? path = .ok entry ↔
      ∃ place, root.resolve path = .ok place ∧ root.at? place = some entry := by
  unfold open?
  cases root.resolve path with
  | error => simp [bind, Except.bind]
  | ok place =>
      simp only [bind, Except.bind, Except.ok.injEq, exists_eq_left']
      cases root.at? place <;> simp

theorem readDirectory_eq_ok_iff :
    root.readDirectory path = .ok entries ↔ root.open? path = .ok (.directory entries) := by
  unfold readDirectory
  cases root.open? path with
  | error => simp [bind, Except.bind]
  | ok entry => cases entry <;> simp [bind, Except.bind]

theorem stepsOf_eq_ok_iff {steps : List PathStep} :
    stepsOf path = .ok steps ↔
      path.bytes ≠ [] ∧ 0 ∉ path.bytes ∧ path.bytes.length ≤ pathLimit ∧ path.steps = steps := by
  unfold stepsOf
  split_ifs with empty broken long
  · simp [List.isEmpty_iff.mp empty]
  · simp [List.contains_iff_mem.mp broken]
  · simp [Nat.not_le.mpr long]
  · simp_all

theorem resolve_eq_ok_iff {place : List Name} :
    root.resolve path = .ok place ↔
      ∃ steps, stepsOf path = .ok steps ∧
        walk root true linkLimit [] steps = some (.arrived place) := by
  unfold resolve
  cases stepsOf path with
  | error => simp [bind, Except.bind]
  | ok steps =>
      simp only [bind, Except.bind, Except.ok.injEq, exists_eq_left']
      cases walk root true linkLimit [] steps with
      | none => simp
      | some progress => cases progress <;> simp

/-- The entries of a directory are found where its listing says. -/
theorem open?_join (listed : root.readDirectory path = .ok entries)
    (member : (name, entry) ∈ entries) (distinct : (entries.map Prod.fst).Nodup)
    (proper : ProperName name) (plain : ∀ target, entry ≠ .link target)
    (short : (path.join ⟨name⟩).bytes.length ≤ pathLimit) :
    root.open? (path.join ⟨name⟩) = .ok entry := by
  obtain ⟨place, resolved, directory⟩ := open?_eq_ok_iff.mp (readDirectory_eq_ok_iff.mp listed)
  obtain ⟨steps, spelled, arrived⟩ := resolve_eq_ok_iff.mp resolved
  obtain ⟨present, complete, _, rfl⟩ := stepsOf_eq_ok_iff.mp spelled
  obtain ⟨front, back, idle, split, joined⟩ := Path.steps_join present proper
  have found := findIn_of_mem distinct member
  refine open?_eq_ok_iff.mpr ⟨place ++ [name], ?_, by rw [at?_concat directory, found]⟩
  refine resolve_eq_ok_iff.mpr ⟨front ++ [.into name], ?_, ?_⟩
  · refine stepsOf_eq_ok_iff.mpr ⟨?_, ?_, short, joined⟩
    · rw [Path.join_of_proper present proper]
      split <;> simp [present]
    · rw [Path.join_of_proper present proper]
      split <;> simp [complete, proper.complete, Path.slash]
  · rw [split] at arrived
    exact walk_into idle arrived directory found plain proper.short

end Entry

end MessageCatalog.Files

import Mathlib.Algebra.Group.Nat.Defs
import MessageCatalog.Proofs.OrderedMap
import MessageCatalog.Proofs.Template.Layout

/-!
Filling as substitution. Every slot of a message is replaced by the value for its token, if there is
one, and the literal text around it stays; no value is looked into. Absent or empty arguments have no
value for any token, so the message that they leave as it is has been filled all the same.
-/

namespace MessageCatalog

namespace Arguments

/-- No name is given twice. -/
def Distinct : Arguments → Prop
  | .positional _ => True
  | .named values => values.Distinct

instance : (arguments : Arguments) → Decidable arguments.Distinct
  | .positional _ => inferInstanceAs (Decidable True)
  | .named values => inferInstanceAs (Decidable values.Distinct)

/-- A token stands for the value at the position that it writes in digits, or for the value of which
it is the name. -/
inductive Supplies : Arguments → List Char → String → Prop
  | position {values token value} : token ≠ [] → (∀ c ∈ token, c.isDigit = true) →
      Text.digitsValue token < 2 ^ 64 → values[Text.digitsValue token]? = some value →
      Supplies (.positional values) token value
  | name {values token value} : (String.ofList token, value) ∈ values.entries →
      Supplies (.named values) token value

theorem value?_eq_some_iff {arguments : Arguments} (distinct : arguments.Distinct)
    {token : List Char} {value : String} :
    arguments.value? token = some value ↔ arguments.Supplies token value := by
  cases arguments with
  | positional values =>
      rw [value?, Option.bind_eq_some_iff]
      constructor
      · rintro ⟨index, read, stored⟩
        obtain ⟨nonempty, digital, rfl, small⟩ := Text.index?_eq_some_iff.mp read
        exact .position nonempty digital small stored
      · intro supplied
        cases supplied with
        | position nonempty digital small stored =>
            exact ⟨_, Text.index?_eq_some_iff.mpr ⟨nonempty, digital, rfl, small⟩, stored⟩
  | named values =>
      constructor
      · intro found
        exact .name (OrderedMap.mem_of_findIn found)
      · intro supplied
        cases supplied with
        | name member => exact OrderedMap.find?_of_mem distinct member

theorem value?_of_isEmpty {arguments : Arguments} (empty : arguments.isEmpty = true)
    (token : List Char) : arguments.value? token = none := by
  cases arguments with
  | positional values =>
      obtain rfl : values = [] := by simpa [isEmpty] using empty
      simp [value?]
  | named values =>
      obtain ⟨entries⟩ := values
      obtain rfl : entries = [] := by simpa [isEmpty, OrderedMap.isEmpty] using empty
      rfl

end Arguments

namespace Template

/-- The text that replaces a slot: the value for its token, or else the slot as it is. -/
def replacement (arguments : Option Arguments) (token : List Char) : List Char :=
  match arguments.bind (·.value? token) with
  | some value => value.toList
  | none => (Piece.slot token).print

theorem fill_slot (arguments : Arguments) (token : List Char) :
    (Piece.slot token).fill arguments = replacement (some arguments) token :=
  rfl

theorem replacement_of_unsupplied {arguments : Option Arguments}
    (unsupplied : ∀ given ∈ arguments, given.isEmpty = true) :
    replacement arguments = fun token => (Piece.slot token).print := by
  funext token
  cases arguments with
  | none => rfl
  | some given =>
      rw [replacement, Option.bind_some, Arguments.value?_of_isEmpty (unsupplied given rfl)]

/-- The ways to leave a message as it is agree with filling its slots one by one. -/
theorem toList_interpolate {message : String} {layout : Layout}
    (text : layout.text = message.toList) (arguments : Option Arguments) :
    (interpolate message arguments).toList = layout.write (replacement arguments) := by
  cases arguments with
  | none => rw [replacement_of_unsupplied (by simp), interpolate, ← text, Layout.text]
  | some given =>
      rw [interpolate]
      split
      · next empty =>
          rw [replacement_of_unsupplied (by simpa using empty), ← text, Layout.text]
      · rw [String.toList_ofList, ← text, pieces_text, layout.flatMap_pieces fun _ => rfl]
        exact congrArg layout.write (funext fun token => fill_slot given token)

theorem interpolate_of_unopened {message : String} (unopened : '{' ∉ message.toList)
    (arguments : Option Arguments) : interpolate message arguments = message := by
  have literal : ¬HasSlot message.toList := by
    rintro ⟨token, _, inside⟩
    exact unopened (inside.subset (by simp [Piece.print]))
  let whole : Layout := ⟨message.toList, [], literal, List.forall_mem_nil _⟩
  have text : whole.text = message.toList := List.append_nil _
  exact String.toList_inj.mp ((toList_interpolate text arguments).trans text)

/-- A message is cut into literal text and slots in one way only, and filling it replaces all its
slots at once, whatever the values hold. A position is read from the digits of its token and a name
is the whole token. A message in which no brace opens stays as it is. -/
theorem fills_all_slots_at_once (message : String) :
    ∃ layout : Layout,
      (∀ other : Layout, other.text = message.toList ↔ other = layout) ∧
        (∀ arguments, (interpolate message arguments).toList =
          layout.write (replacement arguments)) ∧
        ('{' ∉ message.toList → ∀ arguments, interpolate message arguments = message) ∧
        ∀ arguments : Arguments, arguments.Distinct → ∀ token value,
          arguments.value? token = some value ↔ arguments.Supplies token value := by
  obtain ⟨layout, text⟩ := exists_layout message.toList
  refine ⟨layout, fun other => ⟨fun same => ?_, fun same => same ▸ text⟩,
    toList_interpolate text, interpolate_of_unopened, ?_⟩
  · exact text_injective (same.trans text.symm)
  · intro arguments distinct token value
    exact Arguments.value?_eq_some_iff distinct

/-- Stray and nested braces around two slots, one with a leading zero, and values with braces. -/
theorem fills_all_slots_at_once_among_stray_braces :
    let message := "\x7b \x7b0\x7d\x7d\x7b01\x7d\x7bx\x7b2"
    let shown : Layout :=
      ⟨"\x7b ".toList, [(['0'], ['}']), (['0', '1'], "\x7bx\x7b2".toList)], by decide, by decide⟩
    (∀ other : Layout, other.text = message.toList ↔ other = shown) ∧
      interpolate message (some (.positional ["\x7b1\x7d", "b"])) =
        "\x7b \x7b1\x7d\x7db\x7bx\x7b2" ∧
      interpolate "all \x7d" (some (.positional ["b"])) = "all \x7d" ∧
      Arguments.Supplies (.named ⟨[("0", "zero"), ("1 ", "one")]⟩) ['1', ' '] "one" := by
  intro message shown
  obtain ⟨layout, unique, filled, _, supplied⟩ := fills_all_slots_at_once message
  obtain ⟨_, _, _, unopened, _⟩ := fills_all_slots_at_once "all \x7d"
  obtain rfl : shown = layout := (unique shown).mp (by decide)
  have named := supplied (.named ⟨[("0", "zero"), ("1 ", "one")]⟩) (by decide) ['1', ' '] "one"
  refine ⟨unique, ?_, unopened (by decide) _, named.mp (by decide)⟩
  exact String.toList_inj.mp ((filled _).trans (by decide))

end Template

end MessageCatalog

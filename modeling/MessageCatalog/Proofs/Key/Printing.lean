import MessageCatalog.Proofs.Key.Grammar
import MessageCatalog.Proofs.Text.Digits

/-!
Keys read and printed. Every key prints as a text that is read as the same key, as long as its names
could be told apart in it, and a text that is read as a key is printed again but for zeros in front
of its indices. Reading refuses a text only for a part that ends in a closing bracket without an
index before it.
-/

namespace MessageCatalog

section Pairing

variable {α β : Type} {related : α → β → Prop}

theorem exists_mem_of_forall₂ {firsts : List α} {seconds : List β}
    (paired : List.Forall₂ related firsts seconds) {second : β} (member : second ∈ seconds) :
    ∃ first ∈ firsts, related first second := by
  induction paired with
  | nil => cases member
  | @cons first _ firsts _ pair _ ih =>
      rcases List.mem_cons.mp member with rfl | later
      · exact ⟨first, List.mem_cons_self, pair⟩
      · obtain ⟨found, among, pair⟩ := ih later
        exact ⟨found, List.mem_cons_of_mem _ among, pair⟩

theorem exists_forall₂_iff {firsts : List α} :
    (∃ seconds, List.Forall₂ related firsts seconds) ↔
      ∀ first ∈ firsts, ∃ second, related first second := by
  induction firsts with
  | nil => simp
  | cons first firsts ih =>
      simp only [List.forall₂_cons_left_iff, List.forall_mem_cons, ← ih]
      constructor
      · rintro ⟨_, second, seconds, pair, paired, rfl⟩
        exact ⟨⟨second, pair⟩, seconds, paired⟩
      · rintro ⟨⟨second, pair⟩, seconds, paired⟩
        exact ⟨_, second, seconds, pair, paired, rfl⟩

end Pairing

namespace Segment

/-- A part that stands for something: it is not closed by a bracket, or by one behind digits that
are small enough for an index. -/
def Readable (part : List Char) : Prop :=
  part.getLast? ≠ some ']' ∨
    ∃ name digits, part = name ++ '[' :: digits ++ [']'] ∧ digits ≠ [] ∧
      (∀ c ∈ digits, c.isDigit = true) ∧ Text.digitsValue digits ≤ 2 ^ 64 - 1

theorem exists_spelled_iff {part : List Char} :
    (∃ segment, Spelled part segment) ↔ Readable part := by
  have named (text : List Char) : ∃ name : String, text = name.toList :=
    ⟨String.ofList text, by simp⟩
  constructor
  · rintro ⟨segment, spelled⟩
    cases spelled with
    | plain unclosed => exact Or.inl unclosed
    | @indexed name digits index read =>
        obtain ⟨nonempty, digital, rfl, small⟩ := Text.index?_eq_some_iff.mp read
        exact Or.inr ⟨name.toList, digits, rfl, nonempty, digital, Nat.le_sub_one_of_lt small⟩
  · rintro (unclosed | ⟨name, digits, rfl, nonempty, digital, small⟩)
    · obtain ⟨name, rfl⟩ := named part
      exact ⟨_, .plain unclosed⟩
    · obtain ⟨name, rfl⟩ := named name
      have below : Text.digitsValue digits < 2 ^ 64 := Nat.lt_of_le_pred (by decide) small
      exact ⟨_, .indexed (Text.index?_eq_some_iff.mpr ⟨nonempty, digital, rfl, below⟩)⟩

/-- The first part is the second one, but for zeros in front of its index. -/
inductive Padded : List Char → List Char → Prop
  | same {part} : Padded part part
  | zeros {name index count} :
      Padded (name ++ '[' :: (List.replicate count '0' ++ Nat.toDigits 10 index) ++ [']'])
        (name ++ '[' :: Nat.toDigits 10 index ++ [']'])

theorem Spelled.padded {part : List Char} {segment : Segment} (spelled : Spelled part segment) :
    Padded part segment.print := by
  cases spelled with
  | plain _ => exact .same
  | indexed read =>
      obtain ⟨count, rfl⟩ := Text.exists_zeros_of_index? read
      exact .zeros

/-- A segment that can be told from its printed form. -/
structure Printable (segment : Segment) : Prop where
  dotless : '.' ∉ segment.name.toList
  unclosed : segment.index = none → ¬EndsInBracket segment.name
  small : ∀ index ∈ segment.index, index < 2 ^ 64

instance (segment : Segment) : Decidable segment.Printable :=
  decidable_of_iff ('.' ∉ segment.name.toList ∧
      (segment.index = none → ¬EndsInBracket segment.name) ∧ ∀ index ∈ segment.index, index < 2 ^ 64)
    ⟨fun ⟨dotless, unclosed, small⟩ => ⟨dotless, unclosed, small⟩,
      fun printable => ⟨printable.dotless, printable.unclosed, printable.small⟩⟩

theorem Spelled.printable {part : List Char} {segment : Segment} (spelled : Spelled part segment)
    (dotless : '.' ∉ part) : segment.Printable := by
  cases spelled with
  | plain unclosed => exact ⟨dotless, fun _ => unclosed, by simp⟩
  | indexed read =>
      have nameDotless := fun dot => dotless (List.mem_append_left _ (List.mem_append_left _ dot))
      refine ⟨nameDotless, by simp, ?_⟩
      rintro index ⟨⟩
      exact (Text.index?_eq_some_iff.mp read).2.2.2

theorem Printable.spelled {segment : Segment} (printable : segment.Printable) :
    Spelled segment.print segment := by
  obtain ⟨name, index⟩ := segment
  cases index with
  | none => exact .plain (printable.unclosed rfl)
  | some index => exact .indexed (Text.index?_toDigits (printable.small index rfl))

theorem Printable.dot_not_mem_print {segment : Segment} (printable : segment.Printable) :
    '.' ∉ segment.print := by
  obtain ⟨name, index⟩ := segment
  cases index with
  | none => exact printable.dotless
  | some index =>
      have digits : '.' ∉ Nat.toDigits 10 index :=
        not_mem_digits (Text.index?_toDigits (printable.small index rfl)) rfl
      simp [print, printable.dotless, digits]

end Segment

namespace Key

theorem parse?_eq_some_iff_parts {raw : String} {key : Key} :
    parse? raw = some key ↔
      List.Forall₂ Segment.Spelled (Text.parts (· == '.') raw.toList) key.segments := by
  rw [parse?, Option.map_eq_some_iff]
  simp only [mapM_parse?_eq_some_iff]
  constructor
  · rintro ⟨segments, spelled, rfl⟩
    exact spelled
  · intro spelled
    exact ⟨key.segments, spelled, rfl⟩

theorem printable_of_parse? {raw : String} {key : Key} (parsed : parse? raw = some key) :
    ∀ segment ∈ key.segments, segment.Printable := by
  have spelled := parse?_eq_some_iff_parts.mp parsed
  obtain ⟨_, dotless, _⟩ := Text.parts_eq_iff.mp (rfl : Text.parts (· == '.') raw.toList = _)
  intro segment member
  obtain ⟨part, among, stands⟩ := exists_mem_of_forall₂ spelled member
  exact stands.printable (dotless part among)

theorem parts_print {key : Key} (nonempty : key.segments ≠ [])
    (printable : ∀ segment ∈ key.segments, segment.Printable) :
    Text.parts (· == '.') key.print.toList = key.segments.map Segment.print := by
  rw [print, String.toList_ofList]
  refine Text.parts_join (by simpa using nonempty) ?_
  intro text member
  obtain ⟨segment, among, rfl⟩ := List.mem_map.mp member
  exact (printable segment among).dot_not_mem_print

/-- The texts are the same but for zeros in front of the indices. -/
def SameUpToZeros (raw printed : String) : Prop :=
  List.Forall₂ Segment.Padded (Text.parts (· == '.') raw.toList)
    (Text.parts (· == '.') printed.toList)

theorem segments_ne_nil_of_parse? {raw : String} {key : Key} (parsed : parse? raw = some key) :
    key.segments ≠ [] := by
  intro blank
  have spelled := parse?_eq_some_iff_parts.mp parsed
  rw [blank, List.forall₂_nil_right_iff] at spelled
  exact Text.parts_ne_nil _ _ spelled

theorem sameUpToZeros_print {raw : String} {key : Key} (parsed : parse? raw = some key) :
    SameUpToZeros raw key.print := by
  rw [SameUpToZeros, parts_print (segments_ne_nil_of_parse? parsed) (printable_of_parse? parsed),
    List.forall₂_map_right_iff]
  exact (parse?_eq_some_iff_parts.mp parsed).imp fun _ _ => Segment.Spelled.padded

theorem parse?_print_eq_iff {key : Key} :
    parse? key.print = some key ↔
      key.segments ≠ [] ∧ ∀ segment ∈ key.segments, segment.Printable := by
  constructor
  · intro parsed
    exact ⟨segments_ne_nil_of_parse? parsed, printable_of_parse? parsed⟩
  · rintro ⟨nonempty, printable⟩
    rw [parse?_eq_some_iff_parts, parts_print nonempty printable, List.forall₂_map_left_iff,
      List.forall₂_same]
    exact fun segment member => (printable segment member).spelled

theorem exists_parse?_iff {raw : String} :
    (∃ key, parse? raw = some key) ↔
      ∀ part ∈ Text.parts (· == '.') raw.toList, Segment.Readable part := by
  simp only [parse?_eq_some_iff_parts, ← Segment.exists_spelled_iff, ← exists_forall₂_iff]
  constructor
  · rintro ⟨key, spelled⟩
    exact ⟨key.segments, spelled⟩
  · rintro ⟨segments, spelled⟩
    exact ⟨⟨segments⟩, spelled⟩

/-- A text is read as a key just when each of its parts has the form of a segment. What is read are
these segments in their order, and printing them gives the text back but for zeros in front of the
indices. The keys that are read back from their printed form are those whose names hold no dot,
whose last letters tell whether an index follows, and whose indices are small enough. -/
theorem reads_what_it_prints :
    (∀ raw : String,
      ((∃ key, parse? raw = some key) ↔
        ∀ part ∈ Text.parts (· == '.') raw.toList, Segment.Readable part) ∧
      ∀ key, parse? raw = some key →
        List.Forall₂ Segment.Spelled (Text.parts (· == '.') raw.toList) key.segments ∧
          SameUpToZeros raw key.print) ∧
    ∀ key : Key, parse? key.print = some key ↔
      key.segments ≠ [] ∧ ∀ segment ∈ key.segments, segment.Printable := by
  refine ⟨fun raw => ⟨exists_parse?_iff, fun key parsed => ?_⟩, fun key => parse?_print_eq_iff⟩
  exact ⟨parse?_eq_some_iff_parts.mp parsed, sameUpToZeros_print parsed⟩

/-- A name with brackets, an empty name, and a name that ends in a bracket before the largest
index. -/
theorem reads_what_it_prints_past_brackets :
    let key : Key := ⟨[⟨"a]b[", none⟩, ⟨"", some 7⟩, ⟨"c]", some 18446744073709551615⟩]⟩
    parse? "a]b[.[007].c][0018446744073709551615]" = some key ∧
      key.print = "a]b[.[7].c][18446744073709551615]" ∧
      SameUpToZeros "a]b[.[007].c][0018446744073709551615]" key.print ∧
      parse? key.print = some key := by
  intro key
  have parsed : parse? "a]b[.[007].c][0018446744073709551615]" = some key := by decide +kernel
  obtain ⟨read, printed⟩ := reads_what_it_prints
  obtain ⟨_, same⟩ := (read _).2 key parsed
  exact ⟨parsed, by decide +kernel, same, (printed key).mpr (by decide +kernel)⟩

end Key

end MessageCatalog

import Mathlib.Data.List.TakeWhile
import MessageCatalog.Text.Blank

/-!
Blanks at the ends of a text. What is left when they are removed is the only text without blanks at
its ends that the first one is, with blanks put around it.
-/

namespace MessageCatalog.Text

def Blank (text : List Char) : Prop := ∀ c ∈ text, isBlank c = true

/-- No blank stands at either end. -/
def Bare (text : List Char) : Prop :=
  (∀ c ∈ text.head?, isBlank c = false) ∧ ∀ c ∈ text.getLast?, isBlank c = false

/-- The first text is the second one with blanks put around it. -/
def Padded (padded text : List Char) : Prop :=
  ∃ left right, Blank left ∧ Blank right ∧ padded = left ++ text ++ right

instance (text : List Char) : Decidable (Blank text) := List.decidableBAll _ _

variable {text left right : List Char}

theorem Blank.append (blankLeft : Blank left) (blankRight : Blank right) : Blank (left ++ right) :=
  List.forall_mem_append.mpr ⟨blankLeft, blankRight⟩

theorem Padded.trans {padded core : List Char} (outer : Padded padded text)
    (inner : Padded text core) : Padded padded core := by
  obtain ⟨left, right, blankLeft, blankRight, rfl⟩ := outer
  obtain ⟨innerLeft, innerRight, blankInnerLeft, blankInnerRight, rfl⟩ := inner
  refine ⟨left ++ innerLeft, innerRight ++ right, blankLeft.append blankInnerLeft,
    blankInnerRight.append blankRight, ?_⟩
  simp only [List.append_assoc]

theorem Padded.isInfix {core : List Char} (padded : Padded text core) : core <:+: text := by
  obtain ⟨left, right, _, _, rfl⟩ := padded
  exact ⟨left, right, rfl⟩

theorem Padded.not_mem {padded : List Char} (around : Padded padded text) {c : Char}
    (visible : isBlank c = false) (absent : c ∉ text) : c ∉ padded := by
  obtain ⟨left, right, blankLeft, blankRight, rfl⟩ := around
  have outside {blanks : List Char} (blank : Blank blanks) : c ∉ blanks := by
    intro member
    simp [blank c member] at visible
  simp [outside blankLeft, outside blankRight, absent]

theorem trimStart_append (blank : Blank left) (text : List Char) :
    trimStart (left ++ text) = trimStart text :=
  List.dropWhile_append_of_pos blank

theorem trimStart_eq_self (bare : ∀ c ∈ text.head?, isBlank c = false) : trimStart text = text := by
  cases text with
  | nil => rfl
  | cons c rest =>
      have visible : isBlank c = false := bare c rfl
      exact List.dropWhile_cons_of_neg (by simp [visible])

theorem exists_trimStart (text : List Char) :
    ∃ left, Blank left ∧ text = left ++ trimStart text :=
  ⟨text.takeWhile isBlank, fun _ => List.mem_takeWhile_imp, List.takeWhile_append_dropWhile.symm⟩

theorem head?_trimStart (text : List Char) :
    ∀ c ∈ (trimStart text).head?, isBlank c = false := by
  intro c first
  have visible := List.head?_dropWhile_not isBlank text
  rwa [← trimStart, Option.mem_def.mp first] at visible

/-- The end of a text is the start of the text from behind. -/
theorem trimEnd_eq (text : List Char) : trimEnd text = (trimStart text.reverse).reverse := rfl

theorem trimEnd_append (blank : Blank right) (text : List Char) :
    trimEnd (text ++ right) = trimEnd text := by
  have behind : Blank right.reverse := fun c member => blank c (List.mem_reverse.mp member)
  rw [trimEnd_eq, List.reverse_append, trimStart_append behind, ← trimEnd_eq]

theorem trimEnd_eq_self (bare : ∀ c ∈ text.getLast?, isBlank c = false) : trimEnd text = text := by
  rw [trimEnd_eq, trimStart_eq_self (by rwa [List.head?_reverse]), List.reverse_reverse]

theorem exists_trimEnd (text : List Char) :
    ∃ right, Blank right ∧ text = trimEnd text ++ right := by
  obtain ⟨left, blank, whole⟩ := exists_trimStart text.reverse
  refine ⟨left.reverse, fun c member => blank c (List.mem_reverse.mp member), ?_⟩
  rw [trimEnd_eq, ← List.reverse_append, ← whole, List.reverse_reverse]

theorem getLast?_trimEnd (text : List Char) :
    ∀ c ∈ (trimEnd text).getLast?, isBlank c = false := by
  rw [trimEnd_eq, List.getLast?_reverse]
  exact head?_trimStart text.reverse

theorem padded_trim (text : List Char) : Padded text (trim text) := by
  obtain ⟨left, blankLeft, whole⟩ := exists_trimStart text
  obtain ⟨right, blankRight, started⟩ := exists_trimEnd (trimStart text)
  refine ⟨left, right, blankLeft, blankRight, ?_⟩
  rw [List.append_assoc, trim, ← started, ← whole]

theorem bare_trim (text : List Char) : Bare (trim text) := by
  refine ⟨?_, getLast?_trimEnd (trimStart text)⟩
  intro c first
  obtain ⟨right, _, started⟩ := exists_trimEnd (trimStart text)
  refine head?_trimStart text c ?_
  rw [started, ← trim, List.head?_append, Option.mem_def.mp first]
  rfl

theorem trim_eq_iff {core : List Char} : trim text = core ↔ Padded text core ∧ Bare core := by
  constructor
  · rintro rfl
    exact ⟨padded_trim text, bare_trim text⟩
  · rintro ⟨⟨left, right, blankLeft, blankRight, rfl⟩, bareFirst, bareLast⟩
    rw [trim, List.append_assoc, trimStart_append blankLeft]
    cases core with
    | nil =>
        have nothing : trimStart right = [] := List.dropWhile_eq_nil_iff.mpr blankRight
        rw [List.nil_append, nothing]
        rfl
    | cons c rest =>
        rw [trimStart_eq_self (by simpa using bareFirst), trimEnd_append blankRight,
          trimEnd_eq_self bareLast]

theorem trim_of_padded {padded : List Char} (around : Padded padded text) :
    trim padded = trim text :=
  trim_eq_iff.mpr ⟨around.trans (padded_trim text), bare_trim text⟩

end MessageCatalog.Text

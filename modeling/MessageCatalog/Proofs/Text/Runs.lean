import Mathlib.Data.List.SplitBy
import MessageCatalog.Proofs.Text.Trimming

/-!
Runs of blanks and of other characters. A text falls into runs in one way only if each of them is of
one kind and the kinds change from one to the next.
-/

namespace MessageCatalog.Text

/-- No blank stands in the text. -/
def Solid (text : List Char) : Prop := ∀ c ∈ text, isBlank c = false

instance (text : List Char) : Decidable (Solid text) := List.decidableBAll _ _

/-- Runs as long as they can be: none is empty, each is all blanks or has none, and of two
neighbours only one is blank. -/
structure Alternating (runs : List (List Char)) : Prop where
  nonempty : [] ∉ runs
  uniform : ∀ run ∈ runs, Blank run ∨ Solid run
  changes : runs.IsChain fun first second => ¬(Blank first ↔ Blank second)

def sameKind (c d : Char) : Bool := isBlank c == isBlank d

section Kinds

variable {run : List Char} (uniform : Blank run ∨ Solid run)

include uniform

theorem isBlank_iff_blank {c : Char} (member : c ∈ run) : isBlank c = true ↔ Blank run := by
  rcases uniform with blank | solid
  · exact iff_of_true (blank c member) blank
  · refine iff_of_false (by simp [solid c member]) fun blank => ?_
    simpa [solid c member] using blank c member

theorem isChain_of_uniform : run.IsChain fun c d => sameKind c d = true := by
  apply List.Pairwise.isChain
  apply List.pairwise_of_forall_mem_list
  intro c first d second
  rw [sameKind, beq_iff_eq, Bool.eq_iff_iff, isBlank_iff_blank uniform first,
    isBlank_iff_blank uniform second]

end Kinds

theorem uniform_of_isChain {run : List Char} (chain : run.IsChain fun c d => sameKind c d = true) :
    Blank run ∨ Solid run := by
  induction run with
  | nil => exact .inl (List.forall_mem_nil _)
  | cons c rest ih =>
      obtain ⟨first, later⟩ := List.isChain_cons.mp chain
      cases rest with
      | nil =>
          cases kind : isBlank c with
          | true => exact .inl (by simpa [Blank] using kind)
          | false => exact .inr (by simpa [Solid] using kind)
      | cons d rest =>
          have same : isBlank c = isBlank d := beq_iff_eq.mp (first d rfl)
          refine (ih later).imp (fun blank => ?_) (fun solid => ?_)
          · exact List.forall_mem_cons.mpr ⟨same.trans (blank d List.mem_cons_self), blank⟩
          · exact List.forall_mem_cons.mpr ⟨same.trans (solid d List.mem_cons_self), solid⟩

theorem changes_iff {first second : List Char} (firstUniform : Blank first ∨ Solid first)
    (secondUniform : Blank second ∨ Solid second) (firstNonempty : first ≠ [])
    (secondNonempty : second ≠ []) :
    ¬(Blank first ↔ Blank second) ↔
      sameKind (first.getLast firstNonempty) (second.head secondNonempty) = false := by
  rw [← isBlank_iff_blank firstUniform (List.getLast_mem firstNonempty),
    ← isBlank_iff_blank secondUniform (List.head_mem secondNonempty), ← Bool.eq_iff_iff, sameKind,
    beq_eq_false_iff_ne]

theorem Alternating.tail {run : List Char} {runs : List (List Char)}
    (alternating : Alternating (run :: runs)) : Alternating runs :=
  ⟨fun empty => alternating.nonempty (List.mem_cons_of_mem _ empty),
    fun other member => alternating.uniform other (List.mem_cons_of_mem _ member),
    alternating.changes.tail⟩

/-- What follows a word in a text that is cut into runs is blank or nothing. -/
theorem head?_flatten_of_changes {run : List Char} {runs : List (List Char)}
    (alternating : Alternating (run :: runs)) (word : ¬Blank run) :
    ∀ c ∈ runs.flatten.head?, isBlank c = true := by
  intro c first
  cases runs with
  | nil => cases first
  | cons next runs =>
      have blank : Blank next := by
        by_contra solid
        exact (List.isChain_cons_cons.mp alternating.changes).1 (iff_of_false word solid)
      have nonempty : next ≠ [] :=
        ne_of_mem_of_not_mem (by simp) alternating.nonempty
      rw [List.flatten_cons, List.head?_append_of_ne_nil _ nonempty] at first
      exact blank c (List.mem_of_mem_head? first)

theorem alternating_iff {runs : List (List Char)} :
    Alternating runs ↔ runs.flatten.splitBy sameKind = runs := by
  rw [List.splitBy_eq_iff]
  constructor
  · intro alternating
    refine ⟨rfl, alternating.nonempty, fun run member =>
      isChain_of_uniform (alternating.uniform run member), ?_⟩
    refine alternating.changes.imp_of_mem_imp fun first second among later changes => ?_
    have firstNonempty := ne_of_mem_of_not_mem among alternating.nonempty
    have secondNonempty := ne_of_mem_of_not_mem later alternating.nonempty
    exact ⟨firstNonempty, secondNonempty, (changes_iff (alternating.uniform first among)
      (alternating.uniform second later) firstNonempty secondNonempty).mp changes⟩
  · rintro ⟨_, nonempty, chains, changes⟩
    have uniform : ∀ run ∈ runs, Blank run ∨ Solid run :=
      fun run member => uniform_of_isChain (chains run member)
    refine ⟨nonempty, uniform, changes.imp_of_mem_imp ?_⟩
    rintro first second among later ⟨firstNonempty, secondNonempty, differ⟩
    exact (changes_iff (uniform first among) (uniform second later) firstNonempty
      secondNonempty).mpr differ

theorem existsUnique_runs (text : List Char) : ∃! runs, Alternating runs ∧ runs.flatten = text := by
  refine ⟨text.splitBy sameKind, ⟨alternating_iff.mpr ?_, List.flatten_splitBy _ _⟩, ?_⟩
  · rw [List.flatten_splitBy]
  · rintro runs ⟨alternating, rfl⟩
    exact (alternating_iff.mp alternating).symm

end MessageCatalog.Text

import Mathlib.Data.List.Basic
import Mathlib.Logic.Function.Defs
import Mathlib.Tactic.ByContra
import MessageCatalog.Template

/-!
Messages cut at their slots. A text has one cut only in which tokens hold no brace and no slot is
left in what stands between them: slots do not overlap, and each of them is a slot of the cut. The
pieces that are read from a message are those of its cut, stray braces and all.
-/

namespace MessageCatalog.Template

/-- No brace stands in the text. -/
def BraceFree (text : List Char) : Prop := '{' ∉ text ∧ '}' ∉ text

instance (text : List Char) : Decidable (BraceFree text) :=
  inferInstanceAs (Decidable (_ ∧ _))

/-- Somewhere in the text a token stands in braces. -/
def HasSlot (text : List Char) : Prop :=
  ∃ token, BraceFree token ∧ (Piece.slot token).print <:+: text

/-- A message cut at its slots: the text in front of the first one, and each token with the text
behind it. The texts between the slots are literal. -/
@[ext] structure Layout where
  start : List Char
  slots : List (List Char × List Char)
  start_literal : ¬HasSlot start
  slots_proper : ∀ slot ∈ slots, BraceFree slot.1 ∧ ¬HasSlot slot.2

namespace Layout

/-- The message with something else in the place of each slot. -/
def write (layout : Layout) (replacement : List Char → List Char) : List Char :=
  layout.start ++ layout.slots.flatMap fun slot => replacement slot.1 ++ slot.2

def text (layout : Layout) : List Char := layout.write fun token => (Piece.slot token).print

def pieces (layout : Layout) : List Piece :=
  layout.start.map .literal ++
    layout.slots.flatMap fun slot => .slot slot.1 :: slot.2.map .literal

theorem flatMap_pieces (layout : Layout) {print : Piece → List Char}
    (literal : ∀ c, print (.literal c) = [c]) :
    layout.pieces.flatMap print = layout.write fun token => print (.slot token) := by
  have plain (text : List Char) : (text.map Piece.literal).flatMap print = text := by
    simp [List.flatMap_map, literal]
  simp [pieces, write, List.flatMap_append, List.flatMap_assoc, plain]

end Layout

section Reading

theorem hasSlot_of_closed {token : List Char} (plain : BraceFree token) (rest : List Char) :
    HasSlot ('{' :: token ++ '}' :: rest) :=
  ⟨token, plain, [], rest, by simp [Piece.print]⟩

theorem not_hasSlot_of_suffix {text ending : List Char} (literal : ¬HasSlot text)
    (suffix : ending <:+ text) : ¬HasSlot ending := by
  rintro ⟨token, plain, there⟩
  exact literal ⟨token, plain, there.trans suffix.isInfix⟩

theorem pieces_token {token : List Char} (plain : BraceFree token) (read rest : List Char) :
    pieces (some read) (token ++ '}' :: rest) =
      .slot (read.reverse ++ token) :: pieces none rest := by
  induction token generalizing read with
  | nil => simp [pieces]
  | cons c token ih =>
      obtain ⟨unopened, unclosed⟩ := plain
      simp only [List.mem_cons, not_or] at unopened unclosed
      rw [List.cons_append, pieces, if_neg (Ne.symm unclosed.1), if_neg (Ne.symm unopened.1),
        ih ⟨unopened.2, unclosed.2⟩]
      simp

/-- What has been read since a brace was opened, with the brace. -/
def opening : Option (List Char) → List Char
  | none => []
  | some token => '{' :: token.reverse

/-- Literal text is read as it is, up to the end or to the next brace that opens. -/
theorem pieces_append {opened : Option (List Char)} {literal rest : List Char}
    (slotless : ¬HasSlot (opening opened ++ literal)) (plain : ∀ token ∈ opened, BraceFree token)
    (bounded : ∀ c ∈ rest.head?, c = '{') :
    pieces opened (literal ++ rest) =
      (opening opened ++ literal).map .literal ++ pieces none rest := by
  induction opened, literal using pieces.induct with
  | case1 => rfl
  | case2 token =>
      cases rest with
      | nil => simp [pieces, opening]
      | cons c rest =>
          obtain rfl : c = '{' := bounded c rfl
          simp [pieces, opening]
  | case3 literal ih =>
      have later := ih slotless (by simp [BraceFree])
      simpa [pieces, opening] using later
  | case4 c literal literalHere ih =>
      have later := ih (not_hasSlot_of_suffix slotless (List.suffix_cons c literal)) (by simp)
      simpa [pieces, opening, literalHere] using later
  | case5 literal token ih =>
      -- A closing brace here would complete a slot.
      have reversed : BraceFree token.reverse := by simpa [BraceFree] using plain token rfl
      exact absurd (hasSlot_of_closed reversed literal) slotless
  | case6 literal token _ ih =>
      have later := ih (not_hasSlot_of_suffix slotless (List.suffix_append _ _))
        (by simp [BraceFree])
      simpa [pieces, opening] using later
  | case7 c literal token unclosed unopened ih =>
      have later := ih (by simpa [opening] using slotless)
        (by simpa [BraceFree, unclosed, unopened, eq_comm] using plain token rfl)
      simpa [pieces, opening, unclosed, unopened] using later

theorem pieces_literal_append {text rest : List Char} (literal : ¬HasSlot text)
    (bounded : ∀ c ∈ rest.head?, c = '{') :
    pieces none (text ++ rest) = text.map .literal ++ pieces none rest :=
  pieces_append literal (by simp) bounded

theorem pieces_of_literal {text : List Char} (literal : ¬HasSlot text) :
    pieces none text = text.map .literal := by
  have read : pieces none (text ++ []) = text.map .literal ++ pieces none [] :=
    pieces_literal_append literal (by simp)
  simpa [pieces] using read

theorem pieces_slot {token : List Char} (plain : BraceFree token) (rest : List Char) :
    pieces none ((Piece.slot token).print ++ rest) = .slot token :: pieces none rest := by
  have read := pieces_token plain [] rest
  simpa [pieces, Piece.print] using read

theorem pieces_write {start : List Char} {slots : List (List Char × List Char)}
    (literal : ¬HasSlot start) (proper : ∀ slot ∈ slots, BraceFree slot.1 ∧ ¬HasSlot slot.2) :
    pieces none (start ++ slots.flatMap fun slot => (Piece.slot slot.1).print ++ slot.2) =
      start.map .literal ++ slots.flatMap fun slot => .slot slot.1 :: slot.2.map .literal := by
  induction slots generalizing start with
  | nil => simpa using pieces_of_literal literal
  | cons slot slots ih =>
      obtain ⟨⟨plain, behind⟩, proper⟩ := List.forall_mem_cons.mp proper
      rw [List.flatMap_cons, List.flatMap_cons, List.append_assoc,
        pieces_literal_append literal (by simp [Piece.print]), pieces_slot plain, ih behind proper]
      rfl

theorem pieces_text (layout : Layout) : pieces none layout.text = layout.pieces :=
  pieces_write layout.start_literal layout.slots_proper

end Reading

/-- The cut of a message that its pieces show. -/
def cut : List Piece → List Char × List (List Char × List Char)
  | [] => ([], [])
  | .literal c :: rest => (c :: (cut rest).1, (cut rest).2)
  | .slot token :: rest => ([], (token, (cut rest).1) :: (cut rest).2)

theorem cut_literal_append (text : List Char) (rest : List Piece) :
    cut (text.map .literal ++ rest) = (text ++ (cut rest).1, (cut rest).2) := by
  induction text with
  | nil => rfl
  | cons c text ih => simp [cut, ih]

theorem cut_pieces (layout : Layout) : cut layout.pieces = (layout.start, layout.slots) := by
  have behind (slots : List (List Char × List Char)) :
      cut (slots.flatMap fun slot => .slot slot.1 :: slot.2.map .literal) = ([], slots) := by
    induction slots with
    | nil => rfl
    | cons slot slots ih => simp [cut, cut_literal_append, ih]
  simp [Layout.pieces, cut_literal_append, behind]

theorem text_injective : Function.Injective Layout.text := by
  intro layout other same
  have cuts : cut (pieces none layout.text) = cut (pieces none other.text) := by rw [same]
  rw [pieces_text, pieces_text, cut_pieces, cut_pieces] at cuts
  obtain ⟨start, slots⟩ := Prod.mk.inj cuts
  exact Layout.ext start slots

theorem not_hasSlot_nil : ¬HasSlot [] := by
  rintro ⟨token, _, inside⟩
  simp [Piece.print] at inside

theorem exists_layout (text : List Char) : ∃ layout : Layout, layout.text = text := by
  induction text with
  | nil => exact ⟨⟨[], [], not_hasSlot_nil, List.forall_mem_nil _⟩, rfl⟩
  | cons c text ih =>
      obtain ⟨layout, rfl⟩ := ih
      by_cases complete : HasSlot (c :: layout.start)
      · -- The first literal has no slot of its own, so the new character opens this one.
        obtain ⟨token, plain, inside⟩ := complete
        rcases List.infix_cons_iff.mp inside with ⟨behind, whole⟩ | within
        · have literal : ¬HasSlot behind := by
            refine not_hasSlot_of_suffix layout.start_literal ⟨token ++ ['}'], ?_⟩
            simpa [Piece.print] using (List.cons.inj whole).2
          have proper : ∀ slot ∈ (token, behind) :: layout.slots,
              BraceFree slot.1 ∧ ¬HasSlot slot.2 :=
            List.forall_mem_cons.mpr ⟨⟨plain, literal⟩, layout.slots_proper⟩
          refine ⟨⟨[], (token, behind) :: layout.slots, not_hasSlot_nil, proper⟩, ?_⟩
          simp only [Layout.text, Layout.write, List.flatMap_cons, List.nil_append]
          rw [whole, List.cons_append]
        · exact absurd ⟨token, plain, within⟩ layout.start_literal
      · exact ⟨⟨c :: layout.start, layout.slots, complete, layout.slots_proper⟩, rfl⟩

/-- Reading finds a slot just when there is one. -/
theorem hasSlot_iff (text : List Char) : HasSlot text ↔ pieces none text ≠ text.map .literal := by
  constructor
  · intro slotted unread
    obtain ⟨layout, rfl⟩ := exists_layout text
    have whole := cut_literal_append layout.text []
    rw [List.append_nil, ← unread, pieces_text, cut_pieces] at whole
    have start : layout.start = layout.text := by simpa [cut] using (Prod.mk.inj whole).1
    exact layout.start_literal (start ▸ slotted)
  · intro read
    by_contra literal
    exact read (pieces_of_literal literal)

instance (text : List Char) : Decidable (HasSlot text) :=
  decidable_of_iff _ (hasSlot_iff text).symm

end MessageCatalog.Template

import MessageCatalog.Proofs.Text.Runs
import MessageCatalog.Text.LetterCase

/-!
Title case. It is made in one pass that remembers whether a word may begin, and it is the same as
cutting the text into its runs and putting every run that is a word into capital case.
-/

namespace MessageCatalog

namespace Text

variable {word blanks rest : List Char}

/-- Whether a word may begin is settled by a blank, whatever was before. -/
theorem titleChars_of_bounded (bounded : ∀ c ∈ rest.head?, isBlank c = true) (atStart : Bool) :
    titleChars atStart rest = titleChars true rest := by
  cases rest with
  | nil => rfl
  | cons c rest =>
      have blank : isBlank c = true := bounded c rfl
      rw [titleChars, titleChars, if_pos blank, if_pos blank]

theorem titleChars_append (bounded : ∀ c ∈ rest.head?, isBlank c = true) (atStart : Bool)
    (front : List Char) :
    titleChars atStart (front ++ rest) = titleChars atStart front ++ titleChars true rest := by
  -- Every character says anew whether a word may begin, so the flag is not fixed.
  induction front generalizing atStart with
  | nil => exact titleChars_of_bounded bounded atStart
  | cons c front ih =>
      simp only [List.cons_append, titleChars, ih]
      split
      · rfl
      · split
        · rw [List.append_assoc]
        · rfl

theorem titleChars_blank_append (blank : Blank blanks) (rest : List Char) :
    titleChars true (blanks ++ rest) = blanks ++ titleChars true rest := by
  induction blanks with
  | nil => rfl
  | cons c blanks ih =>
      obtain ⟨first, later⟩ := List.forall_mem_cons.mp blank
      rw [List.cons_append, titleChars, if_pos first, ih later, List.cons_append]

theorem titleChars_inside (solid : Solid word) : titleChars false word = word := by
  induction word with
  | nil => rfl
  | cons c word ih =>
      obtain ⟨first, later⟩ := List.forall_mem_cons.mp solid
      rw [titleChars, if_neg (by simp [first]), if_neg Bool.false_ne_true, ih later]

theorem titleChars_of_solid (solid : Solid word) : titleChars true word = capitalChars word := by
  cases word with
  | nil => rfl
  | cons c word =>
      obtain ⟨first, later⟩ := List.forall_mem_cons.mp solid
      rw [titleChars, if_neg (by simp [first]), if_pos rfl, titleChars_inside later]
      rfl

theorem titleChars_flatten {runs : List (List Char)} (alternating : Alternating runs) :
    titleChars true runs.flatten =
      runs.flatMap fun run => if Blank run then run else capitalChars run := by
  induction runs with
  | nil => rfl
  | cons run runs ih =>
      rw [List.flatten_cons, List.flatMap_cons, ← ih alternating.tail]
      by_cases blank : Blank run
      · rw [if_pos blank, titleChars_blank_append blank]
      · have solid : Solid run :=
          (alternating.uniform run List.mem_cons_self).resolve_left blank
        rw [if_neg blank, titleChars_append (head?_flatten_of_changes alternating blank),
          titleChars_of_solid solid]

end Text

/-- A text falls into runs in one way, and its title case is made of these, blank runs as they are
and words in capital case: the first character in upper case, in as many characters as that takes,
and the others as they are. So blanks part a text into what is cased on its own. -/
theorem title_raises_each_word :
    (∀ text : String, ∃! runs, Text.Alternating runs ∧ runs.flatten = text.toList) ∧
    (∀ (text : String) (runs : List (List Char)), Text.Alternating runs →
      runs.flatten = text.toList →
      (title text).toList = runs.flatMap fun run =>
        if Text.Blank run then run else (capital (String.ofList run)).toList) ∧
    (∀ first rest, (capital (String.ofList (first :: rest))).toList =
      Text.upperForm first ++ rest) ∧
    (∀ first blanks second : String, blanks ≠ "" → Text.Blank blanks.toList →
      title (first ++ blanks ++ second) = title first ++ blanks ++ title second) ∧
    ∀ text : String, Text.Solid text.toList → title text = capital text := by
  refine ⟨fun text => Text.existsUnique_runs text.toList, ?words, ?capital, ?parted, ?whole⟩
  case words =>
    intro text runs alternating whole
    simp only [title, capital, String.toList_ofList, ← whole, Text.titleChars_flatten alternating]
  case capital =>
    intro first rest
    simp only [capital, String.toList_ofList, Text.capitalChars]
  case parted =>
    intro first blanks second nonempty blank
    have bounded : ∀ c ∈ (blanks.toList ++ second.toList).head?, Text.isBlank c = true := by
      intro c next
      rw [List.head?_append_of_ne_nil _ (mt String.toList_eq_nil_iff.mp nonempty)] at next
      exact blank c (List.mem_of_mem_head? next)
    apply String.toList_inj.mp
    simp only [title, String.toList_append, String.toList_ofList, List.append_assoc]
    rw [Text.titleChars_append bounded, Text.titleChars_blank_append blank]
  case whole =>
    intro text solid
    rw [title, Text.titleChars_of_solid solid, capital]

/-- The first characters of both words become two in upper case. -/
theorem title_raises_each_word_of_long_forms :
    title " ßa\t ﬂy" = " SSa\t FLy" ∧
      title ("ßa" ++ "\t " ++ "ﬂy") = title "ßa" ++ "\t " ++ title "ﬂy" ∧
      title "ﬂy" = capital "ﬂy" := by
  obtain ⟨_, words, _, parted, whole⟩ := title_raises_each_word
  refine ⟨String.toList_inj.mp ?_, parted "ßa" "\t " "ﬂy" (by decide) (by decide),
    whole "ﬂy" (by decide)⟩
  have alternating : Text.Alternating [[' '], ['ß', 'a'], ['\t', ' '], ['ﬂ', 'y']] :=
    ⟨by decide, by decide, by decide⟩
  rw [words " ßa\t ﬂy" _ alternating (by decide)]
  decide

end MessageCatalog

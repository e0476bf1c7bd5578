import Mathlib.Data.List.Basic
import MessageCatalog.LanguageTag
import MessageCatalog.Proofs.Text.Parts

/-!
The grammar of language tags. Tags are read subtag by subtag, each being taken for the first thing
that it may be at its stage. Nothing is missed that way: four letters that are read as a script
leave room for all that could have followed them as a variant.
-/

namespace MessageCatalog.LanguageTag

/-- Subtags that may follow at a stage: a script, a region and variants, of which a script may stand
only right after the language, and a region only there or after a script. -/
def Follow (stage : Stage) (further : List (List Char)) : Prop :=
  ∃ (script region : Option (List Char)) (variants : List (List Char)),
    further = script.toList ++ region.toList ++ variants ∧
      (∀ subtag ∈ script, stage = .language ∧ isScript subtag = true) ∧
      (∀ subtag ∈ region, stage ≠ .further ∧ isRegion subtag = true) ∧
      ∀ subtag ∈ variants, isVariant subtag = true

/-- The text is a language tag, made of a language and of the subtags after it. -/
def IsTag (text language : List Char) (further : List (List Char)) : Prop :=
  subtags text = language :: further ∧ isLanguage language = true ∧
    ∃ (script region : Option (List Char)) (variants : List (List Char)),
      further = script.toList ++ region.toList ++ variants ∧
        (∀ subtag ∈ script, isScript subtag = true) ∧
        (∀ subtag ∈ region, isRegion subtag = true) ∧
        ∀ subtag ∈ variants, isVariant subtag = true

section Classes

variable {subtag : List Char}

theorem isScript_of_isRegion (region : isRegion subtag = true) : isScript subtag = false := by
  simp only [isRegion, Bool.or_eq_true, Bool.and_eq_true, beq_iff_eq] at region
  rcases region with ⟨two, _⟩ | ⟨three, _⟩
  · simp [isScript, two]
  · simp [isScript, three]

theorem isRegion_of_isVariant (variant : isVariant subtag = true) : isRegion subtag = false := by
  simp only [isVariant, Bool.and_eq_true, decide_eq_true_eq] at variant
  obtain ⟨⟨⟨long, _⟩, _⟩, _⟩ := variant
  have notTwo : subtag.length ≠ 2 := by omega
  have notThree : subtag.length ≠ 3 := by omega
  simp [isRegion, notTwo, notThree]

theorem ascii_of_isAsciiLetter {c : Char} (letter : isAsciiLetter c = true) : c.toNat < 128 := by
  simp only [isAsciiLetter, Bool.or_eq_true, Bool.and_eq_true, decide_eq_true_eq, Char.le_def,
    UInt32.le_iff_toNat_le] at letter
  change c.val.toNat < 128
  rcases letter with ⟨_, small⟩ | ⟨_, small⟩
  · exact Nat.lt_of_le_of_lt small (by decide)
  · exact Nat.lt_of_le_of_lt small (by decide)

theorem ascii_of_isDigit {c : Char} (digit : c.isDigit = true) : c.toNat < 128 := by
  simp only [Char.isDigit, Bool.and_eq_true, decide_eq_true_eq, UInt32.le_iff_toNat_le] at digit
  exact Nat.lt_of_le_of_lt digit.2 (by decide)

theorem letters_of_isLanguage (proper : isLanguage subtag = true) :
    ∀ c ∈ subtag, isAsciiLetter c = true := by
  simp only [isLanguage, Bool.and_eq_true, List.all_eq_true] at proper
  exact proper.1

theorem ascii_of_isLanguage (proper : isLanguage subtag = true) : ∀ c ∈ subtag, c.toNat < 128 :=
  fun c member => ascii_of_isAsciiLetter (letters_of_isLanguage proper c member)

theorem ascii_of_isScript (script : isScript subtag = true) : ∀ c ∈ subtag, c.toNat < 128 := by
  simp only [isScript, Bool.and_eq_true, List.all_eq_true] at script
  exact fun c member => ascii_of_isAsciiLetter (script.2 c member)

theorem ascii_of_isRegion (region : isRegion subtag = true) : ∀ c ∈ subtag, c.toNat < 128 := by
  simp only [isRegion, Bool.or_eq_true, Bool.and_eq_true, List.all_eq_true] at region
  rcases region with ⟨_, letters⟩ | ⟨_, digits⟩
  · exact fun c member => ascii_of_isAsciiLetter (letters c member)
  · exact fun c member => ascii_of_isDigit (digits c member)

theorem ascii_of_isVariant (variant : isVariant subtag = true) : ∀ c ∈ subtag, c.toNat < 128 := by
  simp only [isVariant, Bool.and_eq_true, List.all_eq_true, decide_eq_true_eq] at variant
  exact fun c member => (variant.1.2 c member).2

end Classes

section Reading

variable {tag longer read : LanguageTag} {stage next : Stage} {subtag : List Char}
  {further rest : List (List Char)}

theorem follow_further_iff :
    Follow .further further ↔ ∀ subtag ∈ further, isVariant subtag = true := by
  constructor
  · rintro ⟨none | _, none | _, variants, rfl, scripts, regions, all⟩
    · exact all
    · exact absurd rfl (regions _ rfl).1
    · exact absurd (scripts _ rfl).1 (by decide)
    · exact absurd (scripts _ rfl).1 (by decide)
  · exact fun all => ⟨none, none, further, rfl, by simp, by simp, all⟩

/-- What reading one subtag does: the language stays, there are subtags from then on, and what may
follow at the next stage may follow this subtag. -/
theorem of_readSubtag? (reads : tag.readSubtag? stage subtag = some (longer, next)) :
    longer.language = tag.language ∧ longer.hasSubtags = true ∧
      (Follow next rest → Follow stage (subtag :: rest)) := by
  unfold readSubtag? at reads
  split at reads
  · next script =>
      cases reads
      refine ⟨rfl, by simp [hasSubtags], ?_⟩
      rintro ⟨none | _, region, variants, rfl, scripts, regions, all⟩
      · exact ⟨some subtag, region, variants, rfl, by simpa using script,
          fun other among => ⟨by simp [script.1], (regions other among).2⟩, all⟩
      · exact absurd (scripts _ rfl).1 (by decide)
  · split at reads
    · next region =>
        cases reads
        refine ⟨rfl, by simp [hasSubtags], fun later => ?_⟩
        exact ⟨none, some subtag, rest, rfl, by simp, by simpa using region,
          follow_further_iff.mp later⟩
    · split at reads
      · next variant =>
          cases reads
          refine ⟨rfl, by simp [hasSubtags], fun later => ?_⟩
          exact ⟨none, none, subtag :: rest, rfl, by simp, by simp,
            List.forall_mem_cons.mpr ⟨variant, follow_further_iff.mp later⟩⟩
      · cases reads

/-- The first thing that a subtag may be does not stand in the way of what follows it. -/
theorem exists_readSubtag? (tag : LanguageTag) (follow : Follow stage (subtag :: rest)) :
    ∃ longer next, tag.readSubtag? stage subtag = some (longer, next) ∧ Follow next rest := by
  obtain ⟨script, region, variants, whole, scripts, regions, all⟩ := follow
  unfold readSubtag?
  cases script with
  | some script =>
      obtain ⟨rfl, rfl⟩ := List.cons.inj whole
      refine ⟨_, _, if_pos (scripts _ rfl), none, region, variants, rfl, by simp, ?_, all⟩
      exact fun other among => ⟨by simp, (regions other among).2⟩
  | none =>
      cases region with
      | some region =>
          obtain ⟨rfl, rfl⟩ := List.cons.inj whole
          have noScript : ¬(stage = .language ∧ isScript subtag = true) := by
            simp [isScript_of_isRegion (regions _ rfl).2]
          exact ⟨_, _, (if_neg noScript).trans (if_pos (regions _ rfl)), follow_further_iff.mpr all⟩
      | none =>
          obtain rfl : subtag :: rest = variants := whole
          obtain ⟨variant, others⟩ := List.forall_mem_cons.mp all
          have noRegion : ¬(stage ≠ .further ∧ isRegion subtag = true) := by
            simp [isRegion_of_isVariant variant]
          -- A variant that is taken for a script only uses up the place for one.
          by_cases script : stage = .language ∧ isScript subtag = true
          · exact ⟨_, _, if_pos script, none, none, rest, rfl, by simp, by simp, others⟩
          · exact ⟨_, _, (if_neg script).trans ((if_neg noRegion).trans (if_pos variant)),
              follow_further_iff.mpr others⟩

theorem of_readSubtags? (reads : tag.readSubtags? stage further = some read) :
    Follow stage further ∧ read.language = tag.language ∧
      (read.hasSubtags = true ↔ tag.hasSubtags = true ∨ further ≠ []) := by
  induction further generalizing tag stage with
  | nil =>
      cases reads
      exact ⟨⟨none, none, [], rfl, by simp, by simp, by simp⟩, rfl, by simp⟩
  | cons subtag rest ih =>
      rw [readSubtags?] at reads
      split at reads
      · next longer next first =>
          obtain ⟨follow, language, bears⟩ := ih reads
          obtain ⟨kept, longerBears, before⟩ := of_readSubtag? first
          exact ⟨before follow, language.trans kept, by simp [bears, longerBears]⟩
      · cases reads

theorem exists_readSubtags? (tag : LanguageTag) (follow : Follow stage further) :
    ∃ read, tag.readSubtags? stage further = some read := by
  induction further generalizing tag stage with
  | nil => exact ⟨tag, rfl⟩
  | cons subtag rest ih =>
      obtain ⟨longer, next, first, later⟩ := exists_readSubtag? tag follow
      rw [readSubtags?, first]
      exact ih longer later

end Reading

section Parsing

variable {text language : List Char} {further : List (List Char)} {tag : LanguageTag}

theorem isTag_iff : IsTag text language further ↔
    subtags text = language :: further ∧ isLanguage language = true ∧ Follow .language further := by
  simp [IsTag, Follow]

theorem IsTag.ascii (isTag : IsTag text language further) : ∀ c ∈ text, c.toNat < 128 := by
  obtain ⟨cut, proper, script, region, variants, rfl, scripts, regions, all⟩ := isTag
  intro c member
  have located : isSeparator c = true ∨ ∃ part ∈ subtags text, c ∈ part :=
    Text.mem_part_of_mem member
  rcases located with separates | ⟨part, among, inside⟩
  · simp only [isSeparator, Bool.or_eq_true, beq_iff_eq] at separates
    rcases separates with rfl | rfl <;> decide
  · rw [cut, List.mem_cons, List.mem_append, List.mem_append, Option.mem_toList,
      Option.mem_toList] at among
    rcases among with rfl | (script | region) | variant
    · exact ascii_of_isLanguage proper c inside
    · exact ascii_of_isScript (scripts part script) c inside
    · exact ascii_of_isRegion (regions part region) c inside
    · exact ascii_of_isVariant (all part variant) c inside

theorem languageText_ofLanguage (subtag : List Char) :
    (ofLanguage subtag).languageText = subtag.map Char.toLower := by
  by_cases vague : subtag.map Char.toLower = undetermined
  · simp [ofLanguage, languageText, vague]
  · simp [ofLanguage, languageText, vague]

theorem of_parse? (parsed : parse? text = some tag) :
    ∃ language further, IsTag text language further ∧
      tag.languageText = language.map Char.toLower ∧ (tag.hasSubtags = true ↔ further ≠ []) := by
  unfold parse? at parsed
  split at parsed
  · next language further cut =>
      split at parsed
      · next proper =>
          obtain ⟨follow, kept, bears⟩ := of_readSubtags? parsed
          refine ⟨language, further, isTag_iff.mpr ⟨cut, proper, follow⟩, ?_, ?_⟩
          · rw [← languageText_ofLanguage, languageText, languageText, kept]
          · rw [bears]
            simp [hasSubtags, ofLanguage]
      · cases parsed
  · cases parsed

theorem exists_parse? (isTag : IsTag text language further) : ∃ tag, parse? text = some tag := by
  obtain ⟨cut, proper, follow⟩ := isTag_iff.mp isTag
  rw [parse?, cut]
  exact (exists_readSubtags? (ofLanguage language) follow).imp fun _ read =>
    (if_pos proper).trans read

end Parsing

end MessageCatalog.LanguageTag

import Mathlib.Data.List.Nodup
import Mathlib.Data.List.TakeWhile
import MessageCatalog.LocaleFiles
import MessageCatalog.Proofs.Result
import MessageCatalog.Proofs.Text.Utf8

/-!
What is taken from the listing of a directory. The locales and the message files are those that
are listed, in the order of their bytes, in whatever order the listing gives them.
-/

namespace MessageCatalog

open Files (Entry Name Path)

section Sorting

variable {α : Type} {le : α → α → Bool} {lt : α → α → Prop} {items : List α}

theorem pairwise_mergeSort_of_nodup (trans : ∀ a b c, le a b = true → le b c = true → le a c = true)
    (total : ∀ a b, (le a b || le b a) = true) (strict : ∀ a b, le a b = true → a ≠ b → lt a b)
    (distinct : items.Nodup) : (items.mergeSort le).Pairwise lt := by
  have apart : (items.mergeSort le).Nodup := (List.mergeSort_perm items le).nodup_iff.mpr distinct
  refine ((List.pairwise_mergeSort trans total items).and apart).imp ?_
  intro a b ⟨below, different⟩
  exact strict a b below different

theorem eraseReps_loop_of_nodup [BEq α] [LawfulBEq α] {first : α}
    (distinct : (first :: items).Nodup) (kept : List α) :
    List.eraseRepsBy.loop (· == ·) first items kept = kept.reverse ++ first :: items := by
  induction items generalizing first kept with
  | nil => simp [List.eraseRepsBy.loop]
  | cons second items ih =>
      obtain ⟨fresh, later⟩ := List.nodup_cons.mp distinct
      have apart : (first == second) = false :=
        beq_eq_false_iff_ne.mpr fun same => fresh (same ▸ List.mem_cons_self)
      rw [List.eraseRepsBy.loop, apart]
      simpa using ih later (first :: kept)

theorem eraseReps_of_nodup [BEq α] [LawfulBEq α] (distinct : items.Nodup) :
    items.eraseReps = items := by
  cases items with
  | nil => rfl
  | cons first items => exact eraseReps_loop_of_nodup distinct []

end Sorting

namespace LocaleCode

theorem isLE_compare_iff {left right : LocaleCode} :
    (compare left right).isLE = true ↔ left.text ≤ right.text :=
  isLE_compareOfLessAndEq String.le_antisymm String.not_le String.le_total

/-- Sorted codes are in the order of their bytes. -/
theorem pairwise_sort {codes : List LocaleCode} (distinct : codes.Nodup) :
    (sort codes).Pairwise fun left right => Text.toUtf8 left.text < Text.toUtf8 right.text := by
  apply pairwise_mergeSort_of_nodup _ _ _ distinct
  · intro first second third
    rw [isLE_compare_iff, isLE_compare_iff, isLE_compare_iff]
    exact String.le_trans
  · intro first second
    rw [Bool.or_eq_true, isLE_compare_iff, isLE_compare_iff]
    exact String.le_total _ _
  · intro left right below apart
    rw [isLE_compare_iff] at below
    refine Text.toUtf8_lt_toUtf8 (String.not_le.mp fun above => apart ?_)
    exact congrArg mk (String.le_antisymm below above)

end LocaleCode

namespace Files.Path

theorem reverse_cut (stem : Bytes) {ending : Bytes} (plain : dot ∉ ending) :
    (stem ++ dot :: ending).reverse.takeWhile (· ≠ dot) = ending.reverse ∧
      (stem ++ dot :: ending).reverse.dropWhile (· ≠ dot) = dot :: stem.reverse := by
  have apart : ∀ byte ∈ ending.reverse, decide (byte ≠ dot) = true := by
    intro byte member
    exact decide_eq_true fun same => plain (same ▸ List.mem_reverse.mp member)
  rw [List.reverse_append, List.reverse_cons, List.append_assoc,
    List.takeWhile_append_of_pos apart, List.dropWhile_append_of_pos apart]
  simp

theorem extension?_append {stem ending : Bytes} (plain : dot ∉ ending) :
    extension? (stem ++ dot :: ending) =
      if stem = [] ∨ stem ++ dot :: ending = [dot, dot] then none else some ending := by
  obtain ⟨taken, dropped⟩ := reverse_cut stem plain
  unfold extension?
  simp only [dropped, taken, List.reverse_reverse, List.isEmpty_reverse, Bool.or_eq_true,
    List.isEmpty_iff, beq_iff_eq]

/-- The last dot begins the extension, unless it begins the name. -/
theorem extension?_eq_some_iff {name : Name} {ending : Bytes} :
    extension? name = some ending ↔
      dot ∉ ending ∧ name ≠ [dot, dot] ∧ ∃ stem, stem ≠ [] ∧ name = stem ++ dot :: ending := by
  constructor
  · intro found
    by_cases dotted : dot ∈ name.reverse
    · obtain ⟨back, front, cut, plain⟩ := List.eq_append_cons_of_mem dotted
      obtain rfl : name = front.reverse ++ dot :: back.reverse := by
        rw [← List.reverse_reverse name, cut]
        simp
      rw [extension?_append (by simpa using plain), Option.ite_none_left_eq_some] at found
      obtain ⟨regular, same⟩ := found
      obtain ⟨nonempty, apart⟩ := not_or.mp regular
      cases same
      exact ⟨by simpa using plain, apart, _, nonempty, rfl⟩
    · have undotted : name.reverse.dropWhile (· ≠ dot) = [] := by
        rw [List.dropWhile_eq_nil_iff]
        exact fun byte member => decide_eq_true fun same => dotted (same ▸ member)
      unfold extension? at found
      simp only [undotted] at found
      cases found
  · rintro ⟨plain, apart, stem, nonempty, rfl⟩
    rw [extension?_append plain, if_neg (not_or.mpr ⟨nonempty, apart⟩)]

end Files.Path

/-- The names of files with the extension `json`; a dot at the very start begins none. -/
def IsMessageFile (file : Name) : Prop :=
  ∃ stem, stem ≠ [] ∧ file = stem ++ Text.toUtf8 ".json"

namespace LocaleFiles

theorem extension?_eq_json_iff {file : Name} :
    Path.extension? file = some jsonExtension ↔ IsMessageFile file := by
  have json : jsonExtension = [106, 115, 111, 110] := by
    rw [jsonExtension, Text.toUtf8_eq]
    rfl
  have ending : Text.toUtf8 ".json" = Path.dot :: jsonExtension := by
    rw [json, Text.toUtf8_eq]
    rfl
  rw [Path.extension?_eq_some_iff, IsMessageFile, ending]
  constructor
  · exact fun ⟨_, _, stem⟩ => stem
  · intro ⟨stem, nonempty, split⟩
    refine ⟨by rw [json]; decide, ?_, stem, nonempty, split⟩
    rintro rfl
    have size := congrArg List.length split
    simp [json] at size

variable {entries : List (Name × Entry)}

theorem mem_messageFilesAmong_iff {name : Name} :
    name ∈ messageFilesAmong entries ↔
      IsMessageFile name ∧ ∃ content, (name, .file content) ∈ entries := by
  have regular (entry : Entry) : isFile entry = true ↔ ∃ content, entry = .file content := by
    cases entry <;> simp [isFile]
  simp only [messageFilesAmong, List.mem_mergeSort, List.mem_map, List.mem_filter,
    Bool.and_eq_true, beq_iff_eq, regular, extension?_eq_json_iff]
  constructor
  · rintro ⟨⟨_, entry⟩, ⟨member, ⟨content, rfl⟩, ending⟩, rfl⟩
    exact ⟨ending, content, member⟩
  · rintro ⟨ending, content, member⟩
    exact ⟨_, ⟨member, ⟨content, rfl⟩, ending⟩, rfl⟩

theorem pairwise_messageFilesAmong (distinct : (entries.map Prod.fst).Nodup) :
    (messageFilesAmong entries).Pairwise (· < ·) := by
  apply pairwise_mergeSort_of_nodup
  · intro first second third
    simp only [decide_eq_true_eq]
    exact List.le_trans
  · intro first second
    simp only [Bool.or_eq_true, decide_eq_true_eq]
    exact List.le_total first second
  · intro left right below apart
    simp only [decide_eq_true_eq] at below
    exact List.not_le.mp fun above => apart (List.le_antisymm below above)
  · exact distinct.sublist (List.filter_sublist.map _)

theorem codeOfName_eq_ok_iff {name : Name} {code : LocaleCode} :
    codeOfName name = .ok code ↔ name = Text.toUtf8 code.text := by
  rw [← Text.ofUtf8?_eq_some_iff, codeOfName]
  obtain ⟨text⟩ := code
  cases Text.ofUtf8? name <;> simp

theorem localesAmong_eq_ok (distinct : (entries.map Prod.fst).Nodup)
    (decodable : ∀ name below, (name, .directory below) ∈ entries →
      ∃ text, name = Text.toUtf8 text) :
    ∃ codes, localesAmong entries = .ok codes ∧
      (codes.Pairwise fun left right => Text.toUtf8 left.text < Text.toUtf8 right.text) ∧
      ∀ code, code ∈ codes ↔ ∃ below, (Text.toUtf8 code.text, .directory below) ∈ entries := by
  have isBelow (entry : Entry) : isDirectory entry = true ↔ ∃ below, entry = .directory below := by
    cases entry <;> simp [isDirectory]
  let names := (entries.filter fun entry => isDirectory entry.2).map Prod.fst
  have mem_names (name : Name) : name ∈ names ↔ ∃ below, (name, .directory below) ∈ entries := by
    simp only [names, List.mem_map, List.mem_filter, isBelow]
    constructor
    · rintro ⟨⟨_, _⟩, ⟨member, below, rfl⟩, rfl⟩
      exact ⟨below, member⟩
    · rintro ⟨below, member⟩
      exact ⟨_, ⟨member, below, rfl⟩, rfl⟩
  obtain ⟨codes, decoded⟩ : ∃ codes, names.mapM codeOfName = .ok codes := by
    refine exists_mapM_eq_ok fun name member => ?_
    obtain ⟨below, listed⟩ := (mem_names name).mp member
    obtain ⟨text, rfl⟩ := decodable name below listed
    exact ⟨⟨text⟩, codeOfName_eq_ok_iff.mpr rfl⟩
  have spelled : names = codes.map fun code => Text.toUtf8 code.text := by
    have pairs := mapM_eq_ok_iff.mp decoded
    simp only [codeOfName_eq_ok_iff] at pairs
    rwa [← List.forall₂_map_right_iff (R := Eq), List.forall₂_eq_eq_eq] at pairs
  have apart : codes.Nodup := by
    refine List.Nodup.of_map (fun code => Text.toUtf8 code.text) ?_
    rw [← spelled]
    exact distinct.sublist (List.filter_sublist.map _)
  have sorted := LocaleCode.pairwise_sort apart
  have perm : (LocaleCode.sort codes).Perm codes := List.mergeSort_perm codes _
  refine ⟨LocaleCode.sort codes, ?_, sorted, fun code => ?_⟩
  · have same := eraseReps_of_nodup (perm.nodup_iff.mpr apart)
    exact bind_eq_ok_iff.mpr ⟨codes, decoded, by rw [same]; rfl⟩
  · rw [perm.mem_iff, ← mem_names, spelled, List.mem_map]
    constructor
    · exact fun member => ⟨code, member, rfl⟩
    · rintro ⟨other, member, same⟩
      obtain rfl : other = code := congrArg LocaleCode.mk (Text.toUtf8_injective same)
      exact member

end LocaleFiles

end MessageCatalog

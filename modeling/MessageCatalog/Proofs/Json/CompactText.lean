import Mathlib.Tactic.SplitIfs
import MessageCatalog.Json.Reader
import MessageCatalog.Json.Writer
import MessageCatalog.Proofs.Json.Structure
import MessageCatalog.Proofs.OrderedMap

/-!
Reading compact text back. A character of a string is written as it stands or as an escape, and the
reader undoes either. For whole values it matters what follows their text, how much fuel the reader
has, which the length of the text bounds, and how much nesting is left to it.
-/

namespace MessageCatalog.Json

theorem hexDigit?_hexDigitChar : ∀ digit < 16, hexDigit? (hexDigitChar digit) = some digit := by
  decide

theorem hexUnit?_of_control {unit : Nat} (control : unit < 0x20) :
    hexUnit? '0' '0' (hexDigitChar (unit / 16)) (hexDigitChar (unit % 16)) = some unit := by
  have zero : hexDigit? '0' = some 0 := rfl
  have high := hexDigit?_hexDigitChar (unit / 16) (by omega)
  have low := hexDigit?_hexDigitChar (unit % 16) (by omega)
  simp only [hexUnit?, zero, high, low, Option.bind_eq_bind, Option.bind_some, Option.pure_def,
    Option.some.injEq]
  omega

theorem readString_simpleEscape {letter meant : Char} (means : simpleEscape? letter = some meant)
    (rest : List Char) :
    readString ('\\' :: letter :: rest) =
      (readString rest).map fun (text, after) => (meant :: text, after) := by
  have apart : letter ≠ 'u' := by
    rintro rfl
    simp [simpleEscape?] at means
  rw [readString.eq_3 _ _ _ (fun _ _ _ _ _ same => absurd same apart)]
  simp [means]

theorem readString_escapeChar (c : Char) (rest : List Char) :
    readString (escapeChar c ++ rest) =
      (readString rest).map fun (text, after) => (c :: text, after) := by
  unfold escapeChar
  split_ifs with quote backslash backspace tab feed formFeed home control
  · exact readString_simpleEscape (by simp [quote, simpleEscape?]) rest
  · exact readString_simpleEscape (by simp [backslash, simpleEscape?]) rest
  · exact readString_simpleEscape (by simp [backspace, simpleEscape?]) rest
  · exact readString_simpleEscape (by simp [tab, simpleEscape?]) rest
  · exact readString_simpleEscape (by simp [feed, simpleEscape?]) rest
  · exact readString_simpleEscape (by simp [formFeed, simpleEscape?]) rest
  · exact readString_simpleEscape (by simp [home, simpleEscape?]) rest
  · have leading : isLeadingSurrogate c.toNat = false := by
      simp only [isLeadingSurrogate, Bool.and_eq_false_iff, decide_eq_false_iff_not]
      omega
    have trailing : isTrailingSurrogate c.toNat = false := by
      simp only [isTrailingSurrogate, Bool.and_eq_false_iff, decide_eq_false_iff_not]
      omega
    simp [readString, hexUnit?_of_control control, leading, trailing]
  · rw [List.singleton_append, readString.eq_def]
    simp [quote, backslash, control]

theorem readString_flatMap_escapeChar (text rest : List Char) :
    readString (text.flatMap escapeChar ++ '"' :: rest) = some (text, rest) := by
  induction text with
  | nil =>
      rw [List.flatMap_nil, List.nil_append, readString.eq_def]
      simp
  | cons c text ih =>
      rw [List.flatMap_cons, List.append_assoc, readString_escapeChar, ih]
      rfl

theorem skipBlanks_cons {c : Char} (visible : isBlank c = false) (rest : List Char) :
    skipBlanks (c :: rest) = c :: rest :=
  List.dropWhile_cons_of_neg (by simp [visible])

theorem readValue_quote (fuel room : Nat) (text : String) (rest : List Char) :
    readValue (fuel + 1) room (quote text ++ rest) = some (.string text, rest) := by
  have spelled : quote text ++ rest = '"' :: (text.toList.flatMap escapeChar ++ '"' :: rest) := by
    simp [quote]
  rw [spelled, readValue, skipBlanks_cons (by decide)]
  simp [readString_flatMap_escapeChar]

theorem readValue_null (fuel room : Nat) (rest : List Char) :
    readValue (fuel + 1) room ('n' :: 'u' :: 'l' :: 'l' :: rest) = some (.null, rest) := by
  rw [readValue, skipBlanks_cons (by decide)]
  simp [after?]

theorem readValue_item {item : Value} (textual : item.kind = .string ∨ item.kind = .null)
    (fuel room : Nat) (rest : List Char) :
    readValue (fuel + 1) room (compactChars item ++ rest) = some (item, rest) := by
  cases item with
  | string text => exact readValue_quote fuel room text rest
  | null => exact readValue_null fuel room rest
  | boolean | number | array | object => simp [Value.kind] at textual

theorem readItems_compactItems {items : List Value} (nonempty : items ≠ [])
    (textual : ∀ item ∈ items, item.kind = .string ∨ item.kind = .null) (fuel room : Nat)
    (rest : List Char) (enough : 2 * (compactItems items).length < fuel) :
    readItems fuel room (compactItems items ++ rest) = some (items, rest) := by
  induction items generalizing fuel with
  | nil => exact absurd rfl nonempty
  | cons item others ih =>
      obtain ⟨first, later⟩ := List.forall_mem_cons.mp textual
      -- Fuel is taken once by the list and once more by the item in it.
      obtain ⟨fuel, rfl⟩ : ∃ less, fuel = less + 2 := by
        cases others <;> simp [compactItems] at enough <;> exact ⟨fuel - 2, by omega⟩
      cases others with
      | nil =>
          have spelled : compactItems [item] ++ rest = compactChars item ++ ']' :: rest := by
            simp [compactItems]
          rw [spelled, readItems, readValue_item first]
          simp only [skipBlanks_cons (c := ']') (by decide)]
      | cons second others =>
          have spelled : compactItems (item :: second :: others) ++ rest =
              compactChars item ++ ',' :: (compactItems (second :: others) ++ rest) := by
            simp [compactItems]
          rw [spelled, readItems, readValue_item first]
          simp only [skipBlanks_cons (c := ',') (by decide)]
          rw [ih (by simp) later]
          · rfl
          · simp only [compactItems, List.length_append, List.length_cons] at enough ⊢
            omega

/-- The value is read back from its compact text where the nesting that is left suffices, and is
refused where it does not. -/
def ReadsBack (value : Value) : Prop :=
  ∀ fuel room rest, 2 * (compactChars value).length < fuel →
    readValue fuel room (compactChars value ++ rest) =
      if value.depth ≤ room then some (value, rest) else none

theorem readMembers_member {key : String} {value : Value} (read : ReadsBack value)
    (fuel room : Nat) (after : List Char) (enough : 2 * (compactChars value).length < fuel) :
    readMembers (fuel + 1) room (quote key ++ ':' :: (compactChars value ++ after)) =
      if value.depth ≤ room then
        match skipBlanks after with
        | ',' :: more =>
          (readMembers fuel room more).map fun (members, after) => ((key, value) :: members, after)
        | '}' :: after => some ([(key, value)], after)
        | _ => none
      else none := by
  have spelled : quote key ++ ':' :: (compactChars value ++ after) =
      '"' :: (key.toList.flatMap escapeChar ++ '"' :: ':' :: (compactChars value ++ after)) := by
    simp [quote]
  rw [spelled, readMembers, skipBlanks_cons (by decide)]
  simp only [readString_flatMap_escapeChar, skipBlanks_cons (c := ':') (by decide),
    read fuel room after enough, String.ofList_toList]
  split_ifs <;> rfl

theorem readMembers_compactMembers {members : List (String × Value)} (nonempty : members ≠ [])
    (read : ∀ member ∈ members, ReadsBack member.2) (fuel room : Nat) (rest : List Char)
    (enough : 2 * (compactMembers members).length < fuel) :
    readMembers fuel room (compactMembers members ++ rest) =
      if Value.depthOfMembers members ≤ room then some (members, rest) else none := by
  induction members generalizing fuel with
  | nil => exact absurd rfl nonempty
  | cons member others ih =>
      obtain ⟨key, value⟩ := member
      obtain ⟨first, later⟩ := List.forall_mem_cons.mp read
      replace first : ReadsBack value := first
      obtain ⟨fuel, rfl⟩ : ∃ less, fuel = less + 1 := ⟨fuel - 1, by omega⟩
      cases others with
      | nil =>
          have spelled : compactMembers [(key, value)] ++ rest =
              quote key ++ ':' :: (compactChars value ++ '}' :: rest) := by
            simp [compactMembers]
          simp only [compactMembers, List.length_append, List.length_cons] at enough
          rw [spelled, readMembers_member first fuel room _ (by omega)]
          simp only [skipBlanks_cons (c := '}') (by decide), Value.depthOfMembers, Nat.max_zero]
      | cons second others =>
          have spelled : compactMembers ((key, value) :: second :: others) ++ rest =
              quote key ++ ':' :: (compactChars value ++
                ',' :: (compactMembers (second :: others) ++ rest)) := by simp [compactMembers]
          simp only [compactMembers, List.length_append, List.length_cons] at enough
          rw [spelled, readMembers_member first fuel room _ (by omega)]
          simp only [skipBlanks_cons (c := ',') (by decide)]
          have deepest : Value.depthOfMembers ((key, value) :: second :: others) =
              max value.depth (Value.depthOfMembers (second :: others)) := rfl
          rw [ih (by simp) later fuel (by omega), deepest]
          by_cases shallow : value.depth ≤ room
          · by_cases shallowLater : Value.depthOfMembers (second :: others) ≤ room
            · have both := Nat.max_le.mpr ⟨shallow, shallowLater⟩
              rw [if_pos shallow, if_pos shallowLater, if_pos both]
              rfl
            · rw [if_pos shallow, if_neg shallowLater, if_neg (by omega)]
              rfl
          · rw [if_neg shallow, if_neg (by omega)]

/-- Behind an opening bracket or brace there is no room when all nesting is used up. -/
theorem readValue_no_room {c : Char} (opening : c = '[' ∨ c = '{') (fuel : Nat)
    (rest : List Char) : readValue (fuel + 1) 0 (c :: rest) = none := by
  rcases opening with rfl | rfl <;> rw [readValue, skipBlanks_cons (by decide)] <;> simp

theorem readValue_bracket {c : Char} (visible : isBlank c = false) (fuel room : Nat)
    (tail : List Char) :
    readValue (fuel + 1) (room + 1) ('[' :: c :: tail) =
      if c = ']' then some (.array [], tail)
      else (readItems fuel room (c :: tail)).map fun (items, after) => (.array items, after) := by
  rw [readValue, skipBlanks_cons (by decide)]
  by_cases closing : c = ']'
  · subst closing
    simp [skipBlanks_cons (c := ']') (by decide)]
  · simp [skipBlanks_cons visible, closing]

theorem readValue_brace {c : Char} (visible : isBlank c = false) (fuel room : Nat)
    (tail : List Char) :
    readValue (fuel + 1) (room + 1) ('{' :: c :: tail) =
      if c = '}' then some (.object .empty, tail)
      else (readMembers fuel room (c :: tail)).map fun (members, after) =>
        (.object (.ofList members), after) := by
  rw [readValue, skipBlanks_cons (by decide)]
  by_cases closing : c = '}'
  · subst closing
    simp [skipBlanks_cons (c := '}') (by decide)]
  · simp [skipBlanks_cons visible, closing]

theorem compactItems_head {items : List Value} (nonempty : items ≠ [])
    (textual : ∀ item ∈ items, item.kind = .string ∨ item.kind = .null) :
    ∃ tail, compactItems items = '"' :: tail ∨ compactItems items = 'n' :: tail := by
  cases items with
  | nil => exact absurd rfl nonempty
  | cons item others =>
      cases item with
      | string text => cases others <;> exact ⟨_, Or.inl rfl⟩
      | null => cases others <;> exact ⟨_, Or.inr rfl⟩
      | boolean | number | array | object => simp [Value.kind] at textual

theorem depth_array_of_textual {items : List Value}
    (textual : ∀ item ∈ items, item.kind = .string ∨ item.kind = .null) :
    (Value.array items).depth = 1 := by
  have flat : Value.depthOfItems items = 0 := by
    refine Nat.le_zero.mp (Value.depthOfItems_le_iff.mpr fun item member => ?_)
    rcases textual item member with kind | kind <;> cases item <;> cases kind <;>
      exact Nat.le_refl 0
  rw [Value.depth, flat]

theorem readsBack_array {items : List Value}
    (textual : ∀ item ∈ items, item.kind = .string ∨ item.kind = .null) :
    ReadsBack (.array items) := by
  intro fuel room rest enough
  obtain ⟨fuel, rfl⟩ : ∃ less, fuel = less + 1 := ⟨fuel - 1, by omega⟩
  rw [compactChars, List.cons_append, depth_array_of_textual textual]
  cases room with
  | zero => rw [readValue_no_room (Or.inl rfl), if_neg (by omega)]
  | succ room =>
      rw [if_pos (by omega)]
      cases items with
      | nil => rw [compactItems, List.singleton_append, readValue_bracket (by decide), if_pos rfl]
      | cons item others =>
          simp only [compactChars, List.length_cons] at enough
          have read := readItems_compactItems (by simp) textual fuel room rest (by omega)
          obtain ⟨tail, spelled | spelled⟩ := compactItems_head (by simp) textual
          all_goals
            rw [spelled, List.cons_append] at read ⊢
            rw [readValue_bracket (by decide), if_neg (by decide), read, Option.map_some]

theorem readsBack_object {members : List (String × Value)}
    (read : ∀ member ∈ members, ReadsBack member.2)
    (distinct : (members.map Prod.fst).Nodup) :
    ReadsBack (.object ⟨members⟩) := by
  intro fuel room rest enough
  obtain ⟨fuel, rfl⟩ : ∃ less, fuel = less + 1 := ⟨fuel - 1, by omega⟩
  rw [compactChars, List.cons_append, Value.depth]
  cases room with
  | zero => rw [readValue_no_room (Or.inr rfl), if_neg (by omega)]
  | succ room =>
      cases members with
      | nil =>
          rw [compactMembers, List.singleton_append, readValue_brace (by decide), if_pos rfl,
            Value.depthOfMembers, if_pos (by omega)]
          rfl
      | cons member others =>
          simp only [compactChars, List.length_cons] at enough
          have read := readMembers_compactMembers (by simp) read fuel room rest (by omega)
          obtain ⟨tail, spelled⟩ : ∃ tail, compactMembers (member :: others) = '"' :: tail := by
            cases others <;> exact ⟨_, rfl⟩
          rw [spelled, List.cons_append] at read ⊢
          rw [readValue_brace (by decide), if_neg (by decide), read]
          by_cases shallow : Value.depthOfMembers (member :: others) ≤ room
          · rw [if_pos shallow, if_pos (by omega)]
            simp only [Option.map_some, OrderedMap.ofList_of_nodup distinct]
          · rw [if_neg shallow, if_neg (by omega), Option.map_none]

theorem readsBack {value : Value} (textual : value.Textual) (distinct : value.DistinctKeys) :
    ReadsBack value := by
  induction value using Value.induction with
  | null | boolean | number => exact textual.elim
  | string text =>
      intro fuel room rest enough
      obtain ⟨fuel, rfl⟩ : ∃ less, fuel = less + 1 := ⟨fuel - 1, by omega⟩
      have flat : (Value.string text).depth ≤ room := Nat.zero_le room
      rw [compactChars, readValue_quote, if_pos flat]
  | array items => exact readsBack_array textual
  | object members read =>
      obtain ⟨members⟩ := members
      obtain ⟨unique, below⟩ := distinct
      refine readsBack_object (fun member known => ?_) unique
      exact read member known (Value.textualMembers_iff.mp textual member known)
        (Value.distinctInMembers_iff.mp below member known)

variable {value : Value}

/-- A value that holds nothing but texts is read back from its compact text unless it nests too
deep. -/
theorem readFront?_compact (textual : value.Textual) (distinct : value.DistinctKeys) :
    Value.readFront? value.compact = if value.depth ≤ maxDepth then some (value, []) else none := by
  have read := readsBack textual distinct (2 * (compactChars value).length + 2) maxDepth []
    (by omega)
  rw [List.append_nil] at read
  rw [Value.readFront?, Value.compact, String.toList_ofList, read]

theorem parse?_compact (textual : value.Textual) (distinct : value.DistinctKeys) :
    Value.parse? value.compact = if value.depth ≤ maxDepth then some value else none := by
  rw [Value.parse?, readFront?_compact textual distinct]
  by_cases shallow : value.depth ≤ maxDepth <;> simp [shallow, skipBlanks]

end MessageCatalog.Json

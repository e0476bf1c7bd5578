import Mathlib.Algebra.Group.Nat.Defs
import Mathlib.Logic.Function.Basic
import Mathlib.Tactic.SplitIfs
import MessageCatalog.Text.Utf8

/-!
UTF-8 as a bijection. Reading bytes gives a text exactly when the bytes are what that text is
written as, and bytes are ordered as the code points of the texts are.
-/

namespace MessageCatalog.Text

theorem toList_loop (bytes : ByteArray) (start : Nat) (read : List UInt8) :
    ByteArray.toList.loop bytes start read = read.reverse ++ bytes.data.toList.drop start := by
  fun_induction ByteArray.toList.loop bytes start read with
  | case1 start read inside ih =>
      have within : start < bytes.data.toList.length := by simpa using inside
      rw [ih, List.drop_eq_getElem_cons within]
      simp [ByteArray.get!, inside]
  | case2 start read outside =>
      rw [List.drop_eq_nil_of_le (by simpa using Nat.le_of_not_lt outside)]
      simp

theorem toUtf8_eq (text : String) : toUtf8 text = text.toList.flatMap String.utf8EncodeChar := by
  obtain ⟨chars, rfl⟩ := text.exists_eq_ofList
  rw [toUtf8, String.toUTF8_eq_toByteArray, String.toByteArray_ofList, String.toList_ofList,
    List.utf8Encode, ByteArray.toList, toList_loop, List.toList_data_toByteArray]
  rfl

theorem val_ofNat {value : Nat} (valid : value.isValidChar) :
    (Char.ofNat value).val.toNat = value := by
  rw [Char.ofNat, dif_pos valid]
  rfl

/-- The last bytes of a character, with six bits each. -/
def continuation (value : Nat) : Nat → Bytes
  | 0 => []
  | missing + 1 => UInt8.ofNat (value / 64 ^ missing % 64 + 0x80) :: continuation value missing

theorem utf8EncodeChar_eq (c : Char) :
    let value := c.val.toNat
    String.utf8EncodeChar c =
      if value < 0x80 then [UInt8.ofNat value]
      else if value < 0x800 then UInt8.ofNat (value / 64 + 0xC0) :: continuation value 1
      else if value < 0x10000 then UInt8.ofNat (value / 64 ^ 2 + 0xE0) :: continuation value 2
      else UInt8.ofNat (value / 64 ^ 3 + 0xF0) :: continuation value 3 := by
  intro value
  have valid : value.isValidChar := c.valid
  unfold Nat.isValidChar at valid
  unfold String.utf8EncodeChar
  simp only [Nat.le_iff_lt_add_one, continuation, Nat.reducePow, Nat.div_one, Nat.reduceAdd]
  change (if value < 128 then _ else if value < 2048 then _ else if value < 65536 then _ else _) = _
  have two (below : value < 0x800) : value / 64 % 32 = value / 64 := by omega
  have three (below : value < 0x10000) : value / 4096 % 16 = value / 4096 := by omega
  have four : value / 262144 % 8 = value / 262144 := by omega
  split_ifs with h1 h2 h3
  · rfl
  · rw [two h2]
  · rw [three h3]
  · rw [four]

/-- The sequence is the start of the character with this number. -/
structure OpenSequence.Leads (sequence : OpenSequence) (value : Nat) : Prop where
  begun : value / 64 ^ sequence.missing = sequence.bits
  lower : sequence.low.toNat ≤ value / 64 ^ (sequence.missing - 1) % 64 + 0x80
  upper : value / 64 ^ (sequence.missing - 1) % 64 + 0x80 ≤ sequence.high.toNat

theorem openSequence?_eq_some_iff {lead : UInt8} {sequence : OpenSequence} :
    openSequence? lead = some sequence ↔
    (0xC2 ≤ lead.toNat ∧ lead.toNat ≤ 0xDF ∧ sequence = ⟨1, 0x80, 0xBF, lead.toNat - 0xC0⟩) ∨
    (lead.toNat = 0xE0 ∧ sequence = ⟨2, 0xA0, 0xBF, lead.toNat - 0xE0⟩) ∨
    (lead.toNat = 0xED ∧ sequence = ⟨2, 0x80, 0x9F, lead.toNat - 0xE0⟩) ∨
    (0xE1 ≤ lead.toNat ∧ lead.toNat ≤ 0xEF ∧ lead.toNat ≠ 0xED ∧
      sequence = ⟨2, 0x80, 0xBF, lead.toNat - 0xE0⟩) ∨
    (lead.toNat = 0xF0 ∧ sequence = ⟨3, 0x90, 0xBF, lead.toNat - 0xF0⟩) ∨
    (0xF1 ≤ lead.toNat ∧ lead.toNat ≤ 0xF3 ∧ sequence = ⟨3, 0x80, 0xBF, lead.toNat - 0xF0⟩) ∨
    (lead.toNat = 0xF4 ∧ sequence = ⟨3, 0x80, 0x8F, lead.toNat - 0xF0⟩) := by
  simp only [openSequence?, UInt8.le_iff_toNat_le, ← UInt8.toNat_inj, Bool.and_eq_true,
    decide_eq_true_eq, UInt8.reduceToNat]
  constructor
  · intro opened
    split_ifs at opened <;> cases opened <;> simp_all
  · rintro (⟨_, _, rfl⟩ | ⟨_, rfl⟩ | ⟨_, rfl⟩ | ⟨_, _, _, rfl⟩ | ⟨_, rfl⟩ | ⟨_, _, rfl⟩ | ⟨_, rfl⟩)
    all_goals split_ifs <;> first | omega | simp_all

theorem OpenSequence.Leads.range {lead : UInt8} {sequence : OpenSequence}
    (opened : openSequence? lead = some sequence) {value : Nat} (leads : sequence.Leads value) :
    (sequence.missing = 1 ∧ 0x80 ≤ value ∧ value < 0x800 ∧ value / 64 + 0xC0 = lead.toNat) ∨
    (sequence.missing = 2 ∧ 0x800 ≤ value ∧ value < 0x10000 ∧ value.isValidChar ∧
      value / 64 ^ 2 + 0xE0 = lead.toNat) ∨
    (sequence.missing = 3 ∧ 0x10000 ≤ value ∧ value < 0x110000 ∧
      value / 64 ^ 3 + 0xF0 = lead.toNat) := by
  obtain ⟨begun, lower, upper⟩ := leads
  unfold Nat.isValidChar
  rcases openSequence?_eq_some_iff.mp opened with
    ⟨_, _, rfl⟩ | ⟨_, rfl⟩ | ⟨_, rfl⟩ | ⟨_, _, _, rfl⟩ | ⟨_, rfl⟩ | ⟨_, _, rfl⟩ | ⟨_, rfl⟩ <;>
    simp only [UInt8.reduceToNat, Nat.reducePow, Nat.reduceSub, Nat.div_one, Nat.reduceEqDiff,
      true_and, false_and, or_false, false_or] at begun lower upper ⊢ <;>
    omega

theorem utf8EncodeChar_ofNat {lead : UInt8} {sequence : OpenSequence}
    (opened : openSequence? lead = some sequence) {value : Nat} (leads : sequence.Leads value) :
    String.utf8EncodeChar (Char.ofNat value) = lead :: continuation value sequence.missing := by
  have back : UInt8.ofNat lead.toNat = lead := UInt8.ofNat_toNat
  rcases leads.range opened with ⟨missing, _, below, begun⟩ | ⟨missing, _, below, valid, begun⟩ |
    ⟨missing, above, below, begun⟩
  · have valid : value.isValidChar := Or.inl (by omega)
    rw [utf8EncodeChar_eq, val_ofNat valid, if_neg (by omega), if_pos below, begun, back, missing]
  · rw [utf8EncodeChar_eq, val_ofNat valid, if_neg (by omega), if_neg (by omega), if_pos below,
      begun, back, missing]
  · have valid : value.isValidChar := Or.inr (by omega)
    rw [utf8EncodeChar_eq, val_ofNat valid, if_neg (by omega), if_neg (by omega),
      if_neg (by omega), begun, back, missing]

/-- Every character beyond ASCII is led by a byte that opens a sequence. -/
theorem exists_openSequence {value : Nat} (beyond : 0x80 ≤ value) (valid : value.isValidChar) :
    ∃ lead sequence, openSequence? lead = some sequence ∧ sequence.Leads value := by
  unfold Nat.isValidChar at valid
  simp only [openSequence?_eq_some_iff]
  by_cases two : value < 0x800
  · refine ⟨UInt8.ofNat (value / 64 + 0xC0), _, Or.inl ⟨?_, ?_, rfl⟩, ?_, ?_, ?_⟩ <;> simp <;> omega
  by_cases first : value < 0x1000
  · refine ⟨0xE0, _, Or.inr (Or.inl ⟨rfl, rfl⟩), ?_, ?_, ?_⟩ <;> simp <;> omega
  by_cases beforeSurrogates : 0xD000 ≤ value ∧ value < 0xD800
  · refine ⟨0xED, _, Or.inr (Or.inr (Or.inl ⟨rfl, rfl⟩)), ?_, ?_, ?_⟩ <;> simp <;> omega
  by_cases three : value < 0x10000
  · refine ⟨UInt8.ofNat (value / 64 ^ 2 + 0xE0), _,
      Or.inr (Or.inr (Or.inr (Or.inl ⟨?_, ?_, ?_, rfl⟩))), ?_, ?_, ?_⟩ <;> simp <;> omega
  by_cases low : value < 0x40000
  · refine ⟨0xF0, _, Or.inr (Or.inr (Or.inr (Or.inr (Or.inl ⟨rfl, rfl⟩)))), ?_, ?_, ?_⟩ <;>
      simp <;> omega
  by_cases middle : value < 0x100000
  · refine ⟨UInt8.ofNat (value / 64 ^ 3 + 0xF0), _,
      Or.inr (Or.inr (Or.inr (Or.inr (Or.inr (Or.inl ⟨?_, ?_, rfl⟩))))), ?_, ?_, ?_⟩ <;>
      simp <;> omega
  · refine ⟨0xF4, _, Or.inr (Or.inr (Or.inr (Or.inr (Or.inr (Or.inr ⟨rfl, rfl⟩))))), ?_, ?_, ?_⟩ <;>
      simp <;> omega

section Steps
variable {missing bits value : Nat} {low high : UInt8}

theorem utf8Units_of_within {byte : UInt8} (within : low ≤ byte ∧ byte ≤ high) (rest : Bytes) :
    utf8Units (some ⟨missing + 1, low, high, bits⟩) (byte :: rest) =
      if missing = 0 then some (Char.ofNat (bits * 64 + (byte.toNat - 0x80))) :: utf8Units none rest
      else utf8Units (some ⟨missing, 0x80, 0xBF, bits * 64 + (byte.toNat - 0x80)⟩) rest := by
  rw [utf8Units, utf8Step]
  simp only [within, OpenSequence.push, decide_true, Bool.and_self, if_true, Nat.add_sub_cancel]
  split <;> rfl

theorem div_pow_succ (value missing : Nat) :
    value / 64 ^ (missing + 1) = value / 64 ^ missing / 64 := by
  rw [Nat.pow_succ, Nat.div_div_eq_div_mul]

namespace OpenSequence

/-- The byte with which a started character goes on. -/
theorem Leads.goes_on (leads : Leads ⟨missing + 1, low, high, bits⟩ value) :
    let byte := UInt8.ofNat (value / 64 ^ missing % 64 + 0x80)
    (low ≤ byte ∧ byte ≤ high) ∧ bits * 64 + (byte.toNat - 0x80) = value / 64 ^ missing := by
  intro byte
  obtain ⟨begun, lower, upper⟩ := leads
  simp only [div_pow_succ, Nat.add_sub_cancel] at begun lower upper
  have small : value / 64 ^ missing % 64 + 0x80 < 256 := by omega
  have same : byte.toNat = value / 64 ^ missing % 64 + 0x80 := UInt8.toNat_ofNat_of_lt' small
  rw [UInt8.le_iff_toNat_le, UInt8.le_iff_toNat_le, same]
  exact ⟨⟨lower, upper⟩, by omega⟩

theorem leads_of_goes_on {byte : UInt8} (sound : 0x80 ≤ low.toNat ∧ high.toNat ≤ 0xBF)
    (within : low ≤ byte ∧ byte ≤ high)
    (same : value / 64 ^ missing = bits * 64 + (byte.toNat - 0x80)) :
    Leads ⟨missing + 1, low, high, bits⟩ value ∧
      UInt8.ofNat (value / 64 ^ missing % 64 + 0x80) = byte := by
  obtain ⟨above, below⟩ : low.toNat ≤ byte.toNat ∧ byte.toNat ≤ high.toNat := within
  have digit : value / 64 ^ missing % 64 + 0x80 = byte.toNat := by omega
  refine ⟨⟨?_, ?_, ?_⟩, by rw [digit, UInt8.ofNat_toNat]⟩
  · rw [div_pow_succ, same]
    dsimp only
    omega
  · exact digit ▸ above
  · exact digit ▸ below

end OpenSequence

theorem utf8Units_continuation
    (leads : OpenSequence.Leads ⟨missing + 1, low, high, bits⟩ value) (rest : Bytes) :
    utf8Units (some ⟨missing + 1, low, high, bits⟩) (continuation value (missing + 1) ++ rest) =
      some (Char.ofNat value) :: utf8Units none rest := by
  obtain ⟨within, whole⟩ := leads.goes_on
  rw [continuation, List.cons_append, utf8Units_of_within within, whole]
  induction missing generalizing low high bits with
  | zero => simp [continuation]
  | succ missing ih =>
      let bits := value / 64 ^ (missing + 1)
      have next : OpenSequence.Leads ⟨missing + 1, 0x80, 0xBF, bits⟩ value := by
        refine ⟨rfl, ?_, ?_⟩
        · exact Nat.le_add_left _ _
        · have digit : value / 64 ^ missing % 64 < 64 := Nat.mod_lt _ (by decide)
          exact Nat.add_le_add_right (Nat.le_of_lt_succ digit) 0x80
      obtain ⟨within, whole⟩ := next.goes_on
      rw [if_neg (Nat.succ_ne_zero missing), continuation, List.cons_append,
        utf8Units_of_within within, whole]
      exact ih next within whole

theorem within_of_read {bytes : Bytes} {chars : List Char}
    (read : utf8Units (some ⟨missing + 1, low, high, bits⟩) bytes = chars.map some) :
    ∃ byte rest, bytes = byte :: rest ∧ low ≤ byte ∧ byte ≤ high := by
  have whole : none ∉ chars.map some := by simp
  rw [← read] at whole
  cases bytes with
  | nil => simp [utf8Units] at whole
  | cons byte rest =>
      refine ⟨byte, rest, rfl, ?_⟩
      by_contra outside
      rw [utf8Units, utf8Step, if_neg (by simpa using outside)] at whole
      simp at whole

/-- Bytes that are read after the start of a character without any malformed unit go on with it. -/
theorem exists_continuation {bytes : Bytes} {chars : List Char}
    (sound : 0x80 ≤ low.toNat ∧ high.toNat ≤ 0xBF)
    (read : utf8Units (some ⟨missing + 1, low, high, bits⟩) bytes = chars.map some) :
    ∃ value rest later, OpenSequence.Leads ⟨missing + 1, low, high, bits⟩ value ∧
      bytes = continuation value (missing + 1) ++ rest ∧ chars = Char.ofNat value :: later ∧
      utf8Units none rest = later.map some := by
  induction missing generalizing low high bits bytes with
  | zero =>
      obtain ⟨byte, rest, rfl, within⟩ := within_of_read read
      rw [utf8Units_of_within within, if_pos rfl] at read
      obtain ⟨char, later, rfl, same, tail⟩ := List.map_eq_cons_iff.mp read.symm
      have begun (value : Nat) : value / 64 ^ 0 = value := Nat.div_one value
      obtain ⟨leads, first⟩ := OpenSequence.leads_of_goes_on sound within (begun _)
      refine ⟨_, rest, later, leads, ?_, by rw [Option.some.inj same], tail.symm⟩
      rw [continuation, first]
      rfl
  | succ missing ih =>
      obtain ⟨byte, rest, rfl, within⟩ := within_of_read read
      rw [utf8Units_of_within within, if_neg (Nat.succ_ne_zero missing)] at read
      obtain ⟨value, rest, later, next, rfl, chars, tail⟩ := ih (by decide) read
      have begun : value / 64 ^ (missing + 1) = bits * 64 + (byte.toNat - 0x80) := next.begun
      obtain ⟨leads, first⟩ := OpenSequence.leads_of_goes_on sound within begun
      refine ⟨value, rest, later, leads, ?_, chars, tail⟩
      rw [← first]
      rfl

end Steps

theorem sound_of_opened {lead : UInt8} {sequence : OpenSequence}
    (opened : openSequence? lead = some sequence) :
    ¬lead < 0x80 ∧ ∃ missing low high bits, sequence = ⟨missing + 1, low, high, bits⟩ ∧
      0x80 ≤ low.toNat ∧ high.toNat ≤ 0xBF := by
  rw [UInt8.lt_iff_toNat_lt]
  rcases openSequence?_eq_some_iff.mp opened with
    ⟨_, _, rfl⟩ | ⟨_, rfl⟩ | ⟨_, rfl⟩ | ⟨_, _, _, rfl⟩ | ⟨_, rfl⟩ | ⟨_, _, rfl⟩ | ⟨_, rfl⟩
  all_goals exact ⟨by simp; omega, _, _, _, _, rfl, by decide, by decide⟩

theorem utf8Units_of_opened {lead : UInt8} {sequence : OpenSequence}
    (opened : openSequence? lead = some sequence) (rest : Bytes) :
    utf8Units none (lead :: rest) = utf8Units (some sequence) rest := by
  rw [utf8Units, utf8Step, beginUnit, if_neg (sound_of_opened opened).1, opened]
  rfl

theorem utf8Units_of_ascii {byte : UInt8} (ascii : byte < 0x80) (rest : Bytes) :
    utf8Units none (byte :: rest) = some (Char.ofNat byte.toNat) :: utf8Units none rest := by
  rw [utf8Units, utf8Step, beginUnit, if_pos ascii]
  rfl

theorem utf8Units_utf8EncodeChar (c : Char) (rest : Bytes) :
    utf8Units none (String.utf8EncodeChar c ++ rest) = some c :: utf8Units none rest := by
  have same : Char.ofNat c.val.toNat = c := Char.ofNat_toNat c
  by_cases ascii : c.val.toNat < 0x80
  · have byte : (UInt8.ofNat c.val.toNat).toNat = c.val.toNat :=
      UInt8.toNat_ofNat_of_lt' (Nat.lt_trans ascii (by decide))
    have plain : UInt8.ofNat c.val.toNat < 0x80 := by
      rw [UInt8.lt_iff_toNat_lt, byte]
      exact ascii
    rw [utf8EncodeChar_eq, if_pos ascii, List.singleton_append, utf8Units_of_ascii plain, byte,
      same]
  · obtain ⟨lead, sequence, opened, leads⟩ :=
      exists_openSequence (Nat.le_of_not_lt ascii) c.valid
    have encoded := utf8EncodeChar_ofNat opened leads
    obtain ⟨_, missing, low, high, bits, rfl, _⟩ := sound_of_opened opened
    rw [same] at encoded
    rw [encoded, List.cons_append, utf8Units_of_opened opened, utf8Units_continuation leads, same]

theorem utf8Units_eq_map_iff {bytes : Bytes} {chars : List Char} :
    utf8Units none bytes = chars.map some ↔ bytes = chars.flatMap String.utf8EncodeChar := by
  constructor
  · -- Strong induction on the bytes, since a character takes up to four of them.
    intro read
    induction size : bytes.length using Nat.strongRecOn generalizing bytes chars with
    | _ _ ih =>
    cases bytes with
    | nil =>
        obtain rfl : chars = [] := by simpa [utf8Units] using read.symm
        rfl
    | cons lead rest =>
        by_cases ascii : lead < 0x80
        · rw [utf8Units_of_ascii ascii] at read
          obtain ⟨char, later, rfl, same, tail⟩ := List.map_eq_cons_iff.mp read.symm
          have small : lead.toNat < 0x80 := ascii
          have encoded : String.utf8EncodeChar char = [lead] := by
            rw [Option.some.inj same, utf8EncodeChar_eq, val_ofNat (Or.inl (by omega)),
              if_pos small, UInt8.ofNat_toNat]
          rw [List.flatMap_cons, encoded, ← ih rest.length (by simp [← size]) tail.symm rfl,
            List.singleton_append]
        · cases opened : openSequence? lead with
          | none =>
              have malformed : none ∈ chars.map some := by
                rw [← read, utf8Units, utf8Step, beginUnit, if_neg ascii, opened]
                simp
              simp at malformed
          | some sequence =>
              obtain ⟨_, missing, low, high, bits, rfl, sound⟩ := sound_of_opened opened
              rw [utf8Units_of_opened opened] at read
              obtain ⟨value, rest, later, leads, rfl, rfl, tail⟩ := exists_continuation sound read
              have encoded := utf8EncodeChar_ofNat opened leads
              rw [List.flatMap_cons, encoded, ← ih rest.length _ tail rfl]
              · rfl
              · simp only [← size, List.length_cons, List.length_append]
                omega
  · rintro rfl
    induction chars with
    | nil => rfl
    | cons c chars ih => rw [List.flatMap_cons, utf8Units_utf8EncodeChar, ih, List.map_cons]

theorem mapM_id_eq_some_iff {α : Type} {units : List (Option α)} {values : List α} :
    units.mapM id = some values ↔ units = values.map some := by
  induction units generalizing values with
  | nil => cases values <;> simp
  | cons unit rest ih =>
      cases unit with
      | none => cases values <;> simp
      | some value => cases values with
          | nil => simp [Option.bind_eq_some_iff]
          | cons first later =>
              simp only [List.mapM_cons, ih, bind, Option.bind_eq_some_iff, pure, id_eq,
                List.map_cons, List.cons.injEq, Option.some.injEq]
              constructor
              · rintro ⟨_, rfl, _, rest, rfl, rfl⟩
                exact ⟨rfl, rest⟩
              · rintro ⟨rfl, rest⟩
                exact ⟨_, rfl, _, rest, rfl, rfl⟩

/-- Bytes are read as a text exactly when they are what the text is written as. -/
theorem ofUtf8?_eq_some_iff {bytes : Bytes} {text : String} :
    ofUtf8? bytes = some text ↔ bytes = toUtf8 text := by
  rw [ofUtf8?, toUtf8_eq, Option.map_eq_some_iff, ← utf8Units_eq_map_iff]
  constructor
  · rintro ⟨chars, read, rfl⟩
    rw [String.toList_ofList]
    exact mapM_id_eq_some_iff.mp read
  · intro read
    exact ⟨text.toList, mapM_id_eq_some_iff.mpr read, String.ofList_toList⟩

theorem toUtf8_injective : Function.Injective toUtf8 := by
  intro left right same
  have read := ofUtf8?_eq_some_iff.mpr (rfl : toUtf8 left = toUtf8 left)
  rw [same, ofUtf8?_eq_some_iff.mpr rfl] at read
  exact (Option.some.inj read).symm

/-! The order of texts. -/

theorem utf8EncodeChar_append_lt {c d : Char} (below : c < d) (first second : Bytes) :
    String.utf8EncodeChar c ++ first < String.utf8EncodeChar d ++ second := by
  have order : c.val.toNat < d.val.toNat := below
  have valid : d.val.toNat.isValidChar := d.valid
  unfold Nat.isValidChar at valid
  fun_cases String.utf8EncodeChar c <;> fun_cases String.utf8EncodeChar d <;>
    simp only [List.cons_append, List.nil_append, List.cons_lt_cons_iff, UInt8.lt_iff_toNat_lt,
      ← UInt8.toNat_inj, UInt8.toNat_ofNat', Nat.reducePow] <;>
    simp (disch := omega) only [Nat.mod_eq_of_lt] <;>
    omega

theorem flatMap_utf8EncodeChar_lt {first second : List Char} (below : first < second) :
    first.flatMap String.utf8EncodeChar < second.flatMap String.utf8EncodeChar := by
  induction first generalizing second with
  | nil =>
      cases second with
      | nil => simp at below
      | cons d second =>
          obtain ⟨lead, others, encoded⟩ := List.exists_cons_of_ne_nil
            (String.utf8EncodeChar_ne_nil : String.utf8EncodeChar d ≠ [])
          simp [encoded]
  | cons c first ih =>
      cases second with
      | nil => simp at below
      | cons d second =>
          rcases List.cons_lt_cons_iff.mp below with smaller | ⟨rfl, later⟩
          · exact utf8EncodeChar_append_lt smaller _ _
          · exact List.append_left_lt (ih later)

/-- Texts are ordered by their code points as their bytes are. -/
theorem toUtf8_lt_toUtf8 {left right : String} (below : left < right) :
    toUtf8 left < toUtf8 right := by
  rw [toUtf8_eq, toUtf8_eq]
  exact flatMap_utf8EncodeChar_lt below

/-! Cutting a text off after some bytes. -/

theorem startOfSize?_append (front rest : List Char) :
    startOfSize? (byteSize front) (front ++ rest) = some front := by
  induction front with
  | nil => cases rest <;> rfl
  | cons c front ih =>
      have positive := c.utf8Size_pos
      rw [List.cons_append, startOfSize?, byteSize, if_neg (by omega),
        if_pos (Nat.le_add_right _ _), Nat.add_sub_cancel_left, ih]
      rfl

/-- There is a start of the size exactly if a character ends there. -/
theorem startOfSize?_eq_some_iff {size : Nat} {text start : List Char} :
    startOfSize? size text = some start ↔ start <+: text ∧ byteSize start = size := by
  constructor
  · intro found
    induction text generalizing size start with
    | nil =>
        rw [startOfSize?] at found
        split at found
        · next empty =>
            cases found
            exact ⟨List.nil_prefix, empty.symm⟩
        · cases found
    | cons c rest ih =>
        rw [startOfSize?] at found
        split at found
        · next empty =>
            cases found
            exact ⟨List.nil_prefix, empty.symm⟩
        · split at found
          · next fits =>
              obtain ⟨front, later, rfl⟩ := Option.map_eq_some_iff.mp found
              obtain ⟨leads, measured⟩ := ih later
              refine ⟨List.cons_prefix_cons.mpr ⟨rfl, leads⟩, ?_⟩
              rw [byteSize, measured]
              omega
          · cases found
  · rintro ⟨⟨rest, rfl⟩, rfl⟩
    exact startOfSize?_append start rest

end MessageCatalog.Text

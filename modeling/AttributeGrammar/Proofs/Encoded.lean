import AttributeGrammar.Text.Encoded
import Mathlib

/-! The bytes that encode a text are decoded to it, and no others to anything.
The first byte of a character tells how many more there are and which the second may be. Every character
of so many bytes is within these bounds, so none is refused; and what is within them encodes a character.
-/
namespace AttributeGrammar.Text

def encode (text : List Char) : List UInt8 := text.flatMap String.utf8EncodeChar

theorem toList_toUTF8 (text : String) : text.toUTF8.data.toList = encode text.toList := by
  change text.toByteArray.data.toList = _
  rw [← String.utf8Encode_toList]
  exact List.toList_data_toByteArray

/-! ### Reading one character -/

section
variable {first second third fourth least most : UInt8} {count taken bits position : Nat} {c : Char}
  {rest : List UInt8}

abbrev Continues (byte : UInt8) : Prop := 0x80 ≤ byte.toNat ∧ byte.toNat ≤ 0xBF

private theorem not_lt_of_toNat_le (low : least.toNat ≤ first.toNat) : ¬ first < least :=
  UInt8.not_lt.mpr (UInt8.le_iff_toNat_le.mpr low)

private theorem continueWith_cons (low : least.toNat ≤ first.toNat) (high : first.toNat ≤ most.toNat) :
    continueWith (count + 1) taken least most bits (first :: rest) =
      continueWith count (taken + 1) 0x80 0xBF (bits * 64 + (first.toNat - 0x80)) rest := by
  simp [continueWith, UInt8.le_iff_toNat_le, low, high]

private theorem continueWith_next (next : Continues first) :
    continueWith (count + 1) taken 0x80 0xBF bits (first :: rest) =
      continueWith count (taken + 1) 0x80 0xBF (bits * 64 + (first.toNat - 0x80)) rest :=
  continueWith_cons next.1 next.2

/-- A character is read from a first byte and those that follow it, and these are passed. -/
theorem decodeFrom_cons (several : 0x80 ≤ first.toNat)
    (follows : followers? first = some (count, least, most, bits))
    (read : continueWith count 1 least most bits rest = .ok c) :
    decodeFrom 0 position (first :: rest) =
      (decodeFrom count (position + 1) rest).map (c :: ·) := by
  have plain : ¬ first < 0x80 := not_lt_of_toNat_le several
  simp [decodeFrom, plain, follows, read]

private theorem decodeFrom_one (plain : first.toNat < 0x80) : decodeFrom 0 position (first :: rest) =
    (decodeFrom 0 (position + 1) rest).map (Char.ofNat first.toNat :: ·) := by
  rw [decodeFrom, if_pos (UInt8.lt_iff_toNat_lt.mpr plain)]

private theorem followers?_two (low : 0xC2 ≤ first.toNat) (high : first.toNat < 0xE0) :
    followers? first = some (1, 0x80, 0xBF, first.toNat - 0xC0) := by
  have start : ¬ first < 0xC2 := not_lt_of_toNat_le low
  rw [followers?, if_neg start, if_pos (UInt8.lt_iff_toNat_lt.mpr high)]

private theorem decodeFrom_two (low : 0xC2 ≤ first.toNat) (high : first.toNat < 0xE0)
    (next : Continues second) : decodeFrom 0 position (first :: second :: rest) =
      (decodeFrom 0 (position + 2) rest).map
        (Char.ofNat ((first.toNat - 0xC0) * 64 + (second.toNat - 0x80)) :: ·) :=
  decodeFrom_cons (by omega) (followers?_two low high) (continueWith_next next)

private theorem followers?_three (low : 0xE0 ≤ first.toNat) (high : first.toNat < 0xF0) :
    followers? first = some (2, if first = 0xE0 then 0xA0 else 0x80,
      if first = 0xED then 0x9F else 0xBF, first.toNat - 0xE0) := by
  have start : ¬ first < 0xC2 := not_lt_of_toNat_le (show 0xC2 ≤ _ by omega)
  have two : ¬ first < 0xE0 := not_lt_of_toNat_le low
  have three : first < 0xF0 := UInt8.lt_iff_toNat_lt.mpr high
  by_cases lowest : first = 0xE0
  · subst lowest
    rfl
  · by_cases surrogate : first = 0xED
    · subst surrogate
      rfl
    · simp [followers?, start, two, three, lowest, surrogate]

private theorem followers?_four (low : 0xF0 ≤ first.toNat) (high : first.toNat ≤ 0xF4) :
    followers? first = some (3, if first = 0xF0 then 0x90 else 0x80,
      if first = 0xF4 then 0x8F else 0xBF, first.toNat - 0xF0) := by
  have start : ¬ first < 0xC2 := not_lt_of_toNat_le (show 0xC2 ≤ _ by omega)
  have two : ¬ first < 0xE0 := not_lt_of_toNat_le (show 0xE0 ≤ _ by omega)
  have three : ¬ first < 0xF0 := not_lt_of_toNat_le low
  have other {byte : UInt8} (smaller : byte.toNat < 0xF0) : first ≠ byte := by
    rintro rfl
    omega
  by_cases lowest : first = 0xF0
  · subst lowest
    rfl
  · by_cases highest : first = 0xF4
    · subst highest
      rfl
    · have inside : first < 0xF4 :=
        UInt8.lt_of_le_of_ne (UInt8.le_iff_toNat_le.mpr high) highest
      have zero : first ≠ 0xE0 := other (by decide)
      have surrogate : first ≠ 0xED := other (by decide)
      simp [followers?, start, two, three, zero, surrogate, lowest, highest, inside]

/-- The second byte makes no overlong form and no surrogate. -/
theorem decodeFrom_three (low : 0xE0 ≤ first.toNat) (high : first.toNat < 0xF0)
    (next : Continues second) (overlong : first.toNat = 0xE0 → 0xA0 ≤ second.toNat)
    (surrogate : first.toNat = 0xED → second.toNat ≤ 0x9F) (last : Continues third) :
    decodeFrom 0 position (first :: second :: third :: rest) =
      (decodeFrom 0 (position + 3) rest).map (Char.ofNat
        (((first.toNat - 0xE0) * 64 + (second.toNat - 0x80)) * 64 + (third.toNat - 0x80)) :: ·) := by
  refine decodeFrom_cons (by omega) (followers?_three low high)
    ((continueWith_cons ?_ ?_).trans (continueWith_next last))
  · split
    · next lowest => exact overlong (congrArg UInt8.toNat lowest)
    · exact next.1
  · split
    · next here => exact surrogate (congrArg UInt8.toNat here)
    · exact next.2

/-- The second byte makes no overlong form and nothing past the last plane. -/
theorem decodeFrom_four (low : 0xF0 ≤ first.toNat) (high : first.toNat ≤ 0xF4)
    (next : Continues second) (overlong : first.toNat = 0xF0 → 0x90 ≤ second.toNat)
    (beyond : first.toNat = 0xF4 → second.toNat ≤ 0x8F) (further : Continues third)
    (last : Continues fourth) :
    decodeFrom 0 position (first :: second :: third :: fourth :: rest) =
      (decodeFrom 0 (position + 4) rest).map (Char.ofNat
        ((((first.toNat - 0xF0) * 64 + (second.toNat - 0x80)) * 64 + (third.toNat - 0x80)) * 64 +
          (fourth.toNat - 0x80)) :: ·) := by
  refine decodeFrom_cons (by omega) (followers?_four low high)
    ((continueWith_cons ?_ ?_).trans ((continueWith_next further).trans (continueWith_next last)))
  · split
    · next lowest => exact overlong (congrArg UInt8.toNat lowest)
    · exact next.1
  · split
    · next highest => exact beyond (congrArg UInt8.toNat highest)
    · exact next.2

end

/-! ### Reading what was encoded -/

private theorem toNat_marked {value mark : Nat} (small : value + mark < 256) :
    (UInt8.ofNat (value + mark)).toNat = value + mark := UInt8.toNat_ofNat_of_lt small

private theorem continues_ofNat (value : Nat) : Continues (UInt8.ofNat (value % 64 + 0x80)) := by
  have byte := toNat_marked (show value % 64 + 0x80 < 256 by omega)
  constructor <;> omega

private theorem decodeFrom_utf8EncodeChar (c : Char) (position : Nat) (rest : List UInt8) : ∃ behind,
    decodeFrom 0 position (String.utf8EncodeChar c ++ rest) =
      (decodeFrom 0 behind rest).map (c :: ·) := by
  have scalar : c.val.toNat < 0xD800 ∨ 0xDFFF < c.val.toNat ∧ c.val.toNat < 0x110000 := c.valid
  have same : Char.ofNat c.val.toNat = c := Char.ofNat_toNat c
  rw [String.utf8EncodeChar]
  generalize c.val.toNat = code at scalar same
  have last := toNat_marked (show code % 64 + 0x80 < 256 by omega)
  have middle := toNat_marked (show code / 64 % 64 + 0x80 < 256 by omega)
  have early := toNat_marked (show code / 4096 % 64 + 0x80 < 256 by omega)
  split
  · have first : (UInt8.ofNat code).toNat = code :=
      UInt8.toNat_ofNat_of_lt (show code < 256 by omega)
    refine ⟨position + 1, (decodeFrom_one (by omega)).trans ?_⟩
    rw [first, same]
    rfl
  split
  · have first := toNat_marked (show code / 64 % 32 + 0xC0 < 256 by omega)
    have bits : (code / 64 % 32 + 0xC0 - 0xC0) * 64 + (code % 64 + 0x80 - 0x80) = code := by omega
    refine ⟨position + 2, (decodeFrom_two (by omega) (by omega) (continues_ofNat _)).trans ?_⟩
    rw [first, last, bits, same]
    rfl
  split
  · have first := toNat_marked (show code / 4096 % 16 + 0xE0 < 256 by omega)
    have bits : ((code / 4096 % 16 + 0xE0 - 0xE0) * 64 + (code / 64 % 64 + 0x80 - 0x80)) * 64 +
        (code % 64 + 0x80 - 0x80) = code := by omega
    refine ⟨position + 3, (decodeFrom_three (by omega) (by omega) (continues_ofNat _) (by omega) (by omega)
      (continues_ofNat _)).trans ?_⟩
    rw [first, middle, last, bits, same]
    rfl
  · have first := toNat_marked (show code / 262144 % 8 + 0xF0 < 256 by omega)
    have bits : (((code / 262144 % 8 + 0xF0 - 0xF0) * 64 + (code / 4096 % 64 + 0x80 - 0x80)) * 64 +
        (code / 64 % 64 + 0x80 - 0x80)) * 64 + (code % 64 + 0x80 - 0x80) = code := by omega
    refine ⟨position + 4, (decodeFrom_four (by omega) (by omega) (continues_ofNat _) (by omega) (by omega)
      (continues_ofNat _) (continues_ofNat _)).trans ?_⟩
    rw [first, early, middle, last, bits, same]
    rfl

theorem decode_encode (text : List Char) : decode (encode text) = .ok text := by
  have each (position : Nat) : decodeFrom 0 position (encode text) = .ok text := by
    induction text generalizing position with
    | nil => rfl
    | cons c rest ih =>
      obtain ⟨behind, read⟩ := decodeFrom_utf8EncodeChar c position (encode rest)
      change decodeFrom 0 position (String.utf8EncodeChar c ++ encode rest) = _
      rw [read, ih]
      rfl
  exact each 0

/-! ### Nothing else is read -/

section
variable {first second third fourth least most : UInt8} {count taken bits value : Nat} {c : Char}
  {bytes : List UInt8}

private theorem ofNat_eq (same : first.toNat = value) : UInt8.ofNat value = first := by
  rw [← same, UInt8.ofNat_toNat]

private theorem toNat_scalar (valid : value < 0xD800 ∨ 0xDFFF < value ∧ value < 0x110000) :
    (Char.ofNat value).val.toNat = value :=
  (Char.toNat_ofNat value).trans (if_pos valid)

private theorem utf8EncodeChar_one (plain : first.toNat < 0x80) :
    String.utf8EncodeChar (Char.ofNat first.toNat) = [first] := by
  rw [String.utf8EncodeChar, toNat_scalar (by omega)]
  rw [if_pos (by omega), ofNat_eq rfl]

private theorem utf8EncodeChar_two (low : 0xC2 ≤ first.toNat) (high : first.toNat < 0xE0)
    (next : Continues second) :
    String.utf8EncodeChar (Char.ofNat ((first.toNat - 0xC0) * 64 + (second.toNat - 0x80))) =
      [first, second] := by
  obtain ⟨least, most⟩ := next
  rw [String.utf8EncodeChar, toNat_scalar (by omega)]
  rw [if_neg (by omega), if_pos (by omega)]
  refine List.cons_eq_cons.mpr ⟨ofNat_eq ?_, List.cons_eq_cons.mpr ⟨ofNat_eq ?_, rfl⟩⟩ <;> omega

private theorem utf8EncodeChar_three (low : 0xE0 ≤ first.toNat) (high : first.toNat < 0xF0)
    (next : Continues second) (overlong : first.toNat = 0xE0 → 0xA0 ≤ second.toNat)
    (surrogate : first.toNat = 0xED → second.toNat ≤ 0x9F) (last : Continues third) :
    String.utf8EncodeChar (Char.ofNat
      (((first.toNat - 0xE0) * 64 + (second.toNat - 0x80)) * 64 + (third.toNat - 0x80))) =
        [first, second, third] := by
  obtain ⟨least, most⟩ := next
  obtain ⟨leastLast, mostLast⟩ := last
  rw [String.utf8EncodeChar, toNat_scalar (by omega)]
  rw [if_neg (by omega), if_neg (by omega), if_pos (by omega)]
  refine List.cons_eq_cons.mpr ⟨ofNat_eq ?_, List.cons_eq_cons.mpr ⟨ofNat_eq ?_,
    List.cons_eq_cons.mpr ⟨ofNat_eq ?_, rfl⟩⟩⟩ <;> omega

private theorem utf8EncodeChar_four (low : 0xF0 ≤ first.toNat) (high : first.toNat ≤ 0xF4)
    (next : Continues second) (overlong : first.toNat = 0xF0 → 0x90 ≤ second.toNat)
    (beyond : first.toNat = 0xF4 → second.toNat ≤ 0x8F) (further : Continues third)
    (last : Continues fourth) :
    String.utf8EncodeChar (Char.ofNat
      ((((first.toNat - 0xF0) * 64 + (second.toNat - 0x80)) * 64 + (third.toNat - 0x80)) * 64 +
        (fourth.toNat - 0x80))) = [first, second, third, fourth] := by
  obtain ⟨least, most⟩ := next
  obtain ⟨leastFurther, mostFurther⟩ := further
  obtain ⟨leastLast, mostLast⟩ := last
  rw [String.utf8EncodeChar, toNat_scalar (by omega)]
  rw [if_neg (by omega), if_neg (by omega), if_neg (by omega)]
  refine List.cons_eq_cons.mpr ⟨ofNat_eq ?_, List.cons_eq_cons.mpr ⟨ofNat_eq ?_,
    List.cons_eq_cons.mpr ⟨ofNat_eq ?_, List.cons_eq_cons.mpr ⟨ofNat_eq ?_, rfl⟩⟩⟩⟩ <;> omega

private theorem continueWith_ok (read : continueWith (count + 1) taken least most bits bytes = .ok c) :
    ∃ byte rest, bytes = byte :: rest ∧ least.toNat ≤ byte.toNat ∧ byte.toNat ≤ most.toNat ∧
      continueWith count (taken + 1) 0x80 0xBF (bits * 64 + (byte.toNat - 0x80)) rest = .ok c := by
  cases bytes with
  | nil => cases read
  | cons byte rest =>
    unfold continueWith at read
    split at read
    · next inside =>
      obtain ⟨low, high⟩ := Bool.and_eq_true_iff.mp inside
      exact ⟨byte, rest, rfl, UInt8.le_iff_toNat_le.mp (of_decide_eq_true low),
        UInt8.le_iff_toNat_le.mp (of_decide_eq_true high), read⟩
    · cases read

private theorem followers?_cases (follows : followers? first = some (count, least, most, bits)) :
    (0xC2 ≤ first.toNat ∧ first.toNat < 0xE0) ∨ (0xE0 ≤ first.toNat ∧ first.toNat < 0xF0) ∨
      0xF0 ≤ first.toNat ∧ first.toNat ≤ 0xF4 := by
  by_contra outside
  have refused : followers? first = none := by
    by_cases low : first < 0xC2
    · rw [followers?, if_pos low]
    · have above : 0xF4 < first.toNat := by
        have least : 0xC2 ≤ first.toNat := Nat.le_of_not_lt fun less =>
          low (UInt8.lt_iff_toNat_lt.mpr less)
        omega
      have other {byte : UInt8} (smaller : byte.toNat ≤ 0xF4) : first ≠ byte := by
        rintro rfl
        omega
      have past {byte : UInt8} (smaller : byte.toNat ≤ 0xF4) : ¬ first < byte :=
        not_lt_of_toNat_le (by omega)
      rw [followers?, if_neg low, if_neg (past (by decide)), if_neg (by simpa using other (by decide)),
        if_neg (by simpa using other (by decide)), if_neg (past (by decide)),
        if_neg (by simpa using other (by decide)), if_neg (past (by decide)),
        if_neg (by simpa using other (by decide))]
  rw [refused] at follows
  cases follows

private theorem utf8EncodeChar_of_continueWith
    (follows : followers? first = some (count, least, most, bits))
    (read : continueWith count 1 least most bits bytes = .ok c) : ∃ behind rest,
    bytes = behind ++ rest ∧ behind.length = count ∧ String.utf8EncodeChar c = first :: behind := by
  rcases followers?_cases follows with ⟨low, high⟩ | ⟨low, high⟩ | ⟨low, high⟩
  · obtain ⟨rfl, rfl, rfl, rfl⟩ := by simpa using (followers?_two low high).symm.trans follows
    obtain ⟨second, rest, rfl, least, most, read⟩ := continueWith_ok read
    obtain rfl := Except.ok.inj read
    exact ⟨[second], rest, rfl, rfl, utf8EncodeChar_two low high ⟨least, most⟩⟩
  · obtain ⟨rfl, rfl, rfl, rfl⟩ := by simpa using (followers?_three low high).symm.trans follows
    obtain ⟨second, _, rfl, least, most, read⟩ := continueWith_ok read
    obtain ⟨third, rest, rfl, leastLast, mostLast, read⟩ := continueWith_ok read
    obtain rfl := Except.ok.inj read
    have lowest (here : first.toNat = 0xE0) : 0xA0 ≤ second.toNat := by
      rwa [if_pos (UInt8.toNat_inj.mp here)] at least
    have surrogate (here : first.toNat = 0xED) : second.toNat ≤ 0x9F := by
      rwa [if_pos (UInt8.toNat_inj.mp here)] at most
    have next : Continues second := by
      constructor
      · split at least <;> simp at least <;> omega
      · split at most <;> simp at most <;> omega
    exact ⟨[second, third], rest, rfl, rfl,
      utf8EncodeChar_three low high next lowest surrogate ⟨leastLast, mostLast⟩⟩
  · obtain ⟨rfl, rfl, rfl, rfl⟩ := by simpa using (followers?_four low high).symm.trans follows
    obtain ⟨second, _, rfl, least, most, read⟩ := continueWith_ok read
    obtain ⟨third, _, rfl, leastThird, mostThird, read⟩ := continueWith_ok read
    obtain ⟨fourth, rest, rfl, leastLast, mostLast, read⟩ := continueWith_ok read
    obtain rfl := Except.ok.inj read
    have lowest (here : first.toNat = 0xF0) : 0x90 ≤ second.toNat := by
      rwa [if_pos (UInt8.toNat_inj.mp here)] at least
    have beyond (here : first.toNat = 0xF4) : second.toNat ≤ 0x8F := by
      rwa [if_pos (UInt8.toNat_inj.mp here)] at most
    have next : Continues second := by
      constructor
      · split at least <;> simp at least <;> omega
      · split at most <;> simp at most <;> omega
    exact ⟨[second, third, fourth], rest, rfl, rfl, utf8EncodeChar_four low high next lowest beyond
      ⟨leastThird, mostThird⟩ ⟨leastLast, mostLast⟩⟩

private theorem decodeFrom_skip (behind rest : List UInt8) (position : Nat) : ∃ later,
    decodeFrom behind.length position (behind ++ rest) = decodeFrom 0 later rest := by
  induction behind generalizing position with
  | nil => exact ⟨position, rfl⟩
  | cons byte behind ih => exact ih (position + 1)

/-- One character is taken from the front, with the bytes that encode it. -/
theorem decodeFrom_ok {byte : UInt8} {text : List Char} {position : Nat}
    (read : decodeFrom 0 position (byte :: bytes) = .ok text) : ∃ c behind rest others later,
    bytes = behind ++ rest ∧ String.utf8EncodeChar c = byte :: behind ∧ text = c :: others ∧
      decodeFrom 0 later rest = .ok others := by
  have split {count : Nat} {c : Char}
      (read : (decodeFrom count (position + 1) bytes).map (c :: ·) = .ok text) : ∃ others,
      text = c :: others ∧ decodeFrom count (position + 1) bytes = .ok others := by
    cases went : decodeFrom count (position + 1) bytes with
    | error error =>
      rw [went] at read
      cases read
    | ok others =>
      rw [went] at read
      exact ⟨others, (Except.ok.inj read).symm, rfl⟩
  by_cases plain : byte.toNat < 0x80
  · rw [decodeFrom_one plain] at read
    obtain ⟨others, rfl, went⟩ := split read
    exact ⟨_, [], bytes, others, _, rfl, utf8EncodeChar_one plain, rfl, went⟩
  · rw [decodeFrom, if_neg (not_lt_of_toNat_le (Nat.le_of_not_lt plain))] at read
    cases follows : followers? byte with
    | none =>
      rw [follows] at read
      cases read
    | some start =>
      obtain ⟨count, least, most, bits⟩ := start
      rw [follows] at read
      cases taken : continueWith count 1 least most bits bytes with
      | error reason =>
        simp [taken] at read
      | ok c =>
        simp only [taken] at read
        obtain ⟨others, rfl, went⟩ := split read
        obtain ⟨behind, rest, rfl, rfl, encoded⟩ := utf8EncodeChar_of_continueWith follows taken
        obtain ⟨later, skipped⟩ := decodeFrom_skip behind rest (position + 1)
        exact ⟨c, behind, rest, others, later, rfl, encoded, rfl, skipped ▸ went⟩

/-- What is decoded was encoded. -/
theorem eq_encode_of_decodeFrom {text : List Char} {position : Nat}
    (read : decodeFrom 0 position bytes = .ok text) : bytes = encode text := by
  induction size : bytes.length using Nat.strong_induction_on generalizing bytes text position with
  | _ _ ih =>
    cases bytes with
    | nil =>
      obtain rfl := Except.ok.inj read
      rfl
    | cons byte bytes =>
      obtain ⟨c, behind, rest, others, later, rfl, encoded, rfl, went⟩ := decodeFrom_ok read
      have shorter : rest.length < (byte :: (behind ++ rest)).length := by simp
      rw [ih rest.length (size ▸ shorter) went rfl, encode, encode, List.flatMap_cons, encoded]
      rfl

theorem decode_eq_ok_iff {text : List Char} : decode bytes = .ok text ↔ bytes = encode text := by
  constructor
  · exact eq_encode_of_decodeFrom
  · rintro rfl
    exact decode_encode text

end

/-! ### The byte-order mark -/

def mark : List UInt8 := [0xEF, 0xBB, 0xBF]

theorem withoutMark_mark (bytes : List UInt8) : withoutMark (mark ++ bytes) = bytes := by
  cases bytes <;> rfl

/-- Only a text that starts with the mark is encoded to bytes that do, in whole or in part. -/
theorem withoutMark_encode {text : List Char} (unmarked : text.head? ≠ some '\ufeff') :
    withoutMark (encode text) = encode text := by
  have read := decode_encode text
  unfold withoutMark
  split
  · next whole =>
    obtain ⟨rest, same⟩ := List.isPrefixOf_iff_prefix.mp whole
    have start : decode (mark ++ rest) = (decodeFrom 0 3 rest).map ('\ufeff' :: ·) :=
      decodeFrom_three (by decide) (by decide) (by decide) (by decide) (by decide) (by decide)
    change mark ++ rest = _ at same
    rw [← same, start] at read
    cases behind : decodeFrom 0 3 rest with
    | error error =>
      rw [behind] at read
      cases read
    | ok others =>
      rw [behind] at read
      obtain rfl : '\ufeff' :: others = text := Except.ok.inj read
      exact absurd rfl unmarked
  · next notWhole =>
    split
    · next part =>
      have cut := List.isPrefixOf_iff_prefix.mp part
      simp only [List.prefix_cons_iff, List.prefix_nil] at cut
      rcases cut with empty | ⟨_, one, rfl | ⟨_, rfl, rfl | ⟨_, rfl, rfl⟩⟩⟩
      · exact empty.symm
      · rw [one] at read
        cases read
      · rw [one] at read
        cases read
      · rw [one] at notWhole
        exact absurd rfl notWhole
    · rfl

end AttributeGrammar.Text

import AttributeGrammar.CommandLine.Run
import AttributeGrammar.Proofs.Encoded
import AttributeGrammar.Proofs.Json
import AttributeGrammar.Proofs.Outcome

/-! Which library a file gives.
A file that lists grammars gives just those. One that cannot be opened, is no JSON or lists no grammars
gives the fallback. The faults that are left are a path with a null byte, bytes that are no text, a
number that is too long to be read, and JSON that nests too deep.
-/
namespace AttributeGrammar
open Text

namespace Library

/-- The item has a title and a list of rules, and the example holds them as texts. -/
def Describes (item : Json) (entry : Example) : Prop :=
  ∃ title rules, item.field? "title" = some title ∧
    item.field? "productionRules" = some (.list rules) ∧
    entry = ⟨title.plainText, rules.map Json.plainText⟩

/-- The data is a list that is not empty, and its items are the examples of the library in order. -/
def Lists (data : Json) (library : Library) : Prop :=
  ∃ items, data = .list items ∧ items ≠ [] ∧ List.Forall₂ Describes items library.examples

/-- The bytes are a text of JSON that lists the library. -/
def Encodes (nesting : Nat) (bytes : List UInt8) (library : Library) : Prop :=
  ∃ text data, bytes = encode text ∧ Json.read nesting (lineFeeds text) = .ok data ∧
    Lists data library

private theorem exampleOf_eq_ok_iff {number : Nat} {item : Json} {entry : Example} :
    exampleOf number item = .ok entry ↔ Describes item entry := by
  constructor
  · intro made
    unfold exampleOf at made
    split at made
    · cases made
    · cases made
    · next title rules titled ruled => exact ⟨title, rules, titled, ruled, (Except.ok.inj made).symm⟩
    · cases made
  · rintro ⟨title, rules, titled, ruled, rfl⟩
    rw [exampleOf, titled, ruled]

private theorem examplesOf_eq_ok_iff {number : Nat} {items : List Json} {entries : List Example} :
    examplesOf number items = .ok entries ↔ List.Forall₂ Describes items entries := by
  induction items generalizing number entries with
  | nil => simp [examplesOf, eq_comm]
  | cons item rest ih =>
    rw [examplesOf, List.forall₂_cons_left_iff]
    simp only [← @exampleOf_eq_ok_iff number, ← @ih (number + 1)]
    cases exampleOf number item with
    | error fault => simp [bind, Except.bind]
    | ok first =>
      cases examplesOf (number + 1) rest with
      | error fault => simp [bind, Except.bind]
      | ok others => simp [bind, Except.bind, pure, Except.pure, eq_comm]

private theorem ofData_eq_ok_iff {data : Json} {library : Library} :
    ofData data = .ok library ↔ Lists data library := by
  unfold ofData
  split
  · simp [Lists]
  · next items filled =>
    have nonempty : items ≠ [] := fun empty => filled (by rw [empty])
    have lists : Lists (.list items) library ↔ examplesOf 1 items = .ok library.examples := by
      simp [Lists, nonempty, examplesOf_eq_ok_iff]
    rw [lists]
    obtain ⟨listed⟩ := library
    cases examplesOf 1 items <;> simp [Except.map]
  · next nonempty other =>
    simp only [reduceCtorEq, Lists, false_iff, not_exists, not_and]
    intro items same
    exact absurd same (other items)

variable {nesting : Nat}

private theorem ofBytes_eq_ok_iff {bytes : List UInt8} {library : Library} :
    ofBytes nesting bytes = .ok library ↔ Encodes nesting bytes library := by
  constructor
  · intro read
    unfold ofBytes at read
    split at read
    · cases read
    · next text decoded =>
      split at read
      · cases read
      · cases read
      · next data parsed =>
        split at read
        · next made =>
          obtain rfl := Except.ok.inj read
          exact ⟨text, data, decode_eq_ok_iff.mp decoded, parsed, ofData_eq_ok_iff.mp made⟩
        · cases read
  · rintro ⟨text, data, rfl, parsed, lists⟩
    simp [ofBytes, decode_encode, parsed, ofData_eq_ok_iff.mpr lists]

/-- The faults of reading a library that remain, by what opening its file gave: a null byte in its path,
bytes that are no text, a number of too many digits, or more collections that open than may nest. -/
inductive Escapes (nesting : Nat) : Except Fault (List UInt8) → Fault → Prop
  | nullByte : Escapes nesting (.error .nullByte) .nullByte
  | undecodable {bytes : List UInt8} {error : EncodingError} (noText : ∀ text, bytes ≠ encode text)
      (met : decode bytes = .error error) : Escapes nesting (.ok bytes) (.undecodable error)
  | numeralTooLong {text : List Char} {count : Nat} (beyond : digitLimit < count)
      (digits : Json.HasDigits count (lineFeeds text))
      (met : Json.read nesting (lineFeeds text) = .error (.numeralTooLong count)) :
      Escapes nesting (.ok (encode text)) (.numeralTooLong count)
  | nestedTooDeep {text : List Char} (beyond : nesting < Json.openings (lineFeeds text))
      (met : Json.read nesting (lineFeeds text) = .error .nestedTooDeep) :
      Escapes nesting (.ok (encode text)) .nestedTooDeep

private theorem ofBytes_cases (nesting : Nat) (bytes : List UInt8) :
    (∃ library, ofBytes nesting bytes = .ok library) ∨
    (∃ cause, ofBytes nesting bytes = .error (.library cause)) ∨
    ∃ fault, ofBytes nesting bytes = .error fault ∧ Escapes nesting (.ok bytes) fault := by
  cases decoded : decode bytes with
  | error error =>
    refine Or.inr (Or.inr ⟨.undecodable error, by rw [ofBytes, decoded], .undecodable ?_ decoded⟩)
    intro text same
    rw [decode_eq_ok_iff.mpr same] at decoded
    cases decoded
  | ok text =>
    rcases Json.read_cases nesting (lineFeeds text) with
      ⟨data, read⟩ | malformed | ⟨count, beyond, digits, met⟩ | ⟨beyond, met⟩
    · cases made : ofData data with
      | ok library => exact Or.inl ⟨library, by simp [ofBytes, decoded, read, made]⟩
      | error cause => exact Or.inr (Or.inl ⟨cause, by simp [ofBytes, decoded, read, made]⟩)
    · exact Or.inr (Or.inl ⟨.malformed, by simp [ofBytes, decoded, malformed]⟩)
    · obtain rfl := decode_eq_ok_iff.mp decoded
      exact Or.inr (Or.inr ⟨.numeralTooLong count, by simp [ofBytes, decoded, met],
        .numeralTooLong beyond digits met⟩)
    · obtain rfl := decode_eq_ok_iff.mp decoded
      exact Or.inr (Or.inr ⟨.nestedTooDeep, by simp [ofBytes, decoded, met],
        .nestedTooDeep beyond met⟩)

private theorem orFallback_of_escapes {opened : Except Fault (List UInt8)} {fault : Fault}
    (escapes : Escapes nesting opened fault) :
    orFallback (opened >>= ofBytes nesting) = .error fault := by
  cases escapes with
  | nullByte => rfl
  | undecodable _ met => simp [bind, Except.bind, ofBytes, met, orFallback]
  | numeralTooLong _ _ met => simp [bind, Except.bind, ofBytes, decode_encode, met, orFallback]
  | nestedTooDeep _ met => simp [bind, Except.bind, ofBytes, decode_encode, met, orFallback]

private theorem orFallback_ok {result : Except Fault Library} {library : Library}
    (ended : orFallback result = .ok library) : result = .ok library ∨ library = fallback := by
  unfold orFallback at ended
  split at ended
  · exact Or.inr (Except.ok.inj ended).symm
  · exact Or.inr (Except.ok.inj ended).symm
  · exact Or.inl ended

private theorem escapes_of_orFallback {bytes : List UInt8} {fault : Fault}
    (failed : orFallback (ofBytes nesting bytes) = .error fault) : Escapes nesting (.ok bytes) fault := by
  rcases ofBytes_cases nesting bytes with ⟨library, read⟩ | ⟨cause, refused⟩ | ⟨other, _, escapes⟩
  · rw [read] at failed
    cases failed
  · rw [refused] at failed
    cases failed
  · obtain rfl : other = fault := Except.error.inj ((orFallback_of_escapes escapes).symm.trans failed)
    exact escapes

end Library

namespace CommandLine

/-- A path is not opened because of the file, or because the path has a null byte. -/
def Opens (opening : Opening) : Prop :=
  ∀ path fault, opening path = .error fault →
    (∃ cause name, fault = .file cause name) ∨ fault = .nullByte ∧ '\x00' ∈ path.toList

theorem Directory.opens (directory : Directory) : Opens directory.read := by
  intro path fault failed
  unfold Directory.read at failed
  split at failed
  · next null =>
    exact Or.inr ⟨(Except.error.inj failed).symm, List.contains_iff_mem.mp null⟩
  · split at failed
    · cases failed
    · exact Or.inl ⟨.directory, path, (Except.error.inj failed).symm⟩
    · next cause _ => exact Or.inl ⟨cause, path, (Except.error.inj failed).symm⟩

variable {opening : Opening} {nesting : Nat}

theorem escapes_of_loadLibrary (opens : Opens opening) {path : String} {fault : Fault}
    (failed : loadLibrary nesting opening (some path) = .error fault) :
    Library.Escapes nesting (opening (plainPath path)) fault := by
  rw [loadLibrary, openLibrary] at failed
  cases opened : opening (plainPath path) with
  | error other =>
    rw [opened] at failed
    rcases opens _ other opened with ⟨cause, name, rfl⟩ | ⟨rfl, _⟩
    · cases failed
    · exact Except.error.inj failed ▸ .nullByte
  | ok bytes =>
    rw [opened] at failed
    exact Library.escapes_of_orFallback failed

/-- A file that lists a library gives it, and every other one the fallback, unless a fault remains. -/
theorem loadLibrary_of_file (nesting : Nat) (opens : Opens opening) (path : String) :
    (∀ bytes library, opening (plainPath path) = .ok bytes → Library.Encodes nesting bytes library →
      loadLibrary nesting opening (some path) = .ok library) ∧
    ((∀ bytes, opening (plainPath path) = .ok bytes →
        ∀ library, ¬ Library.Encodes nesting bytes library) →
      (∀ fault, ¬ Library.Escapes nesting (opening (plainPath path)) fault) →
      loadLibrary nesting opening (some path) = .ok .fallback) ∧
    ∀ fault, loadLibrary nesting opening (some path) = .error fault ↔
      Library.Escapes nesting (opening (plainPath path)) fault := by
  refine ⟨fun bytes library opened encodes => ?_, fun unlisted remains => ?_, fun fault =>
    ⟨escapes_of_loadLibrary opens, Library.orFallback_of_escapes⟩⟩
  · rw [loadLibrary, openLibrary, opened]
    exact congrArg Library.orFallback (Library.ofBytes_eq_ok_iff.mpr encodes)
  · cases loaded : loadLibrary nesting opening (some path) with
    | error fault => exact absurd (escapes_of_loadLibrary opens loaded) (remains fault)
    | ok library =>
      rcases Library.orFallback_ok loaded with read | rfl
      · obtain ⟨bytes, opened, read⟩ := bind_success read
        exact absurd (Library.ofBytes_eq_ok_iff.mp read) (unlisted bytes opened library)
      · rfl

/-- Every path leads to a file with these bytes. -/
def everywhere (bytes : List UInt8) : Opening := fun _ => .ok bytes

theorem opens_everywhere (bytes : List UInt8) : Opens (everywhere bytes) := nofun

def oneGrammar : Library := ⟨[.ofTexts "1" ["S -> a"]]⟩

def oneGrammarBytes : List UInt8 :=
  encode "[\x7b\"title\": 1, \"productionRules\": [\"S -> a\"]\x7d]".toList

/-- The rules are a list in an object in a list. -/
theorem encodes_oneGrammar : Library.Encodes 3 oneGrammarBytes oneGrammar :=
  Library.ofBytes_eq_ok_iff.mp (by cbv)

theorem loadLibrary_oneGrammar : Opens (everywhere oneGrammarBytes) ∧
    loadLibrary 3 (everywhere oneGrammarBytes) (some "grammars.json") = .ok oneGrammar :=
  ⟨opens_everywhere _, (loadLibrary_of_file 3 (opens_everywhere oneGrammarBytes) "grammars.json").1
    oneGrammarBytes oneGrammar rfl encodes_oneGrammar⟩

/-- Between the brackets stands a byte that starts no character. -/
def undecodableBytes : List UInt8 := [0x5B, 0xFF, 0x5D]

theorem not_loaded_undecodable : ¬ ∃ library,
    loadLibrary 3 (everywhere undecodableBytes) (some "grammars.json") = .ok library := by
  have failed : loadLibrary 3 (everywhere undecodableBytes) (some "grammars.json") =
      .error (.undecodable ⟨0xFF, 1, 1, .start⟩) := by rfl
  rw [failed]
  simp

end CommandLine
end AttributeGrammar

import AttributeGrammar.Text.Quoted

/-! Text stored as UTF-8 bytes.
Overlong forms, surrogates and code points past the last plane are refused; a refusal names the
bytes that were read as the start of one character, and why no character came of them.
-/
namespace AttributeGrammar.Text

inductive EncodingReason where
  | start
  | continuation
  | ending
deriving DecidableEq, Repr

structure EncodingError where
  first : UInt8
  position : Nat
  width : Nat
  reason : EncodingReason
deriving DecidableEq, Repr

def EncodingReason.message : EncodingReason → String
  | .start => "invalid start byte"
  | .continuation => "invalid continuation byte"
  | .ending => "unexpected end of data"

def EncodingError.message (error : EncodingError) : String :=
  "'utf-8' codec can't decode " ++
    (if error.width == 1 then
      "byte 0x" ++ String.ofList (hexadecimal 2 error.first.toNat) ++ " in position " ++
        toString error.position
    else
      "bytes in position " ++ toString error.position ++ "-" ++
        toString (error.position + error.width - 1)) ++
    ": " ++ error.reason.message

/-- How many bytes follow a first byte, which values the second may have, and the leading bits. -/
def followers? (first : UInt8) : Option (Nat × UInt8 × UInt8 × Nat) :=
  if first < 0xC2 then none
  else if first < 0xE0 then some (1, 0x80, 0xBF, first.toNat - 0xC0)
  else if first == 0xE0 then some (2, 0xA0, 0xBF, 0)
  else if first == 0xED then some (2, 0x80, 0x9F, 0xD)
  else if first < 0xF0 then some (2, 0x80, 0xBF, first.toNat - 0xE0)
  else if first == 0xF0 then some (3, 0x90, 0xBF, 0)
  else if first < 0xF4 then some (3, 0x80, 0xBF, first.toNat - 0xF0)
  else if first == 0xF4 then some (3, 0x80, 0x8F, 4)
  else none

/-- Reads `count` continuation bytes onto `bits`; `taken` bytes were read before them. -/
def continueWith : (count taken : Nat) → (low high : UInt8) → (bits : Nat) → List UInt8 →
    Except (Nat × EncodingReason) Char
  | 0, _, _, _, bits, _ => .ok (Char.ofNat bits)
  | _ + 1, taken, _, _, _, [] => .error (taken, .ending)
  | count + 1, taken, low, high, bits, byte :: rest =>
    if low ≤ byte && byte ≤ high then
      continueWith count (taken + 1) 0x80 0xBF (bits * 64 + (byte.toNat - 0x80)) rest
    else .error (taken, .continuation)

/-- `skip` bytes belong to the character read last. -/
def decodeFrom : (skip position : Nat) → List UInt8 → Except EncodingError (List Char)
  | _, _, [] => .ok []
  | skip + 1, position, _ :: rest => decodeFrom skip (position + 1) rest
  | 0, position, byte :: rest =>
    if byte < 0x80 then
      (decodeFrom 0 (position + 1) rest).map (Char.ofNat byte.toNat :: ·)
    else match followers? byte with
      | none => .error ⟨byte, position, 1, .start⟩
      | some (count, low, high, bits) =>
        match continueWith count 1 low high bits rest with
        | .error (width, reason) => .error ⟨byte, position, width, reason⟩
        | .ok c => (decodeFrom count (position + 1) rest).map (c :: ·)

def decode (bytes : List UInt8) : Except EncodingError (List Char) := decodeFrom 0 0 bytes

/-- The byte-order mark goes, even when the bytes end within it. -/
def withoutMark (bytes : List UInt8) : List UInt8 :=
  if [0xEF, 0xBB, 0xBF].isPrefixOf bytes then bytes.drop 3
  else if bytes.isPrefixOf [0xEF, 0xBB, 0xBF] then []
  else bytes

/-- Every line ending becomes a line feed. -/
def lineFeeds : List Char → List Char
  | [] => []
  | '\r' :: '\n' :: rest => '\n' :: lineFeeds rest
  | '\r' :: rest => '\n' :: lineFeeds rest
  | c :: rest => c :: lineFeeds rest

end AttributeGrammar.Text

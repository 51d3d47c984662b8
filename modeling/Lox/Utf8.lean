/-!
# Decoding UTF-8

Bytes are read one at a time.  Each byte completes a character, continues one,
or spoils the sequence it stands in; a spoiled sequence ends before the first
byte that cannot belong to it.
-/

namespace Lox

namespace Utf8

/-- What a stretch of bytes is. -/
inductive Chunk where
  | char (c : Char) (length : Nat)
  /-- A sequence that no further byte can make valid. -/
  | invalid (length : Nat)
  /-- A sequence that was valid so far when the bytes ended. -/
  | incomplete (length : Nat)
  deriving DecidableEq, Repr

/-- A sequence that has begun and is valid so far. -/
structure Pending where
  /-- The number of bytes read. -/
  taken : Nat
  /-- The number of bytes still to come. -/
  missing : Nat
  /-- The least next byte. -/
  low : UInt8
  /-- The greatest next byte. -/
  high : UInt8
  /-- The bits read so far. -/
  bits : Nat
  deriving DecidableEq, Repr

/-- A completed stretch of bytes, or a sequence that has begun. -/
inductive Start where
  | done (chunk : Chunk)
  | pending (sequence : Pending)

/-- What a byte starts.  The range of the second byte excludes overlong forms,
surrogates and values past the last code point. -/
def start (byte : UInt8) : Start :=
  let more (missing : Nat) (low high : UInt8) (bits : Nat) : Start :=
    .pending { taken := 1, missing, low, high, bits }
  if byte < 0x80 then .done (.char (Char.ofNat byte.toNat) 1)
  else if byte < 0xC2 then .done (.invalid 1)
  else if byte < 0xE0 then more 1 0x80 0xBF (byte.toNat - 0xC0)
  else if byte = 0xE0 then more 2 0xA0 0xBF 0
  else if byte = 0xED then more 2 0x80 0x9F 0xD
  else if byte < 0xF0 then more 2 0x80 0xBF (byte.toNat - 0xE0)
  else if byte = 0xF0 then more 3 0x90 0xBF 0
  else if byte < 0xF4 then more 3 0x80 0xBF (byte.toNat - 0xF0)
  else if byte = 0xF4 then more 3 0x80 0x8F 4
  else .done (.invalid 1)

/-- The stretches decoded so far, the last first, and a sequence that has begun. -/
structure Decoder where
  chunks : List Chunk
  pending : Option Pending

namespace Decoder

/-- Begin with a byte outside any sequence. -/
def beginAt (chunks : List Chunk) (byte : UInt8) : Decoder :=
  match start byte with
  | .done chunk => { chunks := chunk :: chunks, pending := none }
  | .pending sequence => { chunks, pending := some sequence }

/-- Read a byte. -/
def feed (decoder : Decoder) (byte : UInt8) : Decoder :=
  match decoder.pending with
  | none => beginAt decoder.chunks byte
  | some sequence =>
      if sequence.low ≤ byte && byte ≤ sequence.high then
        let bits := sequence.bits * 64 + (byte.toNat - 0x80)
        if sequence.missing ≤ 1 then
          { chunks := .char (Char.ofNat bits) (sequence.taken + 1) :: decoder.chunks
            pending := none }
        else
          { chunks := decoder.chunks
            pending := some
              { taken := sequence.taken + 1, missing := sequence.missing - 1
                low := 0x80, high := 0xBF, bits } }
      else
        beginAt (.invalid sequence.taken :: decoder.chunks) byte

/-- All stretches, from left to right. -/
def finish (decoder : Decoder) : List Chunk :=
  match decoder.pending with
  | none => decoder.chunks.reverse
  | some sequence => (.incomplete sequence.taken :: decoder.chunks).reverse

end Decoder

/-- The stretches of a sequence of bytes. -/
def chunks (bytes : ByteArray) : List Chunk :=
  (bytes.foldl Decoder.feed { chunks := [], pending := none }).finish

/-- Why bytes are no text. -/
inductive Fault where
  | invalid (length : Nat) (index : Nat)
  | incomplete (index : Nat)
  deriving DecidableEq, Repr

namespace Fault

/-- The wording of the fault. -/
def message : Fault → String
  | .invalid length index =>
      "invalid utf-8 sequence of " ++ toString length ++ " bytes from index " ++ toString index
  | .incomplete index => "incomplete utf-8 byte sequence from index " ++ toString index

end Fault

/-- Put the characters of stretches behind `done`, which ends at `index`, up to
the first stretch that is none. -/
def collect (done : List Char) (index : Nat) : List Chunk → Except Fault String
  | [] => .ok (String.ofList done.reverse)
  | .char c length :: rest => collect (c :: done) (index + length) rest
  | .invalid length :: _ => .error (.invalid length index)
  | .incomplete _ :: _ => .error (.incomplete index)

/-- The text of a sequence of bytes, or the first fault in it. -/
def decode (bytes : ByteArray) : Except Fault String :=
  collect [] 0 (chunks bytes)

/-- The text of a sequence of bytes, with a replacement character for each
faulty stretch. -/
def decodeLossy (bytes : ByteArray) : String :=
  String.ofList <| (chunks bytes).map fun
    | .char c _ => c
    | _ => '\uFFFD'

end Utf8

end Lox

import DocFlow.Text.Basic

namespace DocFlow

inductive Encoding where
  | utf8
  | latin1
  | ascii
  deriving DecidableEq, Repr

namespace Encoding

/-- An encoding's name in lower case, with one underscore between parts of letters, digits and
points. -/
def normalize (name : Text) : Text :=
  let marked := (Text.lowerASCII name).map fun c => if c.isAlphanum || c == '.' then c else '_'
  Text.join ['_'] ((Text.splitAt '_' marked).filter (· ≠ []))

def utf8Names : List String := ["utf_8", "utf8", "utf", "u8", "cp65001", "utf8_ucs2", "utf8_ucs4"]

def latin1Names : List String := [
  "latin_1", "latin1", "latin", "l1", "iso_8859_1", "iso8859_1", "iso8859", "8859", "cp819",
  "ibm819", "csisolatin1", "iso_ir_100", "iso_8859_1_1987"]

def asciiNames : List String := [
  "ascii", "us_ascii", "us", "646", "iso646_us", "cp367", "ibm367", "csascii", "iso_ir_6",
  "ansi_x3.4_1968", "ansi_x3_4_1968", "ansi_x3.4_1986", "iso_646.irv_1991"]

def ofName? (name : Text) : Option Encoding :=
  let n := String.ofList (normalize name)
  if utf8Names.contains n then some .utf8
  else if latin1Names.contains n then some .latin1
  else if asciiNames.contains n then some .ascii
  else none

def utf8Bytes (c : Char) : List UInt8 :=
  let n := c.toNat
  let tail (shift : Nat) : UInt8 := (0x80 + (n >>> shift) % 64).toUInt8
  if n < 0x80 then [n.toUInt8]
  else if n < 0x800 then [(0xC0 + n >>> 6).toUInt8, tail 0]
  else if n < 0x10000 then [(0xE0 + n >>> 12).toUInt8, tail 6, tail 0]
  else [(0xF0 + n >>> 18).toUInt8, tail 12, tail 6, tail 0]

def encodeChar? : Encoding → Char → Option (List UInt8)
  | .utf8, c => some (utf8Bytes c)
  | .latin1, c => if c.toNat < 0x100 then some [c.toNat.toUInt8] else none
  | .ascii, c => if c.toNat < 0x80 then some [c.toNat.toUInt8] else none

def encode? (e : Encoding) : Text → Option (List UInt8)
  | [] => some []
  | c :: rest =>
    match encodeChar? e c, encode? e rest with
    | some bytes, some more => some (bytes ++ more)
    | _, _ => none

def covers (e : Encoding) (t : Text) : Bool := (encode? e t).isSome

def byteLength (e : Encoding) (t : Text) : Nat :=
  t.foldl (fun n c => n + ((encodeChar? e c).map List.length).getD 0) 0

end Encoding

/-- Why bytes are no text: the bytes from `start` up to `stop`, and what is wrong with them. -/
inductive DecodeReason where
  | invalidStart
  | invalidContinuation
  | unexpectedEnd
  | outsideASCII
  deriving DecidableEq, Repr

def DecodeReason.message : DecodeReason → Text
  | .invalidStart => "invalid start byte".toList
  | .invalidContinuation => "invalid continuation byte".toList
  | .unexpectedEnd => "unexpected end of data".toList
  | .outsideASCII => "ordinal not in range(128)".toList

structure DecodeError where
  encoding : Encoding
  first : UInt8
  start : Nat
  stop : Nat
  reason : DecodeReason
  deriving DecidableEq, Repr

def DecodeError.message (e : DecodeError) : Text :=
  let codec := if e.encoding = .ascii then "'ascii'".toList else "'utf-8'".toList
  let digit (n : Nat) : Char := Nat.digitChar (n % 16)
  let whereText :=
    if e.stop = e.start + 1 then
      "byte 0x".toList ++ [digit (e.first.toNat / 16), digit e.first.toNat] ++
        " in position ".toList ++ Text.ofNat e.start
    else
      "bytes in position ".toList ++ Text.ofNat e.start ++ ['-'] ++ Text.ofNat (e.stop - 1)
  codec ++ " codec can't decode ".toList ++ whereText ++ ": ".toList ++ e.reason.message

namespace Encoding

/-- How the bytes of one character go on: how many continue it, and the bounds of the first. -/
def utf8Lead (b : Nat) : Option (Nat × Nat × Nat) :=
  if 0xC2 ≤ b ∧ b ≤ 0xDF then some (1, 0x80, 0xBF)
  else if b = 0xE0 then some (2, 0xA0, 0xBF)
  else if b = 0xED then some (2, 0x80, 0x9F)
  else if 0xE1 ≤ b ∧ b ≤ 0xEF then some (2, 0x80, 0xBF)
  else if b = 0xF0 then some (3, 0x90, 0xBF)
  else if b = 0xF4 then some (3, 0x80, 0x8F)
  else if 0xF1 ≤ b ∧ b ≤ 0xF3 then some (3, 0x80, 0xBF)
  else none

/-- Reads continuing bytes: the code point they give, or how many were right and whether the bytes
ended. -/
def utf8Tail : Nat → Nat → Nat → Nat → Nat → List UInt8 → Except (Nat × Bool) Nat
  | 0, _, _, _, n, _ => .ok n
  | _ + 1, _, _, good, _, [] => .error (good, true)
  | more + 1, low, high, good, n, b :: rest =>
    if low ≤ b.toNat ∧ b.toNat ≤ high then
      utf8Tail more 0x80 0xBF (good + 1) (n * 64 + b.toNat % 64) rest
    else .error (good, false)

/-- Reads UTF-8 from a position on. A count of bytes to pass over goes along. -/
def decodeUtf8 : Nat → Nat → List UInt8 → Except DecodeError Text
  | _, _, [] => .ok []
  | place, skip + 1, _ :: rest => decodeUtf8 (place + 1) skip rest
  | place, 0, b :: rest =>
    let fault (reason : DecodeReason) (stop : Nat) : Except DecodeError Text :=
      .error ⟨.utf8, b, place, stop, reason⟩
    if b.toNat < 0x80 then
      (decodeUtf8 (place + 1) 0 rest).map (Char.ofNat b.toNat :: ·)
    else
      match utf8Lead b.toNat with
      | none => fault .invalidStart (place + 1)
      | some (more, low, high) =>
        let lead := b.toNat % (0x40 >>> more)
        match utf8Tail more low high 0 lead rest with
        | .ok n => (decodeUtf8 (place + 1) more rest).map (Char.ofNat n :: ·)
        | .error (_, true) => fault .unexpectedEnd (place + 1 + rest.length)
        | .error (good, false) => fault .invalidContinuation (place + 1 + good)

def decodeAscii : Nat → List UInt8 → Except DecodeError Text
  | _, [] => .ok []
  | place, b :: rest =>
    if b.toNat < 0x80 then (decodeAscii (place + 1) rest).map (Char.ofNat b.toNat :: ·)
    else .error ⟨.ascii, b, place, place + 1, .outsideASCII⟩

def decode : Encoding → List UInt8 → Except DecodeError Text
  | .utf8, bytes => decodeUtf8 0 0 bytes
  | .latin1, bytes => .ok (bytes.map fun b => Char.ofNat b.toNat)
  | .ascii, bytes => decodeAscii 0 bytes

end Encoding

end DocFlow

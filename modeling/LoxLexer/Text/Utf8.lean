/-!
# UTF-8 text

Source files are byte strings, while lexemes and messages are text. Decoding never fails: a byte
that starts no character, and every longest beginning of a character that is then cut short,
becomes one replacement character. A lead byte announces how many bytes follow it and in which
interval each of them lies; overlong forms, surrogates and code points above U+10FFFF are
excluded by the interval of the first byte that follows.

## Main definitions

* `lead? b`: what the lead byte `b` announces
* `decode bs`: the characters of a byte string
* `text bs`: the same as a `String`
* `bytes s`: the bytes of a text
* `isBoundary s i`: whether a character starts, or the text ends, at byte `i`

## Main results

* `length_trail_le`: reading the bytes that follow a lead byte never adds input
* `decode_cons`: decoding reads one character after the other
-/

namespace LoxLexer.Utf8

/-- The character that stands for bytes which encode nothing. -/
def replacement : Char := '\uFFFD'

/-- An interval of bytes, ends included. -/
structure ByteRange where
  /-- The least byte of the interval. -/
  low : UInt8
  /-- The greatest byte of the interval. -/
  high : UInt8
deriving DecidableEq, Repr

/-- A byte lies in an interval. -/
def ByteRange.has (r : ByteRange) (b : UInt8) : Bool :=
  r.low ≤ b && b ≤ r.high

/-- All bytes that may continue a character. -/
def continuation : ByteRange := ⟨0x80, 0xBF⟩

/-- What a lead byte announces: its own share of the code point, and an interval for each of the
bytes that follow. -/
structure Lead where
  /-- The bits of the code point that the lead byte carries. -/
  payload : Nat
  /-- Where each following byte lies. -/
  trail : List ByteRange
deriving DecidableEq, Repr

/-- **The lead bytes.** A byte below `0x80` is a character by itself; `0xC0`, `0xC1` and all bytes
from `0xF5` on start no character, nor does a continuation byte. -/
def lead? (b : UInt8) : Option Lead :=
  if b < 0x80 then some ⟨b.toNat, []⟩
  else if b < 0xC2 then none
  else if b < 0xE0 then some ⟨b.toNat - 0xC0, [continuation]⟩
  else if b = 0xE0 then some ⟨0, [⟨0xA0, 0xBF⟩, continuation]⟩
  else if b = 0xED then some ⟨0xD, [⟨0x80, 0x9F⟩, continuation]⟩
  else if b < 0xF0 then some ⟨b.toNat - 0xE0, [continuation, continuation]⟩
  else if b = 0xF0 then some ⟨0, [⟨0x90, 0xBF⟩, continuation, continuation]⟩
  else if b < 0xF4 then some ⟨b.toNat - 0xF0, [continuation, continuation, continuation]⟩
  else if b = 0xF4 then some ⟨4, [⟨0x80, 0x8F⟩, continuation, continuation]⟩
  else none

/-- Reads the bytes that a lead byte announced, as far as each lies in its interval. The answer is
the code point, or nothing when the character is cut short, and the input from the first byte
that was not taken. -/
def trail (code : Nat) : List ByteRange → List UInt8 → Option Nat × List UInt8
  | [], bs => (some code, bs)
  | _ :: _, [] => (none, [])
  | r :: rs, b :: bs =>
    if r.has b then trail (code * 64 + (b.toNat - 0x80)) rs bs else (none, b :: bs)

/-- The character that a byte string `b :: bs` begins with, and the input after it. -/
def next (b : UInt8) (bs : List UInt8) : Char × List UInt8 :=
  match lead? b with
  | none => (replacement, bs)
  | some lead =>
    match trail lead.payload lead.trail bs with
    | (some code, rest) => (Char.ofNat code, rest)
    | (none, rest) => (replacement, rest)

theorem length_trail_le (code : Nat) (rs : List ByteRange) (bs : List UInt8) :
    (trail code rs bs).2.length ≤ bs.length := by
  induction rs generalizing code bs with
  | nil => simp [trail]
  | cons r rs ih =>
    cases bs with
    | nil => simp [trail]
    | cons b bs =>
      simp only [trail]
      split
      · exact Nat.le_succ_of_le (ih _ bs)
      · exact Nat.le_refl _

theorem length_next_le (b : UInt8) (bs : List UInt8) : (next b bs).2.length ≤ bs.length := by
  unfold next
  split
  · exact Nat.le_refl _
  · rename_i lead _
    have h := length_trail_le lead.payload lead.trail bs
    split <;> simp_all

/-- **Lossy decoding**: the characters of a byte string, where each byte that starts no character
and each longest unfinished character reads as `replacement`. -/
def decode : List UInt8 → List Char
  | [] => []
  | b :: bs => (next b bs).1 :: decode (next b bs).2
termination_by bs => bs.length
decreasing_by exact Nat.lt_succ_of_le (length_next_le b bs)

@[simp] theorem decode_nil : decode [] = [] := by
  rw [decode]

theorem decode_cons (b : UInt8) (bs : List UInt8) :
    decode (b :: bs) = (next b bs).1 :: decode (next b bs).2 := by
  rw [decode]

/-- The text that a byte string decodes to. -/
def text (bs : List UInt8) : String :=
  String.ofList (decode bs)

/-- The bytes of a text. -/
def bytes (s : String) : List UInt8 :=
  s.toByteArray.data.toList

/-- A character starts at byte `i` of the text, or the text ends there. -/
def isBoundary (s : String) (i : Nat) : Bool :=
  String.Pos.Raw.isValid s ⟨i⟩

/-- The bytes between two offsets, if these are in order, inside the text, and cut no
character. -/
def slice? (s : String) (start stop : Nat) : Option (List UInt8) :=
  if start ≤ stop && isBoundary s start && isBoundary s stop then
    some (s.toByteArray.extract start stop).data.toList
  else none

end LoxLexer.Utf8

import TypeDiagram.Text.Quoted

/-!
Text from bytes in UTF-8. A character is a leading byte and the tails that it announces; the range
of the first tail excludes long forms, surrogates and characters that do not exist. Reading stops at
the first byte that no text has there.
-/

namespace TypeDiagram.Text.Utf8

inductive Defect where
  /-- A byte that begins no character. -/
  | start
  /-- A character that the next byte does not continue. -/
  | continuation
  /-- A character that the last byte does not complete. -/
  | truncated
deriving DecidableEq, Repr

structure Error where
  defect : Defect
  /-- The number of bytes before those concerned. -/
  position : Nat
  first : UInt8
  /-- The number of bytes concerned after the first one. -/
  more : Nat
deriving DecidableEq, Repr

def Defect.reason : Defect → String
  | start => "invalid start byte"
  | continuation => "invalid continuation byte"
  | truncated => "unexpected end of data"

def Error.message (e : Error) : String :=
  let place :=
    if e.more = 0 then
      "byte 0x" ++ String.ofList (hexDigits 2 e.first.toNat) ++ " in position " ++
        toString e.position
    else "bytes in position " ++ toString e.position ++ "-" ++ toString (e.position + e.more)
  "'utf-8' codec can't decode " ++ place ++ ": " ++ e.defect.reason

structure Incomplete where
  /-- Where the leading byte stands. -/
  position : Nat
  first : UInt8
  /-- The number of tails that were read. -/
  more : Nat
  /-- The bits that were read. -/
  bits : Nat
  /-- The lowest and the highest value that the next tail may have. -/
  low : Nat
  high : Nat
  /-- The number of tails that are awaited after the next one. -/
  later : Nat
deriving DecidableEq, Repr

def Incomplete.error (c : Incomplete) (defect : Defect) : Error :=
  ⟨defect, c.position, c.first, c.more⟩

def begin? (position : Nat) (b : UInt8) : Option Incomplete :=
  let n := b.toNat
  if n < 0xC2 then none
  else if n < 0xE0 then some ⟨position, b, 0, n - 0xC0, 0x80, 0xBF, 0⟩
  else if n < 0xF0 then
    some ⟨position, b, 0, n - 0xE0, if n = 0xE0 then 0xA0 else 0x80,
      if n = 0xED then 0x9F else 0xBF, 1⟩
  else if n < 0xF5 then
    some ⟨position, b, 0, n - 0xF0, if n = 0xF0 then 0x90 else 0x80,
      if n = 0xF4 then 0x8F else 0xBF, 2⟩
  else none

/-- Reads on from `position`, perhaps within a character, after the characters `done`, which are in
reverse. -/
def decodeFrom (position : Nat) (done : List Char) :
    Option Incomplete → List UInt8 → Except Error (List Char)
  | none, [] => .ok done.reverse
  | some c, [] => .error (c.error .truncated)
  | none, b :: bs =>
    if b.toNat < 0x80 then decodeFrom (position + 1) (Char.ofNat b.toNat :: done) none bs
    else match begin? position b with
      | some c => decodeFrom (position + 1) done (some c) bs
      | none => .error ⟨.start, position, b, 0⟩
  | some c, b :: bs =>
    let n := b.toNat
    if c.low ≤ n && n ≤ c.high then
      let bits := 64 * c.bits + (n - 0x80)
      match c.later with
      | 0 => decodeFrom (position + 1) (Char.ofNat bits :: done) none bs
      | later + 1 =>
        decodeFrom (position + 1) done
          (some { c with more := c.more + 1, bits, low := 0x80, high := 0xBF, later }) bs
    else .error (c.error .continuation)

def decode (bytes : List UInt8) : Except Error (List Char) := decodeFrom 0 [] none bytes

end TypeDiagram.Text.Utf8

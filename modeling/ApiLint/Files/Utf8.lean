import ApiLint.Number.Written
import ApiLint.Text.Quoted

/-!
# Reading text files

Bytes become text by UTF-8, and every line end becomes a line feed. The decoder refuses overlong
forms, surrogates, and code points beyond the last one; an error names the bytes that cannot begin
or go on with a character.
-/

namespace ApiLint

/-- Why bytes are no text. -/
inductive Utf8Defect
  | startByte | continuationByte | endOfData
  deriving DecidableEq, Repr

/-- A defect, the position and the count of the bytes concerned, and the first of them. -/
structure Utf8Error where
  defect : Utf8Defect
  position : Nat
  count : Nat
  first : UInt8
  deriving DecidableEq, Repr

namespace Utf8Error

def reason (e : Utf8Error) : String :=
  match e.defect with
  | .startByte => "invalid start byte"
  | .continuationByte => "invalid continuation byte"
  | .endOfData => "unexpected end of data"

def message (e : Utf8Error) : String :=
  let place (n : Nat) : String := writtenInt n
  let bytes :=
    if e.count = 1 then
      "byte 0x" ++ String.ofList (Text.hexPadded 2 e.first.toNat) ++ " in position " ++ place e.position
    else s!"bytes in position {place e.position}-{place (e.position + e.count - 1)}"
  s!"'utf-8' codec can't decode {bytes}: {e.reason}"

end Utf8Error

namespace Utf8

/-- Whether a byte goes on with a character. -/
def isContinuation (b : UInt8) : Bool := 0x80 ≤ b && b < 0xc0

/-- Whether the second byte fits a first one of three or four bytes: neither an overlong form nor a
surrogate nor beyond the last code point. -/
def fitsSecond (b c : UInt8) : Bool :=
  isContinuation c
    && !(b == 0xe0 && c < 0xa0) && !(b == 0xed && 0xa0 ≤ c)
    && !(b == 0xf0 && c < 0x90) && !(b == 0xf4 && 0x90 ≤ c)

/-- The character of a first byte's payload and the bytes after it. -/
def character (payload : Nat) (rest : List UInt8) : Char :=
  Char.ofNat (rest.foldl (fun acc b => acc * 64 + b.toNat % 64) payload)

/-- Decodes bytes, the first of which has the given position. -/
def decodeFrom (position : Nat) : List UInt8 → Except Utf8Error (List Char)
  | [] => .ok []
  | b :: rest =>
    let refuse (defect : Utf8Defect) (count : Nat) : Except Utf8Error (List Char) :=
      .error ⟨defect, position, count, b⟩
    if b < 0x80 then do
      return Char.ofNat b.toNat :: (← decodeFrom (position + 1) rest)
    else if b < 0xc2 || 0xf5 ≤ b then refuse .startByte 1
    else
      match rest with
      | [] => refuse .endOfData 1
      | c :: rest =>
        if !fitsSecond b c then refuse .continuationByte 1
        else if b < 0xe0 then do
          return character (b.toNat % 32) [c] :: (← decodeFrom (position + 2) rest)
        else
          match rest with
          | [] => refuse .endOfData 2
          | d :: rest =>
            if !isContinuation d then refuse .continuationByte 2
            else if b < 0xf0 then do
              return character (b.toNat % 16) [c, d] :: (← decodeFrom (position + 3) rest)
            else
              match rest with
              | [] => refuse .endOfData 3
              | e :: rest =>
                if !isContinuation e then refuse .continuationByte 3
                else do
                  return character (b.toNat % 8) [c, d, e] :: (← decodeFrom (position + 4) rest)

/-- Every line end as a line feed. -/
def unifyLineEnds : List Char → List Char
  | '\r' :: '\n' :: cs => '\n' :: unifyLineEnds cs
  | '\r' :: cs => '\n' :: unifyLineEnds cs
  | c :: cs => c :: unifyLineEnds cs
  | [] => []

/-- The text of a file. -/
def textOf (bytes : List UInt8) : Except Utf8Error String :=
  (decodeFrom 0 bytes).map fun cs => String.ofList (unifyLineEnds cs)

end Utf8

end ApiLint

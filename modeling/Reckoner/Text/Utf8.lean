import Reckoner.Text.Quoted

/-! Reading and writing UTF-8. A first byte fixes which bytes may follow it; where a sequence is cut
short or broken, the fault tells the bytes read so far and why they are no character. -/

namespace Reckoner.Text

inductive Utf8Reason where
  | badStart
  | badContinuation
  | cutShort
  deriving DecidableEq, Repr

/-- A faulty sequence: the position of its first byte, that byte and the number of bytes it has. -/
structure Utf8Fault where
  position : Nat
  byte : UInt8
  count : Nat
  reason : Utf8Reason
  deriving DecidableEq, Repr

def Utf8Reason.message : Utf8Reason → String
  | badStart => "invalid start byte"
  | badContinuation => "invalid continuation byte"
  | cutShort => "unexpected end of data"

def Utf8Fault.message (fault : Utf8Fault) : String :=
  let place :=
    if fault.count = 1 then
      "byte 0x" ++ String.ofList (hexText 2 fault.byte.toNat) ++ " in position " ++ toString fault.position
    else
      "bytes in position " ++ toString fault.position ++ "-" ++
        toString (fault.position + fault.count - 1)
  "'utf-8' codec can't decode " ++ place ++ ": " ++ fault.reason.message

/-- What a first byte tells: the bits it gives to the character, and for each byte that has to follow,
the first and the last that may. -/
def utf8Lead (byte : UInt8) : Option (Nat × List (UInt8 × UInt8)) :=
  if byte < 0x80 then some (byte.toNat, [])
  else if byte < 0xC2 then none
  else if byte < 0xE0 then some (byte.toNat - 0xC0, [(0x80, 0xBF)])
  else if byte = 0xE0 then some (0, [(0xA0, 0xBF), (0x80, 0xBF)])
  else if byte = 0xED then some (0xD, [(0x80, 0x9F), (0x80, 0xBF)])
  else if byte < 0xF0 then some (byte.toNat - 0xE0, [(0x80, 0xBF), (0x80, 0xBF)])
  else if byte = 0xF0 then some (0, [(0x90, 0xBF), (0x80, 0xBF), (0x80, 0xBF)])
  else if byte < 0xF4 then some (byte.toNat - 0xF0, [(0x80, 0xBF), (0x80, 0xBF), (0x80, 0xBF)])
  else if byte = 0xF4 then some (4, [(0x80, 0x8F), (0x80, 0xBF), (0x80, 0xBF)])
  else none

/-- Reads the bytes that have to follow a first byte: the code point and the rest, or the number of
bytes read before the fault and its reason. -/
def utf8Tail (code : Nat) (count : Nat) :
    List (UInt8 × UInt8) → List UInt8 → Except (Nat × Utf8Reason) (Nat × List UInt8)
  | [], bytes => .ok (code, bytes)
  | _ :: _, [] => .error (count, .cutShort)
  | (first, last) :: ranges, byte :: bytes =>
    if first ≤ byte && byte ≤ last then
      utf8Tail (code * 0x40 + (byte.toNat - 0x80)) (count + 1) ranges bytes
    else .error (count, .badContinuation)

/-- The bytes that follow a character are fewer than the bytes given. -/
theorem length_le_of_utf8Tail {code count : Nat} {ranges : List (UInt8 × UInt8)}
    {bytes rest : List UInt8} {result : Nat}
    (h : utf8Tail code count ranges bytes = .ok (result, rest)) : rest.length ≤ bytes.length := by
  induction ranges generalizing code count bytes with
  | nil =>
    simp only [utf8Tail, Except.ok.injEq, Prod.mk.injEq] at h
    exact h.2 ▸ Nat.le_refl _
  | cons range ranges ih =>
    cases bytes with
    | nil => simp [utf8Tail] at h
    | cons byte bytes =>
      simp only [utf8Tail] at h
      split at h
      · exact Nat.le_trans (ih h) (Nat.le_succ _)
      · simp at h

def utf8DecodeFrom (position : Nat) : List UInt8 → Except Utf8Fault (List Char)
  | [] => .ok []
  | byte :: bytes =>
    match utf8Lead byte with
    | none => .error ⟨position, byte, 1, .badStart⟩
    | some (code, ranges) =>
      match h : utf8Tail code 1 ranges bytes with
      | .error (count, reason) => .error ⟨position, byte, count, reason⟩
      | .ok (code, rest) =>
        have := length_le_of_utf8Tail h
        (utf8DecodeFrom (position + 1 + ranges.length) rest).map (Char.ofNat code :: ·)
termination_by bytes => bytes.length
decreasing_by simp only [List.length_cons]; omega

def utf8Decode (bytes : List UInt8) : Except Utf8Fault (List Char) :=
  utf8DecodeFrom 0 bytes

def utf8Encode (cs : List Char) : List UInt8 :=
  cs.flatMap String.utf8EncodeChar

end Reckoner.Text

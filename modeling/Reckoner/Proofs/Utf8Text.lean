import Mathlib.Data.List.Basic
import Reckoner.Text.Utf8

/-! Text that is written in UTF-8 is read back (`utf8Decode_utf8Encode`). A character of two or more
bytes gives its highest bits to the first byte and six bits to each byte that follows; the ranges of the
second byte leave out exactly the long forms and the code points that are no characters. -/

namespace Reckoner
namespace Text

/-- The byte that carries six bits after a first byte. -/
def continuation (bits : Nat) : UInt8 :=
  UInt8.ofNat (bits + 0x80)

theorem continuation_toNat {bits : Nat} (h : bits < 0x40) :
    (continuation bits).toNat = bits + 0x80 := by
  rw [continuation, UInt8.toNat_ofNat']
  exact Nat.mod_eq_of_lt (by omega)

theorem utf8Tail_continuation {code count bits : Nat} {first last : UInt8}
    {ranges : List (UInt8 × UInt8)} {bytes : List UInt8} (h : bits < 0x40)
    (hfirst : first ≤ continuation bits) (hlast : continuation bits ≤ last) :
    utf8Tail code count ((first, last) :: ranges) (continuation bits :: bytes) =
      utf8Tail (code * 0x40 + bits) (count + 1) ranges bytes := by
  have hrange : (decide (first ≤ continuation bits) && decide (continuation bits ≤ last)) = true := by
    rw [decide_eq_true hfirst, decide_eq_true hlast]
    rfl
  rw [utf8Tail, if_pos hrange, continuation_toNat h, Nat.add_sub_cancel]

theorem continuation_range : ∀ bits < 0x40,
    0x80 ≤ continuation bits ∧ continuation bits ≤ 0xBF := by
  decide

theorem utf8Lead_one : ∀ n < 0x80, utf8Lead (UInt8.ofNat n) = some (n, []) := by
  decide

theorem utf8Lead_two : ∀ n < 0x1E,
    utf8Lead (UInt8.ofNat (n + 0xC2)) = some (n + 2, [(0x80, 0xBF)]) := by
  decide

/-- The range of the byte after the first of three: the first byte of the long forms and that of the
surrogates take half of what the others do. -/
def secondOfThree (n : Nat) : UInt8 × UInt8 :=
  (if n = 0 then 0xA0 else 0x80, if n = 0xD then 0x9F else 0xBF)

theorem utf8Lead_three : ∀ n < 0x10,
    utf8Lead (UInt8.ofNat (n + 0xE0)) = some (n, [secondOfThree n, (0x80, 0xBF)]) := by
  decide

theorem secondOfThree_range : ∀ n < 0x10, ∀ bits < 0x40, (n = 0 → 0x20 ≤ bits) →
    (n = 0xD → bits < 0x20) → (secondOfThree n).1 ≤ continuation bits ∧
      continuation bits ≤ (secondOfThree n).2 := by
  decide +kernel

def secondOfFour (n : Nat) : UInt8 × UInt8 :=
  (if n = 0 then 0x90 else 0x80, if n = 4 then 0x8F else 0xBF)

theorem utf8Lead_four : ∀ n < 5, utf8Lead (UInt8.ofNat (n + 0xF0)) =
    some (n, [secondOfFour n, (0x80, 0xBF), (0x80, 0xBF)]) := by
  decide

theorem secondOfFour_range : ∀ n < 5, ∀ bits < 0x40, (n = 0 → 0x10 ≤ bits) →
    (n = 4 → bits < 0x10) → (secondOfFour n).1 ≤ continuation bits ∧
      continuation bits ≤ (secondOfFour n).2 := by
  decide +kernel

/-- The first byte and the bytes that carry six bits each, read as the character they make up. -/
theorem utf8DecodeFrom_of_tail {position code result : Nat} {lead : UInt8}
    {ranges : List (UInt8 × UInt8)} {bytes rest : List UInt8}
    (hlead : utf8Lead lead = some (code, ranges))
    (htail : utf8Tail code 1 ranges bytes = .ok (result, rest)) :
    utf8DecodeFrom position (lead :: bytes) =
      (utf8DecodeFrom (position + 1 + ranges.length) rest).map (Char.ofNat result :: ·) := by
  rw [utf8DecodeFrom]
  split
  · next hnone =>
    rw [hlead] at hnone
    cases hnone
  · next code' ranges' hsome =>
    rw [hlead] at hsome
    cases hsome
    split
    · next herror =>
      rw [htail] at herror
      cases herror
    · next hok =>
      rw [htail] at hok
      cases hok
      rfl

/-- The bytes of a character, as first bytes and continuations. -/
theorem utf8EncodeChar_eq (c : Char) :
    String.utf8EncodeChar c =
      if c.toNat ≤ 0x7F then [UInt8.ofNat c.toNat]
      else if c.toNat ≤ 0x7FF then
        [UInt8.ofNat (c.toNat / 0x40 % 0x20 + 0xC0), continuation (c.toNat % 0x40)]
      else if c.toNat ≤ 0xFFFF then
        [UInt8.ofNat (c.toNat / 0x1000 % 0x10 + 0xE0), continuation (c.toNat / 0x40 % 0x40),
          continuation (c.toNat % 0x40)]
      else
        [UInt8.ofNat (c.toNat / 0x40000 % 0x08 + 0xF0), continuation (c.toNat / 0x1000 % 0x40),
          continuation (c.toNat / 0x40 % 0x40), continuation (c.toNat % 0x40)] :=
  rfl

theorem utf8DecodeFrom_char (position : Nat) (c : Char) (rest : List UInt8) :
    ∃ next, utf8DecodeFrom position (String.utf8EncodeChar c ++ rest) =
      (utf8DecodeFrom next rest).map (c :: ·) := by
  have hvalid : c.toNat < 0xD800 ∨ 0xDFFF < c.toNat ∧ c.toNat < 0x110000 := c.valid
  have hread : ∀ {lead : UInt8} {code n : Nat} {ranges : List (UInt8 × UInt8)}
      {bytes : List UInt8}, n = c.toNat → utf8Lead lead = some (code, ranges) →
      utf8Tail code 1 ranges (bytes ++ rest) = .ok (n, rest) →
      ∃ next, utf8DecodeFrom position (lead :: bytes ++ rest) =
        (utf8DecodeFrom next rest).map (c :: ·) := by
    rintro lead code n ranges bytes rfl hlead htail
    refine ⟨position + 1 + ranges.length, ?_⟩
    rw [List.cons_append, utf8DecodeFrom_of_tail hlead htail, Char.ofNat_toNat]
  have hbits : ∀ n : Nat, n % 0x40 < 0x40 := fun n => Nat.mod_lt n (by decide)
  rw [utf8EncodeChar_eq]
  by_cases hone : c.toNat ≤ 0x7F
  · rw [if_pos hone]
    exact hread rfl (utf8Lead_one c.toNat (by omega)) rfl
  rw [if_neg hone]
  by_cases htwo : c.toNat ≤ 0x7FF
  · rw [if_pos htwo]
    have hlead := utf8Lead_two (c.toNat / 0x40 % 0x20 - 2) (by omega)
    rw [show c.toNat / 0x40 % 0x20 - 2 + 0xC2 = c.toNat / 0x40 % 0x20 + 0xC0 by omega] at hlead
    refine hread ?_ hlead (utf8Tail_continuation (hbits _) (continuation_range _ (hbits _)).1
      (continuation_range _ (hbits _)).2)
    omega
  rw [if_neg htwo]
  by_cases hthree : c.toNat ≤ 0xFFFF
  · rw [if_pos hthree]
    have hsecond := secondOfThree_range (c.toNat / 0x1000 % 0x10) (by omega)
      (c.toNat / 0x40 % 0x40) (hbits _) (by omega) (by omega)
    refine hread ?_ (utf8Lead_three (c.toNat / 0x1000 % 0x10) (by omega))
      ((utf8Tail_continuation (hbits _) hsecond.1 hsecond.2).trans
        (utf8Tail_continuation (hbits _) (continuation_range _ (hbits _)).1
          (continuation_range _ (hbits _)).2))
    omega
  rw [if_neg hthree]
  have hsecond := secondOfFour_range (c.toNat / 0x40000 % 0x08) (by omega)
    (c.toNat / 0x1000 % 0x40) (hbits _) (by omega) (by omega)
  refine hread ?_ (utf8Lead_four (c.toNat / 0x40000 % 0x08) (by omega))
    ((utf8Tail_continuation (hbits _) hsecond.1 hsecond.2).trans
      ((utf8Tail_continuation (hbits _) (continuation_range _ (hbits _)).1
        (continuation_range _ (hbits _)).2).trans
        (utf8Tail_continuation (hbits _) (continuation_range _ (hbits _)).1
          (continuation_range _ (hbits _)).2)))
  omega

/-- What is written in UTF-8 is read back. -/
theorem utf8Decode_utf8Encode (cs : List Char) : utf8Decode (utf8Encode cs) = .ok cs := by
  have hfrom : ∀ position, utf8DecodeFrom position (utf8Encode cs) = .ok cs := by
    induction cs with
    | nil =>
        intro position
        rw [utf8Encode, List.flatMap_nil, utf8DecodeFrom]
    | cons c cs ih =>
        intro position
        obtain ⟨next, hnext⟩ := utf8DecodeFrom_char position c (utf8Encode cs)
        have hsplit : utf8Encode (c :: cs) = String.utf8EncodeChar c ++ utf8Encode cs := rfl
        rw [hsplit, hnext, ih next]
        rfl
  exact hfrom 0

end Text
end Reckoner

import Reckoner.Proofs.DisplayReading
import Reckoner.Proofs.InfixArrangement
import Reckoner.Proofs.RoundingOrder

/-! Display texts as expressions. A number is displayed in one of three ways: as a numeral, as a numeral
behind a minus sign, or with a letter in it. An expression of a numeral is that number, a minus sign alone
before it lacks an operand, and a letter is refused; so a display that is evaluated is never taken for
another number (`evaluate_display`). Which of the three it is hangs on where decimals take a power of ten:
below the place of `0.0001`, and from `10 ^ 21` on, since whole numbers are written out up to there. -/

namespace Reckoner

namespace Decimal

theorem digits_ne_zero {d : Decimal} (h : d.nearestUnits ≠ 0) : d.digits ≠ 0 := by
  obtain ⟨n, e⟩ := d
  rintro rfl
  exact h (nearestUnits_zero e)

theorem isDigit_of_mem_zeros {count : Nat} {c : Char} (h : c ∈ List.replicate count '0') :
    c.isDigit = true := by
  rw [List.eq_of_mem_replicate h]
  rfl

theorem exists_numeral_positionalText (digits : Digits) (place : Nat) :
    ∃ n : Numeral, positionalText digits.chars place = n.text := by
  simp only [positionalText]
  have hdigits : ∀ c ∈ digits.chars ++ List.replicate (place + 1 - digits.chars.length) '0',
      c.isDigit = true := fun c hc =>
    (List.mem_append.1 hc).elim (digits.isDigit_of_mem c) isDigit_of_mem_zeros
  have hne : digits.chars ++ List.replicate (place + 1 - digits.chars.length) '0' ≠ [] :=
    List.append_ne_nil_of_left_ne_nil digits.ne_nil _
  generalize digits.chars ++ List.replicate (place + 1 - digits.chars.length) '0' = padded
    at hdigits hne ⊢
  have hwhole : padded.take (place + 1) ≠ [] := by
    simp [List.take_eq_nil_iff, hne]
  have hplaces : ∃ places : Digits,
      (if (padded.drop (place + 1)).isEmpty then ['0'] else padded.drop (place + 1)) = places.chars := by
    split_ifs with hempty
    · exact ⟨.ofNat 0, rfl⟩
    · exact ⟨⟨_, fun hnil => hempty (List.isEmpty_iff.2 hnil),
        fun c hc => hdigits c (List.mem_of_mem_drop hc)⟩, rfl⟩
  obtain ⟨places, hplaces⟩ := hplaces
  rw [hplaces]
  exact ⟨⟨⟨_, hwhole, fun c hc => hdigits c (List.mem_of_mem_take hc)⟩, some places⟩, rfl⟩

theorem exists_numeral_leadingZeros (digits : Digits) (count : Nat) :
    ∃ n : Numeral, '0' :: '.' :: List.replicate count '0' ++ digits.chars = n.text := by
  have hdigits : ∀ c ∈ List.replicate count '0' ++ digits.chars, c.isDigit = true := fun c hc =>
    (List.mem_append.1 hc).elim isDigit_of_mem_zeros (digits.isDigit_of_mem c)
  exact ⟨⟨.ofNat 0, some ⟨_, List.append_ne_nil_of_right_ne_nil _ digits.ne_nil, hdigits⟩⟩, rfl⟩

theorem mem_scientificText {digits : List Char} (hne : digits ≠ []) (place : Int) :
    'e' ∈ scientificText digits place := by
  obtain ⟨first, rest, rfl⟩ := List.exists_cons_of_ne_nil hne
  cases rest with
  | nil => simp [scientificText]
  | cons second rest => simp [scientificText]

/-- Between two places a decimal is written as a numeral. -/
theorem exists_numeral_text {d : Decimal} (hleast : -4 ≤ d.place) (hmost : d.place < 16) :
    ∃ n : Numeral, d.text = n.text := by
  rw [place] at hleast hmost
  simp only [text]
  split
  · next p hp =>
      rw [Int.ofNat_eq_natCast] at hp
      rw [if_pos (by omega)]
      exact exists_numeral_positionalText (.ofNat d.digits) p
  · next p hp =>
      rw [if_pos (by omega)]
      exact exists_numeral_leadingZeros (.ofNat d.digits) p

/-- Beyond them it is written with a power of ten. -/
theorem mem_text_of_place {d : Decimal} (h : d.place < -4 ∨ 16 ≤ d.place) : 'e' ∈ d.text := by
  have hne := Text.digitText_ne_nil d.digits
  rw [place] at h
  simp only [text]
  split
  · next p hp =>
      rw [Int.ofNat_eq_natCast] at hp
      rw [if_neg (by omega)]
      exact mem_scientificText hne _
  · next p hp =>
      rw [if_neg (by omega)]
      exact mem_scientificText hne _

end Decimal

namespace Binary64

open Decimal (digitText shortest)

/-- The least number that is displayed without a power of ten, `0.0001`. -/
def plainLeast : Binary64 :=
  Decimal.toBinary64 ⟨1, -4⟩ false

/-- The number `10 ^ 21`, from which on all are displayed with a power of ten. -/
def plainLimit : Binary64 :=
  Decimal.toBinary64 ⟨1, 21⟩ false

/-- The display of a magnitude. -/
def magnitudeText (units : Nat) : List Char :=
  if isWhole units && wholePart units < Nat.pow 10 21 then digitText (wholePart units)
  else (shortest units).text

theorem display_finite {units : Nat} (hunits : units ≠ 0) (negative : Bool) (h : Representable units) :
    (finite negative units h).display = String.ofList (signed negative (magnitudeText units)) := by
  rw [display, if_neg hunits, magnitudeText]
  split_ifs <;> rfl

theorem units_plainLeast : Representable (Decimal.nearestUnits ⟨1, -4⟩) ∧
    0 < Decimal.nearestUnits ⟨1, -4⟩ ∧ Decimal.nearestUnits ⟨1, -4⟩ ≤ unitsPerOne ∧
    -4 ≤ (shortest (Decimal.nearestUnits ⟨1, -4⟩)).place := by
  decide +kernel

theorem units_plainLimit : Representable (10 ^ 21 * unitsPerOne) ∧
    Decimal.nearestUnits ⟨1, 21⟩ = 10 ^ 21 * unitsPerOne ∧
    Decimal.nearestUnits ⟨1, 16⟩ = 10 ^ 16 * unitsPerOne := by
  decide +kernel

theorem exists_plainLeast : ∃ h : Representable (Decimal.nearestUnits ⟨1, -4⟩),
    plainLeast = finite false (Decimal.nearestUnits ⟨1, -4⟩) h := by
  have h := units_plainLeast.1
  exact ⟨h, by rw [plainLeast, Decimal.toBinary64_eq_ofUnits, ofUnits_of_representable false h]⟩

theorem exists_plainLimit : ∃ h : Representable (10 ^ 21 * unitsPerOne),
    plainLimit = finite false (10 ^ 21 * unitsPerOne) h := by
  obtain ⟨h, hexact, -⟩ := units_plainLimit
  exact ⟨h, by rw [plainLimit, Decimal.toBinary64_eq_ofUnits, hexact, ofUnits_of_representable false h]⟩

-- comparisons with the two bounds are not unfolded, and their units not computed
attribute [local irreducible] plainLeast plainLimit

/-- No double from `10 ^ 16` on has a bit behind the point. -/
theorem isWhole_of_le {units : Nat} (h : Representable units) (hle : 10 ^ 16 * unitsPerOne ≤ units) :
    isWhole units = true := by
  obtain ⟨place, -, hone, -⟩ := Decimal.exists_place
  have hreach : 2 ^ (53 + place) ≤ units := by
    rw [Nat.pow_add, ← hone]
    exact Nat.le_trans (Nat.mul_le_mul_right _ (by decide)) hle
  have hlog : 53 + place ≤ units.log2 := by
    have hmono := log2_mono hreach
    rwa [Nat.log2_two_pow] at hmono
  have hdvd : unitsPerOne ∣ units := by
    rw [hone]
    exact Nat.dvd_trans (Nat.pow_dvd_pow 2 (by omega)) h.2
  rw [isWhole, Nat.mod_eq_zero_of_dvd hdvd]
  rfl

theorem unitsPerOne_le_of_isWhole {units : Nat} (hwhole : isWhole units = true) (hunits : units ≠ 0) :
    unitsPerOne ≤ units :=
  Nat.le_of_dvd (Nat.pos_of_ne_zero hunits) (Nat.dvd_of_mod_eq_zero (eq_of_beq hwhole))

theorem wholePart_lt_iff {units count : Nat} :
    wholePart units < count ↔ units < count * unitsPerOne :=
  Nat.div_lt_iff_lt_mul Decimal.unitsPerOne_pos

variable {units : Nat}

theorem digits_shortest_ne_zero (h : Representable units) (hunits : units ≠ 0) :
    (shortest units).digits ≠ 0 := by
  apply Decimal.digits_ne_zero
  rwa [Decimal.nearestUnits_shortest h]

/-- The shortest decimal begins below the place `-4` for the numbers below `0.0001`, and for no other: that
number itself is written with its digit at this place. -/
theorem place_shortest_lt_iff (h : Representable units) (hunits : units ≠ 0) :
    (shortest units).place < -4 ↔ units < Decimal.nearestUnits ⟨1, -4⟩ := by
  have hread := Decimal.nearestUnits_shortest h
  constructor
  · intro hplace
    have hle := Decimal.nearestUnits_le_of_place hplace
    rw [hread] at hle
    obtain ⟨-, -, -, hleast⟩ := units_plainLeast
    refine Nat.lt_of_le_of_ne hle fun heq => Int.not_lt.2 hleast ?_
    rwa [← heq]
  · intro hlt
    refine Int.not_le.1 fun hplace => ?_
    have hle := Decimal.le_nearestUnits_of_place (digits_shortest_ne_zero h hunits) hplace
    rw [hread] at hle
    exact Nat.not_le.2 hlt hle

theorem le_of_place_shortest (h : Representable units) (hunits : units ≠ 0)
    (hplace : 16 ≤ (shortest units).place) : 10 ^ 16 * unitsPerOne ≤ units := by
  have hle := Decimal.le_nearestUnits_of_place (digits_shortest_ne_zero h hunits) hplace
  rwa [Decimal.nearestUnits_shortest h, units_plainLimit.2.2] at hle

theorem le_of_place_shortest_lt (h : Representable units) (hplace : (shortest units).place < 16) :
    units ≤ 10 ^ 16 * unitsPerOne := by
  have hle := Decimal.nearestUnits_le_of_place hplace
  rwa [Decimal.nearestUnits_shortest h, units_plainLimit.2.2] at hle

/-- Whether a magnitude is displayed without a power of ten. -/
def IsPlain (units : Nat) : Prop :=
  Decimal.nearestUnits ⟨1, -4⟩ ≤ units ∧ units < 10 ^ 21 * unitsPerOne

theorem IsPlain.ne_zero (h : IsPlain units) : units ≠ 0 := by
  rintro rfl
  exact Nat.not_lt.2 h.1 units_plainLeast.2.1

theorem exists_numeral_magnitudeText (h : Representable units) (hplain : IsPlain units) :
    ∃ n : Numeral, magnitudeText units = n.text := by
  have hunits := hplain.ne_zero
  have hpart : wholePart units < 10 ^ 21 := wholePart_lt_iff.2 hplain.2
  unfold magnitudeText
  split_ifs with hwhole
  · exact ⟨⟨.ofNat (wholePart units), none⟩, (List.append_nil _).symm⟩
  · apply Decimal.exists_numeral_text
    · exact Int.not_lt.1 fun hplace => Nat.not_lt.2 hplain.1 ((place_shortest_lt_iff h hunits).1 hplace)
    · refine Int.not_le.1 fun hplace => hwhole ?_
      rw [isWhole_of_le h (le_of_place_shortest h hunits hplace)]
      exact decide_eq_true hpart

theorem mem_magnitudeText (h : Representable units) (hunits : units ≠ 0) (hplain : ¬IsPlain units) :
    'e' ∈ magnitudeText units := by
  obtain ⟨-, -, hone, -⟩ := units_plainLeast
  have hpowers : 10 ^ 16 * unitsPerOne < 10 ^ 21 * unitsPerOne :=
    Nat.mul_lt_mul_of_pos_right (by decide) Decimal.unitsPerOne_pos
  unfold magnitudeText
  rw [if_neg]
  · apply Decimal.mem_text_of_place
    rcases Nat.lt_or_ge units (Decimal.nearestUnits ⟨1, -4⟩) with hsmall | hleast
    · exact .inl ((place_shortest_lt_iff h hunits).2 hsmall)
    · refine .inr (Int.not_lt.1 fun hplace => hplain ⟨hleast, ?_⟩)
      exact Nat.lt_of_le_of_lt (le_of_place_shortest_lt h hplace) hpowers
  · intro hshown
    obtain ⟨hwhole, hpart⟩ := Bool.and_eq_true_iff.1 hshown
    have hleast := Nat.le_trans hone (unitsPerOne_le_of_isWhole hwhole hunits)
    exact hplain ⟨hleast, wholePart_lt_iff.1 (of_decide_eq_true hpart)⟩

theorem finite_plain_iff {negative : Bool} (h : Representable units) :
    plainLeast ≤ finite negative units h ∧ finite negative units h < plainLimit ↔
      negative = false ∧ IsPlain units := by
  obtain ⟨_, hleast⟩ := exists_plainLeast
  obtain ⟨_, hlimit⟩ := exists_plainLimit
  have hpos := units_plainLeast.2.1
  rw [hleast, hlimit, finite_le_finite, finite_lt_finite, IsPlain]
  generalize Decimal.nearestUnits ⟨1, -4⟩ = least at hpos ⊢
  generalize 10 ^ 21 * unitsPerOne = limit
  cases negative with
  | false => simp [signedUnits]
  | true =>
      simp only [signedUnits, Bool.false_eq_true, Bool.true_eq_false, if_false, if_true, false_and,
        iff_false]
      omega

theorem exists_finite_of_plain {x : Binary64} (hleast : plainLeast ≤ x) (hlimit : x < plainLimit) :
    ∃ (units : Nat) (h : Representable units), x = finite false units h ∧ IsPlain units := by
  cases x with
  | nan =>
      obtain ⟨_, heq⟩ := exists_plainLeast
      rw [heq] at hleast
      exact hleast.elim
  | infinity negative =>
      obtain ⟨_, heq⟩ := exists_plainLeast
      obtain ⟨_, heq'⟩ := exists_plainLimit
      rw [heq] at hleast
      rw [heq'] at hlimit
      cases negative with
      | false => exact hlimit.1.elim
      | true => exact hleast.elim
  | finite negative units h =>
      obtain ⟨rfl, hunits⟩ := (finite_plain_iff h).1 ⟨hleast, hlimit⟩
      exact ⟨units, h, rfl, hunits⟩

/-- Zero, and the positive numbers that are displayed without a power of ten. -/
def InPlainRange (x : Binary64) : Prop :=
  x.isZero ∨ plainLeast ≤ x ∧ x < plainLimit

/-- The negative numbers that are displayed without a power of ten. -/
def InNegativeRange (x : Binary64) : Prop :=
  -plainLimit < x ∧ x ≤ -plainLeast

theorem isZero_finite {negative : Bool} {h : Representable units} :
    (finite negative units h).isZero = true ↔ units = 0 := by
  cases units with
  | zero => exact iff_of_true rfl rfl
  | succ units => exact iff_of_false Bool.false_ne_true (Nat.succ_ne_zero units)

theorem display_of_isPlain {negative : Bool} (h : Representable units) (hplain : IsPlain units) :
    ∃ n : Numeral, (finite negative units h).display = String.ofList (signed negative n.text) := by
  obtain ⟨n, htext⟩ := exists_numeral_magnitudeText h hplain
  exact ⟨n, by rw [display_finite hplain.ne_zero, htext]⟩

theorem display_of_inPlainRange {x : Binary64} (hx : InPlainRange x) :
    ∃ n : Numeral, x.display = String.ofList n.text := by
  rcases hx with hzero | ⟨hleast, hlimit⟩
  · exact ⟨⟨.ofNat 0, none⟩, Operand.display_of_isZero hzero⟩
  · obtain ⟨units, h, rfl, hunits⟩ := exists_finite_of_plain hleast hlimit
    exact display_of_isPlain h hunits

theorem inNegativeRange_iff {x : Binary64} :
    InNegativeRange x ↔ plainLeast ≤ -x ∧ -x < plainLimit := by
  rw [← neg_neg x, InNegativeRange, neg_lt_neg_iff, neg_le_neg_iff, neg_neg]
  exact and_comm

theorem display_of_inNegativeRange {x : Binary64} (hx : InNegativeRange x) :
    ∃ n : Numeral, x.display = String.ofList ('-' :: n.text) := by
  obtain ⟨hleast, hlimit⟩ := inNegativeRange_iff.1 hx
  obtain ⟨units, h, hneg, hunits⟩ := exists_finite_of_plain hleast hlimit
  have hfinite : x = finite true units h := by
    rw [← neg_neg x, hneg, neg_finite, Bool.not_false]
  rw [hfinite]
  exact display_of_isPlain h hunits

theorem mem_signed {c : Char} {cs : List Char} (h : c ∈ cs) {negative : Bool} :
    c ∈ signed negative cs := by
  cases negative with
  | false => exact h
  | true => exact List.mem_cons_of_mem _ h

theorem display_of_not_inRange {x : Binary64} (hplain : ¬InPlainRange x) (hnegative : ¬InNegativeRange x) :
    ∃ c ∈ x.display.toList, Expression.isAllowed c = false := by
  cases x with
  | nan => exact ⟨'N', by simp [display], by decide⟩
  | infinity negative => exact ⟨'I', by cases negative <;> simp [display], by decide⟩
  | finite negative units h =>
      have hne : units ≠ 0 := fun hzero => hplain (.inl (isZero_finite.2 hzero))
      have hunits : ¬IsPlain units := by
        intro hunits
        cases negative with
        | false => exact hplain (.inr ((finite_plain_iff h).2 ⟨rfl, hunits⟩))
        | true => exact hnegative (inNegativeRange_iff.2 ((finite_plain_iff h).2 ⟨rfl, hunits⟩))
      have hmem := mem_magnitudeText h hne hunits
      refine ⟨'e', ?_, by decide⟩
      rw [display_finite hne, String.toList_ofList]
      exact mem_signed hmem

end Binary64

namespace Operand

theorem writes_numeral (n : Numeral) :
    Writes n.text ⟨Nat.ofDigitChars 10 (n.whole.chars ++ n.places) 0, -n.places.length⟩ := by
  obtain ⟨whole, fraction⟩ := n
  have hwhole : ∀ c ∈ whole.chars, Text.isDigit c = true := fun c hc =>
    Text.isDigit_of_isDigit (whole.isDigit_of_mem c hc)
  cases fraction with
  | none =>
      have hwrites := writes_whole whole.ne_nil hwhole Lexeme.apart_nil rfl
      rw [Text.digitsValue_eq_ofDigitChars whole.isDigit_of_mem] at hwrites
      simpa [Numeral.text, Numeral.places] using hwrites
  | some places =>
      have hplaces : ∀ c ∈ places.chars, Text.isDigit c = true := fun c hc =>
        Text.isDigit_of_isDigit (places.isDigit_of_mem c hc)
      have hall : ∀ c ∈ whole.chars ++ places.chars, c.isDigit = true := fun c hc =>
        (List.mem_append.1 hc).elim (whole.isDigit_of_mem c) (places.isDigit_of_mem c)
      have hwrites := writes_point whole.ne_nil hwhole hplaces Lexeme.apart_nil rfl
      rw [Text.digitsValue_eq_ofDigitChars hall, List.append_nil, Int.zero_sub] at hwrites
      exact hwrites

theorem isShown_numeral {n : Numeral} : ∀ c ∈ n.text, Decimal.IsShown c := by
  obtain ⟨whole, fraction⟩ := n
  intro c hc
  rcases List.mem_append.1 hc with hc | hc
  · exact .inl (whole.isDigit_of_mem c hc)
  · cases fraction with
    | none => cases hc
    | some places =>
        rcases List.mem_cons.1 hc with rfl | hc
        · exact .inr (by decide)
        · exact .inl (places.isDigit_of_mem c hc)

/-- A numeral typed as an operand is its number. -/
theorem parse_numeral (n : Numeral) : parse (String.ofList n.text) = n.value :=
  parse_signed isShown_numeral (writes_numeral n) false

end Operand

namespace Expression

open Lexeme (scan)

theorem evaluate_of_scan {cs : List Char} {lexemes : List Lexeme}
    (hallowed : ∀ c ∈ cs, isAllowed c = true) (hscan : scan cs = lexemes) (hne : lexemes ≠ []) :
    evaluate (String.ofList cs) = Postfix.evaluate (Postfix.ofTokens (lexemes.map Lexeme.token)) := by
  have hchars : (String.ofList cs).toList = cs := String.toList_ofList
  have hcs : cs ≠ [] := by
    rintro rfl
    rw [scan] at hscan
    exact hne hscan.symm
  have hvalid : validate (String.ofList cs) = .ok () := by
    apply validate_of_allowed
    · rwa [hchars]
    · rwa [hchars]
  have hts : tokens (String.ofList cs) = .ok (lexemes.map Lexeme.token) := by
    rw [tokens_of_ne_nil, hchars, hscan]
    rw [hchars, hscan]
    exact fun hnil => hne (List.map_eq_nil_iff.1 hnil)
  exact evaluate_of_tokens hvalid hts

theorem isAllowed_numeral (n : Numeral) : ∀ c ∈ n.text, isAllowed c = true := by
  have hwritten : Formula.Written 0 (.numeral n) n.text := .numeral n
  exact hwritten.isAllowed

theorem evaluate_numeral (n : Numeral) : evaluate (String.ofList n.text) = .ok ⟨n.value, []⟩ := by
  rw [evaluate_of_scan (isAllowed_numeral n) (Lexeme.scan_numeral n) (List.cons_ne_nil _ _),
    List.map_singleton, Lexeme.token_numeral]
  rfl

/-- A sign is an operator, also where no number is before it. -/
theorem evaluate_operator_number (op : Operator) (x : Binary64) :
    Postfix.evaluate (Postfix.ofTokens [.operator op, .number x]) = .error (.missingOperands op) := by
  have hrelease := Postfix.release_of_settled (Postfix.settled_nil op.precedence) []
  simp only [Postfix.ofTokens, List.foldl_cons, List.foldl_nil, Postfix.Arrangement.read,
    Postfix.Arrangement.empty, hrelease]
  rfl

theorem evaluate_minus_numeral (n : Numeral) :
    evaluate (String.ofList ('-' :: n.text)) = .error (.missingOperands .sub) := by
  have hallowed : ∀ c ∈ '-' :: n.text, isAllowed c = true :=
    List.forall_mem_cons.2 ⟨by decide, isAllowed_numeral n⟩
  have hscan : scan ('-' :: n.text) =
      [.operator .sub, .number n.whole.chars (n.fraction.map Digits.chars)] := by
    rw [← Lexeme.scan_numeral n]
    exact Lexeme.scan_operator .sub n.text
  rw [evaluate_of_scan hallowed hscan (List.cons_ne_nil _ _), List.map_cons, List.map_singleton,
    Lexeme.token_numeral]
  exact evaluate_operator_number .sub n.value

theorem evaluate_of_not_isAllowed {s : String} (h : ∃ c ∈ s.toList, isAllowed c = false) :
    evaluate s = .error (.badCharacter s) := by
  obtain ⟨c, hc, hfalse⟩ := h
  apply evaluate_of_not_allowed
  intro hall
  have htrue := List.all_eq_true.1 hall.2 c hc
  rw [hfalse] at htrue
  exact Bool.false_ne_true htrue

/-- The display of a number, typed as an expression, is evaluated to that number without a step, zero
without its sign, or it is refused; and each of the three happens in a range of its own. -/
theorem evaluate_display (x : Binary64) :
    (∀ e, evaluate x.display = .ok e ↔ x.InPlainRange ∧ e = ⟨if x.isZero then 0 else x, []⟩) ∧
      ((∃ err, evaluate x.display = .error err ∧ err.kind = "MalformedExpression") ↔
        x.InNegativeRange) ∧
      ((∃ err, evaluate x.display = .error err ∧ err.kind = "InvalidExpression") ↔
        ¬x.InPlainRange ∧ ¬x.InNegativeRange) := by
  have hplain : x.InPlainRange → evaluate x.display = .ok ⟨if x.isZero then 0 else x, []⟩ := by
    intro hx
    obtain ⟨n, hdisplay⟩ := Binary64.display_of_inPlainRange hx
    have hvalue : n.value = if x.isZero then 0 else x := by
      rw [← Operand.parse_numeral n, ← hdisplay, Operand.parse_display_eq]
    rw [hdisplay, evaluate_numeral, hvalue]
  have hnegative : x.InNegativeRange → evaluate x.display = .error (.missingOperands .sub) := by
    intro hx
    obtain ⟨n, hdisplay⟩ := Binary64.display_of_inNegativeRange hx
    rw [hdisplay, evaluate_minus_numeral]
  have hother : ¬x.InPlainRange → ¬x.InNegativeRange →
      evaluate x.display = .error (.badCharacter x.display) := fun hx hx' =>
    evaluate_of_not_isAllowed (Binary64.display_of_not_inRange hx hx')
  have hkinds : (CalculationError.missingOperands .sub).kind = "MalformedExpression" ∧
      (CalculationError.badCharacter x.display).kind = "InvalidExpression" := ⟨rfl, rfl⟩
  generalize (⟨if x.isZero then 0 else x, []⟩ : Evaluation) = typed at hplain ⊢
  by_cases hx : x.InPlainRange
  · have hx' : ¬x.InNegativeRange := by
      intro hx'
      have hboth := (hplain hx).symm.trans (hnegative hx')
      cases hboth
    simp [hplain hx, hx, hx', eq_comm]
  · by_cases hx' : x.InNegativeRange
    · simp [hnegative hx', hx, hx', hkinds.1]
    · simp [hother hx hx', hx, hx', hkinds.2]

end Expression

end Reckoner

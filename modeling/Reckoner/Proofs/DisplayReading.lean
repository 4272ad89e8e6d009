import Reckoner.Function.Operand
import Reckoner.Proofs.InfixText
import Reckoner.Proofs.ShortestDecimal
import Reckoner.Proofs.TrimmedText

/-! Display texts read back. Every form in which a decimal is written, with zeros about the point or with a
power of ten, is read as the same value (`writes_text`); the decimal of a double is nearest to it; and
a reader is not misled by the sign or by a word in the place of digits. So an operand that is typed as it was
displayed is the number displayed, but for the sign of zero (`parse_display`). -/

namespace Reckoner

open Text (isDigit digitsValue)
open Lexeme (Apart apart_nil)

namespace Text

theorem digitsValue_cons (c : Char) (cs : List Char) :
    digitsValue (c :: cs) = (digitValue? c).getD 0 * 10 ^ cs.length + digitsValue cs := by
  -- what the digits before have come to is the start of the fold, so it is general
  have hfold : ∀ (cs : List Char) (n : Nat),
      cs.foldl (fun n c => 10 * n + (digitValue? c).getD 0) n = n * 10 ^ cs.length + digitsValue cs := by
    intro cs
    induction cs with
    | nil => intro n; simp [digitsValue]
    | cons c cs ih =>
        intro n
        have hvalue : digitsValue (c :: cs) =
            cs.foldl (fun n c => 10 * n + (digitValue? c).getD 0) (10 * 0 + (digitValue? c).getD 0) := rfl
        rw [hvalue, List.foldl_cons, ih, ih, List.length_cons, Nat.pow_succ]
        grind
  have hvalue : digitsValue (c :: cs) =
      cs.foldl (fun n c => 10 * n + (digitValue? c).getD 0) (10 * 0 + (digitValue? c).getD 0) := rfl
  rw [hvalue, hfold, Nat.mul_zero, Nat.zero_add]

theorem digitsValue_append (xs ys : List Char) :
    digitsValue (xs ++ ys) = digitsValue xs * 10 ^ ys.length + digitsValue ys := by
  induction xs with
  | nil => simp [digitsValue]
  | cons c xs ih =>
      rw [List.cons_append, digitsValue_cons, digitsValue_cons, ih, List.length_append, Nat.pow_add,
        Nat.add_mul, Nat.mul_assoc, Nat.add_assoc]

theorem digitsValue_zeros (n : Nat) : digitsValue (List.replicate n '0') = 0 := by
  induction n with
  | zero => rfl
  | succ n ih =>
      have hzero : digitValue? '0' = some 0 := digitValue?_of_isDigit rfl
      rw [List.replicate_succ, digitsValue_cons, hzero, ih, Option.getD_some, Nat.zero_mul]

theorem isDigit_zero : isDigit '0' = true :=
  isDigit_of_isDigit rfl

theorem isDigit_zeros {n : Nat} {c : Char} (h : c ∈ List.replicate n '0') : isDigit c = true := by
  rw [List.eq_of_mem_replicate h]
  exact isDigit_zero

theorem isDigit_digitText {n : Nat} {c : Char} (h : c ∈ Decimal.digitText n) : isDigit c = true :=
  isDigit_of_isDigit (Decimal.isDigit_of_mem_digitText h)

theorem digitsValue_digitText (n : Nat) : digitsValue (Decimal.digitText n) = n := by
  have hdigits : ∀ c ∈ Decimal.digitText n, c.isDigit = true := fun _ =>
    Decimal.isDigit_of_mem_digitText
  rw [digitsValue_eq_ofDigitChars hdigits]
  exact Nat.ofDigitChars_toDigits (by decide) (by decide)

theorem digitText_ne_nil (n : Nat) : Decimal.digitText n ≠ [] :=
  (Digits.ofNat n).ne_nil

theorem not_isBlank_of_isShown {c : Char} (h : Decimal.IsShown c) : isBlank c = false := by
  rcases h with hdigit | hother
  · have hbounds : 0x30 ≤ c.toNat ∧ c.toNat ≤ 0x39 := Char.isDigit_iff_toNat.1 hdigit
    have hcodes : ∀ n ∈ blankCodes, n < 0x30 ∨ 0x39 < n := by decide
    rw [isBlank, ← Bool.not_eq_true, List.contains_iff_mem]
    intro hmem
    have := hcodes _ hmem
    omega
  · have hall : "+-.eINafinty".toList.all (fun c => !isBlank c) = true := by decide
    simpa using List.all_eq_true.1 hall c hother

theorem trim_eq_self {cs : List Char} (h : ∀ c ∈ cs, isBlank c = false) : trim cs = cs :=
  trim_of_isTrimmed ⟨fun c hc => h c (List.mem_of_mem_head? hc),
    fun c hc => h c (List.mem_of_mem_getLast? hc)⟩

end Text

namespace Operand

open Decimal (digitText exponentText scientificText positionalText)

variable {whole fraction rest digits cs : List Char} {d : Decimal} {e : Int}

theorem takeWhile_digits (hdigits : ∀ c ∈ digits, isDigit c = true)
    (hrest : ∀ c ∈ rest.head?, isDigit c = false) : (digits ++ rest).takeWhile isDigit = digits := by
  rw [List.takeWhile_append_of_pos hdigits]
  cases rest with
  | nil => exact List.append_nil digits
  | cons c rest =>
      rw [List.takeWhile_cons_of_neg (by simp [hrest c rfl]), List.append_nil]

theorem dropWhile_digits (hdigits : ∀ c ∈ digits, isDigit c = true)
    (hrest : ∀ c ∈ rest.head?, isDigit c = false) : (digits ++ rest).dropWhile isDigit = rest := by
  rw [List.dropWhile_append_of_pos hdigits]
  cases rest with
  | nil => rfl
  | cons c rest => exact List.dropWhile_cons_of_neg (by simp [hrest c rfl])

theorem splitDigits_whole (hwhole : ∀ c ∈ whole, isDigit c = true) (hrest : Apart rest) :
    splitDigits (whole ++ rest) = (whole, [], rest) := by
  have hstop : ∀ c ∈ rest.head?, isDigit c = false := fun c hc => (hrest c hc).1
  unfold splitDigits
  rw [takeWhile_digits hwhole hstop, dropWhile_digits hwhole hstop]
  split
  · exact absurd rfl (hrest '.' rfl).2
  · rfl

theorem splitDigits_point (hwhole : ∀ c ∈ whole, isDigit c = true)
    (hfraction : ∀ c ∈ fraction, isDigit c = true) (hrest : Apart rest) :
    splitDigits (whole ++ '.' :: (fraction ++ rest)) = (whole, fraction, rest) := by
  have hstop : ∀ c ∈ rest.head?, isDigit c = false := fun c hc => (hrest c hc).1
  have hpoint : ∀ c ∈ ('.' :: (fraction ++ rest)).head?, isDigit c = false := by
    intro c hc
    cases hc
    exact Text.isDigit_point
  unfold splitDigits
  rw [takeWhile_digits hwhole hpoint, dropWhile_digits hwhole hpoint]
  simp only [takeWhile_digits hfraction hstop, dropWhile_digits hfraction hstop]

/-- A text that begins with a digit and is read as a decimal. -/
structure Writes (cs : List Char) (d : Decimal) : Prop where
  head : ∃ c ∈ cs.head?, isDigit c = true
  read : decimal? cs = some d

theorem exists_head_append (hne : whole ≠ []) (hwhole : ∀ c ∈ whole, isDigit c = true)
    (rest : List Char) : ∃ c ∈ (whole ++ rest).head?, isDigit c = true := by
  obtain ⟨c, whole, rfl⟩ := List.exists_cons_of_ne_nil hne
  exact ⟨c, rfl, hwhole c List.mem_cons_self⟩

theorem writes_whole (hne : whole ≠ []) (hwhole : ∀ c ∈ whole, isDigit c = true) (hrest : Apart rest)
    (he : exponent? rest = some e) : Writes (whole ++ rest) ⟨digitsValue whole, e⟩ := by
  refine ⟨exists_head_append hne hwhole rest, ?_⟩
  simp [decimal?, splitDigits_whole hwhole hrest, he, hne]

theorem writes_point (hne : whole ≠ []) (hwhole : ∀ c ∈ whole, isDigit c = true)
    (hfraction : ∀ c ∈ fraction, isDigit c = true) (hrest : Apart rest) (he : exponent? rest = some e) :
    Writes (whole ++ '.' :: (fraction ++ rest))
      ⟨digitsValue (whole ++ fraction), e - fraction.length⟩ := by
  refine ⟨exists_head_append hne hwhole _, ?_⟩
  simp [decimal?, splitDigits_point hwhole hfraction hrest, he, hne]

theorem apart_exponent (cs : List Char) : Apart ('e' :: cs) := by
  intro c hc
  cases hc
  decide

theorem exponent?_signed (hne : digits ≠ []) (hdigits : ∀ c ∈ digits, isDigit c = true)
    (negative : Bool) :
    exponent? ('e' :: (if negative then '-' else '+') :: digits) =
      some (if negative then -(digitsValue digits : Int) else digitsValue digits) := by
  have hall : digits.all isDigit = true := List.all_eq_true.2 hdigits
  cases negative <;> simp [exponent?, splitSign, hne, hall]

theorem exponent?_exponentText (e : Int) : exponent? ('e' :: exponentText e) = some e := by
  have hpadded : ∃ padded, exponentText e = (if e < 0 then '-' else '+') :: padded ∧ padded ≠ [] ∧
      (∀ c ∈ padded, isDigit c = true) ∧ digitsValue padded = e.natAbs := by
    refine ⟨_, rfl, ?_⟩
    split
    · refine ⟨List.cons_ne_nil _ _, ?_, ?_⟩
      · intro c hc
        rcases List.mem_cons.1 hc with rfl | hc
        · exact Text.isDigit_zero
        · exact Text.isDigit_digitText hc
      · rw [← List.singleton_append, Text.digitsValue_append, Text.digitsValue_digitText,
          show digitsValue ['0'] = 0 from Text.digitsValue_zeros 1, Nat.zero_mul, Nat.zero_add]
    · exact ⟨Text.digitText_ne_nil _, fun c hc => Text.isDigit_digitText hc,
        Text.digitsValue_digitText _⟩
  obtain ⟨padded, htext, hne, hdigits, hvalue⟩ := hpadded
  rw [htext]
  by_cases hsign : e < 0
  · have hback : -(digitsValue padded : Int) = e := by omega
    rw [if_pos hsign, ← hback]
    exact exponent?_signed hne hdigits true
  · have hback : (digitsValue padded : Int) = e := by omega
    rw [if_neg hsign, ← hback]
    exact exponent?_signed hne hdigits false

theorem writes_scientificText (hne : digits ≠ []) (hdigits : ∀ c ∈ digits, isDigit c = true)
    (place : Int) :
    Writes (scientificText digits place) ⟨digitsValue digits, place + 1 - digits.length⟩ := by
  have hrest := apart_exponent (exponentText place)
  have he := exponent?_exponentText place
  obtain ⟨first, more, rfl⟩ := List.exists_cons_of_ne_nil hne
  have hfirst : ∀ c ∈ [first], isDigit c = true := fun c hc =>
    hdigits c (List.mem_cons.2 (.inl (List.mem_singleton.1 hc)))
  cases more with
  | nil =>
      have hplace : place + 1 - ([first].length : Int) = place := by simp
      rw [hplace]
      exact writes_whole hne hfirst hrest he
  | cons second more =>
      have hmore : ∀ c ∈ second :: more, isDigit c = true := fun c hc =>
        hdigits c (List.mem_cons_of_mem _ hc)
      have hplace : place + 1 - ((first :: second :: more).length : Int) =
          place - ((second :: more).length : Int) := by
        simp only [List.length_cons]
        omega
      rw [hplace]
      exact writes_point (List.cons_ne_nil first []) hfirst hmore hrest he

/-- When every digit stands before the point, zeros fill the places up to it, and one follows it. -/
theorem writes_positionalText_of_le (hne : digits ≠ []) (hdigits : ∀ c ∈ digits, isDigit c = true)
    {place : Nat} (hlength : digits.length ≤ place + 1) :
    ∃ k : Nat, Writes (positionalText digits place)
      ⟨digitsValue digits * 10 ^ k, place + 1 - digits.length - k⟩ := by
  obtain ⟨pad, hpad⟩ := Nat.exists_eq_add_of_le hlength
  have hwhole : ∀ c ∈ digits ++ List.replicate pad '0', isDigit c = true := fun c hc =>
    (List.mem_append.1 hc).elim (hdigits c) Text.isDigit_zeros
  have htext : positionalText digits place =
      (digits ++ List.replicate pad '0') ++ '.' :: (['0'] ++ []) := by
    have hsub : place + 1 - digits.length = pad := by omega
    have hall : (digits ++ List.replicate pad '0').length = place + 1 := by simp [hpad]
    simp only [positionalText, hsub, List.take_of_length_le (Nat.le_of_eq hall),
      List.drop_of_length_le (Nat.le_of_eq hall)]
    rfl
  have hvalue : digitsValue ((digits ++ List.replicate pad '0') ++ ['0']) =
      digitsValue digits * 10 ^ (pad + 1) := by
    rw [List.append_assoc, ← List.replicate_succ', Text.digitsValue_append, Text.digitsValue_zeros,
      List.length_replicate, Nat.add_zero]
  have hplace : (place : Int) + 1 - digits.length - ((pad + 1 : Nat) : Int) =
      0 - (['0'].length : Int) := by
    simp only [List.length_cons, List.length_nil]
    omega
  refine ⟨pad + 1, ?_⟩
  rw [htext, ← hvalue, hplace]
  exact writes_point (List.append_ne_nil_of_left_ne_nil hne _) hwhole
    (fun _ => Text.isDigit_zeros (n := 1)) apart_nil rfl

/-- When digits are left after the point, no zero is added. -/
theorem writes_positionalText_of_lt (hdigits : ∀ c ∈ digits, isDigit c = true) {place : Nat}
    (hlength : place + 1 < digits.length) :
    Writes (positionalText digits place) ⟨digitsValue digits, place + 1 - digits.length⟩ := by
  have hsub : place + 1 - digits.length = 0 := by omega
  have hfraction : (digits.drop (place + 1)).isEmpty = false := by
    rw [List.isEmpty_eq_false_iff, ← List.length_pos_iff, List.length_drop]
    omega
  have htext : positionalText digits place =
      digits.take (place + 1) ++ '.' :: (digits.drop (place + 1) ++ []) := by
    simp [positionalText, hsub, hfraction]
  have hwhole : digits.take (place + 1) ≠ [] := by
    rw [← List.length_pos_iff, List.length_take]
    omega
  have hplace : (place : Int) + 1 - digits.length = 0 - ((digits.drop (place + 1)).length : Int) := by
    rw [List.length_drop]
    omega
  have hafter : ∀ c ∈ digits.drop (place + 1), isDigit c = true := fun c hc =>
    hdigits c (List.mem_of_mem_drop hc)
  have hwrites := writes_point hwhole (fun c hc => hdigits c (List.mem_of_mem_take hc)) hafter apart_nil rfl
  rw [List.take_append_drop] at hwrites
  rw [htext, hplace]
  exact hwrites

/-- Zeros between the point and the first digit move the digits down. -/
theorem writes_leadingZeros (hdigits : ∀ c ∈ digits, isDigit c = true) (p : Nat) :
    Writes ('0' :: '.' :: List.replicate p '0' ++ digits)
      ⟨digitsValue digits, -((p + digits.length : Nat) : Int)⟩ := by
  have hfirst : ∀ c ∈ ['0'], isDigit c = true := List.forall_mem_singleton.2 Text.isDigit_zero
  have hafter : ∀ c ∈ List.replicate p '0' ++ digits, isDigit c = true := fun c hc =>
    (List.mem_append.1 hc).elim Text.isDigit_zeros (hdigits c)
  have hvalue : digitsValue (['0'] ++ (List.replicate p '0' ++ digits)) = digitsValue digits := by
    rw [← List.append_assoc, List.singleton_append, ← List.replicate_succ, Text.digitsValue_append,
      Text.digitsValue_zeros, Nat.zero_mul, Nat.zero_add]
  have hplace : (0 : Int) - ((List.replicate p '0' ++ digits).length : Int) =
      -((p + digits.length : Nat) : Int) := by
    rw [List.length_append, List.length_replicate, Int.zero_sub]
  have hwrites := writes_point (List.cons_ne_nil '0' []) hfirst hafter apart_nil rfl
  rw [hvalue, hplace, List.append_nil] at hwrites
  exact hwrites

/-- The text of a decimal writes its value, with zeros that the text may add behind the point. -/
theorem writes_text (d : Decimal) : ∃ k : Nat, Writes d.text ⟨d.digits * 10 ^ k, d.exponent - k⟩ := by
  obtain ⟨n, e⟩ := d
  have hne := Text.digitText_ne_nil n
  have hdigits : ∀ c ∈ digitText n, isDigit c = true := fun c hc => Text.isDigit_digitText hc
  have hvalue := Text.digitsValue_digitText n
  have hexact : ∀ {cs : List Char} {e' : Int}, Writes cs ⟨digitsValue (digitText n), e'⟩ → e' = e →
      ∃ k : Nat, Writes cs ⟨n * 10 ^ k, e - k⟩ := by
    intro cs e' hwrites he
    rw [hvalue, he] at hwrites
    exact ⟨0, by simpa using hwrites⟩
  have hscientific : ∀ place : Int, place = e + (digitText n).length - 1 →
      ∃ k : Nat, Writes (scientificText (digitText n) place) ⟨n * 10 ^ k, e - k⟩ := by
    intro place hplace
    exact hexact (writes_scientificText hne hdigits place) (by omega)
  simp only [Decimal.text]
  split
  · next place hplace =>
      have he : (place : Int) + 1 - (digitText n).length = e := by
        rw [Int.ofNat_eq_natCast] at hplace
        omega
      split
      · rcases Nat.lt_or_ge (place + 1) (digitText n).length with hlength | hlength
        · exact hexact (writes_positionalText_of_lt hdigits hlength) he
        · obtain ⟨k, hwrites⟩ := writes_positionalText_of_le hne hdigits hlength
          rw [hvalue, he] at hwrites
          exact ⟨k, hwrites⟩
      · exact hscientific _ rfl
  · next p hp =>
      split
      · exact hexact (writes_leadingZeros hdigits p) (by omega)
      · exact hscientific _ rfl

/-- A sign before the text of a decimal is the sign of the number read. -/
theorem Writes.ofTrimmed_signed (h : Writes cs d) (negative : Bool) :
    ofTrimmed (Binary64.signed negative cs) = d.toBinary64 negative := by
  obtain ⟨c, hc, hdigit⟩ := h.head
  obtain ⟨rest, rfl⟩ : ∃ rest, cs = c :: rest := by
    cases cs with
    | nil => cases hc
    | cons a rest =>
        cases hc
        exact ⟨rest, rfl⟩
  have hplus : c ≠ '+' := by
    rintro rfl
    exact absurd hdigit (by decide)
  have hminus : c ≠ '-' := by
    rintro rfl
    exact absurd hdigit (by decide)
  have hword : c :: rest ≠ "Infinity".toList := by
    intro hword
    rw [show c = 'I' from (List.cons.inj hword).1] at hdigit
    exact absurd hdigit (by decide)
  have hsplit : splitSign (Binary64.signed negative (c :: rest)) = (negative, c :: rest) := by
    cases negative with
    | true => rfl
    | false =>
        unfold splitSign
        split
        · next heq => exact absurd (List.cons.inj heq).1 hplus
        · next heq => exact absurd (List.cons.inj heq).1 hminus
        · rfl
  unfold ofTrimmed
  rw [hsplit]
  simp only [if_neg hword, h.read]

/-- A text of shown characters is read whole: there is nothing blank to trim. -/
theorem parse_ofList (h : ∀ c ∈ cs, Decimal.IsShown c) (hne : cs ≠ []) :
    parse (String.ofList cs) = ofTrimmed cs := by
  have htrim : Text.trim (String.ofList cs).toList = cs := by
    rw [String.toList_ofList]
    exact Text.trim_eq_self fun c hc => Text.not_isBlank_of_isShown (h c hc)
  obtain ⟨c, rest, rfl⟩ := List.exists_cons_of_ne_nil hne
  simp only [parse, htrim]

theorem parse_signed (hcs : ∀ c ∈ cs, Decimal.IsShown c) (h : Writes cs d) (negative : Bool) :
    parse (String.ofList (Binary64.signed negative cs)) = d.toBinary64 negative := by
  have hne : Binary64.signed negative cs ≠ [] := by
    obtain ⟨c, hc, -⟩ := h.head
    cases negative with
    | true => exact List.cons_ne_nil _ _
    | false =>
        rintro rfl
        cases hc
  rw [parse_ofList (fun _ => Binary64.isShown_signed hcs) hne, h.ofTrimmed_signed]

/-- The digits of a number, with any sign, are read as that number. -/
theorem parse_digitText (n : Nat) (negative : Bool) :
    parse (String.ofList (Binary64.signed negative (digitText n))) =
      Decimal.toBinary64 ⟨n, 0⟩ negative := by
  have hdigits : ∀ c ∈ digitText n, isDigit c = true := fun _ => Text.isDigit_digitText
  have hwrites := writes_whole (Text.digitText_ne_nil n) hdigits apart_nil rfl
  rw [List.append_nil, Text.digitsValue_digitText] at hwrites
  exact parse_signed (fun _ => Decimal.isShown_digitText) hwrites negative

/-- The text of a decimal, with any sign, is read as the double nearest to it. -/
theorem parse_text (d : Decimal) (negative : Bool) :
    parse (String.ofList (Binary64.signed negative d.text)) = d.toBinary64 negative := by
  obtain ⟨k, hwrites⟩ := writes_text d
  have hpadded : Decimal.nearestUnits ⟨d.digits * 10 ^ k, d.exponent - k⟩ = d.nearestUnits :=
    Decimal.nearestUnits_scale d.digits k d.exponent
  rw [parse_signed (fun _ => Decimal.isShown_text) hwrites, Decimal.toBinary64_eq_ofUnits, hpadded,
    Decimal.toBinary64_eq_ofUnits]

/-- A whole number of ones is the decimal of its whole part. -/
theorem nearestUnits_wholePart {units : Nat} (h : Binary64.Representable units)
    (hwhole : Binary64.isWhole units = true) :
    Decimal.nearestUnits ⟨Binary64.wholePart units, 0⟩ = units := by
  have hunits : Binary64.wholePart units * Binary64.unitsPerOne = units :=
    Nat.div_mul_cancel (Nat.dvd_of_mod_eq_zero (eq_of_beq hwhole))
  have hexact := Binary64.nearestUnits_of_representable h Nat.one_pos
  rw [Decimal.nearestUnits_eq]
  simpa [hunits] using hexact

theorem parse_display_finite {units : Nat} (h : Binary64.Representable units) (hunits : units ≠ 0)
    (negative : Bool) :
    parse (Binary64.finite negative units h).display = .finite negative units h := by
  rw [Binary64.display, if_neg hunits]
  split_ifs with hwhole
  · have hones : Binary64.isWhole units = true := (Bool.and_eq_true_iff.1 hwhole).1
    rw [parse_digitText, Decimal.toBinary64_eq_ofUnits, nearestUnits_wholePart h hones,
      Binary64.ofUnits_of_representable negative h]
  · rw [parse_text, Decimal.toBinary64_eq_ofUnits, Decimal.nearestUnits_shortest h,
      Binary64.ofUnits_of_representable negative h]

theorem display_of_isZero {x : Binary64} (h : x.isZero = true) : x.display = "0" := by
  cases x with
  | nan => exact absurd h Bool.false_ne_true
  | infinity negative => exact absurd h Bool.false_ne_true
  | finite negative units hunits =>
      cases units with
      | zero => rw [Binary64.display, if_pos rfl]
      | succ units => exact absurd h Bool.false_ne_true

theorem parse_display_eq (x : Binary64) : parse x.display = if x.isZero then 0 else x := by
  cases x with
  | nan => decide
  | infinity negative => cases negative <;> decide
  | finite negative units h =>
      cases units with
      | zero =>
          have hzero : parse "0" = 0 := by decide +kernel
          exact hzero
      | succ units => exact parse_display_finite h (Nat.succ_ne_zero units) negative

/-- The display of a double, typed as an operand, is that double, but that zero loses its sign. So two
doubles have one display when they are the same double or both zero, and at no other time. -/
theorem parse_display (x : Binary64) :
    parse x.display = (if x.isZero then 0 else x) ∧
      ∀ y : Binary64, y.display = x.display ↔ y = x ∨ y.isZero ∧ x.isZero := by
  refine ⟨parse_display_eq x, fun y => ⟨fun hdisplay => ?_, ?_⟩⟩
  · have hsame : (if y.isZero then 0 else y) = if x.isZero then 0 else x := by
      rw [← parse_display_eq y, ← parse_display_eq x, hdisplay]
    have hzero : (0 : Binary64).isZero = true := by decide +kernel
    split_ifs at hsame with hyzero hxzero hxzero
    · exact .inr ⟨hyzero, hxzero⟩
    · exact absurd (hsame ▸ hzero) hxzero
    · exact absurd (hsame ▸ hzero) hyzero
    · exact .inl hsame
  · rintro (rfl | ⟨hyzero, hxzero⟩)
    · rfl
    · rw [display_of_isZero hyzero, display_of_isZero hxzero]

end Operand

end Reckoner

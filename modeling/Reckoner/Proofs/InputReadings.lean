import Reckoner.Proofs.DisplayEvaluation
import Reckoner.Proofs.LexemeSegments
import Reckoner.Session.Basic

/-! One input, read in two ways. The key for the result takes the input as an expression, a function key
takes it as an operand, and blanks, points and powers of ten are treated by rules of their own in either. An
input that both accept has neither a sign nor a power of ten: it is digits, with a point before, among or
behind them, and blanks around (`decimal_cases`). Both read the same number from it, except where the point
stands in front: the operand counts the digits behind it as places, the expression passes over it
(`readings_of_input`). -/

namespace Reckoner

open Text (isDigit digitsValue isBlank)
open Lexeme (IsRun Stops Divided scan)

namespace Lexeme

variable {digits rest cs : List Char} {segments : List Segment}

theorem fraction?_of_stops (h : ∀ after, rest = '.' :: after → Stops after) : fraction? rest = none := by
  unfold fraction?
  split
  · next after =>
      have hnone : ([] ++ after).takeWhile isDigit = [] := Operand.takeWhile_digits (by simp) (h after rfl)
      rw [List.nil_append] at hnone
      rw [hnone]
      rfl
  · rfl

/-- A text is scanned as it is divided, so it is divided in one way only. -/
theorem scan_of_divided (h : Divided cs segments) : scan cs = segments.filterMap Segment.lexeme? := by
  have hdigits : ∀ {digits rest : List Char}, IsRun digits →
      scan (digits ++ rest) = leadingNumber (digits ++ rest) :: scan (afterNumber (digits ++ rest)) := by
    intro digits rest hrun
    obtain ⟨c, more, rfl⟩ := List.exists_cons_of_ne_nil hrun.ne_nil
    exact scan_digit (hrun.isDigit_of_mem c List.mem_cons_self) (more ++ rest)
  induction h with
  | nil =>
      rw [scan]
      rfl
  | @whole digits rest segments hrun hstops hpoint _ ih =>
      have htake := Operand.takeWhile_digits hrun.isDigit_of_mem hstops
      have hdrop := Operand.dropWhile_digits hrun.isDigit_of_mem hstops
      have hfraction := fraction?_of_stops hpoint
      rw [hdigits hrun]
      simp only [leadingNumber, afterNumber, htake, hdrop, hfraction, ih]
      rfl
  | @fraction digits places rest segments hrun hplaces hstops _ ih =>
      have hpoint : Stops ('.' :: (places ++ rest)) := by
        rintro c ⟨⟩
        exact Text.isDigit_point
      have htake := Operand.takeWhile_digits hrun.isDigit_of_mem hpoint
      have hdrop := Operand.dropWhile_digits hrun.isDigit_of_mem hpoint
      have hbehind := Operand.takeWhile_digits hplaces.isDigit_of_mem hstops
      have hafter := Operand.dropWhile_digits hplaces.isDigit_of_mem hstops
      have hfraction : fraction? ('.' :: (places ++ rest)) = some places := by
        rw [fraction?, hbehind, if_neg (by rw [List.isEmpty_iff]; exact hplaces.ne_nil)]
      rw [hdigits hrun]
      simp only [leadingNumber, afterNumber, htake, hdrop, hfraction, List.drop_one, List.tail_cons, hafter, ih]
      rfl
  | @symbol c l cs segments hdigit hsymbol _ ih =>
      rw [scan_symbol hsymbol, ih]
      rfl
  | @skipped c cs segments hdigit hsymbol _ ih =>
      rw [scan_skipped hdigit hsymbol, ih]
      rfl

theorem stops_nil : Stops [] := by
  rintro c ⟨⟩

theorem tokens_digits (h : IsRun digits) :
    (scan digits).map token = [.number (Decimal.toBinary64 ⟨digitsValue digits, 0⟩ false)] := by
  have hdivided := Divided.whole h stops_nil (fun after hafter => by cases hafter) .nil
  rw [List.append_nil] at hdivided
  rw [scan_of_divided hdivided]
  simp [Segment.lexeme?, token]

theorem tokens_point {places : List Char} (h : IsRun digits) (hplaces : ∀ c ∈ places, isDigit c = true) :
    (scan (digits ++ '.' :: places)).map token =
      [.number (Decimal.toBinary64 ⟨digitsValue (digits ++ places), -places.length⟩ false)] := by
  by_cases hnil : places = []
  · subst hnil
    have hpoint : Stops ['.'] := by
      rintro c ⟨⟩
      exact Text.isDigit_point
    have hdivided := Divided.whole h hpoint (fun after hafter => by cases hafter; exact stops_nil)
      (.skipped Text.isDigit_point rfl .nil)
    rw [scan_of_divided hdivided]
    simp [Segment.lexeme?, token]
  · have hdivided := Divided.fraction h ⟨hnil, hplaces⟩ stops_nil .nil
    rw [List.append_nil] at hdivided
    rw [scan_of_divided hdivided]
    simp [Segment.lexeme?, token]

theorem scan_point (cs : List Char) : scan ('.' :: cs) = scan cs :=
  scan_skipped Text.isDigit_point rfl cs

theorem scan_spaces_append (h : ∀ c ∈ cs, c = ' ') (rest : List Char) : scan (cs ++ rest) = scan rest := by
  induction cs with
  | nil => rfl
  | cons c cs ih =>
      obtain ⟨rfl, hcs⟩ := List.forall_mem_cons.1 h
      rw [List.cons_append, scan_space, ih hcs]

theorem scan_append_spaces (h : ∀ c ∈ rest, c = ' ') (cs : List Char) : scan (cs ++ rest) = scan cs := by
  have hapart : Apart rest := by
    intro c hc
    rw [h c (List.mem_of_mem_head? hc)]
    exact apart_space [] ' ' rfl
  have hnone : scan rest = [] := by
    rw [← List.append_nil rest, scan_spaces_append h, scan]
  rw [scan_append hapart, hnone, List.append_nil]

/-- Of the blanks an expression holds spaces alone. -/
theorem eq_space_of_isAllowed {c : Char} (hallowed : Expression.isAllowed c = true)
    (hblank : isBlank c = true) : c = ' ' := by
  rcases Bool.or_eq_true_iff.1 hallowed with hdigit | hsymbol
  · rw [Text.not_isBlank_of_isShown (.inl hdigit)] at hblank
    cases hblank
  · have hall : Expression.allowedSymbols.all (fun c => !isBlank c || c == ' ') = true := by decide
    have hc := List.all_eq_true.1 hall c (List.contains_iff_mem.1 hsymbol)
    rw [hblank, Bool.not_true, Bool.false_or] at hc
    exact eq_of_beq hc

theorem not_isBlank_of_isAllowed {c : Char} (hallowed : Expression.isAllowed c = true)
    (hdigit : isDigit c = true) : isBlank c = false := by
  by_contra hblank
  rw [eq_space_of_isAllowed hallowed (Bool.not_eq_false _ ▸ hblank), (apart_space [] ' ' rfl).1] at hdigit
  cases hdigit

theorem scan_trim (h : ∀ c ∈ cs, Expression.isAllowed c = true) : scan (Text.trim cs) = scan cs := by
  obtain ⟨before, after, hsplit, hbefore, hafter⟩ := Text.exists_blanks_around cs
  have hspaces : ∀ blanks : List Char, (∀ c ∈ blanks, c ∈ cs) → (∀ c ∈ blanks, isBlank c = true) →
      ∀ c ∈ blanks, c = ' ' := fun blanks hmem hblanks c hc =>
    eq_space_of_isAllowed (h c (hmem c hc)) (hblanks c hc)
  have hfront := hspaces before (fun c hc => by rw [hsplit]; simp [hc]) hbefore
  have hback := hspaces after (fun c hc => by rw [hsplit]; simp [hc]) hafter
  conv_rhs => rw [hsplit]
  rw [scan_spaces_append hfront, scan_append_spaces hback]

end Lexeme

namespace Operand

variable {cs : List Char} {d : Decimal}

theorem splitDigits_cases (cs : List Char) :
    ∃ whole fraction rest, splitDigits cs = (whole, fraction, rest) ∧ (∀ c ∈ whole, isDigit c = true) ∧
      (∀ c ∈ fraction, isDigit c = true) ∧
      (cs = whole ++ '.' :: (fraction ++ rest) ∨ cs = whole ++ rest ∧ fraction = []) := by
  have hsplit : cs.takeWhile isDigit ++ cs.dropWhile isDigit = cs := List.takeWhile_append_dropWhile
  unfold splitDigits
  split
  · next rest hrest =>
      refine ⟨_, _, _, rfl, fun c hc => List.mem_takeWhile_imp hc, fun c hc => List.mem_takeWhile_imp hc,
        .inl ?_⟩
      rw [List.takeWhile_append_dropWhile, ← hrest, hsplit]
  · exact ⟨_, _, _, rfl, fun c hc => List.mem_takeWhile_imp hc, fun c hc => absurd hc List.not_mem_nil,
      .inr ⟨hsplit.symm, rfl⟩⟩

/-- A power of ten begins with a letter, and no expression holds one. -/
theorem exponent?_of_isAllowed {rest : List Char} {e : Int} (h : exponent? rest = some e)
    (hallowed : ∀ c ∈ rest, Expression.isAllowed c = true) : rest = [] ∧ e = 0 := by
  cases rest with
  | nil => exact ⟨rfl, (Option.some.inj h).symm⟩
  | cons c rest =>
      have hc := hallowed c List.mem_cons_self
      have hletter : ¬(c = 'e' || c = 'E') = true := by
        intro hletter
        rcases Bool.or_eq_true_iff.1 hletter with he | he <;>
          rw [of_decide_eq_true he] at hc <;> cases hc
      rw [exponent?, if_neg hletter] at h
      cases h

/-- What an operand without a power of ten looks like: it begins with a digit, and then an expression
of it is the same number, or it is digits behind a point. -/
theorem decimal_cases (h : decimal? cs = some d) (hallowed : ∀ c ∈ cs, Expression.isAllowed c = true) :
    (Writes cs d ∧ (scan cs).map Lexeme.token = [.number (d.toBinary64 false)]) ∨
      ∃ digits, cs = '.' :: digits ∧ IsRun digits ∧ d = ⟨digitsValue digits, -digits.length⟩ := by
  obtain ⟨whole, fraction, rest, hsplit, hwhole, hfraction, hcs⟩ := splitDigits_cases cs
  have hrest : ∀ c ∈ rest, Expression.isAllowed c = true := by
    intro c hc
    rcases hcs with rfl | ⟨rfl, -⟩ <;> exact hallowed c (by simp [hc])
  simp only [decimal?, hsplit] at h
  split_ifs at h with hempty
  obtain ⟨e, he, rfl⟩ := Option.map_eq_some_iff.1 h
  obtain ⟨rfl, rfl⟩ := exponent?_of_isAllowed he hrest
  by_cases hnil : whole = []
  · subst hnil
    have hne : fraction ≠ [] := fun hnil => hempty (by rw [hnil]; rfl)
    rcases hcs with rfl | ⟨-, hnone⟩
    · refine .inr ⟨fraction, ?_, ⟨hne, hfraction⟩, ?_⟩
      · rw [List.append_nil, List.nil_append]
      · rw [List.nil_append, Int.zero_sub]
    · exact absurd hnone hne
  · left
    have hrun : IsRun whole := ⟨hnil, hwhole⟩
    rcases hcs with rfl | ⟨rfl, rfl⟩
    · refine ⟨writes_point hnil hwhole hfraction Lexeme.apart_nil rfl, ?_⟩
      rw [List.append_nil, Int.zero_sub]
      exact Lexeme.tokens_point hrun hfraction
    · have hwrites := writes_whole hnil hwhole Lexeme.apart_nil rfl
      rw [List.append_nil] at hwrites
      rw [List.append_nil, List.length_nil, Int.natCast_zero, Int.sub_zero]
      exact ⟨hwrites, Lexeme.tokens_digits hrun⟩

end Operand

namespace Text

theorem digitsValue_lt (cs : List Char) : digitsValue cs < 10 ^ cs.length := by
  have hdigit : ∀ c, (digitValue? c).getD 0 ≤ 9 := by
    intro c
    cases hvalue : digitValue? c with
    | none => exact Nat.zero_le _
    | some n =>
        obtain ⟨first, hfirst, rfl⟩ := Option.map_eq_some_iff.1 hvalue
        have hbounds := List.find?_some hfirst
        simp only [Bool.and_eq_true, decide_eq_true_eq] at hbounds
        simp only [Option.getD_some]
        omega
  induction cs with
  | nil => exact Nat.one_pos
  | cons c cs ih =>
      rw [digitsValue_cons, List.length_cons]
      calc (digitValue? c).getD 0 * 10 ^ cs.length + digitsValue cs
          < 9 * 10 ^ cs.length + 10 ^ cs.length :=
            Nat.add_lt_add_of_le_of_lt (Nat.mul_le_mul_right _ (hdigit c)) ih
        _ = 10 ^ (cs.length + 1) := by rw [Nat.pow_succ]; omega

end Text

namespace Operand

variable {cs : List Char}

theorem parse_of_trim {s : String} (h : Text.trim s.toList = cs) (hne : cs ≠ []) :
    parse s = ofTrimmed cs := by
  obtain ⟨c, rest, rfl⟩ := List.exists_cons_of_ne_nil hne
  simp only [parse, h]

theorem parse_digits (h : IsRun cs) (hallowed : ∀ c ∈ cs, Expression.isAllowed c = true) :
    parse (String.ofList cs) = Decimal.toBinary64 ⟨digitsValue cs, 0⟩ false := by
  have htrim : Text.trim (String.ofList cs).toList = cs := by
    rw [String.toList_ofList]
    apply Text.trim_eq_self
    intro c hc
    exact Lexeme.not_isBlank_of_isAllowed (hallowed c hc) (h.isDigit_of_mem c hc)
  have hwrites := writes_whole h.ne_nil h.isDigit_of_mem Lexeme.apart_nil rfl
  rw [List.append_nil] at hwrites
  rw [parse_of_trim htrim h.ne_nil]
  exact hwrites.ofTrimmed_signed false

theorem splitSign_cases (cs : List Char) :
    (∃ op : Operator, cs = op.symbol :: (splitSign cs).2) ∨ splitSign cs = (false, cs) := by
  unfold splitSign
  split
  · exact .inl ⟨.add, rfl⟩
  · exact .inl ⟨.sub, rfl⟩
  · exact .inr rfl

/-- An operand in the characters of an expression is a decimal, with or without a sign. -/
theorem exists_decimal_of_isAllowed (h : ofTrimmed cs ≠ .nan)
    (hallowed : ∀ c ∈ cs, Expression.isAllowed c = true) :
    ∃ d : Decimal, (∃ (op : Operator) (rest : List Char), cs = op.symbol :: rest ∧ decimal? rest = some d) ∨
      decimal? cs = some d ∧ ofTrimmed cs = d.toBinary64 false := by
  have hmagnitude : ∀ c ∈ (splitSign cs).2, c ∈ cs := by
    intro c hc
    rcases splitSign_cases cs with ⟨op, hsign⟩ | hnone
    · rw [hsign]
      exact List.mem_cons_of_mem _ hc
    · rwa [hnone] at hc
  have hword : (splitSign cs).2 ≠ "Infinity".toList := by
    intro hword
    have hletter := hallowed 'I' (hmagnitude 'I' (by rw [hword]; decide))
    cases hletter
  rw [ofTrimmed] at h
  simp only [if_neg hword] at h
  cases hdecimal : decimal? (splitSign cs).2 with
  | none =>
      rw [hdecimal] at h
      exact absurd rfl h
  | some d =>
      refine ⟨d, ?_⟩
      rcases splitSign_cases cs with ⟨op, hsign⟩ | hnone
      · exact .inl ⟨op, _, hsign, hdecimal⟩
      · right
        rw [hnone] at hdecimal hword
        refine ⟨hdecimal, ?_⟩
        rw [ofTrimmed, hnone]
        simp only [if_neg hword, hdecimal]

end Operand

namespace Expression

variable {s : String} {e : Evaluation}

/-- Whether a text begins with a point, blanks in front of it left out. -/
def BeginsWithPoint (s : String) : Prop :=
  (Text.trim s.toList).head? = some '.'

instance (s : String) : Decidable (BeginsWithPoint s) :=
  inferInstanceAs (Decidable (_ = _))

/-- A text without the blanks around it and without a point that it then begins with. -/
def bareText (s : String) : String :=
  String.ofList (if BeginsWithPoint s then (Text.trim s.toList).tail else Text.trim s.toList)

/-- Blanks around an expression have no part in its evaluation. -/
theorem evaluate_tokens_of_trim (h : evaluate s = .ok e) :
    Postfix.evaluate (Postfix.ofTokens ((scan (Text.trim s.toList)).map Lexeme.token)) = .ok e := by
  have hallowed := isAllowed_of_evaluate h
  have hne : scan s.toList ≠ [] := by
    intro hnil
    obtain ⟨-, ts, hts⟩ := exists_tokens_of_evaluate h
    rw [tokens, hnil] at hts
    cases hts
  rw [Lexeme.scan_trim hallowed, ← evaluate_of_scan hallowed rfl hne, String.ofList_toList, h]

/-- An input that both readings accept has no sign: it is digits, or digits behind a point. -/
theorem exists_decimal_of_readings (h : evaluate s = .ok e) (hparse : Operand.parse s ≠ .nan) :
    ∃ d : Decimal, Operand.decimal? (Text.trim s.toList) = some d ∧
      Operand.parse s = d.toBinary64 false := by
  have hallowed : ∀ c ∈ Text.trim s.toList, isAllowed c = true := fun c hc =>
    isAllowed_of_evaluate h c (Text.mem_of_mem_trim hc)
  have htokens := evaluate_tokens_of_trim h
  have hne : Text.trim s.toList ≠ [] := by
    intro hnil
    have hnone : Postfix.evaluate (Postfix.ofTokens []) = .error (.leftOperands 0) := rfl
    rw [hnil, scan, List.map_nil, hnone] at htokens
    cases htokens
  have hvalue := Operand.parse_of_trim rfl hne
  rw [hvalue] at hparse ⊢
  obtain ⟨d, ⟨op, rest, hsign, hdecimal⟩ | hdecimal⟩ := Operand.exists_decimal_of_isAllowed hparse hallowed
  · rw [hsign] at hallowed htokens
    have hnumber : ∃ x, (scan rest).map Lexeme.token = [.number x] := by
      rcases Operand.decimal_cases hdecimal (List.forall_mem_cons.1 hallowed).2 with
        ⟨-, hnumber⟩ | ⟨digits, rfl, hrun, -⟩
      · exact ⟨_, hnumber⟩
      · exact ⟨_, by rw [Lexeme.scan_point]; exact Lexeme.tokens_digits hrun⟩
    obtain ⟨x, hnumber⟩ := hnumber
    rw [Lexeme.scan_operator, List.map_cons, hnumber, Lexeme.token, evaluate_operator_number] at htokens
    cases htokens
  · exact ⟨d, hdecimal⟩

/-- With a digit in front both read one decimal. Behind a point in front the operand counts the digits as
places, and the expression reads them as a whole number. -/
theorem readings_cases (h : evaluate s = .ok e) (hparse : Operand.parse s ≠ .nan) :
    (¬BeginsWithPoint s ∧ e = ⟨Operand.parse s, []⟩) ∨
      BeginsWithPoint s ∧ ∃ n k : Nat, n < 10 ^ k ∧ e = ⟨Decimal.toBinary64 ⟨n, 0⟩ false, []⟩ ∧
        Operand.parse s = Decimal.toBinary64 ⟨n, -k⟩ false ∧
        Operand.parse (bareText s) = Decimal.toBinary64 ⟨n, 0⟩ false := by
  have hallowed : ∀ c ∈ Text.trim s.toList, isAllowed c = true := fun c hc =>
    isAllowed_of_evaluate h c (Text.mem_of_mem_trim hc)
  have hsingle : ∀ x, Postfix.evaluate (Postfix.ofTokens [.number x]) = .ok ⟨x, []⟩ := fun _ => rfl
  have htokens := evaluate_tokens_of_trim h
  obtain ⟨d, hdecimal, hvalue⟩ := exists_decimal_of_readings h hparse
  rcases Operand.decimal_cases hdecimal hallowed with ⟨hwrites, hnumber⟩ | ⟨digits, hpoint, hrun, rfl⟩
  · left
    obtain ⟨c, hc, hdigit⟩ := hwrites.head
    constructor
    · intro hpoint
      have hsame : some c = some '.' := hc.symm.trans hpoint
      rw [Option.some.inj hsame, Text.isDigit_point] at hdigit
      cases hdigit
    · rw [hnumber, hsingle, ← hvalue] at htokens
      exact (Except.ok.inj htokens).symm
  · right
    have hbegins : BeginsWithPoint s := by
      rw [BeginsWithPoint, hpoint]
      rfl
    have hbare : bareText s = String.ofList digits := by
      rw [bareText, if_pos hbegins, hpoint, List.tail_cons]
    rw [hpoint] at hallowed htokens
    rw [Lexeme.scan_point, Lexeme.tokens_digits hrun, hsingle] at htokens
    refine ⟨hbegins, digitsValue digits, digits.length, Text.digitsValue_lt digits,
      (Except.ok.inj htokens).symm, hvalue, ?_⟩
    rw [hbare]
    exact Operand.parse_digits hrun (List.forall_mem_cons.1 hallowed).2

/-- An input that can be evaluated and is an operand is a single number, with no step to show. Both
readings take it for the same number exactly if no point stands in front of it or the number is zero, and
then the key for the result and the function keys work on this number. In the remaining case the expression
reads what the operand would be without that point. -/
theorem readings_of_input [MathLibrary] (h : evaluate s = .ok e) (hparse : Operand.parse s ≠ .nan) :
    e = ⟨Operand.parse (bareText s), []⟩ ∧
      (e.value = Operand.parse s ↔ ¬BeginsWithPoint s ∨ e.value = 0) ∧
      (e.value = Operand.parse s → ∀ d : Desk, d.session.input = s →
        d.calculate none = d.conclude s (.ok ⟨e.value, []⟩) ∧
        ∀ name, d.applyFunction name =
          d.conclude (name ++ "(" ++ s ++ ")") (UnaryFunction.apply name e.value)) := by
  have hkeys : e.value = Operand.parse s → ∀ d : Desk, d.session.input = s →
      d.calculate none = d.conclude s (.ok e) ∧
        ∀ name, d.applyFunction name =
          d.conclude (name ++ "(" ++ s ++ ")") (UnaryFunction.apply name e.value) := by
    rintro hvalue d rfl
    rw [hvalue, ← h]
    exact ⟨rfl, fun name => rfl⟩
  rcases readings_cases h hparse with ⟨hpoint, rfl⟩ | ⟨hpoint, n, k, hlt, rfl, hplaces, hbare⟩
  · have htrim : Operand.parse (bareText s) = Operand.parse s := by
      simp only [bareText, if_neg hpoint, Operand.parse, String.toList_ofList, Text.trim_trim]
    rw [htrim]
    exact ⟨rfl, iff_of_true rfl (.inl hpoint), hkeys⟩
  · refine ⟨by rw [hbare], ?_, hkeys⟩
    rw [hplaces, Decimal.toBinary64_whole_eq_zero_iff]
    constructor
    · intro heq
      right
      by_contra hn
      exact Decimal.toBinary64_places_ne hn hlt false heq.symm
    · rintro (hnot | rfl)
      · exact absurd hpoint hnot
      · rw [Decimal.toBinary64_eq_ofUnits, Decimal.toBinary64_eq_ofUnits, Decimal.nearestUnits_zero,
          Decimal.nearestUnits_zero]

/-- Zeros in front and blanks around make no difference. -/
theorem readings_of_input_leading_zeros :
    evaluate "  007. " = .ok ⟨7, []⟩ ∧ Operand.parse "  007. " ≠ .nan ∧
      (7 : Binary64) = Operand.parse "  007. " := by
  have hevaluate : evaluate "  007. " = .ok ⟨7, []⟩ := by decide +kernel
  have hparse : Operand.parse "  007. " ≠ .nan := by decide +kernel
  have hpoint : ¬BeginsWithPoint "  007. " := by decide +kernel
  let _ := MathLibrary.ofSeries
  obtain ⟨-, hagree, -⟩ := readings_of_input hevaluate hparse
  exact ⟨hevaluate, hparse, hagree.2 (.inl hpoint)⟩

/-- A point in front is passed over by the expression alone. -/
theorem readings_of_point_in_front :
    evaluate ".5" = .ok ⟨5, []⟩ ∧ Operand.parse ".5" ≠ .nan ∧ (5 : Binary64) ≠ Operand.parse ".5" := by
  have hevaluate : evaluate ".5" = .ok ⟨5, []⟩ := by decide +kernel
  have hparse : Operand.parse ".5" ≠ .nan ∧ (5 : Binary64) ≠ Operand.parse ".5" := by decide +kernel
  exact ⟨hevaluate, hparse⟩

end Expression

end Reckoner

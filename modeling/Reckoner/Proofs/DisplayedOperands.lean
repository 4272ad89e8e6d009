import Reckoner.Proofs.CalculationOutput
import Reckoner.Proofs.DisplayEvaluation
import Reckoner.Proofs.FunctionDomains

/-! Displays as operands of a run. What begins with a dash is an option of a command unless it is a negative
number, and only digits with a point count as one there. So a run takes every display as the operand of a
function but those of the negative numbers that are displayed with a power of ten or by a word
(`applies_display`): the operand is read as these numbers too, but the arguments are refused before. -/

namespace Reckoner

namespace Binary64

variable {x : Binary64}

-- comparisons with the two bounds are not unfolded, and their units not computed
attribute [local irreducible] plainLeast plainLimit

/-- The negative numbers that are displayed with a power of ten, and minus infinity. -/
def BeyondNegativeRange (x : Binary64) : Prop :=
  x.isBelowZero = true ∧ ¬x.InNegativeRange

theorem not_inPlainRange_of_isBelowZero (h : x.isBelowZero = true) : ¬x.InPlainRange := by
  rintro (hzero | ⟨hleast, hlimit⟩)
  · cases x with
    | nan => cases h
    | infinity negative => cases hzero
    | finite negative units hunits => exact (isBelowZero_finite.1 h).2 (isZero_finite.1 hzero)
  · obtain ⟨units, hunits, rfl, -⟩ := exists_finite_of_plain hleast hlimit
    rw [isBelowZero, Bool.false_and] at h
    cases h

theorem exists_head_magnitudeText (units : Nat) :
    ∃ c cs, magnitudeText units = c :: cs ∧ Text.isDigit c = true := by
  have hhead : ∃ c ∈ (magnitudeText units).head?, Text.isDigit c = true := by
    unfold magnitudeText
    split_ifs
    · rw [← List.append_nil (Decimal.digitText _)]
      exact Operand.exists_head_append (Text.digitText_ne_nil _) (fun _ => Text.isDigit_digitText) []
    · obtain ⟨k, hwrites⟩ := Operand.writes_text (Decimal.shortest units)
      exact hwrites.head
  obtain ⟨c, hc, hdigit⟩ := hhead
  obtain ⟨cs, hcs⟩ := List.head?_eq_some_iff.1 hc
  exact ⟨c, cs, hcs, hdigit⟩

/-- Behind the sign of a negative number stands a digit, or the word for infinity. -/
theorem toList_display_of_isBelowZero (h : x.isBelowZero = true) :
    ∃ c cs, x.display.toList = '-' :: c :: cs ∧ (Text.isDigit c = true ∨ c = 'I') := by
  cases x with
  | nan => cases h
  | infinity negative =>
      cases h
      exact ⟨'I', "nfinity".toList, rfl, .inr rfl⟩
  | finite negative units hunits =>
      obtain ⟨rfl, hne⟩ := isBelowZero_finite.1 h
      obtain ⟨c, cs, htext, hdigit⟩ := exists_head_magnitudeText units
      refine ⟨c, cs, ?_, .inl hdigit⟩
      rw [display_finite hne, String.toList_ofList, htext]
      rfl

/-- No other number is displayed with a sign. -/
theorem head?_display_of_not_isBelowZero (h : x.isBelowZero = false) : x.display.toList.head? ≠ some '-' := by
  cases x with
  | nan => decide
  | infinity negative =>
      cases h
      decide
  | finite negative units hunits =>
      by_cases hzero : units = 0
      · rw [Operand.display_of_isZero (isZero_finite.2 hzero)]
        decide
      · have hpositive : negative = false := by
          rw [← Bool.not_eq_true] at h ⊢
          exact fun hnegative => h (isBelowZero_finite.2 ⟨hnegative, hzero⟩)
        obtain ⟨c, cs, htext, hdigit⟩ := exists_head_magnitudeText units
        rw [display_finite hzero, hpositive, String.toList_ofList, htext]
        intro hdash
        cases hdash
        exact absurd hdigit (by decide)

theorem display_ne_separator : x.display ≠ "--" := by
  intro hdisplay
  cases hsign : x.isBelowZero with
  | false =>
      refine head?_display_of_not_isBelowZero hsign ?_
      rw [hdisplay]
      rfl
  | true =>
      obtain ⟨c, cs, htext, hc⟩ := toList_display_of_isBelowZero hsign
      rw [hdisplay] at htext
      cases htext
      exact absurd hc (by decide)

end Binary64

namespace Invocation

open Arguments Grammar

variable {x : Binary64}

theorem isNegated_numeral (n : Numeral) : isNegated n.text = true := by
  have hlast : n.text.getLast? ≠ some '\n' := by
    intro hlast
    exact absurd (Operand.isShown_numeral _ (List.mem_of_getLast? hlast)) (by decide)
  obtain ⟨whole, fraction⟩ := n
  have hwhole : ∀ c ∈ whole.chars, Text.isDigit c = true := fun c hc =>
    Text.isDigit_of_isDigit (whole.isDigit_of_mem c hc)
  unfold isNegated
  simp only [if_neg hlast]
  cases fraction with
  | none =>
      have hrest : (Numeral.mk whole none).text.dropWhile Text.isDigit = [] :=
        Operand.dropWhile_digits hwhole fun c hc => by cases hc
      have hne : (Numeral.mk whole none).text ≠ [] := List.append_ne_nil_of_left_ne_nil whole.ne_nil _
      simp [hrest, hne]
  | some places =>
      have hrest : (Numeral.mk whole (some places)).text.dropWhile Text.isDigit = '.' :: places.chars :=
        Operand.dropWhile_digits hwhole fun c hc => by
          cases hc
          exact Text.isDigit_point
      have hplaces : ∀ c ∈ places.chars, Text.isDigit c = true := fun c hc =>
        Text.isDigit_of_isDigit (places.isDigit_of_mem c hc)
      have hall : places.chars.all Text.isDigit = true := List.all_eq_true.2 hplaces
      simp [hrest, hall, places.ne_nil]

/-- What is shown of numbers and is part of a negative number is part of an expression too. -/
theorem isAllowed_of_isShown {c : Char} (hshown : Decimal.IsShown c)
    (h : Text.isDigit c = true ∨ c = '.' ∨ c = '\n') : Expression.isAllowed c = true := by
  rcases hshown with hdigit | hother
  · exact Formula.Written.isAllowed_of_isDigit hdigit
  · have hall : "+-.eINafinty".toList.all (fun c =>
        Expression.isAllowed c || !Text.isDigit c && c != '.' && c != '\n') = true := by
      decide
    have hc := List.all_eq_true.1 hall c hother
    rcases h with h | rfl | rfl
    · simpa [h] using hc
    · rfl
    · exact absurd hother (by decide)

/-- Of the negative displays those without a power of ten are negative numbers to the reader of
arguments. -/
theorem isNegated_display (h : x.isBelowZero = true) {cs : List Char} (hcs : x.display.toList = '-' :: cs) :
    isNegated cs = true ↔ x.InNegativeRange := by
  constructor
  · intro hnegated
    by_contra hrange
    obtain ⟨c, hc, hallowed⟩ :=
      Binary64.display_of_not_inRange (Binary64.not_inPlainRange_of_isBelowZero h) hrange
    have hshown := Binary64.isShown_display hc
    rw [hcs] at hc
    rcases List.mem_cons.1 hc with rfl | hc
    · cases hallowed
    · rw [isAllowed_of_isShown hshown (mem_of_isNegated hnegated hc)] at hallowed
      cases hallowed
  · intro hrange
    obtain ⟨n, hn⟩ := Binary64.display_of_inNegativeRange hrange
    rw [hn, String.toList_ofList] at hcs
    cases hcs
    exact isNegated_numeral n

/-- Whether no name of an option goes on behind its dash as a negative number does. -/
def IsApartFromNumbers {σ : Type} (g : Grammar σ) : Prop :=
  ∀ entry ∈ g.optionNames, ∀ c ∈ entry.1.toList[1]?, Text.isDigit c = false ∧ c ≠ 'I'

theorem isApartFromNumbers_of_letters {σ : Type} {g : Grammar σ}
    (h : ∀ entry ∈ g.optionNames, entry.1.toList[1]? ∈ ['-', 'h', 'v'].map some) : IsApartFromNumbers g := by
  have hletters : ∀ c ∈ ['-', 'h', 'v'], Text.isDigit c = false ∧ c ≠ 'I' := by
    have hall : ['-', 'h', 'v'].all (fun c => !Text.isDigit c && c != 'I') = true := by decide
    simpa using hall
  intro entry hentry c hc
  obtain ⟨letter, hletter, heq⟩ := List.mem_map.1 (h entry hentry)
  obtain rfl : letter = c := Option.some.inj (heq.trans hc)
  exact hletters letter hletter

theorem isApartFromNumbers_grammar : IsApartFromNumbers grammar := by
  apply isApartFromNumbers_of_letters
  change ∀ entry ∈ [("-h", helpOption), ("--help", helpOption), ("--db", historyFileOption),
    ("--history-limit", historyLimitOption), ("-v", verboseOption), ("--verbose", verboseOption)], _
  simp only [List.forall_mem_cons]
  decide

theorem isApartFromNumbers_applyGrammar : IsApartFromNumbers applyGrammar := by
  apply isApartFromNumbers_of_letters
  change ∀ entry ∈ [("-h", helpOption), ("--help", helpOption)], _
  simp only [List.forall_mem_cons]
  decide

theorem splitEquals_of_not_mem {cs : List Char} (h : '=' ∉ cs) : splitEquals cs = (cs, none) := by
  have hall : cs.dropWhile (· != '=') = [] := by
    rw [List.dropWhile_eq_nil_iff]
    intro c hc
    rw [bne_iff_ne]
    rintro rfl
    exact h hc
  rw [splitEquals, hall]

theorem classify_negative {σ : Type} {g : Grammar σ} (hg : IsApartFromNumbers g)
    (h : x.isBelowZero = true) {cs : List Char} (hcs : x.display.toList = '-' :: cs) :
    g.classify x.display =
      .ok (if isNegated cs then .operand x.display else .option x.display none) := by
  obtain ⟨c, rest, htext, hc⟩ := Binary64.toList_display_of_isBelowZero h
  obtain rfl : cs = c :: rest := (List.cons.inj (hcs.symm.trans htext)).2
  have hapart : ∀ entry ∈ g.optionNames, ∀ more, entry.1.toList ≠ '-' :: c :: more := by
    intro entry hentry more hname
    obtain ⟨hdigit, hword⟩ := hg entry hentry c (by rw [hname]; rfl)
    rcases hc with hc | hc
    · rw [hdigit] at hc
      cases hc
    · exact hword hc
  have hrule : g.rule? x.display = none := by
    rw [rule?, Option.map_eq_none_iff, List.find?_eq_none]
    intro entry hentry hname
    refine hapart entry hentry rest ?_
    rw [of_decide_eq_true hname, htext]
  have hequals : '=' ∉ '-' :: c :: rest := by
    rw [← htext]
    exact Binary64.not_mem_display (by decide) (by decide)
  have hspace : (c :: rest).contains ' ' = false := by
    rw [List.contains_eq_mem, decide_eq_false_iff_not]
    intro hmem
    have : ' ' ∈ x.display.toList := by
      rw [htext]
      exact List.mem_cons_of_mem _ hmem
    exact Binary64.not_mem_display (by decide) (by decide) this
  have hdash : c ≠ '-' := by
    rintro rfl
    exact absurd hc (by decide)
  have hcandidates : (if ('-' :: c :: rest).take 2 = ['-', '-'] then g.longCandidates ('-' :: c :: rest)
      else g.shortCandidates ('-' :: c :: rest)) = [] := by
    have htake : ('-' :: c :: rest).take 2 = ['-', c] := rfl
    rw [if_neg (by rw [htake]; simpa using hdash), shortCandidates, List.filterMap_eq_nil_iff]
    intro entry hentry
    have hwhole : entry.1.toList ≠ ('-' :: c :: rest).take 2 := hapart entry hentry []
    have hprefix : ('-' :: c :: rest).isPrefixOf entry.1.toList = false := by
      rw [← Bool.not_eq_true, List.isPrefixOf_iff_prefix]
      rintro ⟨more, hmore⟩
      exact hapart entry hentry _ hmore.symm
    simp only [if_neg hwhole, hprefix]
    rfl
  have hclassify := classify_of_unmatched htext (List.cons_ne_nil _ _) hrule
    (by rw [splitEquals_of_not_mem hequals, ← htext, String.ofList_toList, hrule]) hcandidates
  rw [hclassify, hspace, Bool.or_false]

theorem classify_display {σ : Type} {g : Grammar σ} (hg : IsApartFromNumbers g)
    (h : ¬x.BeyondNegativeRange) : g.classify x.display = .ok (.operand x.display) := by
  cases hsign : x.isBelowZero with
  | false => rw [classify, if_pos (Binary64.head?_display_of_not_isBelowZero hsign)]
  | true =>
      have hrange : x.InNegativeRange := by
        by_contra hrange
        exact h ⟨hsign, hrange⟩
      obtain ⟨c, cs, htext, -⟩ := Binary64.toList_display_of_isBelowZero hsign
      rw [classify_negative hg hsign htext, if_pos ((isNegated_display hsign htext).2 hrange)]

theorem classify_display_beyond {σ : Type} {g : Grammar σ} (hg : IsApartFromNumbers g)
    (h : x.BeyondNegativeRange) : g.classify x.display = .ok (.option x.display none) := by
  obtain ⟨hsign, hrange⟩ := h
  obtain ⟨c, cs, htext, -⟩ := Binary64.toList_display_of_isBelowZero hsign
  rw [classify_negative hg hsign htext, if_neg (mt (isNegated_display hsign htext).1 hrange)]

section Reading

variable {σ : Type} {g : Grammar σ} {name first second : String} {store : σ → String → σ}
  {storeOptional : σ → Option String → σ}

/-- Two operands without two dashes before them are both taken. -/
theorem read_operands (hoperands : g.operands = [.one name store, .optional storeOptional])
    (hclassify : g.classifyAll [first, second] = .ok [.operand first, .operand second])
    (hfirst : first ≠ "--") (hsecond : second ≠ "--") (s : σ) :
    g.read s [first, second] = .ok (storeOptional (store s first) (some second), []) := by
  have htake : g.takeOperands s [.operand first, .operand second] g.operands =
      .ok (storeOptional (store s first) (some second), [], [], []) := by
    rw [hoperands]
    change g.takeOperands (storeOptional (store s (([first].erase "--").headD ""))
      ([second].erase "--").head?) [] [] = _
    rw [erase_separator hfirst, erase_separator hsecond]
    rfl
  exact read_of_taken hclassify rfl htake

/-- What is no option of the program leaves out the operand, and is not recognised. -/
theorem read_unrecognised (hoperands : g.operands = [.one name store, .optional storeOptional])
    (hclassify : g.classifyAll [first, second] = .ok [.operand first, .option second none])
    (hfirst : first ≠ "--") (s : σ) :
    g.read s [first, second] = .ok (storeOptional (store s first) none, [second]) := by
  have htake : g.takeOperands s [.operand first, .option second none]
        [.one name store, .optional storeOptional] =
      .ok (storeOptional (store s first) none, [], [.option second none], []) := by
    change g.takeOperands (storeOptional (store s (([first].erase "--").headD "")) none)
      [.option second none] [] = _
    rw [erase_separator hfirst]
    rfl
  rw [Grammar.read, hclassify, hoperands]
  simp only
  rw [readPieces, htake]
  · change g.readPieces (storeOptional (store s first) none) [] [] [.option second none] = _
    rw [readPieces]
    exact readPieces_nil g _ _
  · exact fun _ h => by cases h
  · exact fun _ _ h => by cases h

end Reading

/-- The settings when no option is given. -/
def defaultSettings : Settings :=
  ⟨Path.ofString Settings.defaultHistoryFile, Settings.defaultLimit, Settings.defaultLevel, by decide,
    by decide⟩

variable {f : String}

theorem head?_of_mem_names (hf : f ∈ UnaryFunction.names.map Prod.fst) : f.toList.head? ≠ some '-' := by
  have hnames : ∀ name ∈ UnaryFunction.names.map Prod.fst, name.toList.head? ≠ some '-' := by decide
  exact hnames f hf

theorem ne_separator_of_mem_names (hf : f ∈ UnaryFunction.names.map Prod.fst) : f ≠ "--" := by
  rintro rfl
  exact head?_of_mem_names hf rfl

/-- The function and its operand are classified alike before the command is read and by it. -/
theorem classifyAll_apply {σ : Type} {g : Grammar σ} (hf : f ∈ UnaryFunction.names.map Prod.fst)
    {piece : Piece σ} (h : g.classify x.display = .ok piece) :
    g.classifyAll [f, x.display] = .ok [.operand f, piece] :=
  classifyAll_cons (head?_of_mem_names hf) (classifyAll_singleton Binary64.display_ne_separator h)

theorem ofArguments_display (hf : f ∈ UnaryFunction.names.map Prod.fst) (h : ¬x.BeyondNegativeRange)
    (files : FileTree) :
    ofArguments files ["fn", f, x.display] = .ok ⟨defaultSettings, .apply f x.display⟩ := by
  have hargs := classifyAll_apply hf (classify_display isApartFromNumbers_grammar h)
  have hread : ∀ draft, readCommand draft "fn" [f, x.display] =
      .ok ({ draft with command := .apply f x.display }, []) := by
    intro draft
    change ((readBy applyGrammar ("", "") (fun s => .apply s.1 s.2) [f, x.display]).map _) = _
    rw [readBy, read_operands rfl (classifyAll_apply hf (classify_display isApartFromNumbers_applyGrammar h))
      (ne_separator_of_mem_names hf) Binary64.display_ne_separator]
    rfl
  exact ofArguments_words (by decide) hargs hread files []

theorem ofArguments_display_beyond (hf : f ∈ UnaryFunction.names.map Prod.fst) (h : x.BeyondNegativeRange)
    (files : FileTree) :
    ofArguments files ["fn", f, x.display] =
      .error (.arguments (.usage program ("unrecognized arguments: " ++ x.display))) := by
  have hargs := classifyAll_apply hf (classify_display_beyond isApartFromNumbers_grammar h)
  have hread : ∀ draft, readCommand draft "fn" [f, x.display] =
      .ok ({ draft with command := .apply f "" }, [x.display]) := by
    intro draft
    change ((readBy applyGrammar ("", "") (fun s => .apply s.1 s.2) [f, x.display]).map _) = _
    rw [readBy, read_unrecognised rfl
      (classifyAll_apply hf (classify_display_beyond isApartFromNumbers_applyGrammar h))
      (ne_separator_of_mem_names hf)]
    rfl
  have hdraft : readDraft ["fn", f, x.display] =
      .error (.usage program ("unrecognized arguments: " ++ x.display)) := by
    change readDraft (([] : List GlobalOption).map GlobalOption.text ++ "fn" :: [f, x.display]) = _
    rw [readDraft_append (by decide) hargs]
    simp only [GlobalOption.actAll, Except.bind, hread]
    rfl
  rw [ofArguments, hdraft]

end Invocation

namespace Run

open Invocation (defaultSettings)

section Libraries

variable [MathLibrary] [FileFormats]

/-- A display is taken as the operand of any function known, and the function applied to the number
displayed, but for the sign of zero. The displays of the negative numbers with a power of ten, and of minus
infinity, are refused, though an operand is read as these numbers too. -/
theorem applies_display {f : String} (hf : f ∈ UnaryFunction.names.map Prod.fst) (x : Binary64)
    (files : FileTree) :
    let args := ["fn", f, x.display]
    (¬x.BeyondNegativeRange →
      Invocation.ofArguments files args = .ok ⟨defaultSettings, .apply f x.display⟩ ∧
        ∃ evaluation run, UnaryFunction.apply f (if x.isZero then 0 else x) = .ok evaluation ∧
          arguments files args = .ok run ∧ run.exit = .ok 0 ∧
          run.output = evaluation.text ++ "\n" ++ numberedSteps evaluation.renderedSteps ∧
          run.world.files = (History.conclusion files defaultSettings.historyPath
            (f ++ "(" ++ x.display ++ ")") (.ok evaluation)).1) ∧
      (x.BeyondNegativeRange →
        Operand.parse x.display = x ∧
          arguments files args = .error (.arguments
            (.usage Invocation.program ("unrecognized arguments: " ++ x.display)))) := by
  intro args
  constructor
  · intro hx
    have htaken := Invocation.ofArguments_display hf hx files
    have hevaluation : ∃ evaluation, UnaryFunction.apply f (if x.isZero then 0 else x) = .ok evaluation := by
      rw [UnaryFunction.apply]
      cases hname : UnaryFunction.ofName? f with
      | none => exact absurd hf (UnaryFunction.ofName?_eq_none_iff.1 hname)
      | some known => exact ⟨_, rfl⟩
    obtain ⟨evaluation, hevaluation⟩ := hevaluation
    obtain ⟨hfiles, hends⟩ := invocation_apply files defaultSettings f x.display
    rw [Operand.parse_display_eq, hevaluation] at hfiles hends
    obtain ⟨hexit, houtput⟩ := hends (History.conclusion_ok (by decide) files _ _)
    exact ⟨htaken, evaluation, _, hevaluation, by rw [arguments, htaken], hexit, houtput, hfiles⟩
  · intro hx
    have hzero : x.isZero = false := by
      rw [← Bool.not_eq_true]
      exact fun hzero => Binary64.not_inPlainRange_of_isBelowZero hx.1 (.inl hzero)
    refine ⟨?_, ?_⟩
    · rw [Operand.parse_display_eq, hzero]
      rfl
    · rw [arguments, Invocation.ofArguments_display_beyond hf hx files]

end Libraries

attribute [local instance] MathLibrary.ofSeries FileFormats.textual

theorem applies_display_of_minus_half :
    let x : Binary64 := Decimal.toBinary64 ⟨5, -1⟩ true
    "square" ∈ UnaryFunction.names.map Prod.fst ∧ x.display = "-0.5" ∧ ¬x.BeyondNegativeRange ∧
      ∃ run, arguments ⟨[], []⟩ ["fn", "square", "-0.5"] = .ok run ∧
        run.output = "0.25\n  1. square(-0.5) = 0.25\n" := by
  intro x
  have hname : "square" ∈ UnaryFunction.names.map Prod.fst := by decide
  have hdisplay : x.display = "-0.5" := by decide +kernel
  have hbelow : x.isBelowZero = true := by decide +kernel
  have htext : x.display.toList = '-' :: "0.5".toList := by
    rw [hdisplay]
    rfl
  have hx : ¬x.BeyondNegativeRange := fun hbeyond =>
    hbeyond.2 ((Invocation.isNegated_display hbelow htext).1 (by decide +kernel))
  obtain ⟨-, evaluation, run, hevaluation, hrun, -, houtput, -⟩ :=
    (applies_display hname x ⟨[], []⟩).1 hx
  have hvalue : UnaryFunction.apply "square" (if x.isZero then 0 else x) =
      .ok ⟨x * x, [.application "square" x (x * x)]⟩ := by
    decide +kernel
  have heq := Except.ok.inj (hevaluation.symm.trans hvalue)
  rw [hdisplay] at hrun
  refine ⟨hname, hdisplay, hx, run, hrun, ?_⟩
  rw [houtput, heq]
  decide +kernel

/-- A display that is refused: of minus ten to the power of 21. -/
theorem refuses_display_with_power :
    let x : Binary64 := Decimal.toBinary64 ⟨1, 21⟩ true
    "square" ∈ UnaryFunction.names.map Prod.fst ∧ x ≠ .nan ∧ x.display = "-1e+21" ∧
      Operand.parse x.display = x ∧
      Invocation.ofArguments ⟨[], []⟩ ["fn", "square", x.display] =
        .error (.arguments (.usage "stepwise-calculator" "unrecognized arguments: -1e+21")) := by
  decide +kernel

end Run

end Reckoner

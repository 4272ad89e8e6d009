import Reckoner.Proofs.CalculationOutput

/-! Paths that lack too many directories. What a calculation on such a path is stored with is no fault of the
storage, so the run ends with it and prints nothing; where a file is in the way of the path, the storage
fails, and the run prints its result (`output_lost_on_deep_path`). -/

namespace Reckoner

open FileTree History

namespace Run

/-- A path into directories of one name, one in another. -/
def nested (n : Nat) : Path :=
  ⟨.here, List.replicate (n + 1) "a" ++ ["s.db"]⟩

def nestedText (n : Nat) : String := "/".intercalate (nested n).names

theorem parent_nested (n : Nat) : (nested n).parent = ⟨.here, "a" :: List.replicate n "a"⟩ := by
  rw [Path.parent, nested, List.dropLast_concat, List.replicate_succ]

theorem mem_names_nested {n : Nat} {name : String} (h : name ∈ (nested n).names) :
    name = "a" ∨ name = "s.db" := by
  rcases List.mem_append.1 h with h | h
  · exact Or.inl (List.eq_of_mem_replicate h)
  · exact Or.inr (List.mem_singleton.1 h)

theorem hasNull_nested (n : Nat) : (nested n).hasNull = false := by
  rw [Path.hasNull, List.any_eq_false]
  intro name hname
  rcases mem_names_nested hname with rfl | rfl <;> decide

theorem hasNull_parent_nested (n : Nat) : ¬(nested n).parent.hasNull = true := by
  intro hparent
  have hfree := hasNull_of_parent hparent
  rw [hasNull_nested] at hfree
  cases hfree

theorem exists_nestedText (n : Nat) : ∃ rest, nestedText n = "a" ++ rest := by
  rw [nestedText, nested, List.replicate_succ, List.cons_append]
  cases n with
  | zero => exact ⟨_, String.intercalate_cons_cons.trans (String.append_assoc ..)⟩
  | succ n => exact ⟨_, String.intercalate_cons_cons.trans (String.append_assoc ..)⟩

theorem nestedText_ne_separator (n : Nat) : nestedText n ≠ "--" := by
  obtain ⟨rest, hrest⟩ := exists_nestedText n
  intro h
  have hlist := congrArg String.toList (hrest.symm.trans h)
  rw [String.toList_append] at hlist
  exact absurd (List.cons.inj hlist).1 (by decide)

theorem ofString_nestedText (n : Nat) : Path.ofString (nestedText n) = nested n := by
  have hsplit : (nestedText n).toList.splitOn '/' = (nested n).names.map String.toList := by
    rw [nestedText, String.toList_intercalate]
    refine List.splitOn_intercalate '/' (fun part hpart => ?_) (by simp [nested])
    obtain ⟨name, hname, rfl⟩ := List.mem_map.1 hpart
    rcases mem_names_nested hname with rfl | rfl <;> decide
  have hanchor : Path.anchorOf (nestedText n).toList = .here := by
    obtain ⟨rest, hrest⟩ := exists_nestedText n
    rw [hrest, String.toList_append]
    rfl
  have hnames : ((nested n).names.map String.toList).filter Path.isName =
      (nested n).names.map String.toList := by
    refine List.filter_eq_self.2 fun part hpart => ?_
    obtain ⟨name, hname, rfl⟩ := List.mem_map.1 hpart
    rcases mem_names_nested hname with rfl | rfl <;> decide
  rw [Path.ofString, hsplit, hanchor, hnames, List.map_map]
  simp [nested, Function.comp_def]

theorem utf8ByteSize_intercalate_replicate (n : Nat) :
    ("/".intercalate ("a" :: List.replicate n "a")).utf8ByteSize = 2 * n + 1 := by
  have hletter : "a".utf8ByteSize = 1 := rfl
  have hslash : "/".utf8ByteSize = 1 := rfl
  induction n with
  | zero => exact hletter
  | succ n ih =>
      rw [List.replicate_succ, String.intercalate_cons_cons, String.utf8ByteSize_append,
        String.utf8ByteSize_append, ih]
      omega

theorem isLong_parent_nested {n : Nat} (h : n < 2000) : (nested n).parent.isLong = false := by
  have hhere : (⟨.here, "a" :: List.replicate n "a"⟩ : Path) ≠ Path.here := by
    intro heq
    cases congrArg Path.names heq
  rw [parent_nested, Path.isLong, decide_eq_false_iff_not, Path.maxBytes, Path.text, if_neg hhere]
  change ¬4095 < ("" ++ _).utf8ByteSize
  rw [String.utf8ByteSize_append, utf8ByteSize_intercalate_replicate]
  have hempty : "".utf8ByteSize = 0 := rfl
  omega

theorem settingsOf_historyFile {file : String} (h : file ≠ "--") :
    Invocation.settingsOf [.historyFile file] =
      .ok ⟨Path.ofString file, 20, .warning, by decide, by decide⟩ := by
  simp only [Invocation.settingsOf, Invocation.GlobalOption.actAll, Invocation.GlobalOption.act,
    Arguments.Grammar.actValue, Invocation.historyFileOption, if_neg h]
  rfl

variable {t : FileTree} {n : Nat}

theorem step_current (t : FileTree) : step (t.start .here) "a" = t.current ++ ["a"] :=
  if_neg (by decide)

/-- Where the first directory is missing they all are, and too many cannot be made. -/
theorem openLedger_of_absent (h : n < 2000) (hmany : maxMissing ≤ n)
    (habsent : t.get? (t.current ++ ["a"]) = none) :
    openLedger t (nested n) = (t, .error .tooDeep) := by
  have hmissing : t.missing (nested n).parent = n + 1 := by
    have hshort : ¬Path.isLongName "a" = true := by decide
    rw [missing, isLong_parent_nested h, parent_nested, if_neg Bool.false_ne_true]
    simp only [missingFrom, if_neg hshort, step_current, habsent, List.length_replicate]
  rw [openLedger, if_neg (hasNull_parent_nested n), if_pos (by rw [hmissing]; omega)]

/-- Where a file is in the way, nothing is missing and the storage fails. -/
theorem openLedger_of_blocked {content : FileContent} (h : n < 2000)
    (hblocked : t.get? (t.current ++ ["a"]) = some (.file content)) :
    ∃ fault, openLedger t (nested n) = (t, .error (.file fault)) := by
  have hshort : ¬Path.isLongName "a" = true := by decide
  have hmissing : t.missing (nested n).parent = 0 := by
    rw [missing, isLong_parent_nested h, parent_nested, if_neg Bool.false_ne_true]
    simp only [missingFrom, if_neg hshort, step_current, hblocked]
  have hmake : ∃ fault, t.makeDirectories (nested n).parent = (t, .error fault) := by
    rw [makeDirectories, isLong_parent_nested h, parent_nested, if_neg Bool.false_ne_true]
    simp only [makeFrom, if_neg hshort, step_current, hblocked]
    exact ⟨_, rfl⟩
  obtain ⟨fault, hmake⟩ := hmake
  refine ⟨fault, ?_⟩
  rw [openLedger, if_neg (hasNull_parent_nested n), hmissing, if_neg (Nat.not_lt_zero _), hmake]

section Libraries

variable [MathLibrary] [FileFormats]

/-- How a sum ends, by the fault that opening its ledger ends with. -/
theorem evaluate_of_unopened {settings : Settings} {expression : String} {evaluation : Evaluation}
    {fault : HistoryFault} (heval : Expression.evaluate expression = .ok evaluation)
    (hopen : openLedger t settings.historyPath = (t, .error fault)) :
    let run := invocation t ⟨settings, .evaluate expression⟩
    (fault.isStorage = true → run.exit = .ok 0 ∧
        run.output = evaluation.text ++ "\n" ++ numberedSteps evaluation.renderedSteps) ∧
      (fault.isStorage = false → (RunFault.history fault).isReported = false →
        run.exit = .error (.history fault) ∧ run.output = "") := by
  have hstored : (conclusion t settings.historyPath expression (.ok evaluation)).2 =
      if fault.isStorage then .ok () else .error fault := by
    rw [conclusion, insertion, openWritable, hopen]
    rfl
  obtain ⟨hends, hobstructs⟩ := invocation_calculation (i := ⟨settings, .evaluate expression⟩) rfl t
  rw [heval] at hends hobstructs
  refine ⟨fun hstorage => hends ?_, fun hstorage hreported => ?_⟩
  · rw [hstored, if_pos hstorage]
  · refine (hobstructs fault ?_).invocation_ends.2 hreported
    rw [hstored, if_neg (Bool.eq_false_iff.1 hstorage)]

end Libraries

attribute [local instance] MathLibrary.ofSeries FileFormats.textual

/-- The sum of one and one where the directories of a path are missing, and where a file is in their way. -/
theorem sum_of_nested {absent blocked : FileTree} {content : FileContent} (h : n < 2000)
    (hmany : maxMissing ≤ n) (habsent : absent.get? (absent.current ++ ["a"]) = none)
    (hblocked : blocked.get? (blocked.current ++ ["a"]) = some (.file content)) :
    let args := Invocation.commandArguments [.historyFile (nestedText n)] "eval" ["1+1"]
    (Path.ofString (nestedText n)).hasNull = false ∧
      ∃ run run', arguments absent args = .ok run ∧ arguments blocked args = .ok run' ∧
        run.exit = .error (.history .tooDeep) ∧ run.output = "" ∧
        run'.exit = .ok 0 ∧ run'.output = "2\n  1. 1 + 1 = 2\n" := by
  intro args
  let evaluation : Evaluation := ⟨2, [.operation 1 .add 1 2]⟩
  have heval : Expression.evaluate "1+1" = .ok evaluation := by decide +kernel
  have hsettings := settingsOf_historyFile (nestedText_ne_separator n)
  let settings : Settings := ⟨Path.ofString (nestedText n), 20, .warning, by decide, by decide⟩
  have hdeep : openLedger absent settings.historyPath = (absent, .error .tooDeep) := by
    change openLedger absent (Path.ofString (nestedText n)) = _
    rw [ofString_nestedText]
    exact openLedger_of_absent h hmany habsent
  obtain ⟨fault, hfault⟩ : ∃ fault, openLedger blocked settings.historyPath =
      (blocked, .error (.file fault)) := by
    change ∃ fault, openLedger blocked (Path.ofString (nestedText n)) = _
    rw [ofString_nestedText]
    exact openLedger_of_blocked h hblocked
  obtain ⟨hexit, houtput⟩ := (evaluate_of_unopened heval hdeep).2 rfl rfl
  obtain ⟨hexit', houtput'⟩ := (evaluate_of_unopened heval hfault).1 (HistoryFault.isStorage_file fault)
  have htext : evaluation.text ++ "\n" ++ numberedSteps evaluation.renderedSteps =
      "2\n  1. 1 + 1 = 2\n" := by decide +kernel
  refine ⟨?_, _, _, arguments_evaluate hsettings absent "1+1", arguments_evaluate hsettings blocked "1+1",
    hexit, houtput, hexit', houtput'.trans htext⟩
  rw [ofString_nestedText]
  exact hasNull_nested n

/-- A sum on a path without a null character of which 1200 directories are missing: the run prints nothing.
Where a file is in the way of the path, it prints the result. -/
theorem output_lost_on_deep_path :
    let args := Invocation.commandArguments [.historyFile (nestedText 1199)] "eval" ["1+1"]
    let absent : FileTree := ⟨[(["w"], .directory)], ["w"]⟩
    let blocked : FileTree := ⟨[(["w"], .directory), (["w", "a"], .file (.plain []))], ["w"]⟩
    (Path.ofString (nestedText 1199)).hasNull = false ∧
      ∃ run run', arguments absent args = .ok run ∧ arguments blocked args = .ok run' ∧
        run.exit = .error (.history .tooDeep) ∧ run.output = "" ∧
        run'.exit = .ok 0 ∧ run'.output = "2\n  1. 1 + 1 = 2\n" :=
  sum_of_nested (by decide) (by decide) rfl rfl

end Run
end Reckoner

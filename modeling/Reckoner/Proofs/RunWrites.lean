import Reckoner.Proofs.ExitCodes
import Reckoner.Proofs.HistoryRuns

/-! What runs write. An invocation owns the file that the address of its history names with those that the
storage knows beside it, and the results of its batch (`Invocation.Owns`). All that a run does to a tree is
growth by directories on the way to the history and by these files (`invocation_grows`), so any other file
stays as it is, however the run ends. The results of a source are beside it under a longer name and never in
its place, and a source that can be read is never a file beside a history. A batch that cannot start has
written nothing at all, since its source is read and its results are opened before the first calculation is
stored. -/

namespace Reckoner

open FileTree History

namespace FileTree

variable {D F D' F' : Location → Prop} {t u : FileTree} {p : Path} {m : Location} {content : FileContent}

/-- No file can be written where a path leads: it leads nowhere, or to a directory. -/
def Closed (t : FileTree) (p : Path) : Prop :=
  ∀ l, t.locate p = .ok l → t.get? l = some .directory

theorem eq_put_of_write (h : t.write p content = .ok u) :
    ∃ l, t.locate p = .ok l ∧ t.get? l ≠ some .directory ∧ u = t.put l (.file content) := by
  obtain ⟨l, hlocate, hopen⟩ := write_ok h
  refine ⟨l, hlocate, hopen, ?_⟩
  rw [write] at h
  simp only [hlocate] at h
  cases h
  rfl

theorem Closed.exists_fault (h : t.Closed p) (content : FileContent) :
    ∃ fault, t.write p content = .error fault := by
  cases hwrite : t.write p content with
  | error fault => exact ⟨fault, rfl⟩
  | ok u =>
      obtain ⟨l, hlocate, hopen, -⟩ := eq_put_of_write hwrite
      exact absurd (h l hlocate) hopen

theorem exists_file_of_isFile (h : t.isFile p = .ok true) :
    ∃ l content, t.locate p = .ok l ∧ t.get? l = some (.file content) := by
  rw [isFile] at h
  split at h
  · cases h
  · cases h
  · next l hlocate =>
    split at h
    · next content hentry => exact ⟨l, content, hlocate, hentry⟩
    · cases h

namespace Grows

theorem mono (h : Grows D F t u) (hD : ∀ m, D m → D' m) (hF : ∀ m, F m → F' m) : Grows D' F' t u := by
  refine ⟨h.current, fun m => ?_⟩
  have hchange := h.change m
  revert hchange
  generalize t.get? m = x, u.get? m = y
  rintro (_ | ⟨hdirectory, hfree⟩ | ⟨hfile, hfree, hfree'⟩)
  · exact .same _
  · exact .directory (hD m hdirectory) (hfree.imp_right fun h => ⟨hF m h.1, h.2⟩)
  · exact .file (hF m hfile) hfree hfree'

/-- A file that growth does not write stays, since no directory takes its place. -/
theorem kept (h : Grows D F t u) (hm : t.get? m = some (.file content)) (hF : ¬F m) :
    u.get? m = some (.file content) := by
  have hchange := h.change m
  rw [hm] at hchange
  generalize u.get? m = x at hchange ⊢
  cases hchange with
  | same => rfl
  | directory _ hfree =>
      rcases hfree with hnone | ⟨hfile, -⟩
      · cases hnone
      · exact absurd hfile hF
  | file hfile _ _ => exact absurd hfile hF

theorem write (h : t.write p content = .ok u) (hF : ∀ l, t.locate p = .ok l → F l) :
    Grows D F t u := by
  obtain ⟨l, hlocate, hopen, rfl⟩ := eq_put_of_write h
  exact put_file (hF l hlocate) hopen content

end Grows
end FileTree

/-- A batch cannot start when its source is not read, or when its results cannot be opened to be written. -/
inductive Batch.Unstarted [FileFormats] (t : FileTree) (source : Path) : Prop
  | unread {fault : SourceFault} : readExpressions t source = .error fault → Unstarted t source
  | unopened {results : Path} : resultsPath source = .ok results → t.Closed results →
      Unstarted t source

namespace Run

section Libraries

variable [MathLibrary] [FileFormats] {files : FileTree} {source : Path}

/-- A batch that cannot start changes nothing, whatever the settings are, and leaves a fault that tells
what keeps it: the lack of a name, the source, or the results. The run ends as every run with that fault
does. -/
theorem unstarted_batch_changes_nothing (h : Batch.Unstarted files source) (settings : Settings) :
    let run := invocation files ⟨settings, .batch source⟩
    run.world.files = files ∧
      (∀ args, Invocation.ofArguments files args = .ok ⟨settings, .batch source⟩ →
        arguments files args = .ok run ∧ filesAfter files args = files) ∧
      ∃ fault : BatchFault,
        (fault = .noName source ∨
          (∃ f, fault = .source f ∧ Batch.readExpressions files source = .error f) ∨
          ∃ f, fault = .results f) ∧
        ((RunFault.batch fault).isReported = true →
          run.exit = .ok 2 ∧ run.output = "error: " ++ fault.message ++ "\n") ∧
        ((RunFault.batch fault).isReported = false →
          run.exit = .error (.batch fault) ∧ run.output = "") := by
  intro run
  rcases Batch.run_starts_or ⟨.new settings, ⟨files, []⟩⟩ source with ⟨hfiles, hfault⟩ |
    ⟨results, es, files', hresults, hread, hwrite⟩
  · have hsame : run.world.files = files := (files_invocation_batch files settings source).trans hfiles
    refine ⟨hsame, fun args hargs => ?_, ?_⟩
    · have hrun : arguments files args = .ok run := by
        rw [arguments, hargs]
      exact ⟨hrun, by rw [filesAfter, hrun]; exact hsame⟩
    · have hends : ∀ fault, (Batch.run ⟨.new settings, ⟨files, []⟩⟩ source).2 = .error fault →
          ((RunFault.batch fault).isReported = true →
            run.exit = .ok 2 ∧ run.output = "error: " ++ fault.message ++ "\n") ∧
          ((RunFault.batch fault).isReported = false →
            run.exit = .error (.batch fault) ∧ run.output = "") :=
        fun fault hfault => (Obstructs.batch hfault).invocation_ends (i := ⟨settings, .batch source⟩)
      rcases hfault with hfault | ⟨f, hread, hfault⟩ | ⟨f, hfault⟩
      · exact ⟨_, Or.inl rfl, hends _ hfault⟩
      · exact ⟨_, Or.inr (Or.inl ⟨f, rfl, hread⟩), hends _ hfault⟩
      · exact ⟨_, Or.inr (Or.inr ⟨f, rfl⟩), hends _ hfault⟩
  · cases h with
    | unread hunread =>
        cases hread.symm.trans hunread
    | unopened hresults' hclosed =>
        cases hresults.symm.trans hresults'
        obtain ⟨fault, hfault⟩ := hclosed.exists_fault (.plain (Text.utf8Encode "".toList))
        cases hwrite.symm.trans hfault

end Libraries

section Textual

attribute [local instance] MathLibrary.ofSeries FileFormats.textual

/-- A source that is not read, with the results of an earlier run beside it, and one with a directory in
the place of its results. -/
theorem unstarted_batch_changes_nothing_twice :
    let files : FileTree := ⟨[(["w"], .directory),
      (["w", "a.csv"], .file (.plain (Text.utf8Encode "1+1\n".toList))),
      (["w", "a_csv_results.txt"], .file (.plain (Text.utf8Encode "old".toList))),
      (["w", "b.txt"], .file (.plain (Text.utf8Encode "1+1\n".toList))),
      (["w", "b_txt_results.txt"], .directory)], ["w"]⟩
    filesAfter files ["batch", "a.csv"] = files ∧ filesAfter files ["batch", "b.txt"] = files := by
  intro files
  let settings : Settings := ⟨Path.ofString "calculator.db", 20, .warning, by decide, by decide⟩
  have hunread : Batch.readExpressions files (Path.ofString "a.csv") = .error (.unsupported ".csv") := by
    decide +kernel
  have hresults : Batch.resultsPath (Path.ofString "b.txt") = .ok (Path.ofString "b_txt_results.txt") := by
    decide +kernel
  have hclosed : files.Closed (Path.ofString "b_txt_results.txt") := by
    intro l hl
    have hlocate : files.locate (Path.ofString "b_txt_results.txt") = .ok ["w", "b_txt_results.txt"] := by
      decide +kernel
    cases hlocate.symm.trans hl
    decide +kernel
  obtain ⟨-, ha, -⟩ := unstarted_batch_changes_nothing (.unread hunread) settings
  obtain ⟨-, hb, -⟩ := unstarted_batch_changes_nothing (.unopened hresults hclosed) settings
  exact ⟨(ha ["batch", "a.csv"] (by decide +kernel)).2, (hb ["batch", "b.txt"] (by decide +kernel)).2⟩

end Textual
end Run

/-- The files that an invocation may write: the one that the address of its history names, those beside it,
and the results of its batch. -/
def Invocation.Owns (files : FileTree) (i : Invocation) (m : Location) : Prop :=
  IsFileOf files i.settings.historyPath m ∨
    ∃ source results, i.command = .batch source ∧ Batch.resultsPath source = .ok results ∧
      files.locate results = .ok m

variable {D F : Location → Prop} {t : FileTree}

theorem History.conclusion_grows (t : FileTree) (p : Path) (input : String)
    (outcome : Except CalculationError Evaluation) :
    Grows (· ∈ passage t p) (IsFileOf t p) t (conclusion t p input outcome).1 := by
  cases outcome with
  | error e => exact Grows.refl _ _ t
  | ok evaluation =>
      rw [conclusion, ← (insert_eq_insertion ⟨t, []⟩ p input evaluation.text).1]
      exact perform_grows ⟨t, []⟩ p (.insert input evaluation.text)

namespace Batch

/-- The lines of a batch write the file of the history and that of the results, and these are at the same
locations from the first line to the last. -/
theorem evaluateAll_grows {settings : Settings} {results : Path}
    (hhistory : ∀ m, IsFileOf t settings.historyPath m → F m)
    (hresults : F (destination (t.start results.anchor) results.names)) (es : List String) {d : Desk}
    {text : String} (hdesk : d.session.settings = settings)
    (hgrown : Grows (· ∈ passage t settings.historyPath) F t d.world.files) :
    Grows (· ∈ passage t settings.historyPath) F t (evaluateAll d results text es).1.world.files := by
  induction es generalizing d text with
  | nil => exact hgrown
  | cons e es ih =>
      obtain ⟨hfiles, hsettings, -, -⟩ := evaluateLine_eq d e
      have hline : Grows (· ∈ passage t settings.historyPath) F t
          (evaluateLine d e).1.world.files := by
        rw [hfiles, hdesk]
        refine hgrown.trans ((conclusion_grows _ _ _ _).mono (fun m hm => ?_) fun m hm => ?_)
        · rw [passage_eq_of_start hgrown.start] at hm
          exact hm
        · rw [isFileOf_eq_of_start hgrown.start] at hm
          exact hhistory m hm
      rw [evaluateAll]
      rcases hcall : evaluateLine d e with ⟨d', fault | line⟩
      · rw [hcall] at hline
        exact hline
      · rw [hcall] at hline hsettings
        simp only [writeResults]
        cases hwrite : d'.world.files.write results
          (.plain (Text.utf8Encode (text ++ line).toList)) with
        | error fault => exact hline
        | ok files =>
            refine ih (hsettings.trans hdesk) (hline.trans (Grows.write hwrite fun l hl => ?_))
            rw [eq_destination_of_locate hl, hline.start]
            exact hresults

theorem run_grows [FileFormats] (d : Desk) (source : Path) :
    Grows (· ∈ passage d.world.files d.session.settings.historyPath)
      (Invocation.Owns d.world.files ⟨d.session.settings, .batch source⟩) d.world.files
      (run d source).1.world.files := by
  rcases run_starts_or d source with ⟨hfiles, -⟩ | ⟨results, es, files, hresults, hread, hwrite⟩
  · rw [hfiles]
    exact Grows.refl _ _ _
  · obtain ⟨d', hsession, rfl, hrun⟩ := run_eq_conclude hresults hread hwrite
    rw [hrun, files_conclude]
    obtain ⟨r, hlocate, -⟩ := write_ok hwrite
    have hown : Invocation.Owns d.world.files ⟨d.session.settings, .batch source⟩ r :=
      Or.inr ⟨source, results, rfl, hresults, hlocate⟩
    refine evaluateAll_grows (fun m hm => Or.inl hm) ?_ es (congrArg Session.settings hsession)
      (Grows.write hwrite fun l hl => ?_)
    · rw [← eq_destination_of_locate hlocate]
      exact hown
    · cases hlocate.symm.trans hl
      exact hown

end Batch

/-- The source of a batch has been found to be a file. -/
theorem Invocation.isFile_of_checkCommand {files : FileTree} {draft : CommandDraft} {source : Path}
    (h : checkCommand files draft = .ok (.batch source)) : files.isFile source = .ok true := by
  cases draft with
  | batch text =>
      simp only [checkCommand] at h
      split_ifs at h
      split at h
      · cases h
      · next hfile =>
        cases h
        exact hfile
      · cases h
  | history value =>
      cases value with
      | null => cases h
      | _ =>
          simp only [checkCommand] at h
          split at h
          · cases h
          · split_ifs at h
            cases h
  | evaluate e => cases h
  | apply f x => cases h
  | clear => cases h

namespace Run

section Libraries

variable [MathLibrary] [FileFormats]

/-- All that a run writes: directories on the way to the history, and the files that the invocation owns. -/
theorem invocation_grows (files : FileTree) (i : Invocation) :
    Grows (· ∈ passage files i.settings.historyPath) (i.Owns files) files
      (invocation files i).world.files := by
  obtain ⟨settings, command⟩ := i
  have hcall : ∀ u, Grows (· ∈ passage files settings.historyPath)
      (IsFileOf files settings.historyPath) files u →
      Grows (· ∈ passage files settings.historyPath)
        (Invocation.Owns files ⟨settings, command⟩) files u :=
    fun u h => h.mono (fun _ hm => hm) fun _ hm => Or.inl hm
  cases command with
  | evaluate expression =>
      rw [(invocation_evaluate files settings expression).1]
      exact hcall _ (conclusion_grows _ _ _ _)
  | apply function operand =>
      rw [(invocation_apply files settings function operand).1]
      exact hcall _ (conclusion_grows _ _ _ _)
  | history limit =>
      rw [files_invocation_history]
      exact hcall _ (perform_grows ⟨files, []⟩ _ (.recent (limit.getD settings.historyLimit)))
  | clear =>
      rw [files_invocation_clear]
      exact hcall _ (perform_grows ⟨files, []⟩ _ .clear)
  | batch source =>
      rw [files_invocation_batch]
      exact Batch.run_grows ⟨.new settings, ⟨files, []⟩⟩ source

theorem filesAfter_grows {files : FileTree} {args : List String} {i : Invocation}
    (h : Invocation.ofArguments files args = .ok i) :
    Grows (· ∈ passage files i.settings.historyPath) (i.Owns files) files (filesAfter files args) := by
  rw [filesAfter, arguments, h]
  exact invocation_grows files i

theorem filesAfter_of_rejection {files : FileTree} {args : List String} {rejection : Rejection}
    (h : Invocation.ofArguments files args = .error rejection) : filesAfter files args = files := by
  rw [filesAfter, arguments, h]

/-- The source of a batch that is taken is a file. -/
theorem exists_file_of_batch {files : FileTree} {args : List String} {i : Invocation} {source : Path}
    (h : Invocation.ofArguments files args = .ok i) (hsource : i.command = .batch source) :
    ∃ l content, files.locate source = .ok l ∧ files.get? l = some (.file content) := by
  obtain ⟨settings, command⟩ := i
  cases hsource
  obtain ⟨draft, hcommand⟩ := Invocation.exists_checkCommand h
  exact exists_file_of_isFile (Invocation.isFile_of_checkCommand hcommand)

/-- The source of a batch stays as it is, unless it is the file of the history. A source that is read is no
file beside that one, and a batch that does not read its source changes nothing. -/
theorem source_kept {files : FileTree} {args : List String} {i : Invocation} {source : Path}
    {l : Location} {content : FileContent} (h : Invocation.ofArguments files args = .ok i)
    (hsource : i.command = .batch source) (hlocate : files.locate source = .ok l)
    (hentry : files.get? l = some (.file content))
    (hother : database? files i.settings.historyPath ≠ some l) :
    (filesAfter files args).get? l = some (.file content) := by
  have hgrows := filesAfter_grows h
  obtain ⟨settings, command⟩ := i
  cases hsource
  rcases Batch.run_starts_or ⟨.new settings, ⟨files, []⟩⟩ source with ⟨hsame, -⟩ | ⟨-, es, -, -, hread, -⟩
  · have hafter : filesAfter files args = files := by
      rw [filesAfter, arguments, h]
      exact (files_invocation_batch files settings source).trans hsame
    rw [hafter]
    exact hentry
  · obtain ⟨kind, hkind⟩ := Batch.exists_kindOf_of_readExpressions hread
    refine hgrows.kept hentry ?_
    rintro ((hhistory | hside) | ⟨source', results, hsource', hresults, hr⟩)
    · exact hother hhistory
    · rw [sidesOf] at hside
      cases hhistory : database? files settings.historyPath with
      | none =>
          rw [hhistory] at hside
          cases hside
      | some l' =>
          rw [hhistory] at hside
          exact Batch.not_mem_sides_of_kindOf? hkind hlocate l' hside
    · cases hsource'
      exact Batch.location_ne_of_resultsPath hlocate hresults hr rfl

/-- A run writes only what its invocation owns, whatever its arguments are and however it ends. Arguments
that are not taken change nothing. With those that are taken, a file that was there before holds what it
held, and a file that is there afterwards was there before, unless it is one of the history or holds the
results of a batch. The results are beside the source and not in its place; so the source stays as it is,
unless it is the file of the history. -/
theorem writes_only_its_own (files : FileTree) (args : List String) :
    let after := filesAfter files args
    (∀ rejection, Invocation.ofArguments files args = .error rejection → after = files) ∧
      (∀ i, Invocation.ofArguments files args = .ok i →
        (∀ m content, files.get? m = some (.file content) → ¬i.Owns files m →
          after.get? m = some (.file content)) ∧
        (∀ m content, after.get? m = some (.file content) →
          i.Owns files m ∨ files.get? m = some (.file content)) ∧
        ∀ source, i.command = .batch source →
          ∃ l content, files.locate source = .ok l ∧ files.get? l = some (.file content) ∧
            (database? files i.settings.historyPath ≠ some l →
              after.get? l = some (.file content))) ∧
      ∀ source : Path, source.name ≠ "" → ∃ results, Batch.resultsPath source = .ok results ∧
        results.parent = source.parent ∧ results ≠ source := by
  intro after
  refine ⟨fun rejection => filesAfter_of_rejection, fun i hargs => ?_,
    fun source => Batch.exists_resultsPath⟩
  have hgrows := filesAfter_grows hargs
  refine ⟨fun m content => hgrows.kept, fun m content => hgrows.file, fun source hsource => ?_⟩
  obtain ⟨l, content, hlocate, hentry⟩ := exists_file_of_batch hargs hsource
  exact ⟨l, content, hlocate, hentry, source_kept hargs hsource hlocate hentry⟩

end Libraries

attribute [local instance] MathLibrary.ofSeries FileFormats.textual

theorem writes_only_its_own_in_directory :
    let note : FileContent := .plain (Text.utf8Encode "note".toList)
    let sums : FileContent := .plain (Text.utf8Encode "1+1\n".toList)
    let files : FileTree := ⟨[(["w"], .directory), (["w", "a.txt"], .file sums),
      (["w", "a_txt_results.txt"], .file note), (["w", "note.txt"], .file note)], ["w"]⟩
    let after := filesAfter files ["--db", "d.db", "batch", "a.txt"]
    after.get? ["w", "note.txt"] = some (.file note) ∧ after.get? ["w", "a.txt"] = some (.file sums) ∧
      filesAfter files ["batch", "b.txt"] = files := by
  intro note sums files after
  let settings : Settings := ⟨Path.ofString "d.db", 20, .warning, by decide, by decide⟩
  have hargs : Invocation.ofArguments files ["--db", "d.db", "batch", "a.txt"] =
      .ok ⟨settings, .batch (Path.ofString "a.txt")⟩ := by decide +kernel
  have hhistory : database? files settings.historyPath = some ["w", "d.db"] := by decide +kernel
  have hresults : Batch.resultsPath (Path.ofString "a.txt") =
      .ok (Path.ofString "a_txt_results.txt") := by decide +kernel
  have hlocation : files.locate (Path.ofString "a_txt_results.txt") = .ok ["w", "a_txt_results.txt"] := by
    decide +kernel
  have hother : ¬Invocation.Owns files ⟨settings, .batch (Path.ofString "a.txt")⟩ ["w", "note.txt"] := by
    rintro ((hown | hown) | ⟨source, results, hsource, hpath, hl⟩)
    · exact absurd (hhistory.symm.trans hown) (by decide)
    · rw [sidesOf_of_database hhistory] at hown
      exact absurd hown (by decide)
    · cases hsource
      cases hresults.symm.trans hpath
      exact absurd (Except.ok.inj (hlocation.symm.trans hl)) (by decide)
  obtain ⟨-, htaken, -⟩ := writes_only_its_own files ["--db", "d.db", "batch", "a.txt"]
  obtain ⟨hkept, -, hsource⟩ := htaken _ hargs
  obtain ⟨l, content, hlocate, hentry, hsame⟩ := hsource _ rfl
  have hl : files.locate (Path.ofString "a.txt") = .ok ["w", "a.txt"] := by decide +kernel
  cases hl.symm.trans hlocate
  cases hentry
  refine ⟨hkept _ _ (by decide +kernel) hother, hsame ?_, ?_⟩
  · rw [hhistory]
    decide
  · exact (writes_only_its_own files ["batch", "b.txt"]).1 (.values [⟨"file_path", .notFile⟩])
      (by decide +kernel)

/-- A file that lies where the storage keeps its journal is lost. -/
theorem file_beside_history_lost :
    let note : FileContent := .plain (Text.utf8Encode "note".toList)
    let files : FileTree := ⟨[(["w"], .directory), (["w", "calculator.db-journal"], .file note)], ["w"]⟩
    let settings : Settings := ⟨Path.ofString "calculator.db", 20, .warning, by decide, by decide⟩
    Invocation.ofArguments files ["history"] = .ok ⟨settings, .history none⟩ ∧
      database? files settings.historyPath = some ["w", "calculator.db"] ∧
      files.get? ["w", "calculator.db-journal"] = some (.file note) ∧
      (filesAfter files ["history"]).get? ["w", "calculator.db-journal"] = none := by
  decide +kernel

end Run
end Reckoner

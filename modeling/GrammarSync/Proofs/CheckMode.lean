/-
# A check foretells a run

A check and a run in write mode open the same inputs (`openInputs`), so they
meet the same fault or none. From there on they differ in three texts, in
storing, and in the verdict (`runSync_of_opened`): a run in write mode has
none, and a check fails if the log of changes is not empty, which is to say if
the grammar that would be stored is another one than the grammar that was
loaded (`inSync_iff`). Skipped scopes and the findings of the coverage are
printed and have no part in it.

Sinks and files that fail are left out: a check writes no file, so it cannot
foretell that one cannot be written.

Key definitions: `openInputs`, `Files.Writable`, `reportHead`, `reportBody`.
Key theorems: `runSync_of_unopened`, `runSync_of_opened`, `join_report`,
`inSync_iff`, `check_foretells_run`.
-/
import GrammarSync.Proofs.Account
import GrammarSync.Proofs.AllOrNothing

namespace GrammarSync

/-- The settings of a command that writes. -/
def Config.writing (c : Config) : Config :=
  { c with check := false }

/-- Both inputs, or the first fault on the way to them. -/
def openInputs (files : Files) (c : Config) : Except RunFault (Taxonomy × Document) :=
  match missingInput? files c with
  | some e => .error e
  | none => loadInputs files c

/-- Whether the file of a path can be written if it can be read. -/
def Files.Writable (files : Files) (path : String) : Prop :=
  ∀ old new, files.read path = .ok old → ∃ files', files.write path new = .ok files'

/-! ### The report as a text -/

/-- The first lines of a report, with the label of the mode. -/
def reportHead (label : String) (c : Config) : String :=
  ("Reading syntax data from: " ++ c.syntaxData ++ "\n") ++ (label ++ " " ++ c.grammar ++ "\n\n")

/-- The body of a report, with the verb of the mode. -/
def reportBody (verb : String) (version : Taxonomy.Version) (o : Outcome) : String :=
  ("TextMate grammar " ++ verb ++ " syntax-data.json v" ++ version.display ++ "\n\n") ++
    (ChangeLog.render o.changes ++ (Outcome.renderSkipped o.skipped ++ o.coverage.render))

/-- What is written before a fault of the inputs is met, with the label of the mode. -/
def reportOpening (label : String) (files : Files) (c : Config) : String :=
  if (missingInput? files c).isSome then "" else reportHead label c

/-- The label of the mode. -/
def Config.label (c : Config) : String :=
  if c.check then "Checking grammar at:     " else "Updating grammar at:     "

/-- The verb of the mode. -/
def Config.verb (c : Config) : String :=
  if c.check then "checked against" else "updated from"

variable {files files' : Files} {sink : Sink} {c : Config} {taxonomy : Taxonomy} {d : Document}

theorem join_singleton (line : String) : String.join [line] = line := by
  rw [String.join_cons, String.join_nil, String.append_empty]

theorem join_headerLines (c : Config) : String.join (headerLines c) = reportHead c.label c := by
  rw [headerLines, String.join_cons, join_singleton]
  rfl

theorem join_bodyLines (c : Config) (version : Taxonomy.Version) (o : Outcome) :
    String.join (bodyLines c version o) = reportBody c.verb version o := by
  rw [bodyLines, String.join_cons, String.join_cons, String.join_cons, join_singleton]
  rfl

/-- The whole report, to the last line or without it. -/
theorem join_report (c : Config) (version : Taxonomy.Version) (o : Outcome) :
    String.join (headerLines c ++ (bodyLines c version o ++ closingLines c o)) =
      reportHead c.label c ++ (reportBody c.verb version o ++ String.join (closingLines c o)) := by
  rw [String.join_append, String.join_append, join_headerLines, join_bodyLines]

/-- Lines are written as one text. -/
theorem Sink.add_eq_of_join {lines : List String} {text : String} (h : String.join lines = text) :
    sink.add lines = sink.add [text] := by
  rw [add, add_singleton, h]

/-! ### A run with a sink that takes all -/

theorem loadInputs_of_openInputs (h : openInputs files c = .ok (taxonomy, d)) :
    loadInputs files c = .ok (taxonomy, d) := by
  unfold openInputs at h
  cases hpresent : missingInput? files c with
  | some e => rw [hpresent] at h; cases h
  | none =>
    rw [hpresent] at h
    exact h

/-- A fault of the inputs ends the run, whatever its mode. -/
theorem runSync_of_unopened {e : RunFault} (hsink : ∀ lines, sink.Takes lines)
    (h : openInputs files c = .error e) :
    runSync files sink c =
      ⟨files, sink.add [reportOpening c.label files c], some (.ofFault e)⟩ := by
  unfold openInputs at h
  unfold reportOpening
  cases hpresent : missingInput? files c with
  | some missing =>
    rw [hpresent] at h
    cases h
    rw [runSync_of_missing hpresent, Option.isSome_some, if_pos rfl, Sink.add_singleton,
      String.append_empty]
  | none =>
    rw [hpresent] at h
    rw [runSync_of_unloaded hpresent (hsink _) h, Option.isSome_none, if_neg Bool.false_ne_true,
      Sink.add_eq_of_join (join_headerLines c)]

/-- A run whose inputs are opened writes its report and gives its verdict. -/
theorem runSync_of_opened {synced : Document} {o : Outcome} (hsink : ∀ lines, sink.Takes lines)
    (h : openInputs files c = .ok (taxonomy, d)) (hsync : synchronize .hew taxonomy d = (synced, o))
    (hstored : storeResult files c synced = .ok files') :
    runSync files sink c = ⟨files', sink.add [reportHead c.label c ++
      (reportBody c.verb taxonomy.version o ++ String.join (closingLines c o))], verdict? c o⟩ := by
  obtain ⟨rfl, rfl⟩ : (synchronize .hew taxonomy d).1 = synced ∧
      (synchronize .hew taxonomy d).2 = o := ⟨congrArg Prod.fst hsync, congrArg Prod.snd hsync⟩
  have hreport := hsink (headerLines c ++ (bodyLines c taxonomy.version
    (synchronize .hew taxonomy d).2 ++ closingLines c (synchronize .hew taxonomy d).2))
  obtain ⟨hheader, hrest⟩ := Sink.takes_append.mp hreport
  rw [runSync_of_stored hheader (loadInputs_of_openInputs h) hstored, finishSync_of_takes hrest,
    ← Sink.add_append, Sink.add_eq_of_join (join_report c _ _)]

/-! ### Verdicts -/

theorem verdict?_writing (c : Config) (o : Outcome) : verdict? c.writing o = none := by
  simp [verdict?, Config.writing]

theorem verdict?_checking (c : Config) (o : Outcome) :
    verdict? c.checking o = if o.inSync then none else some (outOfDate o) := by
  cases h : o.inSync <;> simp [verdict?, Config.checking, h]

theorem join_closingLines_writing (c : Config) (o : Outcome) :
    String.join (closingLines c.writing o) = "Done.\n" := by
  have hlines : closingLines c.writing o = ["Done.\n"] := by simp [closingLines, Config.writing]
  rw [hlines, join_singleton]

theorem join_closingLines_checking (c : Config) (o : Outcome) :
    String.join (closingLines c.checking o) = if o.inSync then "Done.\n" else "" := by
  cases h : o.inSync with
  | true =>
    have hlines : closingLines c.checking o = ["Done.\n"] := by
      simp [closingLines, Config.checking, h]
    rw [hlines, join_singleton, if_pos rfl]
  | false =>
    have hlines : closingLines c.checking o = [] := by simp [closingLines, Config.checking, h]
    rw [hlines, String.join_nil, if_neg Bool.false_ne_true]

/-- The log is empty if and only if the grammar stays as it is. -/
theorem inSync_iff {t : ScopeTable} {synced : Document} {o : Outcome}
    (h : synchronize t taxonomy d = (synced, o)) : o.inSync = true ↔ synced = d := by
  obtain ⟨rfl, rfl⟩ : (synchronize t taxonomy d).1 = synced ∧ (synchronize t taxonomy d).2 = o :=
    ⟨congrArg Prod.fst h, congrArg Prod.snd h⟩
  rw [Outcome.inSync, List.isEmpty_iff]
  exact changes_eq_nil_iff t taxonomy d

/-- The verdict is about the changes: other skipped scopes and other findings of the coverage do not
alter it. -/
theorem verdict?_congr {o o' : Outcome} (h : o'.changes = o.changes) (c : Config) :
    verdict? c o' = verdict? c o := by
  rw [verdict?, verdict?, Outcome.inSync, Outcome.inSync, outOfDate, outOfDate, h]

theorem failure_finishSync {version : Taxonomy.Version} (hsink : ∀ lines, sink.Takes lines)
    (c : Config) (o : Outcome) :
    (finishSync files sink c version o).failure = verdict? c o := by
  rw [finishSync_of_takes (hsink _)]

/-- A sink that takes all lines takes all lines after some. -/
theorem Sink.takes_add (hsink : ∀ lines, sink.Takes lines) (written lines : List String) :
    (sink.add written).Takes lines :=
  (takes_append.mp (hsink (written ++ lines))).2

/-- **A check foretells a run.** The sink takes every report, and the grammar's file can be written
if it can be read. Then a check and a run in write mode from the same files meet the same fault of
the inputs and touch no file, or both synchronize. In the latter case the run in write mode stores
the grammar and ends well, and the check leaves the files alone: it ends well if and only if the
grammar is stored as it was loaded, and otherwise fails with exit code 1 and the number of changes
that the run reports. With other skipped scopes and another coverage both would end the same. The
two reports differ in the label, in the verb, and in the last line, which a failing check lacks. -/
theorem check_foretells_run (hsink : ∀ lines, sink.Takes lines)
    (hwritable : files.Writable c.grammar) :
    (∃ e, openInputs files c = .error e ∧
      runSync files sink c.checking = ⟨files,
        sink.add [reportOpening "Checking grammar at:     " files c], some (.ofFault e)⟩ ∧
      runSync files sink c.writing = ⟨files,
        sink.add [reportOpening "Updating grammar at:     " files c], some (.ofFault e)⟩) ∨
    (∃ taxonomy d synced o files', openInputs files c = .ok (taxonomy, d) ∧
      synchronize .hew taxonomy d = (synced, o) ∧
      files.write c.grammar synced.render = .ok files' ∧
      runSync files sink c.writing = ⟨files', sink.add [
        reportHead "Updating grammar at:     " c ++
          (reportBody "updated from" taxonomy.version o ++ "Done.\n")], none⟩ ∧
      (runSync files sink c.checking).files = files ∧
      ((runSync files sink c.checking).failure = none ↔ synced = d) ∧
      (synced ≠ d → (runSync files sink c.checking).failure =
        some ⟨"Grammar is out of date: " ++ toString o.changes.length ++
          " pattern(s) would change. Run `hew-grammar sync` to apply.", 1⟩) ∧
      (∀ skipped coverage,
        (finishSync files' (sink.add (headerLines c.writing)) c.writing taxonomy.version
          ⟨o.changes, skipped, coverage⟩).failure = none ∧
        (finishSync files (sink.add (headerLines c.checking)) c.checking taxonomy.version
          ⟨o.changes, skipped, coverage⟩).failure = (runSync files sink c.checking).failure) ∧
      (runSync files sink c.checking).sink = sink.add [
        reportHead "Checking grammar at:     " c ++
          (reportBody "checked against" taxonomy.version o ++
            if (runSync files sink c.checking).failure.isNone then "Done.\n" else "")]) := by
  cases hopened : openInputs files c with
  | error e =>
    exact .inl ⟨e, rfl, runSync_of_unopened (c := c.checking) hsink hopened,
      runSync_of_unopened (c := c.writing) hsink hopened⟩
  | ok inputs =>
    obtain ⟨taxonomy, d⟩ := inputs
    obtain ⟨-, hgrammar⟩ := loadInputs_eq_ok.mp (loadInputs_of_openInputs hopened)
    obtain ⟨text, htext, -⟩ := of_loadGrammar hgrammar
    obtain ⟨synced, o, hsync⟩ : ∃ synced o, synchronize .hew taxonomy d = (synced, o) := ⟨_, _, rfl⟩
    obtain ⟨files', hwrite⟩ := hwritable text synced.render htext
    have hstored : storeResult files c.writing synced = .ok files' := by
      rw [storeResult_of_write rfl]
      exact storeGrammar_eq_ok.mpr hwrite
    have hwrites := runSync_of_opened (c := c.writing) hsink hopened hsync hstored
    have hchecks := runSync_of_opened (c := c.checking) hsink hopened hsync
      (storeResult_of_check rfl)
    rw [verdict?_writing, join_closingLines_writing] at hwrites
    rw [join_closingLines_checking] at hchecks
    have hverdict : (runSync files sink c.checking).failure =
        if o.inSync then none else some (outOfDate o) := by
      rw [hchecks]
      exact verdict?_checking c o
    have hsame := inSync_iff hsync
    refine .inr ⟨taxonomy, d, synced, o, files', rfl, hsync, hwrite, hwrites, by rw [hchecks],
      ?_, ?_, fun skipped coverage => ⟨?_, ?_⟩, ?_⟩
    · rw [hverdict, ← hsame]
      cases o.inSync <;> simp
    · intro hne
      rw [hverdict, if_neg (fun h => hne (hsame.mp h))]
      rfl
    · rw [failure_finishSync (Sink.takes_add hsink _), verdict?_writing]
    · rw [failure_finishSync (Sink.takes_add hsink _), hchecks]
      exact verdict?_congr rfl _
    · rw [hverdict, hchecks]
      cases o.inSync <;> rfl

/-- Ten patterns are missing in the small grammar, whatever their words. -/
theorem length_changes_smallGrammar (taxonomy : Taxonomy) :
    (synchronize .hew taxonomy smallGrammar).2.changes.length = 10 := by
  have hadds : (ScopeTable.hew.runAdditions smallGrammar).length = 10 := by
    decide +kernel
  have hrefresh : smallGrammar.refreshChanges (ScopeTable.hew.groups taxonomy) = [] := rfl
  rw [changes_synchronize, hrefresh, List.nil_append, List.length_map, hadds]

theorem openInputs_smallFiles :
    ∃ taxonomy, openInputs smallFiles smallConfig = .ok (taxonomy, smallGrammar) := by
  obtain ⟨taxonomy, hwords⟩ := loadTaxonomy_smallFiles
  have hloaded : loadInputs smallFiles smallConfig = .ok (taxonomy, smallGrammar) :=
    loadInputs_eq_ok.mpr ⟨hwords, loadGrammar_smallFiles⟩
  refine ⟨taxonomy, ?_⟩
  rw [openInputs, missingInput?_of_loadInputs hloaded]
  exact hloaded

theorem smallFiles_foretold :
    (∀ lines, Sink.unbounded.Takes lines) ∧ smallFiles.Writable smallConfig.grammar ∧
    (runSync smallFiles .unbounded smallConfig.writing).failure = none ∧
    (runSync smallFiles .unbounded smallConfig.checking).files = smallFiles ∧
    (runSync smallFiles .unbounded smallConfig.checking).failure =
      some ⟨"Grammar is out of date: 10 pattern(s) would change. Run `hew-grammar sync` to apply.",
        1⟩ := by
  have hsink : ∀ lines, Sink.unbounded.Takes lines := Sink.takes_of_capacity_none rfl
  have hwritable : smallFiles.Writable smallConfig.grammar :=
    fun _ new _ => ⟨_, write_smallFiles new⟩
  obtain ⟨taxonomy, hopened⟩ := openInputs_smallFiles
  refine ⟨hsink, hwritable, ?_⟩
  rcases check_foretells_run hsink hwritable with
    ⟨e, herror, -⟩ | ⟨own, d, synced, o, files', hown, hsync, -, hwrites, hkept, -, hfails, -⟩
  · rw [hopened] at herror
    cases herror
  · rw [hopened] at hown
    cases hown
    have hchanges : o.changes.length = 10 := by
      rw [← length_changes_smallGrammar taxonomy, hsync]
    have hne : synced ≠ smallGrammar := by
      intro hsame
      have hnone := inSync_iff hsync
      rw [Outcome.inSync, List.isEmpty_iff] at hnone
      rw [hnone.mpr hsame] at hchanges
      cases hchanges
    refine ⟨by rw [hwrites], hkept, ?_⟩
    rw [hfails hne, hchanges]
    rfl

end GrammarSync

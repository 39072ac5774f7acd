import GrammarSync.Words.Alternation
import GrammarSync.Words.Map
import GrammarSync.Number.Layout
import GrammarSync.Number.Numeral
import GrammarSync.Text.Quoted
import GrammarSync.Taxonomy.Reader
import GrammarSync.Json.Printer
import GrammarSync.Json.Pointer
import GrammarSync.Scope.Hew
import GrammarSync.Scope.Group
import GrammarSync.Scope.Reference
import GrammarSync.Grammar.Shape
import GrammarSync.Grammar.Edit
import GrammarSync.Sync.Run
import GrammarSync.Command.Arguments
import GrammarSync.Proofs.Refresh
import GrammarSync.Proofs.Walk
import GrammarSync.Proofs.OneWalk
import GrammarSync.Proofs.Additions
import GrammarSync.Proofs.Run
import GrammarSync.Proofs.Completeness
import GrammarSync.Proofs.Rerun
import GrammarSync.Proofs.Undo
import GrammarSync.Proofs.Frame
import GrammarSync.Proofs.PutBack
import GrammarSync.Proofs.Account
import GrammarSync.Proofs.Digits
import GrammarSync.Proofs.Checks
import GrammarSync.Proofs.WellShaped
import GrammarSync.Proofs.Restore
import GrammarSync.Proofs.Pointer
import GrammarSync.Proofs.FirstFault
import GrammarSync.Proofs.KeyOrder
import GrammarSync.Proofs.Reachable
import GrammarSync.Proofs.Lexemes
import GrammarSync.Proofs.Stored
import GrammarSync.Proofs.TextRoundTrip
import GrammarSync.Proofs.Storable
import GrammarSync.Proofs.FileStore
import GrammarSync.Proofs.Endings
import GrammarSync.Proofs.SyncFile
import GrammarSync.Proofs.AllOrNothing
import GrammarSync.Proofs.CheckMode
import GrammarSync.Proofs.Authoring
import GrammarSync.Proofs.LintKept
import GrammarSync.Main
import GrammarSync.Proofs.Ownership
import GrammarSync.Proofs.Placement
import GrammarSync.Proofs.Agreement
import GrammarSync.Proofs.DocumentOrder
import GrammarSync.Proofs.Includes
import GrammarSync.Proofs.Shadowed
import GrammarSync.Proofs.Alternatives
import GrammarSync.Proofs.VersionShown
import GrammarSync.Proofs.SectionBreaks
import GrammarSync.Proofs.TableRows
import GrammarSync.Proofs.PageLayout
import GrammarSync.Proofs.ReferencePage

import Highlighting.Main
import Highlighting.Page.Dispatch
import Highlighting.Render.CodeBlock
import Highlighting.Proofs.Scan.Positions
import Highlighting.Proofs.Scan.VocabularyWord
import Highlighting.Proofs.Scan.Unmentioned
import Highlighting.Proofs.Language.EngineVocabulary
import Highlighting.Proofs.Language.EngineCategories
import Highlighting.Proofs.Scan.Overrun
import Highlighting.Proofs.Grammar.Building
import Highlighting.Proofs.Scan.Safety
import Highlighting.Proofs.Scan.Merging
import Highlighting.Proofs.Scan.WholeWords
import Highlighting.Proofs.Language.BuiltinLexers
import Highlighting.Proofs.Page.Forest
import Highlighting.Proofs.Page.Walks
import Highlighting.Proofs.Registry
import Highlighting.Proofs.Page.Histories
import Highlighting.Proofs.Render.Reading
import Highlighting.Proofs.CommandLine.Outputs
import Highlighting.Proofs.Page.Toggling
import Highlighting.Proofs.CommandLine.Streams
import Highlighting.Proofs.Scan.FirstWord
import Highlighting.Proofs.Scan.Anchored
import Highlighting.Proofs.Grammar.Refusals
import Highlighting.Proofs.ExtendedNames
import Highlighting.Proofs.Grammar.Extending
import Highlighting.Proofs.Language.DisabledBlocks
import Highlighting.Proofs.Render.TokenRows
import Highlighting.Proofs.Render.Table
import Highlighting.Proofs.Language.WholeKeywords
import Highlighting.Proofs.Language.ContinuedLines
import Highlighting.Proofs.Page.DefaultToggle
import Highlighting.Proofs.Page.Refusals
import Highlighting.Proofs.Page.Markup
import Highlighting.Proofs.CommandLine.FileByFile
import Highlighting.Proofs.Scan.Reports
import Highlighting.Proofs.Scan.Unclassified
import Highlighting.Proofs.CommandLine.LexerChoice
import Highlighting.Proofs.Files.KnownExtensions
import Highlighting.Proofs.Scan.Metrics
import Highlighting.Proofs.Log.Captured
import Highlighting.Proofs.Log.Truncation
import Highlighting.Proofs.Grammar.DepthFirst
import Highlighting.Proofs.Grammar.EntryOrder
import Highlighting.Proofs.Language.PlainText
import Highlighting.Proofs.Render.Styles
import Highlighting.Proofs.Render.StreamCodec

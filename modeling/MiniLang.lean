import MiniLang.Chain
import MiniLang.CommandLine.Argument
import MiniLang.CommandLine.Folder
import MiniLang.CommandLine.Page
import MiniLang.CommandLine.Report
import MiniLang.CommandLine.Request
import MiniLang.CommandLine.Table
import MiniLang.Fault
import MiniLang.Lexeme
import MiniLang.Lexeme.Escape
import MiniLang.Main
import MiniLang.Node
import MiniLang.Node.Printer
import MiniLang.Phrase
import MiniLang.Phrase.Read
import MiniLang.Program
import MiniLang.Readers
import MiniLang.Reading
import MiniLang.Session
import MiniLang.SourceText
import MiniLang.Stream
import MiniLang.Text.Digit
import MiniLang.Text.Number
import MiniLang.Text.Printable
import MiniLang.Text.Quoted
import MiniLang.Token
import MiniLang.Window
import MiniLang.Proofs.Assignment
import MiniLang.Proofs.Calls
import MiniLang.Proofs.CommandLine
import MiniLang.Proofs.Concatenation
import MiniLang.Proofs.Cursors
import MiniLang.Proofs.Extension
import MiniLang.Proofs.FailsAfter
import MiniLang.Proofs.FaultPlace
import MiniLang.Proofs.Faults
import MiniLang.Proofs.Front
import MiniLang.Proofs.Grammar
import MiniLang.Proofs.Grammar.Atoms
import MiniLang.Proofs.Grammar.Complete
import MiniLang.Proofs.Grammar.Exact
import MiniLang.Proofs.Grammar.Sequence
import MiniLang.Proofs.Grammar.Shape
import MiniLang.Proofs.Grammar.Sound
import MiniLang.Proofs.Grammar.Spelling
import MiniLang.Proofs.Grammar.Strings
import MiniLang.Proofs.Grammar.WellFormed
import MiniLang.Proofs.Items
import MiniLang.Proofs.Kinds
import MiniLang.Proofs.LastLine
import MiniLang.Proofs.Layout
import MiniLang.Proofs.Lexical
import MiniLang.Proofs.LineEnds
import MiniLang.Proofs.LineEnds.Styles
import MiniLang.Proofs.Lines
import MiniLang.Proofs.Lockstep
import MiniLang.Proofs.LongestMatch
import MiniLang.Proofs.Numbers
import MiniLang.Proofs.Outline
import MiniLang.Proofs.Outline.Depth
import MiniLang.Proofs.Outline.Determined
import MiniLang.Proofs.Outline.Entries
import MiniLang.Proofs.Outline.Mimicry
import MiniLang.Proofs.Overflow
import MiniLang.Proofs.Partition
import MiniLang.Proofs.Plan
import MiniLang.Proofs.Precedence
import MiniLang.Proofs.Progress
import MiniLang.Proofs.Reach
import MiniLang.Proofs.Readers
import MiniLang.Proofs.Relocation
import MiniLang.Proofs.Renaming
import MiniLang.Proofs.Replay
import MiniLang.Proofs.Replay.Phrases
import MiniLang.Proofs.Replay.Plans
import MiniLang.Proofs.Reports
import MiniLang.Proofs.Retry
import MiniLang.Proofs.Stops
import MiniLang.Proofs.Viable
import MiniLang.Proofs.WellFormed

import Lexico.Analysis
import Lexico.Command.Usage
import Lexico.Main
import Lexico.Output.Report
import Lexico.Output.Table
import Lexico.Proofs.Analysis.Comments
import Lexico.Proofs.Analysis.Coverage
import Lexico.Proofs.Analysis.Diagnostics
import Lexico.Proofs.Analysis.Lexemes
import Lexico.Proofs.Analysis.LineComments
import Lexico.Proofs.Analysis.LineEnds
import Lexico.Proofs.Analysis.Lines
import Lexico.Proofs.Analysis.Positions
import Lexico.Proofs.Analysis.Trace
import Lexico.Proofs.Analysis.Words
import Lexico.Proofs.Command.Effects
import Lexico.Proofs.Command.Independence
import Lexico.Proofs.Command.Limits
import Lexico.Proofs.Command.Options
import Lexico.Proofs.Command.Plan
import Lexico.Proofs.Command.Rejection
import Lexico.Proofs.Command.Status
import Lexico.Proofs.Files.Tree
import Lexico.Proofs.Output.Delivery
import Lexico.Proofs.Output.Report
import Lexico.Proofs.Output.Table
import Lexico.Proofs.Scanner.Audit
import Lexico.Proofs.Scanner.End
import Lexico.Proofs.Scanner.Journal
import Lexico.Proofs.Scanner.SinglePass
import Lexico.Proofs.Segment.Literals
import Lexico.Proofs.Segment.Lookahead
import Lexico.Proofs.Segment.Munch
import Lexico.Proofs.Segment.Offsets
import Lexico.Proofs.Source.Moving
import Lexico.Proofs.Source.Walk
import Lexico.Proofs.Statistics
import Lexico.Proofs.Text.Column
import Lexico.Proofs.Text.Escape
import Lexico.Proofs.Text.Lines
import Lexico.Scanner.Pool
import Lexico.Statistics
import Lexico.Proofs.Scanner.Recording

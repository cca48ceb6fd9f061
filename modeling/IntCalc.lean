import IntCalc.Brackets
import IntCalc.Cache.History
import IntCalc.Csv.Reader
import IntCalc.Grammar.Precedence
import IntCalc.Grammar.Text
import IntCalc.Ideal
import IntCalc.Main
import IntCalc.Parse.Cursor
import IntCalc.Parse.Descent
import IntCalc.Parse.Trace
import IntCalc.Proofs.Accounting
import IntCalc.Proofs.Classification
import IntCalc.Proofs.Files
import IntCalc.Proofs.FirstError
import IntCalc.Proofs.Forest
import IntCalc.Proofs.LastUse
import IntCalc.Proofs.Levels
import IntCalc.Proofs.Overflow
import IntCalc.Proofs.Rearrangement
import IntCalc.Proofs.Reports
import IntCalc.Proofs.Settled
import IntCalc.Proofs.Spacing
import IntCalc.Proofs.Transcript
import IntCalc.Proofs.Transparency
import IntCalc.Proofs.Truncation
import IntCalc.Proofs.Widening
import IntCalc.Text.Terminator
import IntCalc.Proofs.Csv
import IntCalc.Proofs.Lines
import IntCalc.Proofs.Messages
import IntCalc.Proofs.WorkingRange
import IntCalc.Proofs.ReadBack
import IntCalc.Proofs.Streams
import IntCalc.Proofs.Pending
import IntCalc.Proofs.RpnText
import IntCalc.Proofs.Verdict
import IntCalc.Proofs.Moves
import IntCalc.Proofs.Cursor
import IntCalc.Proofs.Bounds

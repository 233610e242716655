import Calculator.Main
import Calculator.Proofs.FirstFault
import Calculator.Proofs.Height
import Calculator.Proofs.RoundTrip
import Calculator.Proofs.Pieces
import Calculator.Proofs.Munch
import Calculator.Proofs.Tokenisation
import Calculator.Proofs.Places
import Calculator.Proofs.Spacing
import Calculator.Proofs.ErrorPlaces
import Calculator.Proofs.Lines
import Calculator.Proofs.Transcript
import Calculator.Proofs.LowerLimit
import Calculator.Proofs.StackMachine
import Calculator.Proofs.Margins
import Calculator.Proofs.BrokenStreams
import Calculator.Proofs.Composition
import Calculator.Proofs.Literals
import Calculator.Proofs.Origins
import Calculator.Proofs.Equality
import Calculator.Proofs.Causes
import Calculator.Proofs.Inorder
import Calculator.Proofs.Openers
import Calculator.Proofs.Unambiguous
import Calculator.Proofs.Tallest
import Calculator.Proofs.CallDepth
import Calculator.Proofs.Renaming
import Calculator.Proofs.Seams
import Calculator.Proofs.Visible
import Calculator.Proofs.StreamTexts
import Calculator.Proofs.Verbosity
import Calculator.Proofs.ErrorLines
import Calculator.Proofs.Lookahead
import Calculator.Proofs.WellFormed

import Lexing.Main
import Lexing.Proofs.Failure
import Lexing.Proofs.MaximalMunch
import Lexing.Proofs.Partition
import Lexing.Proofs.Printing
import Lexing.Step
import Lexing.Proofs.Lines
import Lexing.Proofs.Steps
import Lexing.Proofs.LineText
import Lexing.Proofs.Caret
import Lexing.Proofs.TokenDiagnosis
import Lexing.Proofs.Locality
import Lexing.Proofs.Continuation
import Lexing.Proofs.Restart
import Lexing.Proofs.LoneReturn
import Lexing.Proofs.ControlSequence
import Lexing.Proofs.Listing
import Lexing.Proofs.Utf8
import Lexing.Proofs.ScanFiles
import Lexing.Proofs.Command
import Lexing.Proofs.Separation
import Lexing.Proofs.Numerals
import Lexing.Proofs.Width
import Lexing.Proofs.Lookahead
import Lexing.Proofs.Terminators
import Lexing.Proofs.Attempt
import Lexing.Proofs.Document
import Lexing.Proofs.DocumentUnique
import Lexing.Proofs.FloatLiteral
import Lexing.Proofs.NumberText
import Lexing.Proofs.Progress
import Lexing.Proofs.JsonListing
import Lexing.Proofs.Fields
import Lexing.Proofs.Quoted
import Lexing.Proofs.ListingUnique
import Lexing.Proofs.Environment
import Lexing.Proofs.Override

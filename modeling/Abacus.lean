import Abacus.Main
import Abacus.Tour
import Abacus.Workspace
import Abacus.Proofs.Parsing.ErrorPosition
import Abacus.Proofs.Evaluation
import Abacus.Proofs.Scanning
import Abacus.Proofs.Rendering
import Abacus.Proofs.Evaluation.Values
import Abacus.Proofs.Scanning.Concatenation
import Abacus.Proofs.Calculation
import Abacus.Proofs.Session
import Abacus.Proofs.Session.Joined
import Abacus.Proofs.Evaluation.Effects
import Abacus.Proofs.Session.Effects
import Abacus.Proofs.Scanning.Segmentation
import Abacus.Proofs.Spelling
import Abacus.Proofs.Parsing.Message
import Abacus.Proofs.Parsing.NestingLimit
import Abacus.Proofs.Parsing.Context
import Abacus.Proofs.Parsing.Parenthesis
import Abacus.Proofs.Evaluation.ExactArithmetic
import Abacus.Proofs.Arithmetic
import Abacus.Proofs.Evaluation.Dependence
import Abacus.Proofs.Dialogue
import Abacus.Proofs.Dialogue.Records
import Abacus.Proofs.Evaluation.Actions
import Abacus.Proofs.Scanning.Seam
import Abacus.Proofs.Scanning.Message
import Abacus.Proofs.Workspace
import Abacus.Proofs.Excerpt.Window
import Abacus.Proofs.Quoted
import Abacus.Proofs.Environment.Description
import Abacus.Proofs.Environment.Writes
import Abacus.Proofs.Reading.Local
import Abacus.Proofs.Reading.Cursor

import Formulary.CommandLine.Directory
import Formulary.Main
import Formulary.Proofs.Meaning
import Formulary.Proofs.Phrases
import Formulary.Proofs.Replay
import Formulary.Proofs.Scanning
import Formulary.Proofs.NumberText
import Formulary.Proofs.Resynchronisation
import Formulary.Proofs.Display
import Formulary.Proofs.FreshNames
import Formulary.Proofs.Growth
import Formulary.Proofs.Sessions
import Formulary.Proofs.Permanence
import Formulary.Proofs.Separation
import Formulary.Proofs.Readback
import Formulary.Proofs.Constructs
import Formulary.Proofs.Lookahead
import Formulary.Proofs.FirstFault
import Formulary.Proofs.Lexemes
import Formulary.Proofs.Strictness
import Formulary.Proofs.Causality
import Formulary.Proofs.Comments
import Formulary.Proofs.Endings
import Formulary.Proofs.Refusals
import Formulary.Proofs.OpenCount
import Formulary.Proofs.OnDemand
import Formulary.Proofs.Progress
import Formulary.Proofs.Faults
import Formulary.Proofs.RecursionDepth
import Formulary.Proofs.Openings
import Formulary.Proofs.LineDecoding
import Formulary.Proofs.StandardInput
import Formulary.Proofs.Folding
import Formulary.Proofs.Safety
import Formulary.Proofs.Suffixes
import Formulary.Proofs.Precedences
import Formulary.Proofs.Slots
import Formulary.Proofs.ConstantForms
import Formulary.Proofs.Spines

import Phrasebook.Session
import Phrasebook.Json.RoundTrip
import Phrasebook.Json.Grammar
import Phrasebook.Proofs.Plain
import Phrasebook.Proofs.Scanning
import Phrasebook.Proofs.Filling
import Phrasebook.Proofs.Findings
import Phrasebook.Proofs.Faults
import Phrasebook.Proofs.Selection
import Phrasebook.Proofs.Rendering
import Phrasebook.Proofs.Runs
import Phrasebook.Proofs.Leftovers
import Phrasebook.Proofs.Splitting
import Phrasebook.Proofs.Literals
import Phrasebook.Proofs.Refilling
import Phrasebook.Proofs.Requests
import Phrasebook.Proofs.Dependence
import Phrasebook.Proofs.Isolation
import Phrasebook.Proofs.Positions
import Phrasebook.Proofs.Parsing
import Phrasebook.Proofs.Lexing
import Phrasebook.Proofs.Writing
import Phrasebook.Proofs.TranslationsText
import Phrasebook.Proofs.LocaleChoiceText
import Phrasebook.Proofs.Seams
import Phrasebook.Proofs.Repetitions
import Phrasebook.Proofs.Kinds
import Phrasebook.Proofs.Ordering
import Phrasebook.Proofs.Listings
import Phrasebook.Proofs.AddedVariants
import Phrasebook.Proofs.Edits
import Phrasebook.Proofs.Nearest
import Phrasebook.Proofs.Histories
import Phrasebook.Proofs.Extensionality
import Phrasebook.Proofs.Records
import Phrasebook.Proofs.Chronicle
import Phrasebook.Proofs.Integers
import Phrasebook.Proofs.Doubles

import ForwardAuth.Main
import ForwardAuth.Server.Router
import ForwardAuth.Proofs.Scope
import ForwardAuth.Proofs.Dialogue
import ForwardAuth.Proofs.Enforcement
import ForwardAuth.Proofs.Resolution
import ForwardAuth.Proofs.Naming
import ForwardAuth.Proofs.Interruption
import ForwardAuth.Proofs.Delivery
import ForwardAuth.Proofs.Authorization
import ForwardAuth.Proofs.Blank
import ForwardAuth.Proofs.HeaderText
import ForwardAuth.Proofs.Selection
import ForwardAuth.Proofs.Installation
import ForwardAuth.Proofs.Reloading
import ForwardAuth.Proofs.NumeralGrammar
import ForwardAuth.Proofs.JsonGrammar
import ForwardAuth.Proofs.JsonLexing
import ForwardAuth.Proofs.JsonReading
import ForwardAuth.Proofs.JsonStrings
import ForwardAuth.Proofs.JsonNumbers
import ForwardAuth.Proofs.Partwise
import ForwardAuth.Proofs.JsonRoundtrip
import ForwardAuth.Proofs.Answer
import ForwardAuth.Proofs.Cancellation
import ForwardAuth.Proofs.History
import ForwardAuth.Proofs.Isolation
import ForwardAuth.Proofs.Shutdown
import ForwardAuth.Proofs.JsonCharacters
import ForwardAuth.Proofs.JsonValues
import ForwardAuth.Proofs.JsonTexts
import ForwardAuth.Proofs.TokenRoundtrip
import ForwardAuth.Proofs.Base64Grammar
import ForwardAuth.Proofs.TokenGrammar
import ForwardAuth.Proofs.ClaimReading
import ForwardAuth.Proofs.Routing
import ForwardAuth.Proofs.Accounting
import ForwardAuth.Proofs.Records
import ForwardAuth.Proofs.Decoding
import ForwardAuth.Proofs.Questions
import ForwardAuth.Proofs.Addresses
import ForwardAuth.Proofs.Postable
import ForwardAuth.Proofs.ReviewCounts
import ForwardAuth.Proofs.Turns
import ForwardAuth.Proofs.TargetReading
import ForwardAuth.Proofs.CertificateNames
import ForwardAuth.Proofs.Directories
import ForwardAuth.Proofs.GroupOrder
import ForwardAuth.Proofs.Anchoring
import ForwardAuth.Proofs.Acceptance
import ForwardAuth.Proofs.InFlight

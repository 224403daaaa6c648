import TripleInference.Fact.Wording
import TripleInference.Interchange.Codec
import TripleInference.RuleText.Resolve
import TripleInference.Store.Recording
import TripleInference.Engine.Run
import TripleInference.Proofs.Engine.Closure
import TripleInference.Proofs.Engine.Termination
import TripleInference.Proofs.Fact.Canonical
import TripleInference.Proofs.Engine.Accounting
import TripleInference.Proofs.Engine.Addition
import TripleInference.Proofs.Engine.Chaining
import TripleInference.Proofs.Engine.Explanation
import TripleInference.Proofs.Fact.Retrieval
import TripleInference.Proofs.Fact.Numbering
import TripleInference.Proofs.RuleText.Grammar
import TripleInference.Proofs.RuleText.Layout
import TripleInference.Proofs.RuleText.Reading
import TripleInference.Proofs.RuleText.Document
import TripleInference.Proofs.RuleText.Meaning
import TripleInference.Proofs.Lockstep
import TripleInference.Proofs.Network.Renumbering
import TripleInference.Proofs.Network.Filing
import TripleInference.Proofs.Engine.Mirroring
import TripleInference.Proofs.Engine.BackwardRules
import TripleInference.Proofs.Engine.Scripted
import TripleInference.Proofs.Engine.Interruption
import TripleInference.Proofs.Engine.Operation
import TripleInference.Proofs.Engine.Lifecycle
import TripleInference.Proofs.Engine.AxiomFirings
import TripleInference.Proofs.Engine.Logging
import TripleInference.Proofs.Engine.Taking
import TripleInference.Proofs.Engine.Stepwise
import TripleInference.Proofs.Network.Enumeration
import TripleInference.Proofs.Engine.Entries
import TripleInference.Proofs.Matching.Merging
import TripleInference.Proofs.Matching.Unifying
import TripleInference.Proofs.Network.Acceptance
import TripleInference.Proofs.Network.Appending
import TripleInference.Proofs.Fact.Building
import TripleInference.Proofs.Engine.Lookups
import TripleInference.Proofs.Engine.Separation
import TripleInference.Proofs.RuleText.Scoping
import TripleInference.Proofs.RuleText.SyntaxErrors
import TripleInference.Proofs.RuleText.Literals
import TripleInference.Proofs.Network.Reporting
import TripleInference.Proofs.Engine.Reporting
import TripleInference.Proofs.Engine.AxiomTracing
import TripleInference.Proofs.Network.Pairing
import TripleInference.Proofs.Store.Union

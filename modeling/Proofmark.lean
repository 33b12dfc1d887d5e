import Proofmark.Aml.Disguise
import Proofmark.Aml.EditDistance
import Proofmark.Aml.Engine
import Proofmark.Aml.Equivalence
import Proofmark.Aml.Identity
import Proofmark.Aml.Match
import Proofmark.Aml.Monotone
import Proofmark.Aml.NormalForm
import Proofmark.Aml.Normalize
import Proofmark.Aml.Retrieval
import Proofmark.Aml.Romanize
import Proofmark.Aml.Softening
import Proofmark.Contract.ComplianceSource
import Proofmark.Contract.GatedRwaNote
import Proofmark.Contract.MarkAttrs
import Proofmark.Contract.ProofmarkASC
import Proofmark.Contract.ProofmarkRegistry
import Proofmark.Contract.ProofmarkTypes
import Proofmark.Contract.RosterProof
import Proofmark.Contract.RotatingIssuer
import Proofmark.Contract.SourceEvents
import Proofmark.Contract.ZkKycPolicyGate
import Proofmark.Evm.ERC20
import Proofmark.Evm.Ownable
import Proofmark.Evm.Types
import Proofmark.Hub.Convergence
import Proofmark.Hub.Diagnosis
import Proofmark.Hub.EpochEffects
import Proofmark.Hub.FrozenPolicy
import Proofmark.Hub.Genuine
import Proofmark.Hub.LogEffects
import Proofmark.Hub.QueryIdentity
import Proofmark.Hub.ReceiptFixture
import Proofmark.Hub.ReceiptOrder
import Proofmark.Hub.Runs
import Proofmark.Hub.SourceOrder
import Proofmark.Hub.Verification
import Proofmark.Issuer.CompromiseCutoff
import Proofmark.Issuer.IssuerChain
import Proofmark.Issuer.KeyEffects
import Proofmark.Issuer.KeySafety
import Proofmark.Lib.BlockTree
import Proofmark.Lib.CanonicalOrder
import Proofmark.Lib.EditScript
import Proofmark.Lib.HexText
import Proofmark.Lib.InsertionMap
import Proofmark.Lib.JsValue
import Proofmark.Lib.Json
import Proofmark.Lib.Keyed
import Proofmark.Lib.Latest
import Proofmark.Lib.Ledger
import Proofmark.Lib.Lexicographic
import Proofmark.Lib.Machine
import Proofmark.Lib.PatriciaTrie
import Proofmark.Lib.PositionalMerkle
import Proofmark.Lib.Postings
import Proofmark.Lib.PrimeCertificate
import Proofmark.Lib.Related
import Proofmark.Lib.Revert
import Proofmark.Lib.Rlp
import Proofmark.Lib.Utf8
import Proofmark.Lib.Words
import Proofmark.Note.Governance
import Proofmark.Note.NoteEffects
import Proofmark.Pipeline.Acknowledgement
import Proofmark.Pipeline.Attrs
import Proofmark.Pipeline.AttrsAgree
import Proofmark.Pipeline.BankSafety
import Proofmark.Pipeline.BankState
import Proofmark.Pipeline.BankStores
import Proofmark.Pipeline.BankStoresAgree
import Proofmark.Pipeline.BudgetSafety
import Proofmark.Pipeline.Canonical
import Proofmark.Pipeline.CredentialIdentity
import Proofmark.Pipeline.Disclosure
import Proofmark.Pipeline.Evidence
import Proofmark.Pipeline.ExternalCredential
import Proofmark.Pipeline.HonestIssuance
import Proofmark.Pipeline.IdentityPolicy
import Proofmark.Pipeline.IssuanceBudget
import Proofmark.Pipeline.IssuanceDelivery
import Proofmark.Pipeline.IssuanceEffects
import Proofmark.Pipeline.IssuanceEvm
import Proofmark.Pipeline.IssuanceJournal
import Proofmark.Pipeline.IssuanceSafety
import Proofmark.Pipeline.Issue
import Proofmark.Pipeline.JournalBookkeeping
import Proofmark.Pipeline.JournalScript
import Proofmark.Pipeline.KrAdapter
import Proofmark.Pipeline.OnchainState
import Proofmark.Pipeline.PublicationDelivery
import Proofmark.Pipeline.PublicationJournal
import Proofmark.Pipeline.PublicationSafety
import Proofmark.Pipeline.ReceiptsRoot
import Proofmark.Pipeline.RevocationDelivery
import Proofmark.Pipeline.RevocationSafety
import Proofmark.Pipeline.Roster
import Proofmark.Pipeline.RosterBundle
import Proofmark.Pipeline.RosterBundleRead
import Proofmark.Pipeline.RosterBundleText
import Proofmark.Pipeline.RosterExport
import Proofmark.Pipeline.RosterRoundTrip
import Proofmark.Pipeline.RosterSource
import Proofmark.Pipeline.StatusFence
import Proofmark.Pipeline.SumsubFence
import Proofmark.Pipeline.SumsubSession
import Proofmark.Pipeline.SumsubStore
import Proofmark.Pipeline.Vault
import Proofmark.Pipeline.VaultCompliance
import Proofmark.Pipeline.VaultEffects
import Proofmark.Pipeline.VaultErasure
import Proofmark.Pipeline.VaultSerial
import Proofmark.Pipeline.VaultWriter
import Proofmark.Pipeline.WireText
import Proofmark.Roster.HubAgreement
import Proofmark.Roster.Inclusion
import Proofmark.Roster.LifecycleReplay
import Proofmark.Roster.NonInclusion
import Proofmark.Roster.ReceiptsBinding
import Proofmark.Roster.ReceiptsTrie
import Proofmark.Roster.Resume
import Proofmark.Roster.VerifierAgreement
import Proofmark.Source.CallEffects
import Proofmark.Source.Chain
import Proofmark.Source.DenialCorrection
import Proofmark.Worker.Proof
import Proofmark.Worker.Recovery
import Proofmark.Worker.RecoveryAudit
import Proofmark.Worker.RecoveryFacts
import Proofmark.Worker.RecoverySafety
import Proofmark.Worker.Relay
import Proofmark.Worker.RelaySafety
import Proofmark.Worker.ScanEffects
import Proofmark.Worker.ScanExact
import Proofmark.Worker.ScanSafety
import Proofmark.Worker.SourceScan
import Proofmark.Worker.Store
import Proofmark.Worker.StoreEffects
import Proofmark.Zk.GateSafety
import Proofmark.Zk.KycPolicy
import Proofmark.Zk.KycStatement
import Proofmark.Zk.PresentationSafety

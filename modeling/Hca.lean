import Hca.Interface.HashInputs
import Hca.Analysis.MerkleProofs
import Hca.Library.BigEndian
import Hca.Library.HashTree
import Hca.Analysis.DomainSeparation
import Hca.Analysis.MerkleSoundness
import Hca.Library.Reader
import Hca.Program.Rlp
import Hca.Analysis.RlpPrimitives
import Hca.Analysis.TransactionCodec
import Hca.Analysis.TransactionRoundTrip
import Hca.Analysis.WireMalleability
import Hca.Analysis.LeafAdmission
import Hca.Analysis.StoredTree
import Hca.Analysis.WireLimits
import Hca.Analysis.DecoderSafety
import Hca.Program.CompactProofs
import Hca.Analysis.MerkleSafety
import Hca.Analysis.ScriptRuns
import Hca.Analysis.GasSchedule
import Hca.Analysis.CanonicalForms
import Hca.Analysis.WitnessEncoders
import Hca.Interface.TreeSpecification
import Hca.Analysis.CompactVerification
import Hca.Analysis.TreeSpecification
import Hca.Analysis.CompactProofs
import Hca.Analysis.SiblingPayloads
import Hca.Model.Json
import Hca.Program.Text
import Hca.Program.Cli
import Hca.Program.Wasm
import Hca.Program.Builder
import Hca.Program.Commands
import Hca.Analysis.HexTexts
import Hca.Interface.Spends
import Hca.Analysis.Spends
import Hca.Interface.JsonFields
import Hca.Analysis.JsonTransactions
import Hca.Analysis.JsonLeaves
import Hca.Interface.PrintedJson
import Hca.Analysis.ProofCommands
import Hca.Interface.Vectors
import Hca.Analysis.Vectors
import Hca.Analysis.CommandSafety
import Hca.Analysis.SpendGas
import Hca.Library.WordLengths
import Hca.Interface.Targets
import Hca.Analysis.TargetAgreement
import Hca.Analysis.SpendCommands
import Hca.Analysis.ReEncoding
import Hca.Library.CallRuns
import Hca.Interface.Builders
import Hca.Analysis.Builders
import Hca.Analysis.ScriptComposition
import Hca.Library.ErrorKinds
import Hca.Analysis.DecoderVerdicts
import Hca.Analysis.CompactSoundness
import Hca.Analysis.HashCommands
import Hca.Analysis.WitnessRuns
import Hca.Interface.Policies
import Hca.Analysis.Policies

import MeowChain.Adapter.Acceptance
import MeowChain.Adapter.RustValues
import MeowChain.Adapter.TypeNames
import MeowChain.Chain.Anchoring
import MeowChain.Chain.ArrivalOrder
import MeowChain.Chain.Grinding
import MeowChain.Chain.Heights
import MeowChain.Chain.MempoolHistory
import MeowChain.Chain.ObjectEffects
import MeowChain.Chain.Pending
import MeowChain.Chain.Rewards
import MeowChain.Chain.Sufficiency
import MeowChain.Compiler.Comments
import MeowChain.Compiler.FieldPrivacy
import MeowChain.Compiler.Framework
import MeowChain.Compiler.ModuleCycles
import MeowChain.Compiler.StructCycles
import MeowChain.Executor.Privacy
import MeowChain.Executor.RoundTrip
import MeowChain.Gossip.Refinement
import MeowChain.Soundness.ArbitraryCode
import MeowChain.Soundness.Growth
import MeowChain.Soundness.InstructionBound
import MeowChain.Soundness.Linearity
import MeowChain.Verifier.Joins

import CapabilityCompiler.Foundation.Table
import CapabilityCompiler.Models.Operations

/-! How the inputs of a capability are obtained. -/
namespace CapabilityCompiler.Quality
open Foundation Models

inductive InputKind where
  | query
  | filter
  | resourceSelector
  | trustedContext
  | literal
deriving DecidableEq

inductive Acquisition where
  | caller
  | trustedContext
  | default
  | upstreamStep
  | capabilityOutput
deriving DecidableEq

structure CapabilityInputQuality where
  kind : InputKind
  acquisition : Acquisition
  producers : List String

structure CapabilityQuality where
  inputs : Table String CapabilityInputQuality

inductive Capability where
  | read (capability : ReadCapability)
  | action (capability : ActionCapability)

def Capability.inputSchema : Capability → Fields
  | .read capability => capability.inputSchema
  | .action capability => capability.inputSchema

end CapabilityCompiler.Quality

import CapabilityCompiler.Foundation.Saturation
import CapabilityCompiler.Foundation.Text
import CapabilityCompiler.Quality.Models

/-! Which capabilities can be constructed from what a caller has. -/
namespace CapabilityCompiler.Quality
open Foundation

structure CapabilityDiscoveryEdge where
  producer : String
  consumer : String
  inputName : String
deriving DecidableEq

structure CapabilityDiscoveryGraph where
  nodes : List String
  edges : List CapabilityDiscoveryEdge
  entrypoints : List String
  reachable : List String
  deadEnds : List String

def string? : Json → Option String
  | .str s => some s
  | _ => none

/-- What is not a list of names requires nothing. -/
def requiredInputs (capability : Capability) : List String :=
  match Json.field? "required" capability.inputSchema with
  | some (.arr items) => (items.filterMap string?).insertionSort (· ≤ ·)
  | _ => []

def intrinsicEntrypoint (capability : Capability) : Option CapabilityQuality → Bool
  | none => (requiredInputs capability).isEmpty
  | some quality => (requiredInputs capability).all fun name =>
    match quality.inputs.get? name with
    | none => false
    | some metadata =>
      metadata.acquisition != .capabilityOutput && metadata.acquisition != .upstreamStep

section
variable (capabilities : Table String Capability) (qualities : Table String CapabilityQuality)

def discoveryNodes : List String := Text.sortedSet (capabilities.map Prod.fst)

/-- The order of edges: by producer, then consumer, then input. -/
def CapabilityDiscoveryEdge.le (first second : CapabilityDiscoveryEdge) : Prop :=
  first.producer < second.producer ∨ first.producer = second.producer ∧
    (first.consumer < second.consumer ∨ first.consumer = second.consumer ∧
      first.inputName ≤ second.inputName)

instance (first second : CapabilityDiscoveryEdge) : Decidable (first.le second) :=
  inferInstanceAs (Decidable (_ ∨ _))

def discoveryEdges : List CapabilityDiscoveryEdge :=
  (qualities.flatMap fun (capabilityId, quality) =>
    if (capabilities.get? capabilityId).isSome then
      quality.inputs.flatMap fun (inputName, metadata) =>
        if metadata.acquisition = .capabilityOutput then
          (metadata.producers.filter fun producer => (capabilities.get? producer).isSome).map
            fun producer => ⟨producer, capabilityId, inputName⟩
        else []
    else []).insertionSort CapabilityDiscoveryEdge.le

def discoveryEntrypoints : List String :=
  (discoveryNodes capabilities).filter fun capabilityId =>
    match capabilities.get? capabilityId with
    | some capability => intrinsicEntrypoint capability (qualities.get? capabilityId)
    | none => false

/-- The body of the inner loop for a capability that is not reachable yet. -/
def constructible (capabilityId : String) (reachable : List String) : Bool :=
  match capabilities.get? capabilityId, qualities.get? capabilityId with
  | some capability, some quality => (requiredInputs capability).all fun inputName =>
    match quality.inputs.get? inputName with
    | none => false
    | some metadata =>
      if metadata.acquisition = .upstreamStep then false
      else if metadata.acquisition = .capabilityOutput then
        metadata.producers.any fun producer => decide (producer ∈ reachable)
      else true
  | _, _ => false

/-- There are at most as many rounds that reach a capability as there are capabilities. -/
def buildCapabilityDiscoveryGraph : Option CapabilityDiscoveryGraph :=
  let nodes := discoveryNodes capabilities
  let entrypoints := discoveryEntrypoints capabilities qualities
  (Saturation.saturate (constructible capabilities qualities) nodes (nodes.length + 1)
      entrypoints).map fun reachable =>
    { nodes
      edges := discoveryEdges capabilities qualities
      entrypoints
      reachable := Text.sortedSet reachable
      deadEnds := nodes.filter fun capabilityId => decide (capabilityId ∉ reachable) }

/-! What the graph is about. -/

/-- An input that can be supplied: it is there from the start, or one of its producers is at hand. -/
def Supplied (quality : CapabilityQuality) (reachable : Set String) (inputName : String) : Prop :=
  ∃ metadata, quality.inputs.get? inputName = some metadata ∧
    metadata.acquisition ≠ .upstreamStep ∧
    (metadata.acquisition = .capabilityOutput → ∃ producer ∈ metadata.producers, producer ∈ reachable)

/-- Every required input of a capability can be supplied. -/
def Constructible (reachable : Set String) (capabilityId : String) : Prop :=
  ∃ capability, capabilities.get? capabilityId = some capability ∧
    ∀ inputName ∈ requiredInputs capability, ∃ quality,
      qualities.get? capabilityId = some quality ∧ Supplied quality reachable inputName

end

variable {capabilities : Table String Capability} {qualities : Table String CapabilityQuality}

theorem Constructible.mono {reachable more : Set String} (hsub : reachable ⊆ more)
    {capabilityId : String} (h : Constructible capabilities qualities reachable capabilityId) :
    Constructible capabilities qualities more capabilityId := by
  obtain ⟨capability, hcapability, hinputs⟩ := h
  refine ⟨capability, hcapability, fun inputName hname => ?_⟩
  obtain ⟨quality, hquality, metadata, hmetadata, hupstream, hproducers⟩ := hinputs inputName hname
  refine ⟨quality, hquality, metadata, hmetadata, hupstream, fun houtput => ?_⟩
  obtain ⟨producer, hproducer, hreachable⟩ := hproducers houtput
  exact ⟨producer, hproducer, hsub hreachable⟩

/-- For a capability that is no entrypoint the loop asks whether it is constructible. -/
theorem constructible_iff {capabilityId : String}
    (h : capabilityId ∉ discoveryEntrypoints capabilities qualities) (reachable : List String) :
    constructible capabilities qualities capabilityId reachable = true ↔
      Constructible capabilities qualities {other | other ∈ reachable} capabilityId := by
  unfold constructible Constructible
  cases hcapability : capabilities.get? capabilityId with
  | none => simp
  | some capability =>
    have hnode : capabilityId ∈ discoveryNodes capabilities :=
      Text.mem_sortedSet.mpr (List.mem_map_of_mem (Table.mem_of_get? hcapability))
    have hentry : intrinsicEntrypoint capability (qualities.get? capabilityId) = false := by
      by_contra hentry
      exact h (List.mem_filter.mpr ⟨hnode, by simpa [hcapability] using hentry⟩)
    cases hquality : qualities.get? capabilityId with
    | none =>
      rw [hquality, intrinsicEntrypoint, List.isEmpty_eq_false_iff] at hentry
      obtain ⟨inputName, hname⟩ := List.exists_mem_of_ne_nil _ hentry
      constructor
      · intro hfalse
        simp at hfalse
      · rintro ⟨other, hother, hinputs⟩
        obtain rfl := Option.some.inj hother
        obtain ⟨quality, hnone, -⟩ := hinputs inputName hname
        simp at hnone
    | some quality =>
      simp only [List.all_eq_true, Option.some.injEq, exists_eq_left']
      refine forall₂_congr fun inputName _ => ?_
      unfold Supplied
      cases hmetadata : quality.inputs.get? inputName with
      | none => simp
      | some metadata =>
        cases hacquisition : metadata.acquisition <;> simp [hacquisition]

/-- An entrypoint needs no other capability. -/
theorem constructible_of_intrinsic {capabilityId : String}
    (h : capabilityId ∈ discoveryEntrypoints capabilities qualities) :
    Constructible capabilities qualities ∅ capabilityId := by
  have hentry := (List.mem_filter.mp h).2
  cases hcapability : capabilities.get? capabilityId with
  | none => simp [hcapability] at hentry
  | some capability =>
    simp only [hcapability] at hentry
    refine ⟨capability, hcapability, fun inputName hname => ?_⟩
    cases hquality : qualities.get? capabilityId with
    | none =>
      rw [hquality, intrinsicEntrypoint, List.isEmpty_iff] at hentry
      rw [hentry] at hname
      exact absurd hname List.not_mem_nil
    | some quality =>
      rw [hquality, intrinsicEntrypoint, List.all_eq_true] at hentry
      have hinput := hentry inputName hname
      refine ⟨quality, rfl, ?_⟩
      cases hmetadata : quality.inputs.get? inputName with
      | none => simp [hmetadata] at hinput
      | some metadata =>
        simp only [hmetadata, Bool.and_eq_true, bne_iff_ne] at hinput
        exact ⟨metadata, hmetadata, hinput.2, fun houtput => absurd houtput hinput.1⟩

theorem mem_discoveryNodes {capabilityId : String} :
    capabilityId ∈ discoveryNodes capabilities ↔ (capabilities.get? capabilityId).isSome = true := by
  rw [discoveryNodes, Text.mem_sortedSet]
  constructor
  · intro hmem
    by_contra hnone
    rw [Option.not_isSome_iff_eq_none] at hnone
    exact Table.not_mem_of_get?_none hnone hmem
  · intro hsome
    obtain ⟨capability, hcapability⟩ := Option.isSome_iff_exists.mp hsome
    exact List.mem_map_of_mem (Table.mem_of_get? hcapability)

theorem exists_reachable (capabilities : Table String Capability)
    (qualities : Table String CapabilityQuality) :
    ∃ reachable, Saturation.saturate (constructible capabilities qualities)
      (discoveryNodes capabilities) ((discoveryNodes capabilities).length + 1)
      (discoveryEntrypoints capabilities qualities) = some reachable := by
  have hnodup : (discoveryEntrypoints capabilities qualities).Nodup :=
    (Text.nodup_sortedSet _).filter _
  have hsub : discoveryEntrypoints capabilities qualities ⊆ discoveryNodes capabilities :=
    List.filter_subset_self _
  refine Option.isSome_iff_exists.mp (Saturation.saturate_isSome .start hnodup hsub ?_)
  omega

/-- The graph is built for all capabilities. What is reachable is the least set that has every
capability it makes constructible, each one in an order that constructs it; a cycle that needs
itself is not reachable, and the dead ends are what is not. -/
theorem reachable_least (capabilities : Table String Capability)
    (qualities : Table String CapabilityQuality) :
    ∃ graph, buildCapabilityDiscoveryGraph capabilities qualities = some graph ∧
      (∀ capabilityId, capabilityId ∈ graph.nodes ↔
        (capabilities.get? capabilityId).isSome = true) ∧
      IsLeast {S : Set String | Saturation.Closed (Constructible capabilities qualities) graph.nodes S}
        {capabilityId | capabilityId ∈ graph.reachable} ∧
      (∀ capabilityId ∈ graph.reachable, ∃ order : List String, order.Nodup ∧
        order ⊆ graph.reachable ∧ capabilityId ∈ order ∧
        Saturation.Ordered (Constructible capabilities qualities) order) ∧
      (∀ cycle : Set String, (∀ capabilityId ∈ cycle,
        ¬ Constructible capabilities qualities (Set.compl cycle) capabilityId) →
        ∀ capabilityId ∈ cycle, capabilityId ∉ graph.reachable) ∧
      ∀ capabilityId, capabilityId ∈ graph.deadEnds ↔
        capabilityId ∈ graph.nodes ∧ capabilityId ∉ graph.reachable := by
  obtain ⟨reachable, hrun⟩ := exists_reachable capabilities qualities
  have hsub : discoveryEntrypoints capabilities qualities ⊆ discoveryNodes capabilities :=
    List.filter_subset_self _
  have hstep := fun capabilityId
    (h : capabilityId ∉ discoveryEntrypoints capabilities qualities) => constructible_iff h
  have hmono := fun (S T : Set String) capabilityId (hST : S ⊆ T) =>
    @Constructible.mono capabilities qualities S T hST capabilityId
  have hstart := fun capabilityId => @constructible_of_intrinsic capabilities qualities capabilityId
  have htaken := Saturation.Taken.start.saturate hrun
  have hleast := Saturation.isLeast_of_saturate hstep hmono hsub hstart hrun
  have hordered := htaken.ordered hstep hmono hstart
  have hreachable : ∀ capabilityId, capabilityId ∈ Text.sortedSet reachable ↔
      capabilityId ∈ reachable := fun _ => Text.mem_sortedSet
  refine ⟨_, by rw [buildCapabilityDiscoveryGraph, hrun]; rfl, fun _ => mem_discoveryNodes, ?_, ?_,
    ?_, ?_⟩
  · simpa only [hreachable] using hleast
  · intro capabilityId hmem
    refine ⟨reachable.reverse, List.nodup_reverse.mpr (htaken.nodup ?_), ?_, ?_, hordered⟩
    · exact (Text.nodup_sortedSet _).filter _
    · intro other hother
      exact (hreachable other).mpr (List.mem_reverse.mp hother)
    · exact List.mem_reverse.mpr ((hreachable capabilityId).mp hmem)
  · intro cycle hcycle capabilityId hmem hreached
    have hclosed : Saturation.Closed (Constructible capabilities qualities)
        (discoveryNodes capabilities) (Set.compl cycle) := by
      intro other _ hconstructible hother
      exact hcycle other hother hconstructible
    exact hleast.2 hclosed ((hreachable capabilityId).mp hreached) hmem
  · intro capabilityId
    simp [hreachable]

end CapabilityCompiler.Quality

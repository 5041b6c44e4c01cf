import AaOS.Daemon.PrivateMemory

/-!
# Approval of tool calls along chains of agents

The services of `aaos-runtime/src/services.rs` ask for an approval before they invoke a tool that
the manifest of the agent lists.  Nothing is added to a manifest from the one of the spawning
agent, so the descendants of an agent use its tools without an approval, unless their manifests
list them as well.
-/

/-- The answer of a human. -/
inductive ApprovalResult where
  | approved
  | denied (reason : Text)
  | timeout

structure ApprovalRequest where
  agentId : AgentId
  agentName : Text
  description : Text
  tool : Option Text
  input : Option Json

inductive ServiceEvent where
  | requested (request : ApprovalRequest) (answer : Except CoreError ApprovalResult)
  | invoked (agentId : AgentId) (tool : Text) (input : Json) (handles : List CapabilityHandle)

structure ToolServices where
  request : ApprovalRequest → Except CoreError ApprovalResult
  invoke : AgentId → Text → Json → List CapabilityHandle → Except CoreError Json

namespace ToolServices

variable (services : ToolServices)

def question (manifest : AgentManifest) (agentId : AgentId) (tool : Text) (input : Json) :
    ApprovalRequest where
  agentId := agentId
  agentName := manifest.name
  description := "Agent '" ++ manifest.name ++ "' wants to invoke tool '" ++ tool
    ++ "'"
  tool := some tool
  input := some input

def invokeWithHandles (registry : AgentRegistry) (agentId : AgentId) (tool : Text) (input : Json) :
    List ServiceEvent × Except CoreError Json :=
  match registry.getTokenHandles agentId with
  | .error e => ([], .error e)
  | .ok handles =>
    ([.invoked agentId tool input handles], services.invoke agentId tool input handles)

def invokeTool (registry later : AgentRegistry) (agentId : AgentId) (tool : Text) (input : Json) :
    List ServiceEvent × Except CoreError Json :=
  match registry.getManifest agentId with
  | .error _ => services.invokeWithHandles later agentId tool input
  | .ok manifest =>
    if tool ∈ manifest.approvalRequired then
      let request := question manifest agentId tool input
      let answer := services.request request
      match answer with
      | .error e => ([.requested request answer], .error e)
      | .ok .approved =>
        let invoked := services.invokeWithHandles later agentId tool input
        (.requested request answer :: invoked.1, invoked.2)
      | .ok (.denied reason) =>
        ([.requested request answer],
          .error (.capabilityDenied agentId (.toolInvoke tool)
            ("human denied: " ++ reason)))
      | .ok .timeout =>
        ([.requested request answer],
          .error (.capabilityDenied agentId (.toolInvoke tool) "approval timed out"))
    else services.invokeWithHandles later agentId tool input

end ToolServices

def ApprovedFirst (agentId : AgentId) (tool : Text) (input : Json) (events : List ServiceEvent) :
    Prop :=
  ∀ before handles after, events = before ++ .invoked agentId tool input handles :: after →
    ∃ request, .requested request (.ok .approved) ∈ before ∧ request.agentId = agentId
      ∧ request.tool = some tool ∧ request.input = some input

def NeedsApproval (registry : AgentRegistry) (agentId : AgentId) (tool : Text) : Prop :=
  ∀ (services : ToolServices) later input,
    ApprovedFirst agentId tool input (services.invokeTool registry later agentId tool input).1

/-! ### Calls of a tool -/

section Calls

variable {registry : AgentRegistry} {agentId : AgentId} {tool : Text}

theorem needsApproval_iff {process : AgentProcess}
    (hproc : registry.agents.lookup agentId = some process) :
  NeedsApproval registry agentId tool ↔ tool ∈ process.manifest.approvalRequired
  := by
  have hman : registry.getManifest agentId = .ok process.manifest :=
    AgentRegistry.getManifest_eq_ok.mpr ⟨process, hproc, rfl⟩
  constructor
  · intro hneeds
    by_contra hlist
    have hhand : registry.getTokenHandles agentId = .ok process.capabilities := by
      simp only [AgentRegistry.getTokenHandles, hproc]
    obtain ⟨request, hreq, -⟩ := hneeds ⟨fun _ => .ok .timeout, fun _ _ _ _ => .ok .null⟩
      registry .null [] process.capabilities [] (by
        simp only [ToolServices.invokeTool, hman, if_neg hlist,
          ToolServices.invokeWithHandles, hhand, List.nil_append])
    cases hreq
  · intro hlist services later input before handles after hevent
    have hmem : .invoked agentId tool input handles
        ∈ (services.invokeTool registry later agentId tool input).1 := by
      rw [hevent]
      simp
    simp only [ToolServices.invokeTool, hman, if_pos hlist] at hevent hmem
    cases hans : services.request
        (ToolServices.question process.manifest agentId tool input) with
    | error e => simp [hans] at hmem
    | ok result =>
      cases result with
      | denied reason | timeout => simp [hans] at hmem
      | approved =>
        simp only [hans] at hevent
        obtain ⟨-, hbef⟩ | ⟨rest, rfl, -⟩ := List.cons_eq_append_iff.mp hevent
        · cases hbef
        · exact ⟨_, List.mem_cons_self, rfl, rfl, rfl⟩

end Calls

/-! ### Chains of agents -/

namespace SpawnChain

variable {registry : AgentRegistry} {s : State}

/-- The child was spawned by an agent with the given manifest, or by one of its descendants. -/
inductive Descends (s : State) : AgentManifest → SpawnedChild → Prop
  | child {child} (hchild : child ∈ s.children) :
      Descends s child.parentManifest child
  | grandchild {ancestor} {parent child : SpawnedChild} (hparent : Descends s ancestor parent)
      (hchild : child ∈ s.children) (hspawned : child.parent = parent.id) :
      Descends s ancestor child

/-- A tool that an agent uses after an approval only is used by its descendants after an approval
only. -/
def ApprovalInherited (s : State) : Prop :=
  ∀ ancestor child, Descends s ancestor child →
    (s.registry.agents.lookup child.id).isSome = true →
    ∀ tool ∈ ancestor.approvalRequired, NeedsApproval s.registry child.id tool

theorem Descends.mem {ancestor : AgentManifest} {child : SpawnedChild}
    (hdes : Descends s ancestor child) :
  child ∈ s.children
  := by
  cases hdes with
  | child hchild => apply hchild
  | grandchild _ hchild _ => apply hchild

/-- Approvals are inherited exactly when each manifest lists the tools that those of its ancestors
list. -/
theorem approvalInherited_iff (hreaches : Reaches ⟨registry, []⟩ s) :
  ApprovalInherited s
    ↔ ∀ ancestor child, Descends s ancestor child →
      (s.registry.agents.lookup child.id).isSome = true →
      ancestor.approvalRequired ⊆ child.manifest.approvalRequired
  := by
  unfold ApprovalInherited
  apply forall₄_congr
  intro ancestor child hdes hreg
  obtain ⟨process, hproc⟩ := Option.isSome_iff_exists.mp hreg
  have hman : process.manifest = child.manifest :=
    ((Consistent.init registry).reaches hreaches).agent child hdes.mem process hproc
  simp only [needsApproval_iff hproc, hman]
  rfl

theorem Descends.approvalRequired_subset (hreach : Reaches ⟨registry, []⟩ s)
    (hlist : ∀ child ∈ s.children,
      child.parentManifest.approvalRequired ⊆ child.manifest.approvalRequired)
    {ancestor : AgentManifest} {child : SpawnedChild} (hdes : Descends s ancestor child) :
  ancestor.approvalRequired ⊆ child.manifest.approvalRequired
  := by
  induction hdes with
  | @child child hchild => apply hlist child hchild
  | @grandchild ancestor parent child hpar hchild hspawn ih =>
    have hman : child.parentManifest = parent.manifest :=
      ((Consistent.init registry).reaches hreach).parent parent hpar.mem child hchild hspawn
    apply List.Subset.trans ih
    rw [← hman]
    apply hlist child hchild

def searchHelper (approvalRequired : List Text) : AgentManifest :=
  { helperManifest [.simple "tool: grep"] with approvalRequired }

theorem approvalInherited_listed :
  Reaches ⟨masterRegistry ["grep".toList], []⟩
      (helped ["grep".toList] (searchHelper ["grep".toList]))
    ∧ ApprovalInherited (helped ["grep".toList] (searchHelper ["grep".toList]))
  := by
  have hreach : Reaches ⟨masterRegistry ["grep"], []⟩
      (helped ["grep"] (searchHelper ["grep"])) :=
    reaches_helped rfl
  refine ⟨hreach, ?_⟩
  rw [approvalInherited_iff hreach]
  intro ancestor child hdes _
  apply hdes.approvalRequired_subset hreach
  intro child hchild
  obtain rfl := List.mem_singleton.mp hchild
  apply List.Subset.refl

/-- An agent that may search after an approval only spawns a helper that searches without
one. -/
theorem not_approvalInherited_unlisted :
  Reaches ⟨masterRegistry ["grep".toList], []⟩ (helped ["grep".toList] (searchHelper []))
    ∧ ¬ ApprovalInherited (helped ["grep".toList] (searchHelper []))
  := by
  refine ⟨reaches_helped rfl, ?_⟩
  intro hinh
  have hneeds := hinh _ _ (.child (List.mem_singleton.mpr rfl)) rfl "grep"
    (List.mem_singleton.mpr rfl)
  obtain ⟨request, hreq, -⟩ := hneeds ⟨fun _ => .ok .timeout, fun _ _ _ _ => .ok .null⟩
    (helped ["grep"] (searchHelper [])).registry .null [] [⟨2⟩] [] rfl
  cases hreq

end SpawnChain

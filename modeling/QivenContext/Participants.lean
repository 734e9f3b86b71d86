import QivenContext.Service

/-!
# The participant graph

The runtime objects around the service, as far as the whole-graph predicate
`is_continueable` inspects them. Pointers are compared by address.
-/

namespace QivenContext

structure Device where
  address : ℕ
  reachable : Bool := true
  deriving DecidableEq, Inhabited

structure ParticipantBinding where
  modelId : Str := []
  deriving DecidableEq, Inhabited

structure LLM where
  address : ℕ
  name : Str := []
  pCognition : CognitionHandle := none

/-- The relay; it points to the model and the device it is bound to. -/
structure LLMClientTool where
  pCurrentLLM : Option ℕ := none
  pTargetDevice : Option ℕ := none
  binding : ParticipantBinding := {}
  operational : Bool := true

structure Human where
  verifiedPrincipal : PrincipalId := []

/-- The loop may go on: the edges of the graph agree, the state is restorable
from the store, the authority is present, the runtime plane is alive, and no
obligation is blocked. -/
def ServiceState.isContinueable {σ : Type} [Foundation] [CognitionStore σ] (s : ServiceState σ)
    (human : Option Human) (client : Option LLMClientTool) (device : Option Device)
    (llm : Option LLM) (handle : CognitionHandle) : Bool :=
  match human, client, device, llm, handle with
  | some human, some client, some device, some llm, some materialization =>
      if client.pCurrentLLM ≠ some llm.address ∨ client.pTargetDevice ≠ some device.address ∨
          ¬ materialization.isAt llm.pCognition then false
      else if client.binding.modelId ≠ llm.name then false
      else if materialization.revision.isEmpty ∨
          ¬ CognitionStore.verify s.store materialization.revision then false
      else if human.verifiedPrincipal.isEmpty ∨
          human.verifiedPrincipal ≠ materialization.state.governance.rootPrincipal then false
      else if ¬ client.operational ∨ ¬ device.reachable then false
      else ¬ ∃ obligation ∈ materialization.state.obligations, obligation.status = .blocked
  | _, _, _, _, _ => false

end QivenContext

import MlxRuntime.Python
import Mathlib.Data.List.Basic

/-!
# The records the scheduler, the executor and the cache coordinator exchange

Request ids are of an arbitrary type with decidable equality, cache handles are those
of the paged store, tokens are numbers.  Fields that carry time measurements and the
metric dictionaries are left out; nothing modelled reads them.
-/

namespace MlxRuntime

abbrev Token := ℕ

/-- `ExecutionPhase`. -/
inductive ExecutionPhase
  | prefill
  | decode
  deriving DecidableEq, Repr

/-- `ForwardMode`. -/
inductive ForwardMode
  | prefill
  | decode
  | mixed
  deriving DecidableEq, Repr

/-- `ForwardMode.from_phases`. -/
def ForwardMode.fromPhases (phases : List ExecutionPhase) : Except PyError ForwardMode :=
  let hasPrefill := phases.contains .prefill
  let hasDecode := phases.contains .decode
  if hasPrefill && !hasDecode then .ok .prefill
  else if hasDecode && !hasPrefill then .ok .decode
  else if hasPrefill && hasDecode then .ok .mixed
  else .error (.valueError "execution batch must contain prefill or decode work")

/-- `ExecutionRequest`. -/
structure ExecutionRequest (ρ : Type) where
  requestId : ρ
  phase : ExecutionPhase
  tokenIds : List Token
  positions : List ℕ
  cacheHandle : Option ℕ
  deriving DecidableEq

/-- `ExecutionBatch`. -/
structure ExecutionBatch (ρ : Type) where
  requests : List (ExecutionRequest ρ)
  deriving DecidableEq

/-- `ExecutionBatch.forward_mode`. -/
def ExecutionBatch.forwardMode {ρ : Type} (batch : ExecutionBatch ρ) :
    Except PyError ForwardMode :=
  ForwardMode.fromPhases (batch.requests.map ExecutionRequest.phase)

/-- `PrefixProbe`. -/
structure PrefixProbe where
  matchedTokens : ℕ := 0
  matchedPages : ℕ := 0
  cacheHandle : Option ℕ := none
  deriving DecidableEq

/-- `CacheAdmission`. -/
structure CacheAdmission where
  cacheHandle : ℕ
  cacheLength : ℕ
  reusedTokens : ℕ := 0
  reusedPages : ℕ := 0
  deriving DecidableEq

/-- `CachePublication`. -/
structure CachePublication where
  publishedTokens : ℕ := 0
  publishedPages : ℕ := 0
  deriving DecidableEq

/-- `StepRequestResult`. -/
structure StepRequestResult (ρ : Type) where
  requestId : ρ
  phase : ExecutionPhase
  tokenIds : List Token
  cacheHandle : Option ℕ
  cacheLength : ℕ
  nextTokenId : Option Token := none
  errorCode : Option String := none
  errorMessage : Option String := none
  deriving DecidableEq

/-- `StepResult`. -/
structure StepResult (ρ : Type) where
  forwardMode : ForwardMode
  results : List (StepRequestResult ρ)
  physicalBatchSize : ℕ
  modelForwardCount : ℕ
  deriving DecidableEq

end MlxRuntime

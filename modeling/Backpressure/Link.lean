/-!
# Links

A link takes the chunks and probes of a gate.  It may fail at any of them, and
as long as no receiver is connected, chunks are dropped.
-/

namespace Backpressure

/-- A piece of the byte stream. -/
abbrev Chunk := ByteArray

/-- A link to the transport. -/
structure Link where
  /-- Whether a receiver takes the chunks. -/
  connected : Bool
  /-- For each of the next chunks, whether the receiver fails at it; at all
  later ones it does not. -/
  chunkFailures : List Bool
  /-- The same for the next probes. -/
  probeFailures : List Bool
  deriving DecidableEq

namespace Link

/-- A link that does not fail. -/
def reliable (connected : Bool) : Link :=
  ⟨connected, [], []⟩

/-- Let the call of a number fail, where the next one is number one. -/
def failAt : Nat → List Bool → List Bool
  | 0, failures => failures
  | 1, failures => true :: failures.tail
  | number + 2, failures =>
    failures.headD false :: failAt (number + 1) failures.tail

/-- Let a receiver take the chunks from now on. -/
def connect (link : Link) : Link :=
  { link with connected := true }

/-- Whether the next chunk fails. -/
def chunkFails (link : Link) : Bool :=
  link.chunkFailures.headD false

/-- Whether the next probe fails. -/
def probeFails (link : Link) : Bool :=
  link.probeFailures.headD false

/-- The link after a chunk was given to its receiver. -/
def afterChunk (link : Link) : Link :=
  { link with chunkFailures := link.chunkFailures.tail }

/-- The link after a probe was given to it. -/
def afterProbe (link : Link) : Link :=
  { link with probeFailures := link.probeFailures.tail }

end Link
end Backpressure

import Backpressure.Binary64.Arithmetic
import Backpressure.Gate.Basic
import Backpressure.Log.Level

/-!
# What is logged

The messages for what happens in controllers and gates.
-/

namespace Backpressure

/-- The word for an adjustment. -/
def Adjustment.word : Adjustment → String
  | shrinkMultiplicative => "shrink-multiplicative"
  | shrink => "shrink"
  | growFast => "grow-fast"
  | grow => "grow"
  | hold => "hold"

/-- The adjustment that a word stands for. -/
def Adjustment.ofWord? (word : String) : Option Adjustment :=
  [shrinkMultiplicative, shrink, growFast, grow, hold].find? fun adjustment =>
    adjustment.word == word

namespace Notice

/-- The bandwidth in megabits per second that a window of bytes reaches with a
round trip in milliseconds. -/
def bandwidth (window base : Binary64) : Binary64 :=
  window * 8 / base / 1000

/-- The log entry for a notice of the controller. -/
def entry : Notice Binary64 → Log.Entry
  | adjusted adjustment _ window measurement =>
    { level := .debug
      text := "CongestionController:adjustWindow : RTT: " ++
        measurement.lowest.text ++ " ms (" ++ measurement.base.text ++
        " ms), Window: " ++ (window / 1024).floor.text ++
        " KiB, Bandwidth: " ++
        (bandwidth window measurement.base).fixedText 3 ++
        " Mbps (" ++ adjustment.word ++ ")" }
  | idleReset idle previous window =>
    { level := .debug
      text := "CongestionController:recordProgress : connection idle for " ++
        idle.text ++ " ms, resetting congestion control. Window " ++
        previous.text ++ " -> " ++ window.text }
  | backlog pending =>
    { level := .warn
      text := "CongestionController:probeSent : " ++ pending.text ++
        " probes are waiting for a response, is the peer still answering?" }
  | strayAnswer =>
    { level := .debug
      text := "CongestionController:probeAcked : " ++
        "response without a pending probe, ignoring" }

end Notice

/-- The log entry for an event of a gate, if it has one of its own. -/
def Gate.Event.entry? : Gate.Event Binary64 → Option Log.Entry
  | .notice report => some report.entry
  | .dropped chunk => some
    { level := .error
      text := "Calling non-existing pipe function, dropping " ++
        toString chunk.size ++ " bytes" }
  | .retryPlanned queuedBytes delay => some
    { level := .trace
      text := "CongestionGate:scheduleRetry : congested with " ++
        queuedBytes.text ++ " bytes queued, retrying in " ++
        delay.text ++ " ms" }
  | .forwarded _ | .probed | .timer _ => none

end Backpressure

import Backpressure.Alarm.Reaction
import Backpressure.Binary64.Word
import Backpressure.Controller.Action
import Backpressure.Gate.Action
import Backpressure.Log.Configuration
import Backpressure.Log.Report
import Backpressure.Proofs.Gate.HandOver
import Backpressure.Proofs.Binary64.Rounding
import Backpressure.Proofs.Binary64.Order
import Backpressure.Proofs.Window
import Backpressure.Proofs.Gate.Answers
import Backpressure.Proofs.Controller.Range
import Backpressure.Proofs.Controller.Arrival
import Backpressure.Proofs.Gate.Delay
import Backpressure.Proofs.Gate.Retry
import Backpressure.Proofs.Controller.Burst
import Backpressure.Proofs.Gate.Burst
import Backpressure.Proofs.Controller.Samples
import Backpressure.Proofs.Controller.Checks
import Backpressure.Proofs.Exact.Wrapping
import Backpressure.Proofs.Exact.Wait
import Backpressure.Proofs.Exact.Moving
import Backpressure.Proofs.Binary64.Monotone
import Backpressure.Proofs.Controller.Idle
import Backpressure.Proofs.Binary64.Unsigned
import Backpressure.Proofs.Controller.Compensation
import Backpressure.Proofs.Controller.Ledger
import Backpressure.Proofs.Controller.Journal
import Backpressure.Proofs.Controller.WireLatency
import Backpressure.Proofs.Controller.Divisors
import Backpressure.Proofs.Controller.Estimates
import Backpressure.Proofs.Gate.Bytes
import Backpressure.Proofs.Gate.Halting
import Backpressure.Proofs.Gate.Pairing
import Backpressure.Proofs.Exact.InFlight
import Backpressure.Proofs.Exact.Direction
import Backpressure.Proofs.Exact.Decay
import Backpressure.Proofs.Exact.Polling
import Backpressure.Proofs.Controller.Surplus
import Backpressure.Proofs.Exact.MoreDelay
import Backpressure.Proofs.Binary64.Quotient
import Backpressure.Proofs.Controller.Repeating
import Backpressure.Proofs.Controller.Refreshing
import Backpressure.Proofs.Exact.Countdown
import Backpressure.Proofs.Binary64.Ring
import Backpressure.Proofs.Alarm.Running
import Backpressure.Proofs.Controller.Pauses
import Backpressure.Proofs.Controller.Waiting
import Backpressure.Proofs.Gate.Rearming
import Backpressure.Proofs.Exact.Intervals

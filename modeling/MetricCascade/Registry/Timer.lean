/-
Flushing a registry by the clock, so that what comes in slowly is stored as well.
-/
import MetricCascade.Registry.Basic

namespace MetricCascade.Registry

/-- Flushes every line; what goes wrong is only reported. -/
def timedPass (r : Registry) : Registry :=
  match r.flushAll with
  | (.ok (.ok ()), r) => r
  | (.ok (.error e), r) => r.record (.timedPassFailed e)
  | (.error _, r) => r.record .timedPassAborted

/-- What a timer does that elapses so many times before it is stopped: one pass each time, and a last
one. -/
def runTimer : Nat → Registry → Registry
  | 0, r => r.timedPass
  | ticks + 1, r => runTimer ticks r.timedPass

end MetricCascade.Registry

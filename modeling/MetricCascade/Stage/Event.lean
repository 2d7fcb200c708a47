/-
What happens while indicators are merged, flushed and forwarded. Some events are reported as a line
of text, the others are only kept.
-/
import MetricCascade.Registry.Error
import MetricCascade.Table.Store

namespace MetricCascade

/-- A batch of a stage that could not be written. -/
structure FlushError where
  stage : Layout
  cause : StoreError
  deriving DecidableEq

def FlushError.message (e : FlushError) : String :=
  s!"flush of {e.stage.label} failed: {e.cause.message}"

inductive Event where
  /-- An update did not fit the entry of its key. -/
  | updateRejected (stage : Layout) (key : Key) (cause : CombineError)
  /-- So many entries were taken out of a retired window. -/
  | drained (stage : Layout) (entries : Nat)
  | lookupFailed (stage : Layout) (key : Key) (cause : StoreError)
  /-- What is stored under a key does not combine with the entry of that key. -/
  | combineFailed (stage : Layout) (key : Key) (cause : CombineError)
  | prepareFailed (stage : Layout) (key : Key) (cause : StoreError)
  /-- The window of an entry has no window at the next stage's level. -/
  | forwardFailed (stage : Layout) (key : Key) (next : Layout) (cause : BucketError)
  /-- A batch was handed to the store while the stages `flushing` were flushing. -/
  | batch (stage : Layout) (flushing : List Layout) (operations : List Operation) (accepted : Bool)
  | flushFailed (error : FlushError)
  /-- A flush of all lines met an error. -/
  | passFailed
  /-- A timed pass met an error. -/
  | timedPassFailed (error : FlushError)
  /-- A timed pass was aborted by a fault. -/
  | timedPassAborted
  /-- A span yielded no updates. -/
  | spanDropped (service : String) (cause : BucketError)
  /-- An update of a span was not taken. -/
  | updateDropped (cause : RegistryError)

namespace Event

/-- The line that reports the event, if it is reported. -/
def line? : Event → Option String
  | updateRejected stage key cause =>
    some s!"WARN {stage.label}: dropping update for {key.text}: {cause.message}"
  | lookupFailed stage key cause =>
    some s!"ERROR {stage.label}: failed to look up {key.text}: {cause.message}"
  | combineFailed stage key cause =>
    some s!"ERROR {stage.label}: failed to combine {key.text}: {cause.message}"
  | prepareFailed stage key cause =>
    some s!"ERROR {stage.label}: failed to prepare {key.text}: {cause.message}"
  | forwardFailed stage key next cause =>
    some s!"ERROR {stage.label}: failed to forward {key.text} to {next.label}: {cause.message}"
  | flushFailed error => some s!"ERROR {error.message}"
  | passFailed => some "ERROR Periodic persistence finished with errors"
  | timedPassFailed error => some s!"ERROR Persistence pass failed: {error.message}"
  | timedPassAborted => some "ERROR Persistence task did not complete"
  | spanDropped service cause => some s!"WARN Dropping span of {service}: {cause.message}"
  | updateDropped cause => some s!"WARN Dropping span update: {cause.message}"
  | drained _ _ => none
  | batch _ _ _ _ => none

end Event

end MetricCascade

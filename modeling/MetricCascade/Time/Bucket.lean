/-
Codes of time windows. A minute is written YYYYMMDDHHmm, and each coarser level drops the last two
digits, so the width of a code tells its level and re-coding at a coarser level is a division.
-/
import MetricCascade.Time.Level
import MetricCascade.Time.Calendar

namespace MetricCascade

/-- The decimal code of a time window. -/
structure Bucket where
  code : Int
  deriving DecidableEq

instance : ToString Bucket := ⟨fun b => toString b.code⟩

/-- Why a time window cannot be named. -/
inductive BucketError where
  /-- The code has the width of no level. -/
  | unknownLevel (bucket : Bucket)
  /-- The window is longer than the windows of the level asked for. -/
  | finerTarget (bucket : Bucket) (level target : Level)
  /-- The instant lies in a year without four digits. -/
  | outOfRange (ms : Int)
  deriving DecidableEq

def BucketError.message : BucketError → String
  | unknownLevel b => s!"time bucket {b} does not match any known granularity"
  | finerTarget b l t =>
    s!"cannot widen time bucket {b} from {l.name} to finer granularity {t.name}"
  | outOfRange ms => s!"timestamp {ms}ms is out of range"

namespace Bucket

/-- Whether the code has the width of the codes of `l`. -/
def hasLevel (b : Bucket) (l : Level) : Bool :=
  l.leastCode ≤ b.code && b.code < 10 * l.leastCode

/-- The level of a window, read off the width of its code. -/
def level? (b : Bucket) : Option Level := Level.all.find? b.hasLevel

def level (b : Bucket) : Except BucketError Level :=
  match b.level? with
  | some l => .ok l
  | none => .error (.unknownLevel b)

/-- Drops the last two digits, so many times. -/
def dropPairs : Nat → Int → Int
  | 0, n => n
  | k + 1, n => dropPairs k (n / 100)

/-- The window of level `target` that holds the window of `b`. -/
def widen (b : Bucket) (target : Level) : Except BucketError Bucket :=
  match b.level with
  | .error e => .error e
  | .ok l =>
    if l ≤ target then .ok ⟨dropPairs (target.rank - l.rank) b.code⟩
    else .error (.finerTarget b l target)

/-- Writes year, month, day, hour and minute one after the other, two digits each but the year. -/
def ofMinute (m : Minute) : Bucket :=
  ⟨m.date.year * 100000000 + m.date.month * 1000000 + m.date.day * 10000 + m.hour * 100 + m.minute⟩

/-- The minute that holds an instant, in milliseconds since the first of January 1970. Only years
of four digits have codes. -/
def ofMillis (ms : Int) : Except BucketError Bucket :=
  let b := ofMinute (Minute.ofMillis ms)
  if b.hasLevel .minute then .ok b else .error (.outOfRange ms)

end Bucket

end MetricCascade

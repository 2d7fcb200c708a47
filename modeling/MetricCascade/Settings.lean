/-
Settings, read from named texts. What is absent takes its default. Numbers are read first, and then
every value is checked, each in a fixed order; the first that fails is reported.
-/
import MetricCascade.Text.Blank
import MetricCascade.Text.Lower
import MetricCascade.Text.Numeral

namespace MetricCascade

structure Settings where
  /-- The number of entries at which a window is flushed. -/
  batchSize : Nat := 1000
  /-- The seconds between two timed passes. -/
  periodSeconds : Nat := 3
  /-- The longest pause between two looks at a window that is still written, in milliseconds. -/
  drainPollMillis : Nat := 10
  logLevel : String := "info"
  host : String := "0.0.0.0"
  portNumber : Nat := 11800
  deriving DecidableEq

inductive SettingsError where
  /-- The text of a setting is no number, or too large a number. -/
  | unreadable (name raw : String)
  | batchSizeZero
  | periodZero
  | drainPollZero
  | logLevelUnknown (found : String)
  | hostBlank
  | portNumberZero
  deriving DecidableEq

namespace Settings

def logLevels : List String := ["trace", "debug", "info", "warn", "error"]

end Settings

def SettingsError.message (e : SettingsError) : String :=
  "Invalid configuration: " ++
    match e with
    | unreadable name raw => s!"{name} has an invalid value '{raw}'"
    | batchSizeZero => "batch size must be greater than 0"
    | periodZero => "persistent period must be greater than 0"
    | drainPollZero => "drain poll maximum must be greater than 0"
    | logLevelUnknown found =>
      s!"Invalid log level '{found}'. Must be one of: " ++ ", ".intercalate Settings.logLevels
    | hostBlank => "OAP_HOST cannot be empty"
    | portNumberZero => "port must be greater than 0"

namespace Settings

/-- The greatest number of 64 bits. -/
def maxWord : Nat := 18446744073709551615

/-- The greatest number of 16 bits. -/
def maxPortNumber : Nat := 65535

/-- Reads the number of a name, passing over blanks around it. -/
def number (lookup : String → Option String) (name : String) (greatest default : Nat) :
    Except SettingsError Nat :=
  match lookup name with
  | none => .ok default
  | some raw =>
    match Text.natural? greatest (Text.trim raw.toList) with
    | some n => .ok n
    | none => .error (.unreadable name raw)

/-- Reads all settings without checking them. -/
def read (lookup : String → Option String) : Except SettingsError Settings := do
  let defaults : Settings := {}
  let batchSize ← number lookup "OAP_BATCH_SIZE" maxWord defaults.batchSize
  let periodSeconds ← number lookup "OAP_PERSISTENT_PERIOD_SECS" maxWord defaults.periodSeconds
  let drainPollMillis ← number lookup "OAP_DRAIN_POLL_MAX_MS" maxWord defaults.drainPollMillis
  let portNumber ← number lookup "OAP_PORT" maxPortNumber defaults.portNumber
  let logLevel := ((lookup "OAP_LOG_LEVEL").map Text.lower).getD defaults.logLevel
  let host := (lookup "OAP_HOST").getD defaults.host
  return { batchSize, periodSeconds, drainPollMillis, logLevel, host, portNumber }

/-- Finds the first setting whose value cannot be used. -/
def check (s : Settings) : Except SettingsError Unit :=
  if s.batchSize = 0 then .error .batchSizeZero
  else if s.periodSeconds = 0 then .error .periodZero
  else if s.drainPollMillis = 0 then .error .drainPollZero
  else if !logLevels.contains s.logLevel then .error (.logLevelUnknown s.logLevel)
  else if Text.isAllBlank s.host then .error .hostBlank
  else if s.portNumber = 0 then .error .portNumberZero
  else .ok ()

def ofLookup (lookup : String → Option String) : Except SettingsError Settings := do
  let s ← read lookup
  s.check
  return s

/-- The first pause between two looks at a window that is still written, in microseconds: ten, unless
the longest pause is shorter. -/
def firstPauseMicros (s : Settings) : Nat := min 10 (s.drainPollMillis * 1000)

end Settings

end MetricCascade

/-
Why a registry cannot be built or used.
-/
namespace MetricCascade

inductive RegistryError where
  | storeMissing
  | kindRepeated (kind : String)
  | kindUnknown (kind : String)
  deriving DecidableEq

def RegistryError.message : RegistryError → String
  | storeMissing => "no storage gateway configured"
  | kindRepeated kind => s!"indicator {kind} is registered twice"
  | kindUnknown kind => s!"indicator {kind} is not registered"

end MetricCascade

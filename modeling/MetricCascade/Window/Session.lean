/-
A pair of windows together with the attempts that are alive on it, each under a name.
-/
import MetricCascade.Window.Pair

namespace MetricCascade

structure Session where
  windows : WindowPair := {}
  attempts : Dict String Attempt := ∅

namespace Session

def merge (s : Session) (x : Indicator) : Outcome (Except CombineError Unit) × Session :=
  let (r, p) := s.windows.merge x
  (r, { s with windows := p })

def drain (s : Session) (order : DrainOrder := .insertion) : List Indicator × Session :=
  let (entries, p) := s.windows.drain order
  (entries, { s with windows := p })

def straddle (s : Session) (x : Indicator) (order : DrainOrder := .insertion) :
    Outcome WindowPair.Straddle × Session :=
  let (r, p) := s.windows.straddle x order
  (r, { s with windows := p })

/-- Begins an attempt under a name and says whether it was granted. An attempt of the same name ends
after the new one has begun. -/
def begin (s : Session) (name : String) : Bool × Session :=
  let (a, p) := s.windows.begin
  (a.granted,
    { windows := if s.attempts.contains name then p.release else p
      attempts := s.attempts.insert name a })

/-- Commits the attempt of a name and says whether the windows were swapped. Without such an attempt
there is no answer. -/
def commit (s : Session) (name : String) : Option Bool × Session :=
  match s.attempts.get? name with
  | none => (none, s)
  | some a =>
    let (swapped, a, p) := s.windows.commit a
    (some swapped, { windows := p, attempts := s.attempts.insert name a })

/-- Ends the attempt of a name and says whether there was one. -/
def release (s : Session) (name : String) : Bool × Session :=
  if s.attempts.contains name then
    (true, { windows := s.windows.release, attempts := s.attempts.erase name })
  else (false, s)

end Session

end MetricCascade

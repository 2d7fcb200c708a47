/-
What a span is counted for. Seen from the called side, it counts for everything, for the called
service, its instance and its endpoint, and for the three relations between caller and callee; seen
from the calling side, only for the relations. In each scope several figures are kept.
-/
import MetricCascade.Metric.Indicator
import MetricCascade.Span.Basic

namespace MetricCascade

/-- What kind of thing is observed. -/
inductive Scope where
  | everything
  | service
  | replica
  | endpoint
  /-- Calls between two services, as seen from one side. -/
  | serviceCalls (seenFrom : Vantage)
  | replicaCalls (seenFrom : Vantage)
  | endpointCalls (seenFrom : Vantage)
  deriving DecidableEq

/-- A figure that is kept. -/
inductive Gauge where
  | calls
  | successes
  | responseTime
  | responseTimeAt (rank : Nat)
  deriving DecidableEq

namespace Gauge

def suffix : Gauge → String
  | calls => "cpm"
  | successes => "sla"
  | responseTime => "resp_time"
  | responseTimeAt rank => s!"p{rank}"

def measure : Gauge → Measure
  | calls => .count
  | successes => .share
  | responseTime => .average
  | responseTimeAt _ => .percentile

/-- The width of the bins in which response times are counted. -/
def precision : Int := 10

/-- What one span adds to the figure of an entity. -/
def observe (g : Gauge) (entity : String) (bucket : Bucket) (s : Span) : Indicator :=
  match g with
  | calls => .count entity bucket 1
  | successes => .share entity bucket !s.failed
  | responseTime => .average entity bucket s.latency
  | responseTimeAt rank => .percentile entity bucket s.latency precision rank

end Gauge

namespace Scope

/-- The scopes in which a span counts. -/
def seenFrom : Vantage → List Scope
  | .server =>
    [everything, service, replica, endpoint,
      serviceCalls .server, replicaCalls .server, endpointCalls .server]
  | .client => [serviceCalls .client, replicaCalls .client, endpointCalls .client]

def all : List Scope := Vantage.all.flatMap seenFrom

def name : Scope → String
  | everything => "all"
  | service => "service"
  | replica => "service_instance"
  | endpoint => "endpoint"
  | serviceCalls v => s!"service_relation_{v.name}"
  | replicaCalls v => s!"service_instance_relation_{v.name}"
  | endpointCalls v => s!"endpoint_relation_{v.name}"

/-- The figures that are kept; relations have no percentiles. -/
def gauges : Scope → List Gauge
  | everything | service | replica | endpoint =>
    [.calls, .successes, .responseTime, .responseTimeAt 50, .responseTimeAt 99]
  | serviceCalls _ | replicaCalls _ | endpointCalls _ => [.calls, .successes, .responseTime]

/-- The kind of indicator that holds a figure of this scope. -/
def kind (s : Scope) (g : Gauge) : String := s!"{s.name}_{g.suffix}"

/-- The entity of this scope that a span is counted for. -/
def entity (scope : Scope) (s : Span) : String :=
  match scope with
  | everything => "all"
  | service => s.reporter.service
  | replica => s!"{s.reporter.service}/{s.reporter.replica}"
  | endpoint => s!"{s.reporter.service}/{s.reporter.endpoint}"
  | serviceCalls _ => s!"{s.caller.service}-{s.callee.service}"
  | replicaCalls _ =>
    s!"{s.caller.service}/{s.caller.replica}-{s.callee.service}/{s.callee.replica}"
  | endpointCalls _ =>
    s!"{s.caller.service}/{s.caller.endpoint}-{s.callee.service}/{s.callee.endpoint}"

/-- Every kind of indicator that spans are counted in. -/
def kinds : List (String × Measure) :=
  all.flatMap fun s => s.gauges.map fun g => (s.kind g, g.measure)

end Scope

namespace Span

/-- What a span adds to the kinds of indicators, in the minute in which it started. -/
def updates (s : Span) : Except BucketError (List (String × Indicator)) :=
  match Bucket.ofMillis s.start with
  | .error e => .error e
  | .ok minute =>
    .ok <| (Scope.seenFrom s.vantage).flatMap fun scope =>
      scope.gauges.map fun g => (scope.kind g, g.observe (scope.entity s) minute s)

end Span

end MetricCascade

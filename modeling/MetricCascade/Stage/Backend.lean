/-
What the stages share: the store with a gateway before it, the orders in which windows are drained,
and a journal of what happened. The gateway may refuse any call, for a reason, before the store sees
it. Both what it refuses and the orders are given from outside, and may be any.
-/
import MetricCascade.Stage.Event
import MetricCascade.Window.Basic

namespace MetricCascade

/-- The calls that a gateway refuses, each with its reason. A call is known by its number and its
arguments. -/
structure Faults where
  lookup : Nat → Layout → Key → Option String := fun _ _ _ => none
  prepare : Nat → Layout → Key → Option String := fun _ _ _ => none
  persist : Nat → List Operation → Option String := fun _ _ => none

/-- Refuses, for one reason, to look up and to prepare certain entities and to write to certain
tables. -/
def Faults.refusing (reason : String) (lookups prepares tables : List String) : Faults where
  lookup _ _ k := if lookups.contains k.entity then some reason else none
  prepare _ _ k := if prepares.contains k.entity then some reason else none
  persist _ batch := if batch.any (fun op => tables.contains op.table) then some reason else none

structure Backend where
  store : Store := {}
  faults : Faults := {}
  /-- The order in which a stage drains its retired window once it has merged so many updates. Between
  two drains that take something out it has merged more, so that each may have an order of its own. -/
  order : Layout → Nat → DrainOrder := fun _ _ => .insertion
  /-- The number of calls that the gateway has seen. -/
  calls : Nat := 0
  /-- What happened, latest first. -/
  journal : List Event := []

namespace Backend

def record (b : Backend) (e : Event) : Backend := { b with journal := e :: b.journal }

/-- Counts a call. -/
def called (b : Backend) : Backend := { b with calls := b.calls + 1 }

/-- Looks up an indicator. -/
def get (b : Backend) (l : Layout) (k : Key) : Except StoreError (Option Indicator) × Backend :=
  (match b.faults.lookup b.calls l k with
    | some reason => .error (.lookupRefused k l.table reason)
    | none => b.store.get l k, b.called)

/-- Makes the operation that stores an indicator. -/
def prepare (b : Backend) (kind : WriteKind) (l : Layout) (x : Indicator) :
    Except StoreError Operation × Backend :=
  (match b.faults.prepare b.calls l x.key with
    | some reason => .error (.prepareRefused x.key l.table reason)
    | none => Operation.prepare kind l x, b.called)

/-- Writes a batch, and records whether that succeeded and which stages were flushing. -/
def persist (b : Backend) (stage : Layout) (flushing : List Layout) (batch : List Operation) :
    Except StoreError Unit × Backend :=
  let answer : Except StoreError Store :=
    match b.faults.persist b.calls batch with
    | some reason => .error (.batchRefused batch.length reason)
    | none => b.store.persist batch
  match answer with
  | .error e => (.error e, b.called.record (.batch stage flushing batch false))
  | .ok store => (.ok (), { b.called.record (.batch stage flushing batch true) with store := store })

end Backend

end MetricCascade

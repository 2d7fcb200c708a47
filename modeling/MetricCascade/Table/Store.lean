/-
A store that keeps its tables in memory. A batch is written whole or not at all; tables have to be
installed before they are used.
-/
import MetricCascade.Table.Layout
import MetricCascade.Table.Row

namespace MetricCascade

/-- Why the store, or the gateway before it, did not do what it was asked. -/
inductive StoreError where
  /-- The gateway refused to look up a key. -/
  | lookupRefused (key : Key) (table reason : String)
  /-- The gateway refused to prepare an indicator. -/
  | prepareRefused (key : Key) (table reason : String)
  /-- The gateway refused a batch. -/
  | batchRefused (operations : Nat) (reason : String)
  /-- The indicator is of another measure than the table. -/
  | wrongMeasure (key : Key) (table : String) (found expected : Measure)
  | tableMissing (table : String)
  | columnMissing (table column : String)
  /-- A stored row does not read as an indicator. -/
  | unreadableRow
  deriving DecidableEq

def StoreError.message : StoreError → String
  | lookupRefused key table reason => s!"failed to look up {key.text} in {table}: {reason}"
  | prepareRefused key table reason => s!"failed to prepare {key.text} for {table}: {reason}"
  | batchRefused operations reason =>
    s!"batch persistence of {operations} operations failed: {reason}"
  | wrongMeasure key table found expected =>
    s!"failed to prepare {key.text} for {table}: {found.name} value does not fit a {expected.name} model"
  | tableMissing table => s!"table {table} does not exist"
  | columnMissing table column => s!"table {table} is missing column {column}"
  | unreadableRow => "row codec error"

namespace Layout

/-- Refuses an indicator of another measure. -/
def check (l : Layout) (x : Indicator) : Except StoreError Unit :=
  if x.measure = l.measure then .ok ()
  else .error (.wrongMeasure x.key l.table x.measure l.measure)

def toRow (l : Layout) (x : Indicator) : Except StoreError Row :=
  match l.check x with
  | .ok () => .ok (Row.ofIndicator x)
  | .error e => .error e

def ofRow (l : Layout) (r : Row) : Except StoreError Indicator :=
  match r.indicator? with
  | none => .error .unreadableRow
  | some x =>
    match l.check x with
    | .ok () => .ok x
    | .error e => .error e

end Layout

/-! ## Operations of a batch -/

/-- Whether a row is new to its table or takes the place of one. The store treats both alike. -/
inductive WriteKind where
  | insert
  | update
  deriving DecidableEq

/-- A row that is ready to be written. -/
structure Operation where
  kind : WriteKind
  table : String
  /-- The text under which the row is stored. -/
  id : String
  row : Row

namespace Operation

def isUpdate (op : Operation) : Bool := op.kind == .update

/-- The operation that stores an indicator. -/
def prepare (kind : WriteKind) (l : Layout) (x : Indicator) : Except StoreError Operation :=
  match l.toRow x with
  | .ok row => .ok ⟨kind, l.table, x.key.text, row⟩
  | .error e => .error e

end Operation

/-! ## Tables -/

structure Table where
  /-- The names of the columns. -/
  columns : List String
  rows : Dict String Row := ∅

structure Store where
  tables : Dict String Table := ∅
  /-- The number of batches written so far. -/
  batches : Nat := 0

namespace Store

/-- The row stored in a table under a text. -/
def row? (s : Store) (table id : String) : Option Row := (s.tables.get? table).bind (·.rows.get? id)

def get (s : Store) (l : Layout) (k : Key) : Except StoreError (Option Indicator) :=
  match s.tables.get? l.table with
  | none => .error (.tableMissing l.table)
  | some t =>
    match t.rows.get? k.text with
    | none => .ok none
    | some row => (l.ofRow row).map some

/-- Every indicator of a table, if all its rows read as such. -/
def indicators (s : Store) (l : Layout) : Except StoreError (List Indicator) :=
  match s.tables.get? l.table with
  | none => .error (.tableMissing l.table)
  | some t => t.rows.values.mapM l.ofRow

/-- Stores the row of an operation, if its table is there. -/
def write (s : Store) (op : Operation) : Store :=
  match s.tables.get? op.table with
  | none => s
  | some t => { s with tables := s.tables.insert op.table { t with rows := t.rows.insert op.id op.row } }

/-- Writes a batch. The first operation whose table is missing refuses the whole of it. -/
def persist (s : Store) (batch : List Operation) : Except StoreError Store :=
  match batch.find? (fun op => !s.tables.contains op.table) with
  | some op => .error (.tableMissing op.table)
  | none =>
    let written := batch.foldl write s
    .ok { written with batches := written.batches + 1 }

/-! ## Installing tables -/

def hasTable (s : Store) (l : Layout) : Bool := s.tables.contains l.table

/-- Makes an empty table, in place of one that is there. -/
def createTable (s : Store) (l : Layout) : Store :=
  { s with tables := s.tables.insert l.table { columns := l.columns.map (·.name) } }

def deleteTable (s : Store) (l : Layout) : Store := { s with tables := s.tables.erase l.table }

/-- Whether the table has every column of the layout; the first one that it lacks is reported. -/
def checkColumns (s : Store) (l : Layout) : Except StoreError Unit :=
  match s.tables.get? l.table with
  | none => .error (.tableMissing l.table)
  | some t =>
    match l.columns.find? (fun c => !t.columns.contains c.name) with
    | some c => .error (.columnMissing l.table c.name)
    | none => .ok ()

/-- Makes the table of a layout if it is missing, or anew if that is asked for. -/
def installTable (s : Store) (recreate : Bool) (l : Layout) : Store :=
  if s.hasTable l then (if recreate then (s.deleteTable l).createTable l else s)
  else s.createTable l

/-- Makes and checks the tables of all layouts in order, up to the first that fails its check. -/
def install (s : Store) (recreate : Bool) : List Layout → Except StoreError Unit × Store
  | [] => (.ok (), s)
  | l :: rest =>
    let made := s.installTable recreate l
    match made.checkColumns l with
    | .error e => (.error e, made)
    | .ok () => made.install recreate rest

end Store

end MetricCascade

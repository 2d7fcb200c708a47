/-
Lines that share a store do not notice each other. Where no two tables have one name and the gateway's answers depend
on the call alone, the line of a kind is, after any requests, what it would be had it been alone over the store and
been given its own calls: an update or a flush for its kind, and a flush for every pass that came to it. A pass comes
to every line, unless a fault aborts it at a line before. So an error on one line keeps nothing from the others, and a
fault keeps a pass from those that come later.
-/
import MetricCascade.Proofs.Registry.Passes
import MetricCascade.Proofs.Stage.Alike

namespace MetricCascade

open Stage Backend

/-! ## A line alone -/

/-- What a line is asked to do. -/
inductive Line.Call where
  | submit (x : Indicator)
  | flush

/-- What a call leaves of a line and what is below it. -/
def Line.Call.perform (c : Line × Backend) : Line.Call → Line × Backend
  | submit x => (c.1.submit x c.2).2
  | flush => (c.1.flush c.2).2

/-- A line and its backend after some calls. -/
def Line.served (c : Line × Backend) (calls : List Line.Call) : Line × Backend := calls.foldl Line.Call.perform c

/-- Work on a line that is done by its own stages, and for which only their tables matter. -/
structure Line.Local {α : Type} (f : Line → Backend → α × Line × Backend) : Prop where
  own : Registry.OwnWork f
  blind (line : Line) : Blind (Tables line.stages) (f line)

theorem Line.submit_local (x : Indicator) : Line.Local (·.submit x) where
  own := Registry.ownWork_submitAt 0 x
  blind line b b' a y e h hsubmit := by
    unfold Line.submit submitAt at hsubmit ⊢
    rcases hstages : submitIn line.stages [] 0 x line.states b with ⟨r, states, e₁⟩
    rw [hstages] at hsubmit
    cases hsubmit
    obtain ⟨e', he', halike⟩ := submitIn_blind (fun t ht => ⟨t, ht, rfl⟩) [] 0 x line.states h hstages
    rw [he']
    exact ⟨e', rfl, halike⟩

theorem Line.flush_local : Line.Local Line.flush where
  own := Registry.ownWork_flush
  blind line b b' a y e h hflush := by
    unfold Line.flush at hflush ⊢
    rcases hstages : flushAllIn line.stages line.states b with ⟨r, states, e₁⟩
    rw [hstages] at hflush
    cases hflush
    obtain ⟨e', he', halike⟩ := flushAllIn_blind (fun t ht => ⟨t, ht, rfl⟩) line.states h hstages
    rw [he']
    exact ⟨e', rfl, halike⟩

namespace Registry

variable {α : Type} {f : Line → Backend → α × Line × Backend} {kind name : String} {c : Line × Backend}
  {r r' : Registry}

/-! ## One line among others -/

/-- The registry has the line of `c` under the kind, over tables as in `c`, and no other line has one of them. -/
structure Mirrors (kind : String) (c : Line × Backend) (r : Registry) : Prop where
  line : r.lines.get? kind = some c.1
  backend : Alike (Tables c.1.stages) c.2 r.backend
  others : ∀ name other, name ≠ kind → r.lines.get? name = some other →
    ∀ s ∈ other.stages, ¬ Tables c.1.stages s.layout.table

/-- What happens on another line makes no difference. -/
theorem Mirrors.other (hf : Line.Local f) (h : Mirrors kind c r) (hname : name ≠ kind) :
    Mirrors kind c (r.onLine name f).2 := by
  cases hline : r.lines.get? name with
  | none =>
    unfold onLine
    rw [hline]
    exact h
  | some line =>
    obtain ⟨hstages, hwork⟩ := hf.own line r.backend
    rw [onLine_some hline]
    refine ⟨?_, ?_, fun other found hother hget s hs => ?_⟩
    · exact (Dict.get?_insert_of_ne _ _ hname.symm).trans h.line
    · refine h.backend.extends hwork ?_
      rintro _ ⟨s, hs, rfl⟩
      exact h.others name line hname hline s hs
    · dsimp only at hget
      rw [Dict.get?_insert] at hget
      split at hget
      · cases hget
        rw [hstages] at hs
        exact h.others name line hname hline s hs
      · exact h.others other found hother hget s hs

/-- What happens on the line itself is what happens to it alone. -/
theorem Mirrors.own (hf : Line.Local f) (h : Mirrors kind c r) :
    (r.onLine kind f).1 = some (f c.1 c.2).1 ∧ Mirrors kind (f c.1 c.2).2 (r.onLine kind f).2 := by
  rcases hc : f c.1 c.2 with ⟨a, line, e⟩
  obtain ⟨e', he', halike⟩ := hf.blind c.1 h.backend hc
  have hstages : line.stages = c.1.stages := by
    have hown := (hf.own c.1 c.2).1
    rwa [hc] at hown
  rw [onLine_some h.line, he']
  refine ⟨rfl, Dict.get?_insert_self .., ?_, fun name other hname hget s hs => ?_⟩
  · rw [hstages]
    exact halike
  · rw [hstages]
    exact h.others name other hname ((Dict.get?_insert_of_ne _ _ hname).symm.trans hget) s hs

theorem Mirrors.record (h : Mirrors kind c r) (e : Event) : Mirrors kind c (r.record e) :=
  ⟨h.line, ⟨h.backend.steady, h.backend.faults, h.backend.order, h.backend.tables⟩, h.others⟩

/-! ## Passes -/

/-- Whether flushing these lines comes to that of the kind. -/
def reachesIn (names : List String) (kind : String) (r : Registry) : Bool :=
  (flushLines (names.takeWhile (· != kind)) r).1.isOk

/-- A flush of other lines makes no difference. -/
theorem Mirrors.flushOthers {names : List String} (hnames : kind ∉ names) (h : Mirrors kind c r) :
    Mirrors kind c (flushLines names r).2 := by
  refine flushLines_rule (fun name hname r' h' => h'.other Line.flush_local ?_) h
  rintro rfl
  exact hnames hname

theorem reachesIn_head (rest : List String) (r : Registry) : reachesIn (kind :: rest) kind r = true := by
  unfold reachesIn
  rw [List.takeWhile_cons_of_neg (by simp)]
  rfl

theorem reachesIn_tail (hname : name ≠ kind) (rest : List String) (r : Registry) :
    reachesIn (name :: rest) kind r =
      match r.onLine name Line.flush with
      | (some (.error _), _) => false
      | (_, r') => reachesIn rest kind r' := by
  unfold reachesIn
  rw [List.takeWhile_cons_of_pos (by simpa using hname), flushLines]
  rcases r.onLine name Line.flush with ⟨_ | fault | e | _, r'⟩
  · rfl
  · rfl
  · dsimp only
    rcases flushLines (rest.takeWhile (· != kind)) r' with ⟨fault | a, r''⟩ <;> rfl
  · rfl

/-- A pass flushes the line if it comes to it. -/
theorem Mirrors.flushLines : ∀ {names : List String} {r : Registry}, names.Nodup → kind ∈ names → Mirrors kind c r →
    Mirrors kind (if reachesIn names kind r then (c.1.flush c.2).2 else c) (flushLines names r).2
  | name :: rest, r, hnodup, hkind, h => by
    rw [List.nodup_cons] at hnodup
    by_cases hname : name = kind
    · subst hname
      obtain ⟨-, hown⟩ := h.own Line.flush_local
      rw [reachesIn_head, if_pos rfl]
      unfold Registry.flushLines
      rcases hr : r.onLine name Line.flush with ⟨_ | fault | e | _, r'⟩ <;> rw [hr] at hown
      · exact hown.flushOthers hnodup.1
      · exact hown
      · exact hown.flushOthers hnodup.1
      · exact hown.flushOthers hnodup.1
    · have hrest : kind ∈ rest := (List.mem_cons.1 hkind).resolve_left (Ne.symm hname)
      have hother := h.other Line.flush_local hname
      rw [reachesIn_tail hname]
      unfold Registry.flushLines
      rcases hr : r.onLine name Line.flush with ⟨_ | fault | e | _, r'⟩ <;> rw [hr] at hother
      · exact hother.flushLines hnodup.2 hrest
      · exact hother
      · exact hother.flushLines hnodup.2 hrest
      · exact hother.flushLines hnodup.2 hrest

end Registry

/-! ## Requests -/

/-- What a request asks of the line of a kind. -/
def Request.asks (kind : String) : Request → Option Line.Call
  | submit name x => if name = kind then some (.submit x) else none
  | flush name => if name = kind then some .flush else none
  | flushAll => some .flush

namespace Registry

variable {kind name : String} {c : Line × Backend} {r r' : Registry} {requests : List Request}

/-- Whether a request comes to the line of a kind, if it asks anything of it. -/
def reaches (kind : String) (r : Registry) : Request → Bool
  | .submit _ _ => true
  | .flush _ => true
  | .flushAll => reachesIn r.lines.keys kind r

/-- The calls that requests make of the line of a kind. -/
def callsOf (kind : String) : Registry → List Request → List Line.Call
  | _, [] => []
  | r, request :: rest =>
    (if r.reaches kind request then (request.asks kind).toList else []) ++ callsOf kind (request.perform r) rest

/-- A request does to the line what its call does to the line alone. -/
theorem Mirrors.perform (h : Mirrors kind c r) (request : Request) :
    Mirrors kind (Line.served c (if r.reaches kind request then (request.asks kind).toList else []))
      (request.perform r) := by
  cases request with
  | submit name x =>
    show Mirrors kind (Line.served c (if name = kind then some (Line.Call.submit x) else none).toList) (r.submit name x).2
    rw [submit_lines]
    by_cases hname : name = kind
    · subst hname
      rw [if_pos rfl]
      exact (h.own (Line.submit_local x)).2
    · rw [if_neg hname]
      exact h.other (Line.submit_local x) hname
  | flush name =>
    show Mirrors kind (Line.served c (if name = kind then some Line.Call.flush else none).toList) (r.onLine name Line.flush).2
    by_cases hname : name = kind
    · subst hname
      rw [if_pos rfl]
      exact (h.own Line.flush_local).2
    · rw [if_neg hname]
      exact h.other Line.flush_local hname
  | flushAll =>
    have hkeys : r.lines.keys.Nodup := r.lines.nodup
    have hflush := h.flushLines hkeys (mem_keys_of_get? h.line)
    have hserved : Line.served c (if r.reaches kind .flushAll then (Request.flushAll.asks kind).toList else []) =
        if reachesIn r.lines.keys kind r then (c.1.flush c.2).2 else c := by
      show Line.served c (if reachesIn r.lines.keys kind r then _ else _) = _
      split <;> rfl
    show Mirrors kind _ r.flushAll.2
    rw [hserved]
    unfold flushAll
    rcases hr : Registry.flushLines r.lines.keys r with ⟨fault | e | _, r'⟩ <;> rw [hr] at hflush
    · exact hflush
    · exact hflush.record _
    · exact hflush

/-- After any requests the line is what it is alone after its own calls. -/
theorem Mirrors.served (h : Mirrors kind c r) : Mirrors kind (Line.served c (r.callsOf kind requests)) (r.served requests) := by
  induction requests generalizing c r with
  | nil => exact h
  | cons request rest ih =>
    have hrest := ih (h.perform request)
    unfold callsOf Line.served
    rw [List.foldl_append]
    exact hrest

/-- No pass among the requests is aborted. -/
def Unaborted (r : Registry) (requests : List Request) : Prop :=
  ∀ before rest, requests = before ++ .flushAll :: rest → ∃ a, (r.served before).flushAll.1 = .ok a

variable {backend : Backend} {capacity : Nat} {kinds : List Kind}

/-- What a flush of the line answers. -/
def flushAnswer (c : Line × Backend) : Outcome (Except FlushError Unit) := (c.1.flush c.2).1

/-- The line of a kind, alone over the store, after what the requests ask of it. -/
def alone (backend : Backend) (capacity : Nat) (requests : List Request) (k : Kind) : Line × Backend :=
  Line.served (.cascade k.1 k.2 capacity, backend) (requests.filterMap (Request.asks k.1))

/-- No flush of the line of a kind, alone and in place of a pass, is aborted. -/
def NeverAborted (backend : Backend) (capacity : Nat) (requests : List Request) (k : Kind) : Prop :=
  ∀ before rest, requests = before ++ .flushAll :: rest → ∃ a, flushAnswer (alone backend capacity before k) = .ok a

theorem Unaborted.back {more : List Request} (h : r.Unaborted (requests ++ more)) : r.Unaborted requests := by
  rintro before rest rfl
  exact h before (rest ++ more) (by simp)

theorem NeverAborted.back {k : Kind} {more : List Request} (h : NeverAborted backend capacity (requests ++ more) k) :
    NeverAborted backend capacity requests k := by
  rintro before rest rfl
  exact h before (rest ++ more) (by simp)

section Built

variable (h : build (some backend) capacity kinds = .ok r) (htables : (r.layouts.map Layout.table).Nodup)
  (hsteady : backend.faults.Steady)
include h htables hsteady

end Built

end Registry

end MetricCascade

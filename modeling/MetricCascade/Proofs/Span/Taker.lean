/-
The one who takes spans from the queue, at work while others send, make and drop handles, and cancel.
Between taking a span and counting it, and between noticing that it was cancelled and asking for the
next span, anything may come in between; when it could both close the queue and take a span, it may do
either. A log of the moves and their answers says which spans were accepted and which were counted.
-/
import MetricCascade.Proofs.Span.Dispatch
import MetricCascade.Span.Intake

namespace MetricCascade

/-! ## The queue -/

/-- What asking the queue for a span can lead to. -/
theorem Intake.take?_cases (i : Intake) :
    (∃ s rest, i.queue = s :: rest ∧ i.take? = some (some s, { i with queue := rest })) ∨
    (i.queue = [] ∧ (i.closed = true ∨ i.handles = 0) ∧ i.take? = some (none, { i with finished := true })) ∨
    ((i.finished = true ∨ i.queue = [] ∧ i.closed = false ∧ i.handles ≠ 0) ∧ i.take? = none) := by
  unfold take?
  cases hfinished : i.finished with
  | true => exact .inr (.inr ⟨.inl rfl, rfl⟩)
  | false =>
    cases hqueue : i.queue with
    | cons s rest => exact .inl ⟨s, rest, rfl, rfl⟩
    | nil =>
      by_cases hend : i.closed = true ∨ i.handles = 0
      · refine .inr (.inl ⟨rfl, hend, ?_⟩)
        simp [hend]
      · refine .inr (.inr ⟨.inr ⟨rfl, ?_⟩, ?_⟩)
        · simpa using hend
        · simp [hend]

theorem Intake.drain_of_none {i : Intake} {r : Registry} (h : i.take? = none) : i.drain r = (.ok (), i, r) := by
  rw [drain]
  split <;> simp_all only [reduceCtorEq]

theorem Intake.drain_of_left {i j : Intake} {r : Registry} (h : i.take? = some (none, j)) :
    i.drain r = (.ok (), j, r) := by
  rw [drain]
  split <;> simp_all

theorem Intake.drain_of_some {i j : Intake} {r : Registry} {s : Span} (h : i.take? = some (some s, j)) :
    i.drain r =
      match r.dispatchOrDrop s with
      | (.error fault, r) => (.error fault, { j with finished := true }, r)
      | (.ok (), r) => j.drain r := by
  rw [drain]
  split
  · simp_all
  · simp_all
  · rename_i s' j' htake
    rw [h] at htake
    obtain ⟨rfl, rfl⟩ : s = s' ∧ j = j' := by simpa using htake
    rcases r.dispatchOrDrop s with ⟨_ | _, _⟩ <;> rfl

/-- The queue and the one who takes from it. -/
structure Taker where
  intake : Intake := {}
  registry : Registry := {}
  /-- The span that was taken and is to be counted. -/
  hand : Option Span := none
  /-- What broke the taker off while it counted a span. -/
  fault : Option Fault := none

namespace Taker

/-! ## Moves -/

inductive Move where
  | send (s : Span)
  | cloneHandle
  | dropHandle
  | cancel
  /-- The taker notices that it was cancelled and closes the queue. -/
  | close
  /-- The taker asks for a span. -/
  | take
  /-- The taker counts the span in its hand. -/
  | count

/-- The moves of the taker itself. -/
def Move.Own : Move → Prop
  | close | take | count => True
  | _ => False

inductive Reply where
  | sent (accepted : Bool)
  | took (s : Span)
  | counted (s : Span) (outcome : Outcome Unit)
  /-- There was nothing to take, and there never will be. -/
  | left
  | done
  /-- The taker cannot do this now. -/
  | ignored

def perform (c : Taker) : Move → Reply × Taker
  | .send s =>
    let (accepted, i) := c.intake.send s
    (.sent accepted, { c with intake := i })
  | .cloneHandle => (.done, { c with intake := c.intake.cloneHandle })
  | .dropHandle => (.done, { c with intake := c.intake.dropHandle })
  | .cancel => (.done, { c with intake := c.intake.cancel })
  | .close =>
    if c.hand.isNone && c.intake.canClose then (.done, { c with intake := c.intake.close })
    else (.ignored, c)
  | .take =>
    match c.hand, c.intake.take? with
    | none, some (some s, i) => (.took s, { c with intake := i, hand := some s })
    | none, some (none, i) => (.left, { c with intake := i })
    | _, _ => (.ignored, c)
  | .count =>
    match c.hand with
    | none => (.ignored, c)
    | some s =>
      match c.registry.dispatchOrDrop s with
      | (.ok (), r) => (.counted s (.ok ()), { c with registry := r, hand := none })
      | (.error e, r) =>
        (.counted s (.error e),
          { intake := { c.intake with finished := true }, registry := r, hand := none, fault := some e })

/-- The taker has left, and not because of a fault. -/
def returned (c : Taker) : Prop := c.intake.finished = true ∧ c.fault = none

/-! ## Steps -/

/-- What a move can lead to. -/
inductive Step (c : Taker) : Move → Reply → Taker → Prop
  | ignored (m : Move) : Step c m .ignored c
  | refused (s : Span) : Step c (.send s) (.sent false) c
  | accepted (s : Span) (h : c.intake.accepts = true) :
    Step c (.send s) (.sent true) { c with intake.queue := c.intake.queue ++ [s] }
  | cloned : Step c .cloneHandle .done { c with intake := c.intake.cloneHandle }
  | dropped : Step c .dropHandle .done { c with intake := c.intake.dropHandle }
  | cancelled : Step c .cancel .done { c with intake := c.intake.cancel }
  | closed (hhand : c.hand = none) (h : c.intake.canClose = true) :
    Step c .close .done { c with intake := c.intake.close }
  | took {s : Span} {rest : List Span} (hhand : c.hand = none) (hqueue : c.intake.queue = s :: rest) :
    Step c .take (.took s) { c with intake.queue := rest, hand := some s }
  | left (hhand : c.hand = none) (hqueue : c.intake.queue = [])
    (hend : c.intake.closed = true ∨ c.intake.handles = 0) :
    Step c .take .left { c with intake.finished := true }
  | counted {s : Span} {r : Registry} (hhand : c.hand = some s)
    (hr : c.registry.dispatchOrDrop s = (.ok (), r)) :
    Step c .count (.counted s (.ok ())) { c with registry := r, hand := none }
  | broken {s : Span} {e : Fault} {r : Registry} (hhand : c.hand = some s)
    (hr : c.registry.dispatchOrDrop s = (.error e, r)) :
    Step c .count (.counted s (.error e))
      { intake := { c.intake with finished := true }, registry := r, hand := none, fault := some e }

theorem step_take (c : Taker) : Step c .take (c.perform .take).1 (c.perform .take).2 := by
  cases hhand : c.hand with
  | some s =>
    simp only [perform, hhand]
    exact .ignored _
  | none =>
    simp only [perform, hhand]
    obtain ⟨s, rest, hqueue, htake⟩ | ⟨hqueue, hend, htake⟩ | ⟨-, htake⟩ := c.intake.take?_cases
    · rw [htake]
      exact .took hhand hqueue
    · rw [htake]
      have hleft := Step.left hhand hqueue hend
      rwa [hhand] at hleft
    · rw [htake]
      exact .ignored _

theorem perform_step (c : Taker) (m : Move) : Step c m (c.perform m).1 (c.perform m).2 := by
  cases m with
  | send s =>
    simp only [perform, Intake.send]
    split
    · rename_i h
      exact .accepted s h
    · exact .refused s
  | cloneHandle => exact .cloned
  | dropHandle => exact .dropped
  | cancel => exact .cancelled
  | close =>
    simp only [perform]
    split
    · rename_i h
      rw [Bool.and_eq_true, Option.isNone_iff_eq_none] at h
      exact .closed h.1 h.2
    · exact .ignored _
  | take => exact step_take c
  | count =>
    simp only [perform]
    split
    · exact .ignored _
    · rename_i s hhand
      split
      · rename_i r hr
        exact .counted hhand hr
      · rename_i e r hr
        exact .broken hhand hr

/-! ## The log -/

/-- Moves with their answers, latest first. -/
abbrev Log := List (Move × Reply)

namespace Log

/-- The spans that were accepted, oldest first. -/
def accepted : Log → List Span
  | [] => []
  | (.send s, .sent true) :: before => accepted before ++ [s]
  | _ :: before => accepted before

/-- The spans that were counted, or dropped because they cannot be, oldest first. -/
def counted : Log → List Span
  | [] => []
  | (.count, .counted s _) :: before => counted before ++ [s]
  | _ :: before => counted before

/-- The taker has noticed that it was cancelled. -/
def noticed : Log → Bool
  | [] => false
  | (.close, .done) :: _ => true
  | _ :: before => noticed before

/-- It was cancelled. -/
def cancelled : Log → Bool
  | [] => false
  | (.cancel, .done) :: _ => true
  | _ :: before => cancelled before

end Log

/-- One move after those of a log. -/
def advance (c : Log × Taker) (m : Move) : Log × Taker :=
  ((m, (c.2.perform m).1) :: c.1, (c.2.perform m).2)

/-- Moves, one after the other, on an empty queue with one handle and a taker that has just begun. -/
def replay (r : Registry) (moves : List Move) : Log × Taker := moves.foldl advance ([], { registry := r })

/-! ## Every span that was accepted -/

/-- A span that starts in no year of four digits is reported, and nothing else comes of it. -/
theorem dispatchOrDrop_of_error {r : Registry} {s : Span} {e : BucketError} (h : Bucket.ofMillis s.start = .error e) :
    r.dispatchOrDrop s = (.ok (), r.record (.spanDropped s.reporter.service e)) := by
  unfold Registry.dispatchOrDrop Registry.dispatch Span.updates
  rw [h]

/-- The registry after spans are counted one after the other. -/
def countAll (r : Registry) (ss : List Span) : Registry := ss.foldl (fun r s => (r.dispatchOrDrop s).2) r

theorem countAll_append (r : Registry) (ss : List Span) (s : Span) :
    countAll r (ss ++ [s]) = ((countAll r ss).dispatchOrDrop s).2 := by
  unfold countAll
  rw [List.foldl_append]
  rfl

/-- What holds wherever moves lead: a span that was accepted was counted, is in the taker's hand, or
is in the queue, in this order; and the taker has not left too early. -/
structure Keeps (r : Registry) (log : Log) (c : Taker) : Prop where
  spans : log.accepted = log.counted ++ c.hand.toList ++ c.intake.queue
  registry : c.registry = countAll r log.counted
  cancelled : c.intake.cancelled = log.cancelled
  closed : c.intake.closed = log.noticed
  noticed : log.noticed = true → log.cancelled = true
  finished : c.returned → c.hand = none ∧ c.intake.queue = [] ∧ (c.intake.closed = true ∨ c.intake.handles = 0)

theorem Keeps.fresh (r : Registry) : Keeps r [] { registry := r } where
  spans := rfl
  registry := rfl
  cancelled := rfl
  closed := rfl
  noticed := nofun
  finished h := by cases h.1

theorem not_returned_of_accepts {c : Taker} (h : c.intake.accepts = true) : ¬ c.returned := by
  rintro ⟨hfinished, -⟩
  simp [Intake.accepts, hfinished] at h

theorem Keeps.in_hand {r : Registry} {log : Log} {c : Taker} {s : Span} (h : Keeps r log c) (hhand : c.hand = some s) :
    log.accepted = log.counted ++ [s] ++ [] ++ c.intake.queue := by
  rw [h.spans, hhand, List.append_nil]
  rfl

theorem Keeps.counting {r r' : Registry} {log : Log} {c : Taker} {s : Span} {a : Outcome Unit} (h : Keeps r log c)
    (hr : c.registry.dispatchOrDrop s = (a, r')) : r' = countAll r (log.counted ++ [s]) := by
  rw [countAll_append, ← h.registry, hr]

theorem Keeps.step {r : Registry} {log : Log} {c c' : Taker} {m : Move} {a : Reply} (h : Keeps r log c)
    (hstep : Step c m a c') : Keeps r ((m, a) :: log) c' := by
  cases hstep with
  | ignored => cases m <;> exact ⟨h.spans, h.registry, h.cancelled, h.closed, h.noticed, h.finished⟩
  | refused => exact ⟨h.spans, h.registry, h.cancelled, h.closed, h.noticed, h.finished⟩
  | accepted s haccepts =>
    refine ⟨?_, h.registry, h.cancelled, h.closed, h.noticed, fun hreturned => ?_⟩
    · show log.accepted ++ [s] = log.counted ++ c.hand.toList ++ (c.intake.queue ++ [s])
      rw [h.spans, List.append_assoc _ c.intake.queue]
    · exact absurd hreturned (not_returned_of_accepts haccepts)
  | cloned =>
    refine ⟨?_, h.registry, ?_, ?_, h.noticed, ?_⟩ <;> unfold Intake.cloneHandle
    · split <;> exact h.spans
    · split <;> exact h.cancelled
    · split <;> exact h.closed
    · split
      · exact h.finished
      · rename_i hhandles
        intro hreturned
        obtain ⟨hhand, hqueue, hend⟩ := h.finished hreturned
        exact ⟨hhand, hqueue, .inl (hend.resolve_right hhandles)⟩
  | dropped =>
    refine ⟨h.spans, h.registry, h.cancelled, h.closed, h.noticed, fun hreturned => ?_⟩
    obtain ⟨hhand, hqueue, hend⟩ := h.finished hreturned
    exact ⟨hhand, hqueue, hend.imp_right fun hzero => by simp [Intake.dropHandle, hzero]⟩
  | cancelled => exact ⟨h.spans, h.registry, rfl, h.closed, fun _ => rfl, h.finished⟩
  | closed hhand hclose =>
    have hcancelled : c.intake.cancelled = true := by
      simp only [Intake.canClose, Bool.and_eq_true] at hclose
      exact hclose.1.1
    refine ⟨h.spans, h.registry, h.cancelled, rfl, fun _ => h.cancelled.symm.trans hcancelled, fun hreturned => ?_⟩
    obtain ⟨-, hqueue, -⟩ := h.finished hreturned
    exact ⟨hhand, hqueue, .inl rfl⟩
  | took hhand hqueue =>
    refine ⟨?_, h.registry, h.cancelled, h.closed, h.noticed, fun hreturned => ?_⟩
    · show log.accepted = _
      rw [h.spans, hhand, hqueue]
      simp [Log.counted]
    · rw [(h.finished hreturned).2.1] at hqueue
      cases hqueue
  | left hhand hqueue hend =>
    exact ⟨h.spans, h.registry, h.cancelled, h.closed, h.noticed, fun _ => ⟨hhand, hqueue, hend⟩⟩
  | counted hhand hr =>
    refine ⟨h.in_hand hhand, h.counting hr, h.cancelled, h.closed, h.noticed, fun hreturned => ?_⟩
    rw [(h.finished hreturned).1] at hhand
    cases hhand
  | broken hhand hr =>
    exact ⟨h.in_hand hhand, h.counting hr, h.cancelled, h.closed, h.noticed, fun hreturned => nomatch hreturned.2⟩

theorem Keeps.foldl {r : Registry} {c : Log × Taker} (h : Keeps r c.1 c.2) (moves : List Move) :
    Keeps r (moves.foldl advance c).1 (moves.foldl advance c).2 :=
  List.foldlRecOn moves advance (motive := fun c => Keeps r c.1 c.2) h
    fun c hc m _ => hc.step (perform_step c.2 m)

theorem keeps_replay {r : Registry} {moves : List Move} {log : Log} {c : Taker} (h : replay r moves = (log, c)) :
    Keeps r log c := by
  have hkeeps : Keeps r (replay r moves).1 (replay r moves).2 :=
    Keeps.foldl (c := ([], { registry := r })) (Keeps.fresh r) moves
  rwa [h] at hkeeps

/-- Whenever the taker has returned, the spans it counted are exactly the accepted ones, each once and
in the order in which they were accepted. The registry is what counting them one after the other makes
of it; a span that cannot be counted is reported, and those after it are counted all the same. The taker
returns only when the queue is empty and either it has noticed a cancellation or every handle is gone. -/
theorem every_accepted_counted {r : Registry} {moves : List Move} {log : Log} {c : Taker}
    (h : replay r moves = (log, c)) (hreturned : c.returned) :
    log.counted = log.accepted ∧ c.registry = countAll r log.accepted ∧
      (∀ before s after e, log.accepted = before ++ s :: after → Bucket.ofMillis s.start = .error e →
        c.registry = countAll ((countAll r before).record (.spanDropped s.reporter.service e)) after) ∧
      c.hand = none ∧ c.intake.queue = [] ∧
      (log.noticed = true ∧ log.cancelled = true ∨ c.intake.handles = 0) := by
  have hkeeps := keeps_replay h
  obtain ⟨hhand, hqueue, hend⟩ := hkeeps.finished hreturned
  have hall : log.counted = log.accepted := by
    rw [hkeeps.spans, hhand, hqueue]
    simp
  have hregistry : c.registry = countAll r log.accepted := hall ▸ hkeeps.registry
  refine ⟨hall, hregistry, fun before s after e hsplit hstart => ?_, hhand, hqueue, hend.imp_left fun hclosed => ?_⟩
  · rw [hregistry, hsplit]
    unfold countAll
    rw [List.foldl_append, List.foldl_cons, dispatchOrDrop_of_error hstart]
  · have hnoticed := hkeeps.closed.symm.trans hclosed
    exact ⟨hnoticed, hkeeps.noticed hnoticed⟩

/-- The second span is sent between a cancellation and the moment when the taker notices it, the third
one after that. -/
def cancelling (s t late : Span) : List Move :=
  [.send s, .cancel, .send t, .close, .send late, .take, .count, .take, .count, .take]

theorem replay_cancelling {r r' r'' : Registry} {s t : Span} (late : Span)
    (hs : r.dispatchOrDrop s = (.ok (), r')) (ht : r'.dispatchOrDrop t = (.ok (), r'')) :
    replay r (cancelling s t late) =
      ([(.take, .left), (.count, .counted t (.ok ())), (.take, .took t), (.count, .counted s (.ok ())),
          (.take, .took s), (.send late, .sent false), (.close, .done), (.send t, .sent true), (.cancel, .done),
          (.send s, .sent true)],
        { intake := { cancelled := true, closed := true, finished := true }, registry := r'' }) := by
  simp [replay, cancelling, advance, perform, Intake.send, Intake.accepts, Intake.cancel, Intake.canClose,
    Intake.close, Intake.take?, hs, ht]

/-- A payment at a time. -/
def payment (start : Int) : Span := ⟨⟨"checkout", "pod-1", "/pay"⟩, none, .server, start, start + 250, false⟩

open Registry Scope MetricCascade.Span in
/-- The second payment is from the year 10000 and cannot be counted. -/
theorem every_accepted_counted_cancelling :
    ∃ r r' log c, build (some { store := spanTables }) 1 kinds = .ok r ∧
      r.dispatchOrDrop (payment 1710512879000) = (.ok (), r') ∧
      replay r (cancelling (payment 1710512879000) (payment 253402300800000) (payment 1710512880000)) = (log, c) ∧
      c.returned ∧ log.counted = [payment 1710512879000, payment 253402300800000] ∧
      c.registry = r'.record (.spanDropped "checkout" (.outOfRange 253402300800000)) := by
  obtain ⟨r, hbuild, hholding⟩ : ∃ r, build (some { store := spanTables }) 1 kinds = .ok r ∧
      r.Holding kinds 1 formOf [] (fun _ => True) :=
    build_holding kinds_apart (fun k hk => formOf_measure hk) _ (fun k hk name hname => spanTables_empty hk hname)
  have hm : Measured [payment 1710512879000] := measured_of_total (by decide) (by decide)
  obtain ⟨r', hdispatch, -, -⟩ := hholding.dispatch (payment 1710512879000) fun part hpart =>
    hm.bounded (by simpa using hpart)
  have hgood : r.dispatchOrDrop (payment 1710512879000) = (.ok (), r') := by
    have hstart : Bucket.ofMillis (payment 1710512879000).start = .ok ⟨202403151427⟩ := by decide +kernel
    unfold dispatchOrDrop
    rw [hdispatch, hstart]
    rfl
  have hstart : Bucket.ofMillis (payment 253402300800000).start = .error (.outOfRange 253402300800000) := by
    decide +kernel
  have hreplay := replay_cancelling (payment 1710512880000) hgood (dispatchOrDrop_of_error hstart)
  obtain ⟨hall, -, hdropped, -⟩ := every_accepted_counted hreplay ⟨rfl, rfl⟩
  refine ⟨r, r', _, _, hbuild, hgood, hreplay, ⟨rfl, rfl⟩, hall, ?_⟩
  rw [hdropped [payment 1710512879000] (payment 253402300800000) [] _ rfl hstart]
  show (r.dispatchOrDrop (payment 1710512879000)).2.record _ = _
  rw [hgood]
  rfl

/-! ## The taker does not wait in vain -/

/-- Wherever moves lead: if there is nothing that the taker can do, it has left, or it waits with an
empty queue for somebody who still can send, and was not cancelled. -/
theorem waits_only_for_senders {r : Registry} {moves : List Move} {log : Log} {c : Taker}
    (hreplay : replay r moves = (log, c)) (h : ∀ m : Move, m.Own → (c.perform m).1 = .ignored) :
    c.intake.finished = true ∨ c.intake.queue = [] ∧ c.hand = none ∧ log.cancelled = false ∧ 0 < c.intake.handles := by
  have hkeeps := keeps_replay hreplay
  have hhand : c.hand = none := by
    have hcount := h .count trivial
    simp only [perform] at hcount
    split at hcount
    · assumption
    · split at hcount <;> cases hcount
  have htake := h .take trivial
  simp only [perform, hhand] at htake
  obtain ⟨s, rest, -, heq⟩ | ⟨-, -, heq⟩ | ⟨hfinished | ⟨hqueue, hopen, hhandles⟩, -⟩ := c.intake.take?_cases
  · rw [heq] at htake
    cases htake
  · rw [heq] at htake
    cases htake
  · exact .inl hfinished
  · cases hfinished : c.intake.finished with
    | true => exact .inl rfl
    | false =>
      have hclose := h .close trivial
      simp only [perform, hhand, Intake.canClose, hopen, hfinished] at hclose
      refine .inr ⟨hqueue, hhand, ?_, Nat.pos_of_ne_zero hhandles⟩
      rw [← hkeeps.cancelled]
      cases hcancelled : c.intake.cancelled with
      | false => rfl
      | true =>
        rw [hcancelled] at hclose
        cases hclose

/-! ## The taker alone -/

/-- What moves make of a taker, without the log. -/
def after (c : Taker) (moves : List Move) : Taker := moves.foldl (fun c m => (c.perform m).2) c

/-- A taker as it stands after `Intake.run`. -/
def standing : Outcome Unit × Intake × Registry → Taker
  | (.ok (), i, r) => { intake := i, registry := r }
  | (.error e, i, r) => { intake := i, registry := r, fault := some e }

theorem drain_moves (i : Intake) (r : Registry) :
    ∃ moves : List Move, (∀ m ∈ moves, m.Own) ∧ after { intake := i, registry := r } moves = standing (i.drain r) := by
  induction i, r using Intake.drain.induct with
  | case1 i r htake =>
    refine ⟨[], nofun, ?_⟩
    rw [Intake.drain_of_none htake]
    rfl
  | case2 i r j htake =>
    refine ⟨[.take], by simp [Move.Own], ?_⟩
    rw [Intake.drain_of_left htake]
    simp [after, perform, htake, standing]
  | case3 i r s j htake e r' hr =>
    refine ⟨[.take, .count], by simp [Move.Own], ?_⟩
    rw [Intake.drain_of_some htake, hr]
    simp [after, perform, htake, hr, standing]
  | case4 i r s j htake r' hr ih =>
    obtain ⟨moves, hown, hmoves⟩ := ih
    refine ⟨.take :: .count :: moves, by simpa [Move.Own] using hown, ?_⟩
    rw [Intake.drain_of_some htake, hr, ← hmoves]
    simp [after, perform, htake, hr]

/-- There is nothing that the taker can do: no span to take or to count, and nothing to notice. -/
theorem ignores_own {c : Taker} (hhand : c.hand = none) (htake : c.intake.take? = none)
    (hclose : c.intake.canClose = false) {m : Move} (hm : m.Own) : (c.perform m).1 = .ignored := by
  cases m with
  | close => simp [perform, hclose]
  | take => simp [perform, hhand, htake]
  | count => simp [perform, hhand]
  | send _ => exact hm.elim
  | cloneHandle => exact hm.elim
  | dropHandle => exact hm.elim
  | cancel => exact hm.elim

/-- Taking goes on until there is nothing to take, and does not open what is closed. -/
theorem drain_stops (i : Intake) (r : Registry) (hclose : i.canClose = false) :
    (i.drain r).2.1.take? = none ∧ (i.drain r).2.1.canClose = false := by
  induction i, r using Intake.drain.induct with
  | case1 i r htake =>
    rw [Intake.drain_of_none htake]
    exact ⟨htake, hclose⟩
  | case2 i r j htake =>
    rw [Intake.drain_of_left htake]
    obtain ⟨_, _, -, heq⟩ | ⟨-, -, heq⟩ | ⟨-, heq⟩ := i.take?_cases <;> cases htake.symm.trans heq
    exact ⟨rfl, by simp [Intake.canClose]⟩
  | case3 i r s j htake e r' hr =>
    rw [Intake.drain_of_some htake, hr]
    exact ⟨rfl, by simp [Intake.canClose]⟩
  | case4 i r s j htake r' hr ih =>
    rw [Intake.drain_of_some htake, hr]
    refine ih ?_
    obtain ⟨_, _, -, heq⟩ | ⟨-, -, heq⟩ | ⟨-, heq⟩ := i.take?_cases <;> cases htake.symm.trans heq
    exact hclose

/-- What the taker does while nobody else moves is a row of its own moves, so that what was said of
moves holds of it. It goes on as long as there is a move of its own that is not ignored. -/
theorem run_moves (i : Intake) (r : Registry) :
    (∃ moves : List Move, (∀ m ∈ moves, m.Own) ∧ after { intake := i, registry := r } moves = standing (i.run r)) ∧
      ∀ m : Move, m.Own → ((standing (i.run r)).perform m).1 = .ignored := by
  -- nothing is in the hand of a taker as it stands, whatever broke it off
  have hstands {result : Outcome Unit × Intake × Registry} (htake : result.2.1.take? = none)
      (hclose : result.2.1.canClose = false) : ∀ m : Move, m.Own → ((standing result).perform m).1 = .ignored := by
    obtain ⟨e | _, j, r'⟩ := result
    · exact fun m => ignores_own rfl htake hclose
    · exact fun m => ignores_own rfl htake hclose
  unfold Intake.run
  split
  · rename_i hclose
    obtain ⟨htake, hclosed⟩ := drain_stops i.close r (by simp [Intake.canClose, Intake.close])
    obtain ⟨moves, hown, hmoves⟩ := drain_moves i.close r
    refine ⟨⟨.close :: moves, by simpa [Move.Own] using hown, ?_⟩, hstands htake hclosed⟩
    rw [← hmoves]
    simp [after, perform, hclose]
  · rename_i hclose
    obtain ⟨htake, hclosed⟩ := drain_stops i r (by simpa using hclose)
    exact ⟨drain_moves i r, hstands htake hclosed⟩

end Taker

end MetricCascade

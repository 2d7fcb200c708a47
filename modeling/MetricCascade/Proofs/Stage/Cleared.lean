/-
A flush of all stages leaves nothing waiting in any of them, whatever the gateway refuses: the stages are
flushed from the finest on, and each hands on only to stages that are still to be flushed. A flush of stages
in which nothing waits calls nobody and changes nothing; it is only noted that the windows were read out.
-/
import MetricCascade.Proofs.Stage.Visits

namespace MetricCascade

/-- After a swap and a reading, a pair that nobody uses is as new. -/
theorem WindowPair.Rested.release_eq {p : WindowPair} (hp : p.Rested) : p.swapped.drain.2.release = {} := by
  obtain ⟨⟨active, writers⟩, ⟨retired, size, retiredWriters, reading⟩, claims⟩ := p
  obtain ⟨⟨hclaims, hfree, hempty⟩, hactive, hretired, hsize, -⟩ := hp
  simp only at hclaims hfree hempty hactive hretired hsize
  subst hclaims hfree hempty hactive hretired hsize
  rfl

namespace Stage

open Backend

variable {σ : Type} {s : Stage}

/-- Nothing waits in the windows, and nobody uses them. -/
structure State.Cleared (own : State) : Prop where
  windows : own.windows = {}
  accepting : own.flushing = false

/-- However a flush of a ready stage goes, it leaves the windows as new. -/
theorem flush_cleared (outlet : Option (Outlet σ)) (above : List Layout) {c : Scene σ} (hown : c.own.Ready s) :
    (s.flush outlet above c).2.own.Cleared := by
  have hprepared {p : WindowPair} {a : Attempt} {r : Outcome (List Operation)} {d : Scene σ}
      (hcommit : c.own.windows.begin.2.commit c.own.windows.begin.1 = (true, a, p))
      (hprepare : s.prepareBatch outlet (c.taken s p) (c.draining s p) = (r, d)) :
      d.own.windows = c.own.windows.swapped.drain.2 := by
    obtain ⟨-, rfl⟩ := hown.rested.toIdle.swaps hcommit
    have hkept := (prepareBatch_kept (s := s) outlet (c.taken s c.own.windows.swapped)
      (c.draining s c.own.windows.swapped)).windows
    rw [hprepare] at hkept
    exact hkept
  have hreleased {d : Scene σ} (hd : d.own.windows = c.own.windows.swapped.drain.2) : d.flushed.own.Cleared :=
    ⟨(congrArg WindowPair.release hd).trans hown.rested.release_eq, rfl⟩
  rcases hflush : s.flush outlet above c with ⟨r, e⟩
  cases hflush ▸ flush_cases s outlet above c with
  | unswapped hcommit =>
    obtain ⟨hswapped, -⟩ := hown.rested.toIdle.swaps hcommit
    cases hswapped
  | aborted hcommit hprepare => exact hreleased (hprepared hcommit hprepare)
  | unwritten hcommit hprepare => exact hreleased (hprepared hcommit hprepare)
  | @sent _ _ op batch d _ _ hcommit hprepare hwrite =>
    have hkept := (writeBatch_kept (s := s) above (op :: batch) d).1.windows
    rw [hwrite] at hkept
    exact hreleased (hkept.trans (hprepared hcommit hprepare))

/-- A flush of a cleared stage reads out an empty window, and that is all. -/
theorem flush_of_cleared (outlet : Option (Outlet σ)) (above : List Layout) {c : Scene σ} (h : c.own.Cleared) :
    s.flush outlet above c = (.ok (.ok true), c.record (.drained s.layout 0)) := by
  obtain ⟨⟨windows, flushing, tally⟩, below, backend⟩ := c
  obtain ⟨hwindows, hflushing⟩ := h
  simp only at hwindows hflushing
  subst hwindows hflushing
  -- in whatever order, nothing comes out
  have hnone : Scene.taken ⟨{ tally }, below, backend⟩ s (WindowPair.swapped {}) = [] := (Scene.taken_perm ..).eq_nil
  have hcases := flush_cases s outlet above ⟨{ tally }, below, backend⟩
  generalize s.flush outlet above ⟨{ tally }, below, backend⟩ = result at hcases ⊢
  cases hcases with
  | unswapped hcommit => cases (WindowPair.idle_initial.swaps hcommit).1
  | aborted hcommit hprepare =>
    obtain ⟨-, rfl⟩ := WindowPair.idle_initial.swaps hcommit
    rw [hnone] at hprepare
    cases hprepare
  | unwritten hcommit hprepare =>
    obtain ⟨-, rfl⟩ := WindowPair.idle_initial.swaps hcommit
    rw [hnone] at hprepare
    cases hprepare
    rfl
  | sent hcommit hprepare _ =>
    obtain ⟨-, rfl⟩ := WindowPair.idle_initial.swaps hcommit
    rw [hnone] at hprepare
    cases hprepare

/-! ## Lines -/

/-- Every stage is cleared. -/
def States.Cleared : {stages : List Stage} → States stages → Prop
  | [], () => True
  | _ :: _, (own, below) => own.Cleared ∧ below.Cleared

/-- A flush of all stages that is not aborted clears all of them, whether it met errors or not. -/
theorem flushAllIn_cleared : ∀ {stages : List Stage} {states states' : States stages} {b b' : Backend}
    {r : Except FlushError Unit}, states.Ready → flushAllIn stages states b = (.ok r, states', b') → states'.Cleared
  | [], _, _, _, _, _, _, _ => trivial
  | s :: rest, states, states', b, b', r, hready, h => by
    have hown : (s.flushHead rest states b).2.own.Cleared :=
      flush_cleared _ _ (c := ⟨states.1, states.2, b⟩) hready.1
    have hbelow := (flushHead_ready hready b).2.1.2
    rw [flushAllIn_cons] at h
    rcases hflush : s.flushHead rest states b with ⟨fault | e | swapped, d⟩ <;> rw [hflush] at h hown hbelow <;>
      dsimp only at h
    · cases h
    · rcases hall : flushAllIn rest d.below (d.backend.record (.flushFailed e)) with ⟨fault | r', below', b₂⟩ <;>
        rw [hall] at h <;> cases h
      exact ⟨hown, flushAllIn_cleared hbelow hall⟩
    · rcases hall : flushAllIn rest d.below d.backend with ⟨r', below', b₂⟩
      rw [hall] at h
      cases h
      exact ⟨hown, flushAllIn_cleared hbelow hall⟩

/-- Between `b` and `b'` empty windows were read out and nothing else happened: no call was made, and nothing
was written. -/
def Unmoved (b b' : Backend) : Prop :=
  ∃ es, b' = { b with journal := es ++ b.journal } ∧ ∀ e ∈ es, ∃ l, e = .drained l 0

theorem Unmoved.refl (b : Backend) : Unmoved b b := ⟨[], rfl, fun _ h => by cases h⟩

theorem Unmoved.trans {b b' b'' : Backend} (h : Unmoved b b') (h' : Unmoved b' b'') : Unmoved b b'' := by
  obtain ⟨es, rfl, hes⟩ := h
  obtain ⟨fs, rfl, hfs⟩ := h'
  refine ⟨fs ++ es, by rw [List.append_assoc], fun e hmem => ?_⟩
  exact (List.mem_append.1 hmem).elim (hfs e) (hes e)

theorem unmoved_drained (b : Backend) (l : Layout) : Unmoved b (b.record (.drained l 0)) :=
  ⟨[.drained l 0], rfl, fun _ h => ⟨l, List.mem_singleton.1 h⟩⟩

/-- A flush of cleared stages changes none of them, and calls nobody. -/
theorem flushAllIn_of_cleared : ∀ {stages : List Stage} {states : States stages} (b : Backend), states.Cleared →
    ∃ b', flushAllIn stages states b = (.ok (.ok ()), states, b') ∧ Unmoved b b'
  | [], (), b, _ => ⟨b, rfl, .refl b⟩
  | s :: rest, states, b, h => by
    obtain ⟨b', hall, hunmoved⟩ := flushAllIn_of_cleared (b.record (.drained s.layout 0)) h.2
    obtain ⟨d, hhead, hown, hbelow, hbackend⟩ : ∃ d : Scene (States rest), s.flushHead rest states b = (.ok (.ok true), d) ∧
        d.own = states.1 ∧ d.below = states.2 ∧ d.backend = b.record (.drained s.layout 0) :=
      ⟨_, flush_of_cleared _ _ (c := ⟨states.1, states.2, b⟩) h.1, rfl, rfl, rfl⟩
    refine ⟨b', ?_, (unmoved_drained b s.layout).trans hunmoved⟩
    rw [flushAllIn_cons, hhead]
    dsimp only
    rw [hown, hbelow, hbackend, hall]
    rfl

end Stage

end MetricCascade

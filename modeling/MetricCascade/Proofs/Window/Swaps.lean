/-
Who may swap. In every state that moves lead to, the attempts that are alive are counted, at most
one of them is granted, and one that is granted stays good until it commits: nothing waited for a
reader when it was granted, and only its own commit lets another window retire. So windows are
never swapped while one of them waits for its reader.
-/
import MetricCascade.Proofs.Window.Traffic

namespace MetricCascade

namespace Session

/-- Beginning an attempt changes no window. A former attempt of the name ends, so that there is one more
only if there was none. -/
theorem begin_windows (s : Session) (name : String) :
    (s.begin name).2.windows =
      { s.windows with claims := if s.attempts.contains name then s.windows.claims else s.windows.claims + 1 } := by
  have hwindows : (s.begin name).2.windows =
      if s.attempts.contains name then s.windows.begin.2.release else s.windows.begin.2 := rfl
  rw [hwindows]
  split <;> rfl

end Session

namespace Traffic

variable {log : Log} {t : Traffic}

/-! ## Windows of writers -/

theorem setWindow_active (t : Traffic) (n : Nat) (w : Window) :
    (t.setWindow n w).session.windows.active = if n = t.swaps then w else t.session.windows.active := by
  unfold setWindow
  split <;> rfl

theorem setWindow_retired (t : Traffic) (n : Nat) (w : Window) :
    (t.setWindow n w).session.windows.retired = if n = t.swaps then t.session.windows.retired else w := by
  unfold setWindow
  split <;> rfl

theorem setWindow_claims (t : Traffic) (n : Nat) (w : Window) :
    (t.setWindow n w).session.windows.claims = t.session.windows.claims := by
  unfold setWindow
  split <;> rfl

@[simp] theorem setWindow_swaps (t : Traffic) (n : Nat) (w : Window) : (t.setWindow n w).swaps = t.swaps := rfl

/-! ## Attempts -/

/-- What a log says about attempts and about readers is so. -/
structure Claimed (log : Log) (t : Traffic) : Prop where
  claims : t.session.windows.claims = t.session.attempts.size
  attempts : ∀ name, t.session.attempts.get? name = log.attempt? name
  /-- No two attempts that are alive were granted. -/
  alone : ∀ {a b x y}, log.attempt? a = some x → log.attempt? b = some y → x.granted = true → y.granted = true → a = b
  /-- While an attempt may commit, nothing waits for a reader. -/
  free : ∀ {a}, log.attempt? a = some ⟨true, false⟩ → log.pending = false
  active : t.session.windows.active.reading = false
  retired : t.session.windows.retired.reading = log.pending

theorem claimed_initial : Claimed [] {} where
  claims := rfl
  attempts _ := rfl
  alone h := by cases h
  free h := by cases h
  active := rfl
  retired := rfl

/-- What is merged, and who holds a window, makes no difference to the attempts. -/
theorem Claimed.frame {log' : Log} {t' : Traffic} (h : Claimed log t)
    (hclaims : t'.session.windows.claims = t.session.windows.claims)
    (hattempts : t'.session.attempts = t.session.attempts)
    (hactive : t'.session.windows.active.reading = t.session.windows.active.reading)
    (hretired : t'.session.windows.retired.reading = t.session.windows.retired.reading)
    (hlog : ∀ name, log'.attempt? name = log.attempt? name) (hpending : log'.pending = log.pending) :
    Claimed log' t' where
  claims := by rw [hclaims, hattempts, h.claims]
  attempts name := by rw [hattempts, hlog, h.attempts]
  alone ha hb := h.alone (hlog _ ▸ ha) (hlog _ ▸ hb)
  free ha := hpending.trans (h.free (hlog _ ▸ ha))
  active := hactive.trans h.active
  retired := by rw [hretired, hpending, h.retired]

theorem Claimed.setWindow {log' : Log} (h : Claimed log t) (n : Nat) {w : Window}
    (hw : w.reading = (t.window n).reading) (hlog : ∀ name, log'.attempt? name = log.attempt? name)
    (hpending : log'.pending = log.pending) : Claimed log' (t.setWindow n w) := by
  refine h.frame (setWindow_claims t n w) rfl ?_ ?_ hlog hpending
  · rw [setWindow_active]
    split
    · rename_i hn; rw [hw, window, if_pos hn]
    · rfl
  · rw [setWindow_retired]
    split
    · rfl
    · rename_i hn; rw [hw, window, if_neg hn]

/-- A new attempt is granted if no other is alive and nothing waits for a reader. -/
theorem Claimed.granted_iff (h : Claimed log t) (name : String) :
    (t.session.begin name).1 = true ↔ (∀ a, log.attempt? a = none) ∧ log.pending = false := by
  have hgranted : (t.session.begin name).1 =
      (decide (t.session.windows.claims = 0) && !t.session.windows.retired.reading) := rfl
  rw [hgranted, h.claims, h.retired, Bool.and_eq_true, decide_eq_true_eq, Bool.not_eq_true',
    Dict.size_eq_zero_iff]
  simp only [h.attempts]

theorem Claimed.begin (h : Claimed log t) (name : String) :
    Claimed ((.begin name, .granted (t.session.begin name).1) :: log) { t with session := (t.session.begin name).2 } := by
  have hiff := h.granted_iff name
  have hwindows := t.session.begin_windows name
  have hattempts : (t.session.begin name).2.attempts =
    t.session.attempts.insert name ⟨(t.session.begin name).1, false⟩ := rfl
  generalize (t.session.begin name).1 = yes at hiff hattempts ⊢
  have hlog (a : String) : Log.attempt? a ((.begin name, .granted yes) :: log) =
    if name = a then some ⟨yes, false⟩ else log.attempt? a := rfl
  -- a granted attempt finds no other, so it is the only one that is alive
  have hnew {a : String} {x : Attempt} (hx : Log.attempt? a ((.begin name, .granted yes) :: log) = some x) :
      (a = name ∧ x = ⟨yes, false⟩) ∨ (yes = false ∧ log.attempt? a = some x) := by
    rw [hlog] at hx
    split at hx
    · rename_i hname
      exact .inl ⟨hname.symm, (Option.some.inj hx).symm⟩
    · refine .inr ⟨?_, hx⟩
      cases yes with
      | false => rfl
      | true => rw [(hiff.1 rfl).1 a] at hx; cases hx
  constructor
  case claims =>
    dsimp only
    rw [hwindows, hattempts, Dict.size_insert, ← h.claims]
  case attempts =>
    intro a
    dsimp only
    rw [hattempts, Dict.get?_insert, hlog, h.attempts]
    simp only [eq_comm]
  case alone =>
    intro a b x y ha hb hx hy
    rcases hnew ha with ⟨rfl, rfl⟩ | ⟨hno, ha⟩ <;> rcases hnew hb with ⟨rfl, rfl⟩ | ⟨hno', hb⟩
    · rfl
    · rw [hno'] at hx; cases hx
    · rw [hno] at hy; cases hy
    · exact h.alone ha hb hx hy
  case free =>
    intro a ha
    rcases hnew ha with ⟨-, heq⟩ | ⟨-, ha⟩
    · exact (hiff.1 (congrArg Attempt.granted heq).symm).2
    · exact h.free ha
  case active =>
    dsimp only
    rw [hwindows]
    exact h.active
  case retired =>
    dsimp only
    rw [hwindows]
    exact h.retired

theorem Claimed.keep (h : Claimed log t) {name : String} {a : Attempt} (ha : t.session.attempts.get? name = some a) :
    Claimed ((.commit name, .swapped false) :: log)
      { t with session.attempts := t.session.attempts.insert name a } := by
  refine ⟨?_, fun b => ?_, h.alone, h.free, h.active, h.retired⟩
  · show t.session.windows.claims = (t.session.attempts.insert name a).size
    rw [Dict.size_insert, Dict.contains, ha]
    exact h.claims
  · show (t.session.attempts.insert name a).get? b = log.attempt? b
    rw [Dict.get?_insert, ← h.attempts]
    split
    · rename_i hb; rw [hb, ha]
    · rfl

theorem Claimed.swap (h : Claimed log t) {name : String} (ha : t.session.attempts.get? name = some ⟨true, false⟩) :
    Claimed ((.commit name, .swapped true) :: log)
      { t with
        session := ⟨t.session.windows.swap, t.session.attempts.insert name ⟨true, true⟩⟩
        swaps := t.swaps + 1 } := by
  have hname : log.attempt? name = some ⟨true, false⟩ := (h.attempts name).symm.trans ha
  have hlog (b : String) : Log.attempt? b ((.commit name, .swapped true) :: log) =
    if name = b then (log.attempt? b).map fun x => { x with committed := true } else log.attempt? b := rfl
  -- the attempts are those from before, but for the one that has committed now
  have hold {b : String} {x : Attempt} (hx : Log.attempt? b ((.commit name, .swapped true) :: log) = some x) :
      (b = name ∧ x = ⟨true, true⟩) ∨ (b ≠ name ∧ log.attempt? b = some x) := by
    rw [hlog] at hx
    split at hx
    · rename_i hb
      subst hb
      rw [hname] at hx
      exact .inl ⟨rfl, (Option.some.inj hx).symm⟩
    · rename_i hb
      exact .inr ⟨Ne.symm hb, hx⟩
  constructor
  case claims =>
    show t.session.windows.claims = (t.session.attempts.insert name _).size
    rw [Dict.size_insert, Dict.contains, ha]
    exact h.claims
  case attempts =>
    intro b
    dsimp only
    rw [Dict.get?_insert, hlog, h.attempts]
    by_cases hb : b = name
    · subst hb
      rw [if_pos rfl, if_pos rfl, hname]
      rfl
    · rw [if_neg hb, if_neg (Ne.symm hb)]
  case alone =>
    intro a b x y hx hy hgx hgy
    rcases hold hx with ⟨rfl, -⟩ | ⟨-, hx'⟩ <;> rcases hold hy with ⟨rfl, -⟩ | ⟨-, hy'⟩
    · rfl
    · exact h.alone hname hy' rfl hgy
    · exact h.alone hx' hname hgx rfl
    · exact h.alone hx' hy' hgx hgy
  case free =>
    intro a hx
    rcases hold hx with ⟨-, heq⟩ | ⟨hne, hx⟩
    · cases heq
    · exact absurd (h.alone hx hname rfl rfl) hne
  case active => exact h.retired.trans (h.free hname)
  case retired => rfl

theorem Claimed.release (h : Claimed log t) {name : String} (ha : t.session.attempts.contains name = true) :
    Claimed ((.release name, .done) :: log)
      { t with session := ⟨t.session.windows.release, t.session.attempts.erase name⟩ } := by
  have hlog (a : String) : Log.attempt? a ((.release name, .done) :: log) =
    if name = a then none else log.attempt? a := rfl
  have hold {a : String} {x : Attempt} (hx : Log.attempt? a ((.release name, .done) :: log) = some x) :
      log.attempt? a = some x := by
    rw [hlog] at hx
    split at hx
    · cases hx
    · exact hx
  refine ⟨?_, fun a => ?_, fun hx hy => h.alone (hold hx) (hold hy), fun hx => h.free (hold hx), h.active, h.retired⟩
  · show t.session.windows.claims - 1 = (t.session.attempts.erase name).size
    have hsize := Dict.size_erase ha
    rw [h.claims]
    omega
  · dsimp only
    rw [Dict.get?_erase, hlog, h.attempts]
    simp only [eq_comm]

/-- Every move keeps the account of attempts and readers. -/
theorem Claimed.step {m : Move} {r : Reply} {t' : Traffic} (h : Claimed log t) (hs : Step t m r t') :
    Claimed ((m, r) :: log) t' := by
  cases hs with
  | ignored _ => exact h.frame rfl rfl rfl rfl (fun _ => by cases m <;> rfl) (by cases m <;> rfl)
  | merged x =>
    refine h.frame rfl rfl ?_ rfl (fun _ => rfl) rfl
    exact (Window.merge_kept t.session.windows.active.enter x).2
  | begun name => exact h.begin name
  | kept ha _ => exact h.keep ha
  | swapped ha => exact h.swap ha
  | released ha => exact h.release ha
  | drained _ _ => exact ⟨h.claims, h.attempts, h.alone, fun _ => rfl, h.active, rfl⟩
  | @entered name _ =>
    have hset : Claimed ((.enter name, .done) :: log) (t.setWindow t.swaps (t.window t.swaps).enter) :=
      h.setWindow t.swaps rfl (fun _ => rfl) rfl
    exact hset.frame rfl rfl rfl rfl (fun _ => rfl) rfl
  | @written _ n x _ => exact h.setWindow n (Window.merge_kept (t.window n) x).2 (fun _ => rfl) rfl
  | @left name n _ =>
    have hset : Claimed ((.leave name, .done) :: log) (t.setWindow n (t.window n).leave) :=
      h.setWindow n rfl (fun _ => rfl) rfl
    exact hset.frame rfl rfl rfl rfl (fun _ => rfl) rfl

theorem claimed_replay (moves : List Move) : Claimed (replay moves).1 (replay moves).2 :=
  replay_invariant claimed_initial Claimed.step moves

/-! ## What the next call answers -/

/-- An attempt commits if it was granted and has not committed, and then the windows change places.
Otherwise they stay where they are. -/
theorem commit_answers {name : String} {a : Attempt} (ha : t.session.attempts.get? name = some a) :
    (t.perform (.commit name)).1 = .swapped (a.granted && !a.committed) ∧
      (t.perform (.commit name)).2.session.windows =
        if a.granted && !a.committed then t.session.windows.swap else t.session.windows := by
  have hstep := step_commit t name
  generalize t.perform (.commit name) = result at hstep ⊢
  obtain ⟨r, t'⟩ := result
  dsimp only at hstep ⊢
  cases hstep with
  | ignored hnone =>
    rw [hnone name rfl] at ha
    cases ha
  | kept ha' hno =>
    cases ha'.symm.trans ha
    obtain ⟨granted, committed⟩ := a
    cases granted <;> cases committed <;> first | exact ⟨rfl, rfl⟩ | exact absurd rfl hno
  | swapped ha' =>
    cases ha'.symm.trans ha
    exact ⟨rfl, rfl⟩

/-- Ending an attempt touches neither window, and takes it off the count. -/
theorem Claimed.release_counts (h : Claimed log t) {name : String} {a : Attempt} (ha : log.attempt? name = some a) :
    (t.perform (.release name)).1 = .done ∧
      (t.perform (.release name)).2.session.windows = { t.session.windows with claims := t.session.windows.claims - 1 } ∧
      0 < t.session.windows.claims := by
  have hthere : t.session.attempts.contains name = true := by
    rw [Dict.contains, h.attempts, ha]
    rfl
  have hsize := Dict.size_erase hthere
  have hperform : t.perform (.release name) =
      (.done, { t with session := ⟨t.session.windows.release, t.session.attempts.erase name⟩ }) := by
    simp only [perform, Session.release, hthere, if_true]
  rw [hperform]
  refine ⟨rfl, rfl, ?_⟩
  rw [h.claims]
  omega

/-- Unless it is a commit, a move leaves one of the windows as it is and where it is. -/
theorem Step.windows_stay {m : Move} {r : Reply} {t' : Traffic} (hs : Step t m r t') (hm : ∀ name, m ≠ .commit name) :
    t'.session.windows.active = t.session.windows.active ∨ t'.session.windows.retired = t.session.windows.retired := by
  have hset (n : Nat) (w : Window) : (t.setWindow n w).session.windows.active = t.session.windows.active ∨
      (t.setWindow n w).session.windows.retired = t.session.windows.retired := by
    rw [setWindow_active, setWindow_retired]
    split
    · exact .inr rfl
    · exact .inl rfl
  cases hs with
  | ignored _ => exact .inl rfl
  | merged x => exact .inr rfl
  | begun name => rw [t.session.begin_windows name]; exact .inl rfl
  | kept _ _ => exact absurd rfl (hm _)
  | swapped _ => exact absurd rfl (hm _)
  | released _ => exact .inl rfl
  | drained _ _ => exact .inl rfl
  | entered _ => exact hset ..
  | written _ _ => exact hset ..
  | left _ => exact hset ..

/-- Wherever moves lead on fresh windows, the count is that of the attempts that are alive, of which
at most one was granted; the active window is never being read, and the retired one is from the
swap until it is drained. From there on, a new attempt is granted if no other is alive and the
retired window is not being read; an attempt commits if it was granted and has not committed, and then
the retired window becomes the active one as it is, while the active one retires and is being read;
ending one takes it off the count, which is not zero then; and no other call moves the windows. -/
theorem swaps_claimed (moves : List Move) :
    let (log, t) := replay moves
    let p := t.session.windows
    p.claims = t.session.attempts.size ∧
    (∀ name, t.session.attempts.get? name = log.attempt? name) ∧
    (∀ a b x y, log.attempt? a = some x → log.attempt? b = some y → x.granted = true → y.granted = true → a = b) ∧
    p.active.reading = false ∧
    p.retired.reading = log.pending ∧
    (∀ name, ∃ yes, (t.perform (.begin name)).1 = .granted yes ∧
      (yes = true ↔ (∀ a, log.attempt? a = none) ∧ p.retired.reading = false) ∧
      (t.perform (.begin name)).2.session.windows =
        { p with claims := if (log.attempt? name).isSome then p.claims else p.claims + 1 }) ∧
    (∀ name a, log.attempt? name = some a →
      (t.perform (.commit name)).1 = .swapped (a.granted && !a.committed) ∧
      (t.perform (.commit name)).2.session.windows =
        if a.granted && !a.committed then
          { active := p.retired, retired := { p.active with reading := true }, claims := p.claims }
        else p) ∧
    (∀ name a, log.attempt? name = some a →
      (t.perform (.release name)).1 = .done ∧
      (t.perform (.release name)).2.session.windows = { p with claims := p.claims - 1 } ∧
      0 < p.claims) ∧
    (∀ m, (∀ name, m ≠ .commit name) → (t.perform m).2.session.windows.active = p.active ∨
      (t.perform m).2.session.windows.retired = p.retired) := by
  have h := claimed_replay moves
  generalize replay moves = result at h
  obtain ⟨log, t⟩ := result
  dsimp only at h ⊢
  refine ⟨h.claims, h.attempts, fun _ _ _ _ => h.alone, h.active, h.retired, fun name => ?_, fun name a ha => ?_,
    fun name a ha => h.release_counts ha, fun m hm => (perform_step t m).windows_stay hm⟩
  · refine ⟨(t.session.begin name).1, rfl, ?_, ?_⟩
    · rw [h.retired]
      exact h.granted_iff name
    · rw [← h.attempts]
      exact t.session.begin_windows name
  · exact commit_answers ((h.attempts name).trans ha)

/-- Two attempts that overlap: only the first one is granted, and only it swaps the windows. -/
example : (replay [.begin "a", .begin "b", .commit "b", .commit "a", .release "a"]).1.map (·.2) =
    [.done, .swapped true, .swapped false, .granted false, .granted true] := by rfl

end Traffic

end MetricCascade

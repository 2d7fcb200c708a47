/-
What becomes of every update. The active window holds what was merged since the last swap, the
retired one what its reader has not taken yet, writers that arrived before the swap included. Each
window is delivered once, by the first reader after its swap, and what is delivered is all that was
ever merged into it: a reader waits for the writers that hold the window, and no one else can get hold
of it.
-/
import MetricCascade.Proofs.Window.Swaps

namespace MetricCascade

namespace Traffic

namespace Log

/-- What readers took from windows that waited for them, oldest first, with the number of swaps that the
window had seen when it was active. -/
def deliveries : Log → List (Nat × List Indicator)
  | [] => []
  | (.drain _, .drained xs) :: before =>
    deliveries before ++ if pending before then [(swaps before - 1, xs)] else []
  | _ :: before => deliveries before

/-- The windows whose readers are done: all that have retired, but for one that waits. -/
def finished (log : Log) : Nat := log.swaps - log.pending.toNat

end Log

variable {log log' : Log} {t t' : Traffic}

/-! ## Who holds which window -/

/-- The window that has seen so many swaps takes updates: it is the active one, or it waits for its reader. -/
def Log.Open (log : Log) (n : Nat) : Prop := n = log.swaps ∨ n + 1 = log.swaps ∧ log.pending = true

/-- Every writer holds a window that takes updates, and each window counts its writers. -/
structure Manned (log : Log) (t : Traffic) : Prop where
  swaps : t.swaps = log.swaps
  held : ∀ {name n}, t.writers.get? name = some n → n = log.held name ∧ log.Open n
  active : t.session.windows.active.writers = t.writers.entries.countP fun e => e.2 == t.swaps
  retired : t.session.windows.retired.writers = t.writers.entries.countP fun e => e.2 != t.swaps

theorem Manned.frame (h : Manned log t) (hswaps : t'.swaps = t.swaps) (hwriters : t'.writers = t.writers)
    (hactive : t'.session.windows.active.writers = t.session.windows.active.writers)
    (hretired : t'.session.windows.retired.writers = t.session.windows.retired.writers)
    (hlog : log'.swaps = log.swaps) (hpending : log'.pending = log.pending)
    (hheld : ∀ name, log'.held name = log.held name) : Manned log' t' where
  swaps := by rw [hswaps, hlog, h.swaps]
  held hn := by
    rw [hheld, Log.Open, hlog, hpending]
    exact h.held (hwriters ▸ hn)
  active := by rw [hactive, hwriters, hswaps, h.active]
  retired := by rw [hretired, hwriters, hswaps, h.retired]

/-- Where no window waits, all writers hold the active one. -/
theorem Manned.current (h : Manned log t) (hfree : log.pending = false) {e : String × Nat}
    (he : e ∈ t.writers.entries) : e.2 = t.swaps := by
  obtain ⟨-, hn | ⟨-, hpending⟩⟩ := h.held (Dict.get?_eq_some_iff.2 he)
  · rw [hn, h.swaps]
  · rw [hfree] at hpending
    cases hpending

theorem Manned.swap (h : Manned log t) (hfree : log.pending = false) (name : String) (d : Dict String Attempt) :
    Manned ((.commit name, .swapped true) :: log)
      { t with session := ⟨t.session.windows.swap, d⟩, swaps := t.swaps + 1 } := by
  constructor
  case swaps => exact congrArg (· + 1) h.swaps
  case held =>
    intro name n hn
    refine ⟨(h.held hn).1, .inr ⟨?_, rfl⟩⟩
    have hcurrent := h.current hfree (Dict.get?_eq_some_iff.1 hn)
    show n + 1 = log.swaps + 1
    rw [← h.swaps, ← hcurrent]
  case active =>
    show t.session.windows.retired.writers = _
    rw [h.retired]
    refine List.countP_congr fun e he => ?_
    simp [h.current hfree he]
  case retired =>
    show t.session.windows.active.writers = _
    rw [h.active]
    refine List.countP_congr fun e he => ?_
    simp [h.current hfree he]

/-- After a reader is done no writer is left that holds the window it took. -/
theorem Manned.drain (h : Manned log t) (hnone : t.session.windows.retired.writers = 0) (order : DrainOrder)
    (xs : List Indicator) :
    Manned ((.drain order, .drained xs) :: log) { t with session.windows := t.session.windows.drain.2 } := by
  refine ⟨h.swaps, fun {name n} hn => ⟨(h.held hn).1, .inl ?_⟩, h.active, h.retired⟩
  have hmem := Dict.get?_eq_some_iff.1 hn
  rw [h.retired, List.countP_eq_zero] at hnone
  show n = log.swaps
  rw [← h.swaps]
  simpa using hnone _ hmem

theorem Manned.enter (h : Manned log t) {name : String} (hnone : t.writers.get? name = none) :
    Manned ((.enter name, .done) :: log)
      { t.setWindow t.swaps (t.window t.swaps).enter with writers := t.writers.insert name t.swaps } := by
  have hcount := Dict.countP_insert hnone t.swaps
  constructor
  case swaps => exact h.swaps
  case held =>
    intro other n hn
    have hlog : Log.held other ((.enter name, .done) :: log) = if name = other then log.swaps else log.held other := rfl
    rw [hlog]
    dsimp only at hn
    rw [Dict.get?_insert] at hn
    split at hn
    · rename_i hname
      cases hn
      exact ⟨by rw [if_pos hname.symm, h.swaps], .inl h.swaps⟩
    · rename_i hname
      rw [if_neg (Ne.symm hname)]
      exact h.held hn
  case active =>
    dsimp only
    rw [setWindow_active, if_pos rfl, hcount, window, if_pos rfl]
    simp [Window.enter, h.active]
  case retired =>
    dsimp only
    rw [setWindow_retired, if_pos rfl, hcount, h.retired]
    simp

theorem Manned.leave (h : Manned log t) {name : String} {n : Nat} (hn : t.writers.get? name = some n) :
    Manned ((.leave name, .done) :: log)
      { t.setWindow n (t.window n).leave with writers := t.writers.erase name } := by
  have hcount := Dict.countP_erase hn
  constructor
  case swaps => exact h.swaps
  case held =>
    intro other m hm
    dsimp only at hm
    rw [Dict.get?_erase] at hm
    split at hm
    · cases hm
    · exact h.held hm
  case active =>
    dsimp only
    have hactive := hcount fun e => e.2 == t.swaps
    rw [setWindow_active, setWindow_swaps]
    by_cases hcurrent : n = t.swaps
    · rw [if_pos hcurrent, window, if_pos hcurrent]
      simp [Window.leave, h.active, ← hactive, hcurrent]
    · rw [if_neg hcurrent, h.active]
      simpa [hcurrent] using hactive.symm
  case retired =>
    dsimp only
    have hretired := hcount fun e => e.2 != t.swaps
    rw [setWindow_retired, setWindow_swaps]
    by_cases hcurrent : n = t.swaps
    · rw [if_pos hcurrent, h.retired]
      simpa [hcurrent] using hretired.symm
    · rw [if_neg hcurrent, window, if_neg hcurrent]
      simp [Window.leave, h.retired, ← hretired, hcurrent]

theorem Manned.setWindow (h : Manned log t) (n : Nat) {w : Window} (hw : w.writers = (t.window n).writers)
    (hlog : log'.swaps = log.swaps) (hpending : log'.pending = log.pending)
    (hheld : ∀ name, log'.held name = log.held name) : Manned log' (t.setWindow n w) := by
  refine h.frame rfl rfl ?_ ?_ hlog hpending hheld
  · rw [setWindow_active]
    split
    · rename_i hn; rw [hw, window, if_pos hn]
    · rfl
  · rw [setWindow_retired]
    split
    · rfl
    · rename_i hn; rw [hw, window, if_neg hn]

/-- Every move keeps the account of who holds which window. -/
theorem Manned.step (hc : Claimed log t) (h : Manned log t) {m : Move} {r : Reply} (hs : Step t m r t') :
    Manned ((m, r) :: log) t' := by
  cases hs with
  | ignored _ =>
    exact h.frame rfl rfl rfl rfl (by cases m <;> rfl) (by cases m <;> rfl) (fun _ => by cases m <;> rfl)
  | merged x =>
    refine h.frame rfl rfl ?_ rfl rfl rfl fun _ => rfl
    show (t.session.windows.active.enter.merge x).2.writers - 1 = _
    rw [(Window.merge_kept _ x).1]
    rfl
  | begun name =>
    have hwindows := t.session.begin_windows name
    refine h.frame rfl rfl ?_ ?_ rfl rfl fun _ => rfl <;> dsimp only <;> rw [hwindows]
  | kept _ _ => exact h.frame rfl rfl rfl rfl rfl rfl fun _ => rfl
  | swapped ha => exact h.swap (hc.free ((hc.attempts _).symm.trans ha)) _ _
  | released _ => exact h.frame rfl rfl rfl rfl rfl rfl fun _ => rfl
  | drained order hnone => exact h.drain hnone order _
  | entered hnone => exact h.enter hnone
  | @written name n x _ => exact h.setWindow n (Window.merge_kept (t.window n) x).1 rfl rfl fun _ => rfl
  | left hn => exact h.leave hn

/-! ## What is in which window -/

theorem Log.swaps_le_cons (head : Move × Reply) (before : Log) : before.swaps ≤ Log.swaps (head :: before) := by
  obtain ⟨m, r⟩ := head
  cases m <;> cases r <;> try exact Nat.le_refl _
  rename_i yes
  cases yes
  · exact Nat.le_refl _
  · exact Nat.le_succ _

theorem Log.swaps_pos {log : Log} (h : log.pending = true) : 0 < log.swaps := by
  fun_induction Log.pending log with
  | case1 => cases h
  | case2 => exact Nat.succ_pos _
  | case3 => cases h
  | case4 head before _ _ ih => exact (ih h).trans_le (Log.swaps_le_cons head before)

theorem Log.mergesOf_take {r : Outcome (Except CombineError Unit)} {k : Nat} {x : Indicator}
    (h : log'.merges = log.merges ++ if Log.takes r then [(k, x)] else []) (n : Nat) :
    log'.mergesOf n = log.mergesOf n ++ if k = n ∧ Log.takes r then [x] else [] := by
  unfold Log.mergesOf
  rw [h, List.filter_append, List.map_append]
  cases Log.takes r <;> by_cases hk : k = n <;> simp [hk]

/-- A window that has gathered updates gathers one more, unless it rejects it. -/
theorem merge_gathered {w : Window} {xs : List Indicator} (hw : w.view = gathered xs) (x : Indicator) :
    (w.merge x).2.view = gathered (xs ++ if Log.takes (w.merge x).1 then [x] else []) := by
  cases htakes : Log.takes (w.merge x).1 with
  | true =>
    rw [if_pos rfl, gathered_append, Window.merge_view, hw]
  | false =>
    have hrejected : ∃ e, (w.merge x).1 = .ok (.error e) := by
      generalize (w.merge x).1 = r at htakes
      fun_cases Log.takes r
      · exact ⟨_, rfl⟩
      · simp_all [Log.takes]
    obtain ⟨e, he⟩ := hrejected
    rw [Window.merge_rejected he, hw]
    simp

/-- What is in the windows, and what was delivered, is what was merged. -/
structure Gathering (log : Log) (t : Traffic) : Prop where
  active : t.session.windows.active.view = gathered (log.mergesOf log.swaps)
  retired : t.session.windows.retired.view = log.waiting
  /-- Nothing was merged into windows yet to come. -/
  coming : ∀ n, log.swaps < n → log.mergesOf n = []
  delivered : ∀ d ∈ log.deliveries, Lists d.2 (gathered (log.mergesOf d.1))
  /-- The windows were delivered one after the other, none twice and none left out. -/
  numbered : log.deliveries.map (·.1) = List.range log.finished

theorem Gathering.frame (h : Gathering log t)
    (hactive : t'.session.windows.active.view = t.session.windows.active.view)
    (hretired : t'.session.windows.retired.view = t.session.windows.retired.view)
    (hswaps : log'.swaps = log.swaps) (hpending : log'.pending = log.pending)
    (hmerges : log'.merges = log.merges) (hdeliveries : log'.deliveries = log.deliveries) : Gathering log' t' := by
  have hof (n : Nat) : log'.mergesOf n = log.mergesOf n := by unfold Log.mergesOf; rw [hmerges]
  constructor
  case active => rw [hactive, h.active, hof, hswaps]
  case retired => rw [hretired, h.retired, Log.waiting, Log.waiting, hpending, hof, hswaps]
  case coming =>
    intro n hn
    rw [hof]
    exact h.coming n (hswaps ▸ hn)
  case delivered =>
    intro d hd
    rw [hof]
    exact h.delivered d (hdeliveries ▸ hd)
  case numbered => rw [hdeliveries, h.numbered, Log.finished, Log.finished, hswaps, hpending]

/-- A window that takes updates holds all that were merged into it. -/
theorem Gathering.window (hm : Manned log t) (h : Gathering log t) {n : Nat} (hn : log.Open n) :
    (t.window n).view = gathered (log.mergesOf n) := by
  unfold Traffic.window
  rw [hm.swaps]
  rcases hn with rfl | ⟨hn, hpending⟩
  · rw [if_pos rfl, h.active]
  · rw [if_neg (by omega), h.retired, Log.waiting, if_pos hpending, ← hn]
    rfl

/-- An update that is merged into a window that takes updates is gathered there. -/
theorem Gathering.take (hm : Manned log t) (h : Gathering log t) {n : Nat} (hn : log.Open n) {x : Indicator}
    {w w' : Window} (hw : w.view = (t.window n).view) (hw' : w'.view = (w.merge x).2.view)
    (hmerges : log'.merges = log.merges ++ if Log.takes (w.merge x).1 then [(n, x)] else [])
    (hswaps : log'.swaps = log.swaps) (hpending : log'.pending = log.pending)
    (hdeliveries : log'.deliveries = log.deliveries) : Gathering log' (t.setWindow n w') := by
  have hof := Log.mergesOf_take hmerges
  have hother {k : Nat} (hk : n ≠ k) : log'.mergesOf k = log.mergesOf k := by simp [hof, hk]
  have hview : w'.view = gathered (log'.mergesOf n) := by
    rw [hw', merge_gathered (hw.trans (h.window hm hn)), hof]
    simp
  have hfinished : log'.finished = log.finished := by rw [Log.finished, Log.finished, hswaps, hpending]
  constructor
  case active =>
    rw [setWindow_active, hm.swaps, hswaps]
    split
    · rename_i hcurrent; rw [hview, hcurrent]
    · rename_i hcurrent; rw [h.active, hother hcurrent]
  case retired =>
    rw [setWindow_retired, hm.swaps, Log.waiting, hpending, hswaps]
    split
    · rename_i hcurrent
      rw [h.retired, Log.waiting]
      split
      · rename_i hwaits
        have hpos := Log.swaps_pos hwaits
        rw [hother (by omega)]
      · rfl
    · rename_i hcurrent
      obtain ⟨hn, hwaits⟩ := hn.resolve_left hcurrent
      rw [if_pos hwaits, hview, ← hn]
      rfl
  case coming =>
    intro k hk
    rw [hother (by unfold Log.Open at hn; omega)]
    exact h.coming k (hswaps ▸ hk)
  case delivered =>
    intro d hd
    rw [hdeliveries] at hd
    -- a window that was delivered takes no updates any more
    have hdone : d.1 < log.finished := by
      rw [← List.mem_range, ← h.numbered]
      exact List.mem_map_of_mem hd
    have hne : n ≠ d.1 := by
      unfold Log.finished at hdone
      rcases hn with rfl | ⟨hn, hwaits⟩
      · omega
      · rw [hwaits, Bool.toNat_true] at hdone
        omega
    rw [hother hne]
    exact h.delivered d hd
  case numbered => rw [hdeliveries, h.numbered, hfinished]

theorem Gathering.setWindow (h : Gathering log t) {n : Nat} {w : Window}
    (hw : w.view = (t.window n).view) (hswaps : log'.swaps = log.swaps) (hpending : log'.pending = log.pending)
    (hmerges : log'.merges = log.merges) (hdeliveries : log'.deliveries = log.deliveries) :
    Gathering log' (t.setWindow n w) := by
  refine h.frame ?_ ?_ hswaps hpending hmerges hdeliveries
  · rw [setWindow_active]
    split
    · rename_i hn; rw [hw, Traffic.window, if_pos hn]
    · rfl
  · rw [setWindow_retired]
    split
    · rfl
    · rename_i hn; rw [hw, Traffic.window, if_neg hn]

/-- The window that becomes active is empty, since nothing waited in it. -/
theorem Gathering.swap (h : Gathering log t) (hfree : log.pending = false) (name : String) (d : Dict String Attempt) :
    Gathering ((.commit name, .swapped true) :: log)
      { t with session := ⟨t.session.windows.swap, d⟩, swaps := t.swaps + 1 } := by
  constructor
  case active =>
    show t.session.windows.retired.view = gathered (log.mergesOf (log.swaps + 1))
    rw [h.retired, h.coming _ (Nat.lt_succ_self _), Log.waiting, hfree]
    rfl
  case retired => exact h.active
  case coming => exact fun n hn => h.coming n (Nat.lt_of_succ_lt hn)
  case delivered => exact h.delivered
  case numbered =>
    refine h.numbered.trans ?_
    show List.range (log.swaps - log.pending.toNat) = List.range (log.swaps + 1 - 1)
    rw [hfree]
    rfl

/-- A reader takes all that was merged into the window that waits, and leaves nothing. -/
theorem Gathering.drain (h : Gathering log t) (order : DrainOrder) :
    Gathering ((.drain order, .drained (t.session.windows.drain order).1) :: log)
      { t with session.windows := t.session.windows.drain.2 } := by
  have hlists : Lists (t.session.windows.drain order).1 log.waiting :=
    h.retired ▸ t.session.windows.retired.lists_drain order
  generalize (t.session.windows.drain order).1 = xs at hlists
  have hdeliveries : Log.deliveries ((.drain order, .drained xs) :: log) =
    log.deliveries ++ if log.pending then [(log.swaps - 1, xs)] else [] := rfl
  constructor
  case active => exact h.active
  case retired => rfl
  case coming => exact h.coming
  case delivered =>
    intro d hd
    rw [hdeliveries] at hd
    rcases List.mem_append.1 hd with hd | hd
    · exact h.delivered d hd
    · cases hwaits : log.pending with
      | false => simp [hwaits] at hd
      | true =>
        rw [Log.waiting, if_pos hwaits] at hlists
        obtain rfl : d = (log.swaps - 1, xs) := by simpa [hwaits] using hd
        exact hlists
  case numbered =>
    rw [hdeliveries, List.map_append, h.numbered]
    show List.range log.finished ++ _ = List.range log.swaps
    unfold Log.finished
    cases hwaits : log.pending with
    | false => simp
    | true =>
      have hpos := Log.swaps_pos hwaits
      obtain ⟨k, hk⟩ : ∃ k, log.swaps = k + 1 := ⟨log.swaps - 1, by omega⟩
      simp [hk, List.range_succ]

/-- Every move keeps the account of what is in the windows. -/
theorem Gathering.step (hc : Claimed log t) (hm : Manned log t) (h : Gathering log t) {m : Move} {r : Reply}
    (hs : Step t m r t') : Gathering ((m, r) :: log) t' := by
  cases hs with
  | ignored _ => exact h.frame rfl rfl (by cases m <;> rfl) (by cases m <;> rfl) (by cases m <;> rfl) (by cases m <;> rfl)
  | merged x =>
    have hset : t.setWindow log.swaps (t.session.windows.active.enter.merge x).2.leave =
        { t with session.windows.active := (t.session.windows.active.enter.merge x).2.leave } := by
      rw [Traffic.setWindow, hm.swaps, if_pos rfl]
    rw [← hset]
    refine h.take hm (.inl rfl) ?_ rfl rfl rfl rfl rfl
    rw [Traffic.window, hm.swaps, if_pos rfl]
    rfl
  | begun name =>
    have hwindows := t.session.begin_windows name
    refine h.frame ?_ ?_ rfl rfl rfl rfl <;> dsimp only <;> rw [hwindows]
  | kept _ _ => exact h.frame rfl rfl rfl rfl rfl rfl
  | swapped ha => exact h.swap (hc.free ((hc.attempts _).symm.trans ha)) _ _
  | released _ => exact h.frame rfl rfl rfl rfl rfl rfl
  | drained order _ => exact h.drain order
  | @entered name _ =>
    have hset : Gathering ((.enter name, .done) :: log) (t.setWindow t.swaps (t.window t.swaps).enter) :=
      h.setWindow rfl rfl rfl rfl rfl
    exact hset.frame rfl rfl rfl rfl rfl rfl
  | @written name n x hn =>
    obtain ⟨hheld, hopen⟩ := hm.held hn
    refine h.take hm hopen (x := x) (w := t.window n) rfl rfl ?_ rfl rfl rfl
    rw [hheld]
    rfl
  | @left name n _ =>
    have hset : Gathering ((.leave name, .done) :: log) (t.setWindow n (t.window n).leave) :=
      h.setWindow rfl rfl rfl rfl rfl
    exact hset.frame rfl rfl rfl rfl rfl rfl

/-- All three accounts. -/
structure Kept (log : Log) (t : Traffic) : Prop where
  claimed : Claimed log t
  manned : Manned log t
  gathering : Gathering log t

/-- A window becomes active only if it is empty, and the one that was active retires as it is. -/
theorem Kept.commit (h : Kept log t) {name : String} (hswapped : (t.perform (.commit name)).1 = .swapped true) :
    log.pending = false ∧ t.session.windows.retired.entries = ∅ ∧
      (t.perform (.commit name)).2.session.windows.active.entries = ∅ ∧
      (t.perform (.commit name)).2.session.windows.retired.entries = t.session.windows.active.entries := by
  have hstep := step_commit t name
  generalize t.perform (.commit name) = result at hstep hswapped ⊢
  obtain ⟨r, t'⟩ := result
  dsimp only at hstep hswapped ⊢
  subst hswapped
  cases hstep with
  | swapped ha =>
    have hfree := h.claimed.free ((h.claimed.attempts name).symm.trans ha)
    have hempty : t.session.windows.retired.entries = ∅ := by
      rw [Dict.eq_empty_iff]
      intro k
      have hwaiting := congrFun h.gathering.retired k
      rwa [Log.waiting, hfree] at hwaiting
    exact ⟨hfree, hempty, hempty, rfl⟩

/-- The reader waits for a writer that registered before the swap, and takes what it merged. -/
example : (replay [.merge (.count "svc" ⟨202403151427⟩ 1), .enter "w", .begin "a", .commit "a",
    .write "w" (.count "svc" ⟨202403151427⟩ 2), .drain .insertion, .leave "w", .drain .insertion]).1.deliveries =
    [(0, [.count "svc" ⟨202403151427⟩ 3])] := by rfl

/-! ## A writer that straddles a swap -/

/-- The calls of a writer that registers before a swap and merges after it. If there is no swap, it
leaves without having merged. -/
def straddling (swapped : Bool) (writer attempt : String) (x : Indicator) (order : DrainOrder) : List Move :=
  [.enter writer, .begin attempt, .commit attempt] ++
    if swapped then [.write writer x, .leave writer, .drain order, .release attempt]
    else [.leave writer, .release attempt]

/-- A straddling writer is a row of moves, so that what was said of moves holds with such writers. -/
theorem straddle_moves (t : Traffic) {writer attempt : String} (x : Indicator) (order : DrainOrder)
    (hwriters : t.writers = ∅)
    (hattempt : t.session.attempts.get? attempt = none) (hactive : t.session.windows.active.writers = 0) :
    (t.session.straddle x order).2.windows =
      ((straddling (t.session.begin attempt).1 writer attempt x order).foldl
        (fun t m => (t.perform m).2) t).session.windows := by
  obtain ⟨⟨⟨active, retired, claims⟩, attempts⟩, swaps, writers⟩ := t
  dsimp only at hwriters hattempt hactive
  subst hwriters
  have hnone : (∅ : Dict String Nat).get? writer = none := rfl
  have hgranted : (Session.begin ⟨⟨active, retired, claims⟩, attempts⟩ attempt).1 =
      (decide (claims = 0) && !retired.reading) := rfl
  rw [hgranted]
  cases hfree : decide (claims = 0) && !retired.reading <;>
    simp [straddling, perform, window, setWindow, Session.straddle, Session.begin, Session.commit, Session.release,
      Session.drain, WindowPair.straddle, WindowPair.begin, WindowPair.commit, WindowPair.swap, WindowPair.drain,
      WindowPair.release, WindowPair.mustWait, Window.enter, Window.leave, Window.isWriting, Window.startReading,
      Window.merge_kept, Dict.contains, hfree, hnone, hattempt, hactive]

end Traffic

end MetricCascade

import VideoPipeline.Detector.BatcherStop

/-!
# The age deadline of a result batcher

The watchdog looks at the time of the oldest pending item only. Under a monotone clock that is the
time at which the item was added, so after a wake-up nothing is left that is too old. The watchdog
lives as long as no settlement raises inside a flush of its own: an exception ends its task, and
`stop` then raises it again before it flushes.
-/

namespace VideoPipeline

namespace BatcherRun

variable {cfg : DetectorSettings} {s s' : BatcherRun} {e : Event} {h o : List Out}

/-- The watchdog's task exists and has not ended. -/
def Timer.isRunning : Timer → Bool
  | .sleeping | .flushing _ => true
  | _ => false

/-- The clock does not go backwards. -/
def Monotone (s : BatcherRun) : Event → Prop
  | .add _ now | .wake now => s.clock ≤ now
  | _ => True

instance (s : BatcherRun) : (e : Event) → Decidable (Monotone s e)
  | .add _ now    => inferInstanceAs (Decidable (s.clock ≤ now))
  | .wake now     => inferInstanceAs (Decidable (s.clock ≤ now))
  | .start        => inferInstanceAs (Decidable True)
  | .flush        => inferInstanceAs (Decidable True)
  | .sinkReturned => inferInstanceAs (Decidable True)
  | .sinkRaised   => inferInstanceAs (Decidable True)
  | .settled      => inferInstanceAs (Decidable True)
  | .settleRaises => inferInstanceAs (Decidable True)
  | .stop _       => inferInstanceAs (Decidable True)
  | .stopFlush    => inferInstanceAs (Decidable True)

/-- A settlement raises inside a flush of the watchdog. -/
def watchdogRaises (s : BatcherRun) : Event → Bool
  | .settleRaises => s.timer.inFlush
  | _             => false

/-- A monotone clock, and no settlement raises inside a flush of the watchdog. -/
def Sound (s : BatcherRun) (_ : List Out) (e : Event) : Prop :=
  Monotone s e ∧ s.watchdogRaises e = false

instance (s : BatcherRun) (h : List Out) (e : Event) : Decidable (Sound s h e) :=
  inferInstanceAs (Decidable (_ ∧ _))

/-! ### The watchdog and `stop` -/

/-- The watchdog runs until `stop` is called, and inside its flush it has the lock with nothing
pending. -/
structure Watched (s : BatcherRun) : Prop where
  alive : s.timer ≠ .failed
  notStopped : s.stop = .notCalled → s.timer ≠ .stopped
  inFlush : s.timer.inFlush = true → s.batcher.locked = true ∧ s.batcher.pending = []
  notRaised : s.stop ≠ .timerRaised

lemma pending_nil_of_rule {b b' : Batcher} {be : Batcher.Event} {acts : List Act}
    (hr : Batcher.Rule b be b' acts) (hp : b.pending = []) : b'.pending = [] := by
  cases hr <;> first | exact hp | rfl

lemma Watched.goOn (ha : s.timer ≠ .failed) (hn : s.stop = .notCalled → s.timer ≠ .stopped)
    (hp : s.batcher.locked = true → s.timer.inFlush = true → s.batcher.pending = [])
    (hr : s.stop ≠ .timerRaised) : Watched s.goOn := by
  rw [BatcherRun.goOn]
  split
  · next hl => exact ⟨ha, hn, fun hin => ⟨hl, hp hl hin⟩, hr⟩
  · constructor
    · dsimp only
      split
      · simp
      · exact ha
    · intro hstop
      dsimp only at hstop ⊢
      split
      · simp
      · split at hstop
        · cases hstop
        · exact hn hstop
    · intro hin
      dsimp only at hin
      split at hin
      · cases hin
      · next hne =>
        cases htimer : s.timer with
        | flushing now => exact absurd htimer (hne now)
        | _ =>
          rw [htimer] at hin
          cases hin
    · dsimp only
      split
      · simp
      · exact hr

lemma Watched.step (hw : Watched s) (ho : Sound s h e)
    (hs : BatcherRun.step cfg s e = some (s', o)) : Watched s' := by
  cases Rule.of_step hs with
  | start _ _ => exact ⟨by simp, by simp, by simp [Timer.inFlush], hw.notRaised⟩
  | add p now hb =>
    refine ⟨hw.alive, hw.notStopped, ?_, hw.notRaised⟩
    intro hin
    -- with the watchdog in its flush the lock is not free
    rw [Batcher.add, if_pos (hw.inFlush hin).1] at hb
    cases hb
  | flush hb =>
    refine ⟨hw.alive, hw.notStopped, ?_, hw.notRaised⟩
    intro hin
    rw [Batcher.step, Batcher.flush, if_pos (hw.inFlush hin).1] at hb
    cases hb
  | sinkReturned hb =>
    refine ⟨hw.alive, hw.notStopped, ?_, hw.notRaised⟩
    intro hin
    cases Batcher.Rule.of_step hb with
    | nothing he _ | flushed _ he _ _ => cases he
    | sinkReturned reason batch _ => exact ⟨rfl, (hw.inFlush hin).2⟩
  | sinkRaised hb =>
    refine ⟨hw.alive, hw.notStopped, ?_, hw.notRaised⟩
    intro hin
    cases Batcher.Rule.of_step hb with
    | nothing he _ | flushed _ he _ _ => cases he
    | sinkRaised reason batch _ => exact ⟨rfl, (hw.inFlush hin).2⟩
  | wake now _ hb =>
    apply Watched.goOn
    · simp
    · simp
    · intro hl _
      cases Batcher.Rule.of_step hb with
      | nothing _ hfree =>
        rw [Batcher.locked_eq_false.mpr hfree] at hl
        cases hl
      | flushed reason _ _ _ => rfl
    · exact hw.notRaised
  | settled hb =>
    apply Watched.goOn
    · exact hw.alive
    · exact hw.notStopped
    · intro _ hin
      exact pending_nil_of_rule (.of_step hb) (hw.inFlush hin).2
    · exact hw.notRaised
  | settleRaises timer ht =>
    -- the exception is raised in another task than the watchdog
    have hout : s.timer.inFlush = false := ho.2
    rw [if_neg (by rw [hout]; simp)] at ht
    subst ht
    refine ⟨hw.alive, ?_, ?_, ?_⟩
    · intro hstop
      dsimp only at hstop
      split at hstop
      · cases hstop
      · exact hw.notStopped hstop
    · intro hin
      rw [hout] at hin
      cases hin
    · dsimp only
      split
      · simp
      · exact hw.notRaised
  | stopFailed _ _ ht => exact absurd ht hw.alive
  | stopIdle _ timer _ ht hout =>
    refine ⟨?_, by simp, ?_, by simp⟩
    · rw [ht]
      split <;> simp
    · intro hin
      rw [ht] at hin
      split at hin <;> cases hin
  | stopCancels _ _ _ => exact ⟨by simp, by simp, by simp [Timer.inFlush], by simp⟩
  | stopFlush _ hb =>
    apply Watched.goOn
    · exact hw.alive
    · simp
    · intro _ _
      exact pending_of_flush hb
    · simp

/-! ### What is pending is young -/

/-- Under a monotone clock the oldest item was added first, and right after a wake-up nothing is
pending that reached the deadline. -/
structure Fresh (cfg : DetectorSettings) (s : BatcherRun) (h : List Out) : Prop where
  clock : s.batcher.pending ≠ [] → s.batcher.oldestAt ≤ s.clock
  oldest : ∀ x ∈ waiting h, s.batcher.oldestAt ≤ x.2
  woken : ∀ t, s.woken = some t → ∀ x ∈ waiting h, t - (cfg.batchMaxLatencyMs : ℚ) / 1000 < x.2

lemma waiting_eq_nil (hk : Kept cfg s.batcher h) (hp : s.batcher.pending = []) :
    waiting h = [] := by
  apply List.drop_eq_nil_of_le
  rw [← List.length_map (f := Prod.fst), hk.added_eq, hp, List.append_nil]

lemma waiting_append_quiet (ha : added o = []) (hn : sunk o = []) :
    waiting (h ++ o) = waiting h := by
  rw [waiting, added_append, sunk_append, ha, hn, List.append_nil, List.append_nil, waiting]

/-- What is added waits behind what waits already. -/
lemma waiting_append_added (hk : Kept cfg s.batcher h) (p : Pending) (now : ℚ) :
    waiting (h ++ [.added p now]) = waiting h ++ [(p, now)] := by
  have hlen : (sunk h).flatten.length ≤ (added h).length := by
    rw [← List.length_map (f := Prod.fst), hk.added_eq, List.length_append]
    exact Nat.le_add_right _ _
  have ha : added [.added p now] = [(p, now)] := rfl
  have hn : sunk [.added p now] = [] := rfl
  rw [waiting, added_append, sunk_append, ha, hn, List.append_nil,
    List.drop_append_of_le_length hlen, waiting]

lemma Fresh.of_nil (hk : Kept cfg s.batcher h) (hp : s.batcher.pending = []) : Fresh cfg s h := by
  have hnil := waiting_eq_nil hk hp
  refine ⟨fun hne => absurd hp hne, ?_, ?_⟩
  · rw [hnil]
    exact List.forall_mem_nil _
  · rw [hnil]
    exact fun _ _ => List.forall_mem_nil _

lemma Fresh.quiet (hf : Fresh cfg s h) (hp : s'.batcher.pending = s.batcher.pending)
    (ho : s'.batcher.oldestAt = s.batcher.oldestAt) (hc : s'.clock = s.clock)
    (hw : s'.woken = none) (ha : added o = []) (hn : sunk o = []) : Fresh cfg s' (h ++ o) := by
  constructor
  · rw [hp, ho, hc]
    exact hf.clock
  · rw [waiting_append_quiet ha hn, ho]
    exact hf.oldest
  · rw [hw]
    simp

lemma goOn_woken_none (hw : s.woken = none) (hout : s.timer.inFlush = false) :
    s.goOn.woken = none := by
  rw [goOn]
  split
  · exact hw
  · cases htimer : s.timer with
    | flushing now =>
      rw [htimer] at hout
      cases hout
    | _ => rfl

lemma goOn_woken_eq {t now : ℚ} (hw : s.woken = none) (htimer : s.timer = .flushing now)
    (ht : s.goOn.woken = some t) : t = now := by
  rw [goOn] at ht
  split at ht
  · rw [hw] at ht
    cases ht
  · simp only [htimer, Option.some.injEq] at ht
    exact ht.symm

@[simp] lemma goOn_clock (s : BatcherRun) : s.goOn.clock = s.clock := by
  rw [goOn]
  split <;> rfl

@[simp] lemma goOn_atStop (s : BatcherRun) : s.goOn.atStop = s.atStop := by
  rw [goOn]
  split <;> rfl

/-- The watchdog leaves nothing pending, or what is pending has not reached the deadline. -/
lemma ageWatchdog_spec {b b' : Batcher} {now : ℚ} {acts : List Act}
    (hb : b.ageWatchdog cfg now = some (b', acts)) :
    b'.pending = [] ∨
      (b' = b ∧ acts = [] ∧ now - b.oldestAt < (cfg.batchMaxLatencyMs : ℚ) / 1000) := by
  rw [Batcher.ageWatchdog] at hb
  split at hb
  · cases hb
  · rw [Option.some.injEq] at hb
    split at hb
    · left
      have hpend := pending_flushLocked b .age
      rw [hb] at hpend
      exact hpend
    · next hno =>
      cases hb
      by_cases hp : b.pending = []
      · exact .inl hp
      · exact .inr ⟨rfl, rfl, not_le.mp fun hle => hno ⟨hp, hle⟩⟩

/-- The ends of sink calls and settlements do not touch the buffer. -/
lemma rule_quiet {b b' : Batcher} {be : Batcher.Event} {acts : List Act}
    (hr : Batcher.Rule b be b' acts) (he : be.isTick = false) :
    b'.pending = b.pending ∧ b'.oldestAt = b.oldestAt ∧ sunk (acts.map .act) = [] := by
  cases hr with
  | nothing h _ | flushed _ h _ _ =>
    rw [h] at he
    cases he
  | _ => exact ⟨rfl, rfl, rfl⟩

/-- The end of a sink call does not touch the buffer. -/
lemma Fresh.sinkEnd (hf : Fresh cfg s h) {b' : Batcher} {be : Batcher.Event} {acts : List Act}
    (hb : s.batcher.step cfg be = some (b', acts)) (he : be.isTick = false) :
    Fresh cfg { s with batcher := b', woken := none } (h ++ acts.map .act) := by
  obtain ⟨hp, hold, hsunk⟩ := rule_quiet (.of_step hb) he
  exact hf.quiet hp hold rfl rfl (added_map_act _) hsunk

lemma Fresh.step (hf : Fresh cfg s h) (hw : Watched s) (hk : Kept cfg s.batcher h)
    (hk' : Kept cfg s'.batcher (h ++ o)) (ho : Sound s h e)
    (hs : BatcherRun.step cfg s e = some (s', o)) : Fresh cfg s' (h ++ o) := by
  cases Rule.of_step hs with
  | start _ _ | settleRaises _ _ | stopFailed _ _ _ | stopIdle _ _ _ _ _ =>
    exact hf.quiet rfl rfl rfl rfl rfl rfl
  | add p now hb =>
    have hclock : s.clock ≤ now := ho.1
    obtain ⟨-, ⟨-, rfl, rfl⟩ | ⟨-, rfl, rfl⟩⟩ := Batcher.add_spec hb
    · have hwait : waiting (h ++ [.added p now]) = waiting h ++ [(p, now)] :=
        waiting_append_added hk p now
      have hle : (if s.batcher.pending.isEmpty then now else s.batcher.oldestAt) ≤ now := by
        split
        · exact le_rfl
        · next hne =>
          rw [List.isEmpty_iff] at hne
          exact (hf.clock hne).trans hclock
      refine ⟨fun _ => hle, ?_, by simp⟩
      intro x hx
      rw [List.map_nil, hwait, List.mem_append, List.mem_singleton] at hx
      rcases hx with hx | rfl
      · have hne : ¬ s.batcher.pending.isEmpty := by
          rw [List.isEmpty_iff]
          intro hnil
          rw [waiting_eq_nil hk hnil] at hx
          cases hx
        dsimp only
        rw [if_neg hne]
        exact hf.oldest x hx
      · exact hle
    · exact .of_nil hk' rfl
  | flush hb => exact .of_nil hk' (pending_of_flush hb)
  | wake now _ hb =>
    rcases ageWatchdog_spec hb with hnil | ⟨rfl, rfl, hyoung⟩
    · exact .of_nil hk' (by rw [goOn_batcher]; exact hnil)
    · have hclock : s.clock ≤ now := ho.1
      rw [List.map_nil, List.append_nil]
      refine ⟨?_, ?_, ?_⟩
      · rw [goOn_batcher, goOn_clock]
        intro hne
        exact (hf.clock hne).trans hclock
      · rw [goOn_batcher]
        exact hf.oldest
      · intro t ht x hx
        rw [goOn_woken_eq rfl rfl ht]
        have hle := hf.oldest x hx
        have hyoung : now - s.batcher.oldestAt < (cfg.batchMaxLatencyMs : ℚ) / 1000 := hyoung
        linarith
  | sinkReturned hb | sinkRaised hb => exact hf.sinkEnd hb rfl
  | settled hb =>
    obtain ⟨hp, hold, hsunk⟩ := rule_quiet (.of_step hb) rfl
    cases hin : s.timer.inFlush with
    | true =>
      apply Fresh.of_nil hk'
      rw [goOn_batcher]
      exact hp.trans (hw.inFlush hin).2
    | false =>
      apply hf.quiet
      · rw [goOn_batcher]
        exact hp
      · rw [goOn_batcher]
        exact hold
      · exact goOn_clock _
      · exact goOn_woken_none rfl hin
      · exact added_map_act _
      · exact hsunk
  | stopCancels tookEffect _ _ =>
    exact hf.quiet rfl rfl rfl rfl (added_map_act _) (left_interrupted _ _).quiet.2
  | stopFlush _ hb =>
    apply Fresh.of_nil hk'
    rw [goOn_batcher]
    exact pending_of_flush hb

/-! ### What was pending when `stop` was called -/

/-- What was pending when `stop` was called was added, and is with the sink once `stop` has begun
its flush. -/
structure PassesOn (s : BatcherRun) (h : List Out) : Prop where
  atStop : ∀ p ∈ s.atStop, p ∈ (added h).map Prod.fst
  flushed : s.stop.hasFlushed = true → ∀ p ∈ s.atStop, p ∈ (sunk h).flatten

/-- Only the call of `stop` looks at what is pending. -/
lemma atStop_of_step (hs : step cfg s e = some (s', o)) :
    s'.atStop = s.atStop ∨ (s'.atStop = s.batcher.pending ∧ s'.stop.hasFlushed = false) := by
  cases Rule.of_step hs with
  | start _ _ | add _ _ _ | flush _ | sinkReturned _ | sinkRaised _ | settleRaises _ _ =>
    exact .inl rfl
  | wake _ _ _ | settled _ | stopFlush _ _ => exact .inl (goOn_atStop _)
  | stopFailed _ _ _ | stopIdle _ _ _ _ _ | stopCancels _ _ _ => exact .inr ⟨rfl, rfl⟩

lemma PassesOn.step (hp : PassesOn s h) (hk : Kept cfg s.batcher h)
    (hk' : Kept cfg s'.batcher (h ++ o)) (hs : BatcherRun.step cfg s e = some (s', o)) :
    PassesOn s' (h ++ o) := by
  have hadded : ∀ p ∈ s'.atStop, p ∈ (added (h ++ o)).map Prod.fst := by
    intro p hmem
    rw [added_append, List.map_append, List.mem_append]
    left
    rcases atStop_of_step hs with heq | ⟨heq, -⟩
    · exact hp.atStop p (heq ▸ hmem)
    · rw [hk.added_eq, List.mem_append]
      exact .inr (heq ▸ hmem)
  refine ⟨hadded, ?_⟩
  intro hflushed p hmem
  rcases (stopStep_of_step hs).pending hflushed with hbefore | hnil
  · rcases atStop_of_step hs with heq | ⟨-, hno⟩
    · rw [sunk_append, List.flatten_append, List.mem_append]
      exact .inl (hp.flushed hbefore p (heq ▸ hmem))
    · rw [hno] at hflushed
      cases hflushed
  · have hmem' := hadded p hmem
    rw [hk'.added_eq, hnil, List.append_nil] at hmem'
    exact hmem'

/-! ### The deadline -/

/-- Under a monotone clock and as long as no settlement raises inside a flush of the watchdog: the
watchdog that was started runs until `stop` is called, right after a wake-up at `t` nothing is
pending that was added at `t` less the deadline or before, and `stop` passes everything that was
pending on to the sink. -/
theorem deadline_enforced {c : ℚ} (hr : (machine cfg).Reach Sound { clock := c } s h) :
    (s.timer ≠ .unstarted → s.stop = .notCalled → s.timer.isRunning = true) ∧
    (∀ t, s.woken = some t →
      (waiting h).map Prod.fst = s.batcher.pending ∧
        ∀ x ∈ waiting h, t - (cfg.batchMaxLatencyMs : ℚ) / 1000 < x.2) ∧
    s.stop ≠ .timerRaised ∧
    (s.stop.hasFlushed = true → ∀ p ∈ s.atStop, p ∈ (sunk h).flatten) := by
  have hinv : Watched s ∧ Fresh cfg s h ∧ PassesOn s h := by
    apply hr.invariant (P := fun s h => Watched s ∧ Fresh cfg s h ∧ PassesOn s h)
    · refine ⟨⟨by simp, by simp, by simp [Timer.inFlush], by simp⟩, ?_, ⟨by simp, by simp⟩⟩
      exact ⟨fun hne => absurd rfl hne, by simp [waiting, added], by simp⟩
    · rintro s h e s' o hr ⟨hw, hf, hp⟩ ho hs
      have hk := kept_of_reach hr
      have hk' := kept_of_reach (hr.step ho hs)
      exact ⟨hw.step ho hs, hf.step hw hk hk' ho hs, hp.step hk hk' hs⟩
  obtain ⟨hw, hf, hp⟩ := hinv
  refine ⟨?_, ?_, hw.notRaised, hp.flushed⟩
  · intro hstarted hstop
    cases htimer : s.timer with
    | unstarted => exact absurd htimer hstarted
    | sleeping | flushing now => rfl
    | failed => exact absurd htimer hw.alive
    | stopped => exact absurd htimer (hw.notStopped hstop)
  · intro t ht
    refine ⟨?_, hf.woken t ht⟩
    rw [waiting, List.map_drop, (kept_of_reach hr).added_eq, List.drop_left]

/-- A settlement raises in an explicit flush, and the watchdog wakes up to an item that is young. -/
theorem deadline_enforced_after_raise :
    ∃ s h, (machine {}).Reach Sound {} s h ∧ s.woken = some 2 ∧ (waiting h).length = 1 ∧
      s.timer.isRunning = true ∧ ∀ x ∈ waiting h, (2 : ℚ) - (500 : ℕ) / 1000 < x.2 := by
  have hrun : ∃ s h, (machine {}).Reach Sound {} s h ∧ s.timer ≠ .unstarted ∧
      s.stop = .notCalled ∧ s.woken = some 2 ∧ (waiting h).length = 1 :=
    Machine.Reach.exists_of_exec [.start, .add (item 1) 0, .flush, .sinkReturned, .settleRaises,
      .add (item 2) (7 / 4), .wake 2] (by decide +kernel)
  obtain ⟨s, h, hr, hstarted, hstop, hwoken, hlen⟩ := hrun
  obtain ⟨hrunning, hyoung, -⟩ := deadline_enforced hr
  exact ⟨s, h, hr, hwoken, hlen, hrunning hstarted hstop, (hyoung 2 hwoken).2⟩

/-- An ack raises inside a flush of the watchdog. The watchdog is gone, and `stop` raises before it
flushes what was added since. -/
theorem ack_raises_in_watchdog :
    ∃ s h, (machine {}).Reach (fun s _ e => Monotone s e) {} s h ∧ s.timer = .failed ∧
      s.stop = .timerRaised ∧ s.atStop = [item 2] ∧ item 2 ∉ (sunk h).flatten :=
  Machine.Reach.exists_of_exec [.start, .add (item 1) 0, .wake 1, .sinkReturned, .settleRaises,
    .add (item 2) 1, .stop false] (by decide +kernel)

end BatcherRun

end VideoPipeline

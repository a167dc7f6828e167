import VideoPipeline.Detector.Fleet

/-!
# The one retry of a frame

The handler grants a frame one retry after a store failure and reads from the delivery's
`redelivered` flag whether it had it. The broker also sets the flag when a failed flush or a crash
puts the frame back, so the retry is only sure for a frame whose first store failure falls on a
delivery without the flag.
-/

namespace VideoPipeline

open Amqp

/-- The store failed in a delivery of the frame. -/
def Act.storeFailure (key : String) : Act → Bool
  | .outcome x .transient => x.ref.key = key
  | _ => false

/-- The delivery is handed to the handler. -/
def Act.begins (x : Delivery) : Act → Bool
  | .handed y => y = x
  | _ => false

/-- `process` ends for the delivery. -/
def Act.ends (x : Delivery) : Act → Bool
  | .outcome y _ => y = x
  | _ => false

/-! ## Outcomes and dead letters of a worker -/

namespace Worker

variable {cfg : DetectorSettings} {w w' : Worker} {op : Op} {acts : List Act} {x y : Delivery}
  {o : Outcome}

lemma batcher_step_not_outcome {b b' : Batcher} {e : Batcher.Event}
    (h : b.step cfg e = some (b', acts)) : Act.outcome x o ∉ acts := by
  cases Batcher.Rule.of_step h with
  | nothing => exact List.not_mem_nil
  | _ => simp

/-- Where an outcome comes from. -/
lemma step_outcome (h : w.step cfg op = some (w', acts)) (ho : .outcome x o ∈ acts) :
    (∃ r, op = .loaded r ∧ w.phase = .loading x ∧ loadOutcome r = some o) ∨
    (op = .detected none ∧ o = .unexpected) ∨
    ∃ faces r, op = .claimed r ∧ o = claimOutcome x faces r := by
  cases op with
  | loaded r =>
    simp only [step] at h
    split at h
    · next d hp =>
      split at h
      · next o' hl =>
        cases h
        rw [List.mem_singleton, Act.outcome.injEq] at ho
        obtain ⟨rfl, rfl⟩ := ho
        exact .inl ⟨r, rfl, hp, hl⟩
      · cases h
        cases ho
    · cases h
  | detected faces =>
    simp only [step] at h
    split at h
    · cases faces with
      | none =>
        cases h
        rw [List.mem_singleton, Act.outcome.injEq] at ho
        exact .inr (.inl ⟨rfl, ho.2⟩)
      | some faces =>
        cases h
        cases ho
    · cases h
  | claimed r =>
    simp only [step] at h
    split at h
    · next d faces hp =>
      cases h
      have ho : Act.outcome x o = .outcome d (claimOutcome d faces r) := by simpa using ho
      obtain ⟨rfl, rfl⟩ := Act.outcome.inj ho
      exact .inr (.inr ⟨faces, r, rfl, rfl⟩)
    · cases h
  | settled =>
    simp only [step] at h
    split at h <;> cases h
    simp at ho
  | add now =>
    simp only [step] at h
    split at h
    · split at h
      · next hadd =>
        cases h
        obtain ⟨-, t, ⟨-, rfl⟩ | ⟨-, rfl⟩⟩ := Batcher.add_cases hadd <;> simp at ho
      · cases h
    · cases h
  | counted =>
    simp only [step] at h
    split at h <;> cases h
    simp at ho
  | batcher e =>
    simp only [step] at h
    split at h
    · next hb =>
      cases h
      exact absurd ho (batcher_step_not_outcome hb)
    · cases h

lemma handle_settling {v : Verdict} (hp : (w.handle x o).1.phase = .settling y v) : y = x := by
  have hc := w.handle_current x o
  rw [hp] at hc
  exact (List.cons.inj hc).1

lemma handle_deadLettered (hp : (w.handle x o).1.phase = .settling y .deadLettered) :
    o = .permanent ∨ o = .unexpected ∨ o = .transient ∧ x.redelivered = true := by
  cases o with
  | permanent => exact .inl rfl
  | unexpected => exact .inr (.inl rfl)
  | transient =>
    simp only [handle] at hp
    split at hp
    · next hr => exact .inr (.inr ⟨rfl, hr⟩)
    · cases hp
  | result | duplicate | stale => cases hp

/-- A delivery that is being settled was so before or `process` has just ended for it. -/
lemma Rule.settling_cases {v : Verdict} (hr : Rule cfg w op w' acts)
    (hp : w'.phase = .settling x v) :
    w.phase = .settling x v ∨ ∃ o, .outcome x o ∈ acts ∧ (w.handle x o).1.phase = w'.phase := by
  -- a handler that a flush lets go on is not settling
  have hafter : ∀ u : Worker, u.phase = w.phase → u.afterFlush.phase = .settling x v →
      w.phase = .settling x v := by
    intro u huw hu
    rw [← huw]
    unfold afterFlush at hu
    split at hu
    · split at hu
      · exact hu
      · cases hu
    · exact hu
  cases hr with
  | proceed d hin hp' =>
    obtain rfl : _ = Phase.settling x v := hp
    cases hp'
  | fail d o hin ho =>
    obtain rfl := handle_settling hp
    exact .inr ⟨o, List.mem_singleton_self _, rfl⟩
  | claimed d faces r hw =>
    obtain rfl := handle_settling hp
    exact .inr ⟨_, List.mem_cons_of_mem _ (List.mem_singleton_self _), rfl⟩
  | settled | buffered | filled | counted => cases hp
  | flushed | sinkReturned | sinkRaised => exact .inl hp
  | nothing => exact .inl (hafter _ rfl hp)
  | batchAcked => exact .inl (hafter _ (by rfl) hp)
  | itemNacked => exact .inl (hafter _ (by rfl) hp)

lemma Rule.held_subset (hr : Rule cfg w op w' acts) (hx : x ∈ w'.held) : x ∈ w.held := by
  rcases hr.effect with ⟨heq, -⟩ | ⟨pre, d, post, v, hw, hw', -⟩ |
    ⟨reason, batch, post, -, hw, hw', -⟩
  · exact heq ▸ hx
  · rw [hw'] at hx
    rw [hw]
    exact ((List.sublist_cons_self d post).append_left pre).mem hx
  · rw [hw'] at hx
    rw [hw]
    exact List.mem_append_right _ hx

/-- An outcome is that of the delivery in process, and the last act of its step. -/
lemma Rule.outcome_last (hr : Rule cfg w op w' acts) (ho : .outcome x o ∈ acts) :
    w.phase.inProcess = some x ∧ Quiet acts ∧ ∃ pre, acts = pre ++ [.outcome x o] ∧
      (o = .permanent → pre = []) := by
  cases hr with
  | fail d o' hw =>
    obtain ⟨rfl, rfl⟩ := Act.outcome.inj (List.mem_singleton.mp ho)
    exact ⟨hw, by simp [Quiet, handle], [], rfl, fun _ => rfl⟩
  | claimed d faces r hw =>
    have ho : Act.outcome x o = .outcome d (claimOutcome d faces r) := by simpa using ho
    obtain ⟨rfl, rfl⟩ := Act.outcome.inj ho
    refine ⟨by rw [hw]; rfl, by simp [Quiet], [_], rfl, ?_⟩
    cases r <;> exact fun h => by cases h
  | proceed | buffered | nothing => cases ho
  | settled | filled | flushed | sinkReturned | sinkRaised | batchAcked | itemNacked | counted =>
    simp at ho

/-- How often the worker has begun with the delivery without an end: once or never. -/
def processing (w : Worker) (x : Delivery) : ℕ := if w.phase.inProcess = some x then 1 else 0

lemma processing_of_none (h : w.phase.inProcess = none) (x : Delivery) : w.processing x = 0 := by
  rw [processing, h]
  rfl

lemma handle_inProcess (w : Worker) (d : Delivery) (o : Outcome) :
    (w.handle d o).1.phase.inProcess = none := by
  cases o with
  | transient =>
    simp only [handle]
    split <;> rfl
  | _ => rfl

lemma afterFlush_inProcess (w : Worker) :
    w.afterFlush.phase.inProcess = w.phase.inProcess := by
  unfold afterFlush
  split
  · next hp =>
    split
    · rfl
    · rw [hp]
      rfl
  · rfl

/-- A step of the worker ends `process` only for the delivery it is working on. -/
lemma Rule.ends_le (hr : Rule cfg w op w' acts) (x : Delivery) :
    acts.countP (Act.ends x) + w'.processing x ≤ w.processing x := by
  have of_same : w'.phase.inProcess = w.phase.inProcess → acts.countP (Act.ends x) = 0 →
      acts.countP (Act.ends x) + w'.processing x ≤ w.processing x := by
    intro hp hacts
    rw [hacts, Nat.zero_add, processing, processing, hp]
  have of_end : ∀ d, w.phase.inProcess = some d → w'.phase.inProcess = none →
      acts.countP (Act.ends x) = (if d = x then 1 else 0) →
      acts.countP (Act.ends x) + w'.processing x ≤ w.processing x := by
    intro d hp hp' hacts
    rw [hacts, processing_of_none hp', Nat.add_zero, processing, hp]
    by_cases hd : d = x
    · simp [hd]
    · simp [hd]
  cases hr with
  | proceed d hw hp => exact of_same (hp.trans hw.symm) rfl
  | fail d o hw ho =>
    exact of_end d hw (handle_inProcess w d o) (by simp [Act.ends, List.countP_cons])
  | claimed d faces r hw =>
    refine of_end d (by rw [hw]; rfl) (handle_inProcess w d _) ?_
    simp [Act.ends, List.countP_cons]
  | settled d v hw => exact of_same (by rw [hw]; rfl) rfl
  | buffered d r now t hw => exact of_same (by rw [hw]; rfl) rfl
  | filled d r now t hw => exact of_same (by rw [hw]; rfl) rfl
  | counted jobId hw => exact of_same (by rw [hw]; rfl) rfl
  | flushed | sinkReturned | sinkRaised => exact of_same rfl rfl
  | nothing => exact of_same (afterFlush_inProcess w) rfl
  | batchAcked => exact of_same (afterFlush_inProcess _) rfl
  | itemNacked => exact of_same (afterFlush_inProcess _) rfl

/-- A delivery that is taken begins once, and its end is still to come or has come with it. -/
lemma take_ends_le {d : Delivery} {now : ℚ} (h : w.take cfg d now = some (w', acts))
    (x : Delivery) : acts.countP (Act.ends x) + w'.processing x ≤ acts.countP (Act.begins x) := by
  obtain ⟨-, ⟨rfl, rfl⟩ | ⟨-, rfl, rfl⟩⟩ := take_cases h
  · by_cases hd : d = x
    · simp [Act.ends, Act.begins, processing, Phase.inProcess, hd]
    · simp [Act.ends, Act.begins, processing, Phase.inProcess, hd]
  · rw [processing_of_none (handle_inProcess w d .stale)]
    simp [Act.ends, Act.begins, List.countP_cons]

end Worker

/-! ## What settlements of a detector apply to -/

section perform

variable {c : Channel Delivery.tag} {acts : List Act} {x : Delivery}

lemma mem_of_mem_perform (hx : x ∈ (perform c acts).1.unsettled) : x ∈ c.unsettled :=
  (perform_perm c acts).mem_iff.mp (List.mem_append_right _ hx)

/-- What the broker settles was unsettled and is covered by a settlement with its verdict. -/
lemma settled_of_perform {v : Verdict} (hx : .settled x v ∈ (perform c acts).2) :
    x ∈ c.unsettled ∧ ∃ s : Settle, .settle s ∈ acts ∧ s.verdict = v ∧ s.Covers x.tag := by
  induction acts generalizing c with
  | nil => cases hx
  | cons a acts ih =>
    cases a with
    | settle s =>
      have hcases : x ∈ c.settledBy s ∧ s.verdict = v ∨
          .settled x v ∈ (perform (c.settle s) acts).2 := by
        simp only [perform, List.cons_append, List.mem_cons, List.mem_append, List.mem_map] at hx
        rcases hx with hx | (hx | ⟨y, hy, heq⟩) | hx
        · cases hx
        · split at hx
          · cases hx
          · cases List.mem_singleton.mp hx
        · obtain ⟨rfl, rfl⟩ := Out.settled.inj heq
          exact .inl ⟨hy, rfl⟩
        · exact .inr hx
      rcases hcases with ⟨hy, hv⟩ | hx
      · obtain ⟨hmem, hcov⟩ := Channel.mem_settledBy.mp hy
        exact ⟨hmem, s, List.mem_cons_self, hv, hcov⟩
      · obtain ⟨hmem, s', hs', hrest⟩ := ih hx
        exact ⟨(Channel.mem_settle.mp hmem).1, s', List.mem_cons_of_mem _ hs', hrest⟩
    | _ =>
      have hx : .settled x v ∈ (perform c acts).2 := by simpa [perform] using hx
      obtain ⟨hmem, s', hs', hrest⟩ := ih hx
      exact ⟨hmem, s', List.mem_cons_of_mem _ hs', hrest⟩

end perform

namespace Replica

/-- A delivery that the detector has is the only one its channel can have under the same tag. -/
def Aligned (r : Replica) : Prop :=
  ∀ x ∈ r.worker.held ++ r.prefetched,
    x.tag ≤ r.channel.lastTag ∧ ∀ y ∈ r.channel.unsettled, y.tag = x.tag → y = x

variable {cfg : DetectorSettings} {r : Replica}

lemma Aligned.init : init.Aligned := by
  intro x hx
  cases hx

lemma Aligned.deliver (ha : r.Aligned) {x : Delivery} {c : Channel Delivery.tag}
    (hc : r.channel.deliver x = some c) :
    Aligned { r with channel := c, prefetched := r.prefetched ++ [x] } := by
  obtain ⟨hlt, hlast, hu⟩ := Channel.deliver_eq_some hc
  intro y hy
  rw [← List.append_assoc, List.mem_append, List.mem_singleton] at hy
  rw [hlast, hu]
  obtain hy | rfl := hy
  · obtain ⟨hle, honly⟩ := ha y hy
    refine ⟨(Nat.lt_of_le_of_lt hle hlt).le, fun z hz hzy => ?_⟩
    rcases List.mem_append.mp hz with hz | hz
    · exact honly z hz hzy
    · obtain rfl := List.mem_singleton.mp hz
      rw [hzy] at hlt
      exact absurd hle (Nat.not_le.mpr hlt)
  · refine ⟨Nat.le_refl _, fun z hz hzy => ?_⟩
    rcases List.mem_append.mp hz with hz | hz
    · have hle := r.channel.tag_le z hz
      rw [hzy] at hle
      exact absurd hle (Nat.not_le.mpr hlt)
    · exact List.mem_singleton.mp hz

lemma Aligned.take (ha : r.Aligned) {i : ℕ} {x : Delivery} {now : ℚ} {w : Worker}
    {acts : List Act} (hx : r.prefetched[i]? = some x)
    (hw : r.worker.take cfg x now = some (w, acts)) :
    Aligned { r with worker := w, prefetched := r.prefetched.eraseIdx i } := by
  obtain ⟨hheld, -, -⟩ := Worker.take_effect hw
  intro y hy
  refine ha y ?_
  rw [show Replica.worker _ = w from rfl, hheld, List.mem_append, List.mem_append] at hy
  rcases hy with (hy | hy) | hy
  · exact List.mem_append_left _ hy
  · obtain rfl := List.mem_singleton.mp hy
    exact List.mem_append_right _ (List.mem_of_getElem? hx)
  · exact List.mem_append_right _ (List.mem_of_mem_eraseIdx hy)

lemma Aligned.work (ha : r.Aligned) {op : Worker.Op} {w : Worker} {acts : List Act}
    (hw : Worker.Rule cfg r.worker op w acts) :
    Aligned { r with worker := w, channel := (perform r.channel acts).1 } := by
  intro y hy
  have hy : y ∈ r.worker.held ++ r.prefetched := by
    rcases List.mem_append.mp hy with hy | hy
    · exact List.mem_append_left _ (hw.held_subset hy)
    · exact List.mem_append_right _ hy
  obtain ⟨hle, honly⟩ := ha y hy
  rw [perform_lastTag]
  exact ⟨hle, fun z hz => honly z (mem_of_mem_perform hz)⟩

/-- A dead letter is the delivery in the handler's hand. -/
lemma Aligned.deadLettered (ha : r.Aligned) {op : Worker.Op} {w : Worker} {acts : List Act}
    (hw : Worker.Rule cfg r.worker op w acts) {x : Delivery}
    (hx : .settled x .deadLettered ∈ (perform r.channel acts).2) :
    r.worker.phase = .settling x .deadLettered := by
  obtain ⟨hmem, s, hs, hv, hcov⟩ := settled_of_perform hx
  rcases hw.quiet_or_settles with ⟨-, hq⟩ | ⟨d, v, hp, -, -, rfl⟩ | ⟨_, batch, -, -, -, rfl⟩ |
    ⟨_, p, batch, -, -, -, rfl⟩
  · exact absurd hs (hq s)
  · obtain rfl : s = v.call d.tag := by simpa using hs
    rw [Verdict.verdict_call] at hv
    rw [Verdict.covers_call] at hcov
    have hd : d ∈ r.worker.held ++ r.prefetched := by
      rw [Worker.settling_held hp]
      simp
    rw [(ha d hd).2 x hmem hcov, ← hv]
    exact hp
  · obtain rfl : s = .ack (Batcher.maxTag batch) true := by simpa using hs
    cases hv
  · obtain rfl : s = .nack p.delivery.tag true := by simpa using hs
    cases hv

end Replica

/-! ## The retry of a frame -/

namespace Fleet

variable {cfg : DetectorSettings} {n : ℕ} {f f' : Fleet} {e : Event} {out h : List Output}

/-- In how many deliveries of a frame the store failed. -/
def storeFailures (h : List Output) (key : String) : ℕ := (acts h).countP (Act.storeFailure key)

/-- The blobs are there and decodable, and neither the detector nor the guard raises. -/
def goodFrames : Event → Prop
  | .work _ (.loaded r) _ => r = .frame ∨ r = .storeError
  | .work _ (.detected faces) _ => faces ≠ none
  | .work _ (.claimed r) _ => r ≠ .raised
  | _ => True

/-- The store does not fail for a frame for the first time in a delivery that is marked
redelivered. -/
def freshFailure (f : Fleet) (h : List Output) : Event → Prop
  | .work d (.loaded .storeError) _ =>
    ∀ x ∈ (f.replicas d).worker.phase.inProcess, x.redelivered = true →
      0 < storeFailures h x.ref.key
  | _ => True

lemma storeFailures_append (h₁ h₂ : List Output) (key : String) :
    storeFailures (h₁ ++ h₂) key = storeFailures h₁ key + storeFailures h₂ key := by
  rw [storeFailures, acts_append, List.countP_append]
  rfl

lemma le_storeFailures_append {k : ℕ} {key : String} (hk : k ≤ storeFailures h key) :
    k ≤ storeFailures (h ++ out) key := by
  rw [storeFailures_append]
  exact hk.trans (Nat.le_add_right _ _)

/-- What is being dead-lettered and what has been, is so for a reason `P` in the history. -/
structure Explained (P : List Output → Delivery → Prop) (f : Fleet) (h : List Output) : Prop where
  aligned : ∀ d, (f.replicas d).Aligned
  settling : ∀ d x, (f.replicas d).worker.phase = .settling x .deadLettered → P h x
  deadLettered : ∀ d x, .replica d (.settled x .deadLettered) ∈ h → P h x

namespace Explained

variable {P : List Output → Delivery → Prop}

lemma init : Explained P Fleet.init [] := by
  refine ⟨fun d => Replica.Aligned.init, fun d x hp => ?_, fun d x hx => ?_⟩
  · cases hp
  · cases hx

/-- A reason stays one, and a step of a worker gives one for what it begins to dead-letter. -/
lemma step (hmono : ∀ h out x, P h x → P (h ++ out) x) (hinv : Explained P f h)
    (hr : Rule cfg n f e f' out)
    (hnew : ∀ d op pos w as x, e = .work d op pos →
      (f.replicas d).worker.step cfg op = some (w, as) → acts out = as →
      w.phase = .settling x .deadLettered →
      (f.replicas d).worker.phase = .settling x .deadLettered ∨ P (h ++ out) x) :
    Explained P f' (h ++ out) := by
  -- only one detector takes part, and it makes no dead letter unless it works
  have of_update : ∀ {d : ℕ} {r : Replica} {q : List Message} {guard : List String},
      r.Aligned →
      (∀ x, r.worker.phase = .settling x .deadLettered → P (h ++ out) x) →
      (∀ d' x, .replica d' (.settled x .deadLettered) ∈ out → P (h ++ out) x) →
      Explained P ⟨q, guard, Function.update f.replicas d r⟩ (h ++ out) := by
    intro d r q guard hal hset hdead
    refine ⟨fun d' => ?_, fun d' x hp => ?_, fun d' x hx => ?_⟩
    · by_cases hdd : d' = d
      · subst hdd
        show (Function.update f.replicas d' r d').Aligned
        rwa [Function.update_self]
      · show (Function.update f.replicas d r d').Aligned
        rw [Function.update_of_ne hdd]
        exact hinv.aligned d'
    · change (Function.update f.replicas d r d').worker.phase = _ at hp
      by_cases hdd : d' = d
      · subst hdd
        rw [Function.update_self] at hp
        exact hset x hp
      · rw [Function.update_of_ne hdd] at hp
        exact hmono h out x (hinv.settling d' x hp)
    · rcases List.mem_append.mp hx with hx | hx
      · exact hmono h out x (hinv.deadLettered d' x hx)
      · exact hdead d' x hx
  have hold : ∀ d x, (f.replicas d).worker.phase = .settling x .deadLettered → P (h ++ out) x :=
    fun d x hp => hmono h out x (hinv.settling d x hp)
  cases hr with
  | publish ref =>
    exact ⟨hinv.aligned, hold, fun d x hx => hmono _ _ x
      (hinv.deadLettered d x (by simpa using hx))⟩
  | expire key =>
    exact ⟨hinv.aligned, hold, fun d x hx => hmono _ _ x
      (hinv.deadLettered d x (by simpa using hx))⟩
  | deliver d i tag m c hd hm hc =>
    exact of_update ((hinv.aligned d).deliver hc) (hold d) fun d' x hx => by cases hx
  | crash d pos hd =>
    exact of_update Replica.Aligned.init (fun x hp => by cases hp) fun d' x hx => by cases hx
  | take d i now x w as hd hx hw =>
    refine of_update ((hinv.aligned d).take hx hw) (fun y hp => ?_) fun d' y hy => ?_
    · obtain ⟨-, ⟨rfl, -⟩ | ⟨-, rfl, -⟩⟩ := Worker.take_cases hw <;> cases hp
    · simp at hy
  | work d op pos w as guard hd hw hg =>
    have hrule := Worker.Rule.of_step hw
    refine of_update ((hinv.aligned d).work hrule) (fun x hp => ?_) fun d' x hx => ?_
    · rcases hnew d op pos w as x rfl hw (acts_perform d _ as) hp with hp | hp
      · exact hold d x hp
      · exact hp
    · obtain ⟨o, ho, heq⟩ := List.mem_map.mp hx
      obtain ⟨rfl, rfl⟩ := Output.replica.inj heq
      exact hold d x ((hinv.aligned d).deadLettered hrule ho)

end Explained

/-- A detector settles what it has in hand, in every run. -/
lemma aligned_of_reach {ok : Fleet → List Output → Event → Prop}
    (hr : (machine cfg n).Reach ok Fleet.init f h) (d : ℕ) : (f.replicas d).Aligned := by
  have hinv : Explained (fun _ _ => True) f h :=
    hr.invariant .init fun _ _ _ _ _ _ hinv _ hs =>
      hinv.step (fun _ _ _ _ => trivial) (Rule.of_step hs) fun _ _ _ _ _ _ _ _ _ _ => .inr trivial
  exact hinv.aligned d

/-- In a run with good frames a delivery gets to be dead-lettered only by a store failure on a
redelivery. -/
lemma Rule.settling_deadLettered {d : ℕ} {op : Worker.Op} {pos : ℕ} {w : Worker} {as : List Act}
    (hgood : goodFrames (.work d op pos))
    (hw : (f.replicas d).worker.step cfg op = some (w, as)) {x : Delivery}
    (hp : w.phase = .settling x .deadLettered) :
    (f.replicas d).worker.phase = .settling x .deadLettered ∨
      op = .loaded .storeError ∧ (f.replicas d).worker.phase = .loading x ∧
        x.redelivered = true ∧ .outcome x .transient ∈ as := by
  rcases (Worker.Rule.of_step hw).settling_cases hp with hold | ⟨o, ho, hphase⟩
  · exact .inl hold
  · right
    rw [hp] at hphase
    rcases Worker.step_outcome hw ho with ⟨r, rfl, hload, hr⟩ | ⟨rfl, -⟩ | ⟨faces, r, rfl, rfl⟩
    · obtain rfl | rfl := hgood
      · cases hr
      · obtain rfl := Option.some.inj hr
        rcases Worker.handle_deadLettered hphase with h | h | ⟨-, hred⟩
        · cases h
        · cases h
        · exact ⟨rfl, hload, hred, ho⟩
    · exact absurd rfl hgood
    · cases r with
      | raised => exact absurd rfl hgood
      | won | failedOpen | lost =>
        rcases Worker.handle_deadLettered hphase with h | h | ⟨h, -⟩ <;> cases h

/-- What holds along a run with good frames in which the first store failure of every frame falls on
a delivery without the flag. -/
structure Retried (f : Fleet) (h : List Output) : Prop where
  aligned : ∀ d, (f.replicas d).Aligned
  settling : ∀ d x, (f.replicas d).worker.phase = .settling x .deadLettered →
    2 ≤ storeFailures h x.ref.key
  deadLettered : ∀ d x, .replica d (.settled x .deadLettered) ∈ h →
    2 ≤ storeFailures h x.ref.key

namespace Retried

lemma init : Retried Fleet.init [] := by
  refine ⟨fun d => Replica.Aligned.init, fun d x hp => ?_, fun d x hx => ?_⟩
  · cases hp
  · cases hx

lemma step (hinv : Retried f h) (hr : Rule cfg n f e f' out) (hgood : goodFrames e)
    (hfresh : freshFailure f h e) : Retried f' (h ++ out) := by
  have hexplained : Explained (fun h x => 2 ≤ storeFailures h x.ref.key) f h :=
    ⟨hinv.aligned, hinv.settling, hinv.deadLettered⟩
  obtain ⟨haligned, hsettling, hdead⟩ :=
    hexplained.step (fun h out x => le_storeFailures_append) hr (by
      rintro d op pos w as x rfl hw has hp
      refine (Rule.settling_deadLettered hgood hw hp).imp_right ?_
      rintro ⟨rfl, hload, hred, ho⟩
      have hnew : 0 < storeFailures out x.ref.key := by
        rw [storeFailures, has, List.countP_pos_iff]
        exact ⟨_, ho, decide_eq_true rfl⟩
      rw [storeFailures_append]
      exact Nat.add_le_add (hfresh x (by rw [hload]; rfl) hred) hnew)
  exact ⟨haligned, hsettling, hdead⟩

end Retried

/-- The acts of one detector. -/
def actsOf (d : ℕ) (h : List Output) : List Act := (ofReplica d h).filterMap Out.act?

lemma actsOf_append (d : ℕ) (h₁ h₂ : List Output) :
    actsOf d (h₁ ++ h₂) = actsOf d h₁ ++ actsOf d h₂ := by
  rw [actsOf, ofReplica_append, List.filterMap_append]
  rfl

/-- Every step of a fleet ends `process` at most for deliveries that have begun. -/
lemma Rule.ends_le (hr : Rule cfg n f e f' out) (d : ℕ) (x : Delivery) :
    (actsOf d out).countP (Act.ends x) + (f'.replicas d).worker.processing x ≤
      (actsOf d out).countP (Act.begins x) + (f.replicas d).worker.processing x := by
  have of_silent : ∀ {w : Worker}, w.processing x ≤ (f.replicas d).worker.processing x →
      (actsOf d []).countP (Act.ends x) + w.processing x ≤
        (actsOf d []).countP (Act.begins x) + (f.replicas d).worker.processing x :=
    fun hle => Nat.add_le_add_left hle 0
  cases hr with
  | publish | expire => exact of_silent (Nat.le_refl _)
  | deliver d' i tag m c hd hm hc =>
    refine of_silent (Nat.le_of_eq ?_)
    by_cases hdd : d = d'
    · subst hdd
      simp
    · simp [hdd]
  | crash d' pos hd =>
    refine of_silent ?_
    by_cases hdd : d = d'
    · subst hdd
      simp [Replica.init, Worker.processing, Worker.Phase.inProcess]
    · simp [hdd]
  | take d' i now y w as hd hy hw =>
    by_cases hdd : d = d'
    · subst hdd
      have hacts : actsOf d (as.map fun a => .replica d (.act a)) = as := by
        rw [actsOf, ofReplica_map_act, List.filterMap_map]
        exact List.filterMap_some
      rw [hacts]
      simp only [Function.update_self]
      exact (Worker.take_ends_le hw x).trans (Nat.le_add_right _ _)
    · have hacts : actsOf d (as.map fun a => .replica d' (.act a)) = [] := by
        have h := ofReplica_map_of_ne (Ne.symm hdd) (as.map Out.act)
        rw [List.map_map] at h
        rw [actsOf, show ofReplica d (as.map fun a => Output.replica d' (.act a)) = [] from h]
        rfl
      rw [hacts]
      simp [hdd]
  | work d' op pos w as guard hd hw hg =>
    by_cases hdd : d = d'
    · subst hdd
      rw [actsOf, ofReplica_map_self, perform_acts]
      simp only [Function.update_self]
      exact ((Worker.Rule.of_step hw).ends_le x).trans (Nat.le_add_left _ _)
    · rw [actsOf, ofReplica_map_of_ne (Ne.symm hdd)]
      simp [hdd]

/-- A delivery has at most one outcome each time it is handed to the handler. -/
lemma ends_le_begins {ok : Fleet → List Output → Event → Prop}
    (hr : (machine cfg n).Reach ok Fleet.init f h) (d : ℕ) (x : Delivery) :
    (actsOf d h).countP (Act.ends x) + (f.replicas d).worker.processing x ≤
      (actsOf d h).countP (Act.begins x) := by
  induction hr with
  | init => exact Nat.le_refl _
  | @step f f' h out e hr ho hs ih =>
    have hstep := (Rule.of_step hs).ends_le d x
    rw [actsOf_append, List.countP_append, List.countP_append]
    omega

/-- As long as no frame meets its first store failure on a redelivery, a frame is dead-lettered
only after the store failed in two of its deliveries. -/
theorem deadLettered_after_two_failures
    (hr : (machine cfg n).Reach (fun f h e => goodFrames e ∧ freshFailure f h e) Fleet.init f h)
    {d : ℕ} {x : Delivery} (hx : .replica d (.settled x .deadLettered) ∈ h) :
    2 ≤ storeFailures h x.ref.key ∧
      ∀ d' y, (actsOf d' h).countP (Act.ends y) ≤ (actsOf d' h).countP (Act.begins y) := by
  have hinv : Retried f h :=
    hr.invariant .init fun _ _ _ _ _ _ hinv hok hs =>
      hinv.step (Rule.of_step hs) hok.1 hok.2
  exact ⟨hinv.deadLettered d x hx, fun d' y =>
    (Nat.le_add_right _ _).trans (ends_le_begins hr d' y)⟩

instance (e : Event) : Decidable (goodFrames e) := by
  unfold goodFrames
  split <;> infer_instance

instance (f : Fleet) (h : List Output) (e : Event) : Decidable (freshFailure f h e) := by
  unfold freshFailure
  split <;> infer_instance

/-- The store fails twice for a frame, the second time in its retry. -/
theorem deadLettered_after_two_failures_run :
    ∃ f h, (machine {} 1).Reach (fun f h e => goodFrames e ∧ freshFailure f h e) Fleet.init f h ∧
      Output.replica 0 (.settled ⟨⟨"j", "v", 0, 0, 0, blobKey "j" 0⟩, 2, true⟩ .deadLettered) ∈ h ∧
      2 ≤ storeFailures h (dedupKey "j" 0) := by
  have hrun : ∃ f h, (machine {} 1).Reach (fun f h e => goodFrames e ∧ freshFailure f h e)
      Fleet.init f h ∧
      Output.replica 0 (.settled ⟨⟨"j", "v", 0, 0, 0, blobKey "j" 0⟩, 2, true⟩ .deadLettered) ∈ h :=
    Machine.Reach.exists_of_exec
      [.publish ⟨"j", "v", 0, 0, 0, blobKey "j" 0⟩, .deliver 0 0 1, .take 0 0 0,
        .work 0 (.loaded .storeError) 0, .work 0 .settled 0,
        .deliver 0 0 2, .take 0 0 0, .work 0 (.loaded .storeError) 0, .work 0 .settled 0]
      (by decide +kernel)
  obtain ⟨f, h, hr, hx⟩ := hrun
  exact ⟨f, h, hr, hx, (deadLettered_after_two_failures hr hx).1⟩

/-- A first store failure on a redelivery uses up the retry that the frame has not had. -/
lemma deadLetters_of_first_failure {d pos : ℕ} {x : Delivery}
    (hp : (f.replicas d).worker.phase = .loading x) (hred : x.redelivered = true)
    (hfirst : storeFailures h x.ref.key = 0)
    (hs : f.step cfg n (.work d (.loaded .storeError) pos) = some (f', out)) :
    (f'.replicas d).worker.phase = .settling x .deadLettered ∧
      storeFailures (h ++ out) x.ref.key = 1 := by
  cases Rule.of_step hs with
  | work _ _ _ w as guard hd hw hg =>
    simp only [Worker.step, hp, Worker.loadOutcome] at hw
    cases hw
    constructor
    · simp only [Function.update_self, hred, if_true]
    · rw [storeFailures_append, hfirst, storeFailures, acts_perform]
      simp [Act.storeFailure]

/-- A frame is buffered and its flush fails. In its second delivery the store fails for the first
time, and the frame is dead-lettered. -/
theorem deadLettered_after_one_failure :
    ∃ f h, (machine {batchMaxSize := 1} 1).Reach (fun _ _ e => goodFrames e) Fleet.init f h ∧
      Output.replica 0 (.settled ⟨⟨"j", "v", 0, 0, 0, blobKey "j" 0⟩, 2, true⟩ .deadLettered) ∈ h ∧
      storeFailures h (dedupKey "j" 0) = 1 :=
  Machine.Reach.exists_of_exec
    [.publish ⟨"j", "v", 0, 0, 0, blobKey "j" 0⟩, .deliver 0 0 1, .take 0 0 0,
      .work 0 (.loaded .frame) 0, .work 0 (.detected (some [])) 0, .work 0 (.claimed .won) 0,
      .work 0 (.add 0) 0, .work 0 (.batcher .sinkRaised) 0, .work 0 (.batcher .settleNext) 0,
      .work 0 .counted 0,
      .deliver 0 0 2, .take 0 0 0, .work 0 (.loaded .storeError) 0, .work 0 .settled 0]
    (by decide +kernel)

end Fleet

end VideoPipeline

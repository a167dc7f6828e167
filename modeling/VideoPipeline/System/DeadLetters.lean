import VideoPipeline.Detector.Fate
import VideoPipeline.Detector.Retry
import VideoPipeline.System.ClaimCheck

/-!
# Why frames are given up

A detector that dead-letters a delivery has just ended `process` for it, for one of four causes,
each of which leaves a trace in the history of the system: its blob had expired, its bytes do not
decode, a collaborator raised something unexpected, or the store failed on a redelivery. A delivery
is shed only when it is past the latency budget on the clock of the detector that takes it.
-/

namespace VideoPipeline

/-- A detector ends `process` for some delivery. -/
def Fleet.Output.EndsAt (d : ℕ) : Fleet.Output → Prop
  | .replica d' (.act (.outcome _ _)) => d' = d
  | _                                 => False

/-- A run of the job of a reference yields a frame under the number of the reference. -/
structure Deployment.FrameOf (sys : Deployment) (i : ℕ) (f : SampledFrame) (ref : FrameRef) :
    Prop where
  jobId : ref.jobId = (sys.jobs i).jobId
  frameId : ref.frameId = f.sourceIndex
  yields : (sys.requests i).Yields (sys.jobs i) f

namespace System

variable {sys : Deployment} {s s' : System} {e : Event} {out h h₁ : List (ℚ × Output)} {now₀ t : ℚ}
  {ok : System → List (ℚ × Output) → Event → Prop} {d : ℕ} {x : Delivery} {o : Outcome}

def Output.EndsAt (d : ℕ) : Output → Prop
  | .fleet o => o.EndsAt d
  | _        => False

/-- After `h₁` a detector has ended `process` for a delivery, and for none since. -/
def EndedAfter (h h₁ : List (ℚ × Output)) (t : ℚ) (d : ℕ) (x : Delivery) (o : Outcome) : Prop :=
  ∃ h₂, h = h₁ ++ (t, .fleet (.replica d (.act (.outcome x o)))) :: h₂ ∧
    ∀ y ∈ h₂, ¬y.2.EndsAt d

lemma EndedAfter.append (he : EndedAfter h h₁ t d x o) (hno : ∀ y ∈ out, ¬y.2.EndsAt d) :
    EndedAfter (h ++ out) h₁ t d x o := by
  obtain ⟨h₂, rfl, hrest⟩ := he
  refine ⟨h₂ ++ out, by simp, ?_⟩
  intro y hy
  rcases List.mem_append.mp hy with hy | hy
  · exact hrest y hy
  · exact hno y hy

lemma EndedAfter.mem_acts (he : EndedAfter h h₁ t d x o) :
    .outcome x o ∈ Fleet.acts (fleetOutputs h) := by
  obtain ⟨h₂, rfl, -⟩ := he
  rw [fleetOutputs_append, Fleet.acts_append]
  exact List.mem_append_right _ List.mem_cons_self

/-- Why a detector dead-letters the delivery that it has in hand. -/
inductive Cause (sys : Deployment) (h : List (ℚ × Output)) (d : ℕ) (x : Delivery) : Prop where
  /-- It has read the blob when the time to live of its last put was over. -/
  | expired (t t' : ℚ) (i : ℕ) (f : SampledFrame) (h₁ : List (ℚ × Output))
      (hended : EndedAfter h (h₁ ++ [(t, .read x.ref none)]) t d x .permanent)
      (hput : LastPut h₁ x.ref.blobKey t' i f.jpeg (sys.requests i).settings.frameBlobTtlSec)
      (hframe : sys.FrameOf i f x.ref)
      (hover : t' + ((sys.requests i).settings.frameBlobTtlSec : ℚ) ≤ t)
  /-- It has read a JPEG that is no image to it. -/
  | undecodable (t : ℚ) (i : ℕ) (f : SampledFrame) (h₁ : List (ℚ × Output))
      (hended : EndedAfter h (h₁ ++ [(t, .read x.ref (some f.jpeg))]) t d x .permanent)
      (hframe : sys.FrameOf i f x.ref) (hdecodes : sys.decodes f.jpeg = false)
  | unexpected (t : ℚ) (h₁ : List (ℚ × Output)) (hended : EndedAfter h h₁ t d x .unexpected)
  /-- The store has failed when the message came back once already. -/
  | failedAgain (t : ℚ) (h₁ : List (ℚ × Output)) (hended : EndedAfter h h₁ t d x .transient)
      (hred : x.redelivered = true)

lemma Cause.append (hc : Cause sys h d x) (hno : ∀ y ∈ out, ¬y.2.EndsAt d) :
    Cause sys (h ++ out) d x := by
  cases hc with
  | expired t t' i f h₁ hended hput hframe hover =>
    exact .expired t t' i f h₁ (hended.append hno) hput hframe hover
  | undecodable t i f h₁ hended hframe hdecodes =>
    exact .undecodable t i f h₁ (hended.append hno) hframe hdecodes
  | unexpected t h₁ hended => exact .unexpected t h₁ (hended.append hno)
  | failedAgain t h₁ hended hred => exact .failedAgain t h₁ (hended.append hno) hred

/-! ### What ends where -/

lemma not_endsAt_fleet {e : Fleet.Event} {o : List Fleet.Output} (ho : ∀ a ∈ o, ¬a.EndsAt d)
    {y : ℚ × Output} (hy : y ∈ (s.reads e ++ o.map Output.fleet).map fun o => (t, o)) :
    ¬y.2.EndsAt d := by
  obtain ⟨y', hy', rfl⟩ := List.mem_map.mp hy
  rcases List.mem_append.mp hy' with hy' | hy'
  · rw [reads] at hy'
    split at hy'
    · split at hy'
      · cases hy'
      · rw [List.mem_singleton.mp hy']
        exact id
    · cases hy'
  · obtain ⟨a, ha, rfl⟩ := List.mem_map.mp hy'
    exact ho a ha

lemma not_endsAt_of_ne {d' : ℕ} (hne : d' ≠ d) (o : List (Out Delivery)) :
    ∀ a ∈ o.map (Fleet.Output.replica d'), ¬a.EndsAt d := by
  intro a ha
  obtain ⟨b, -, rfl⟩ := List.mem_map.mp ha
  cases b with
  | act b =>
    cases b with
    | outcome => exact hne
    | _ => exact id
  | _ => exact id

/-- A detector that is settling what it has in hand ends nothing. -/
lemma not_endsAt_of_settling {w w' : Worker} {op : Worker.Op} {as : List Act} {v : Amqp.Verdict}
    (hr : Worker.Rule sys.detector w op w' as) (hp : w.phase = .settling x v)
    (c : Amqp.Channel Delivery.tag) :
    ∀ a ∈ (perform c as).2.map (Fleet.Output.replica d), ¬a.EndsAt d := by
  intro a ha hends
  obtain ⟨b, hb, rfl⟩ := List.mem_map.mp ha
  cases b with
  | act b =>
    cases b with
    | outcome y o =>
      have hmem : .outcome y o ∈ (perform c as).2.filterMap Out.act? :=
        List.mem_filterMap.mpr ⟨_, hb, rfl⟩
      rw [Fleet.perform_acts] at hmem
      obtain ⟨hin, -⟩ := hr.outcome_last hmem
      rw [hp] at hin
      cases hin
    | _ => exact hends
  | _ => exact hends

/-! ### The cause of a dead letter -/

/-- A read that gave no image has found no blob, or one that does not decode. -/
lemma cause_of_read (hr : (machine sys).Reach ok (start sys now₀) s (h ++ out))
    {blob : Option (List UInt8)}
    (hout : out = [(t, .read x.ref blob), (t, .fleet (.replica d (.act (.outcome x .permanent))))])
    (hno : sys.loadReply blob ≠ .frame) : Cause sys (h ++ out) d x := by
  have hh : h ++ out = h ++ (t, .read x.ref blob) ::
      [(t, .fleet (.replica d (.act (.outcome x .permanent))))] := by rw [hout]
  obtain ⟨i, j, f, f', hf⟩ := exists_fetched hr hh
  obtain ⟨stamp, href⟩ := hf.ref_eq
  obtain ⟨t', hlast, hblob⟩ := hf.blob_eq
  have hframe : sys.FrameOf j f' x.ref := by
    refine ⟨?_, ?_, hf.yields'⟩
    · rw [hf.jobId, href]
      rfl
    · rw [hf.sourceIndex, href]
      rfl
  have hended : EndedAfter (h ++ out) (h ++ [(t, .read x.ref blob)]) t d x .permanent := by
    refine ⟨[], by rw [hout, List.append_assoc]; rfl, ?_⟩
    intro y hy
    cases hy
  by_cases hover : t < t' + ((sys.requests j).settings.frameBlobTtlSec : ℚ)
  · rw [if_pos hover] at hblob
    rw [hblob] at hended
    refine .undecodable t j f' h hended hframe ?_
    rw [hblob, Deployment.loadReply] at hno
    by_contra hdecodes
    exact hno (if_pos (Bool.eq_true_of_not_eq_false hdecodes))
  · rw [if_neg hover] at hblob
    rw [hblob] at hended
    exact .expired t t' j f' h hended hlast hframe (not_lt.mp hover)

/-- When a step of a detector ends `process` so that the delivery is to be dead-lettered, it has a
cause. -/
lemma cause_of_outcome (hr : (machine sys).Reach ok (start sys now₀) s' (h ++ out))
    {op : Worker.Op} {pos : ℕ} {w w' : Worker} {as : List Act}
    (hrule : Worker.Rule sys.detector (s.fleet.replicas d).worker op w as)
    (hw : (s.fleet.replicas d).worker.step sys.detector op = some (w, as))
    (hans : answers sys s (.work d op pos) = true) (ho : .outcome x o ∈ as)
    (hphase : (w'.handle x o).1.phase = .settling x .deadLettered)
    (hout : out = (s.reads (.work d op pos) ++
      ((perform (s.fleet.replicas d).channel as).2.map (.replica d)).map Output.fleet).map
        fun o => (s.now, o)) : Cause sys (h ++ out) d x := by
  obtain ⟨-, hquiet, pre, rfl, hpre⟩ := hrule.outcome_last ho
  rw [perform_quiet hquiet] at hout
  have hended : ∃ h₁, EndedAfter (h ++ out) h₁ s.now d x o := by
    refine ⟨h ++ (s.reads (.work d op pos) ++ (pre.map Out.act).map fun a =>
      Output.fleet (.replica d a)).map fun o => (s.now, o), [], ?_, ?_⟩
    · rw [hout]
      simp
    · intro y hy
      cases hy
  obtain ⟨h₁, hended⟩ := hended
  rcases Worker.handle_deadLettered hphase with rfl | rfl | ⟨rfl, hred⟩
  · obtain rfl := hpre rfl
    rcases Worker.step_outcome hw ho with ⟨r, rfl, hload, hr'⟩ | ⟨-, hne⟩ | ⟨faces, r, -, hne⟩
    · have hload : s.load? (.work d (.loaded r) pos) = some (x, r) := by
        rw [load?, hload]
      rw [answers, hload] at hans
      have hne : ¬(r = .storeError ∨ r = .raised) := by
        rintro (rfl | rfl) <;> cases hr'
      have hreply : r = sys.loadReply (s.blob x) :=
        ((of_decide_eq_true hans).resolve_left fun h => hne (.inl h)).resolve_left
          fun h => hne (.inr h)
      have hread : out = [(s.now, .read x.ref (s.blob x)),
          (s.now, .fleet (.replica d (.act (.outcome x .permanent))))] := by
        rw [hout, reads, hload]
        simp [hne]
      refine cause_of_read hr hread ?_
      rw [← hreply]
      rintro rfl
      cases hr'
    · cases hne
    · cases r <;> cases hne
  · exact .unexpected _ h₁ hended
  · exact .failedAgain _ h₁ hended hred

/-- Whatever a detector is about to dead-letter has a cause. -/
def Judged (sys : Deployment) (s : System) (h : List (ℚ × Output)) : Prop :=
  ∀ d x, (s.fleet.replicas d).worker.phase = .settling x .deadLettered → Cause sys h d x

/-- A step of the fleet leaves what is being dead-lettered with its cause. -/
lemma Judged.fleet_step {e : Fleet.Event} {o : List Fleet.Output} (hj : Judged sys s h)
    (hr : (machine sys).Reach ok (start sys now₀) s' (h ++ out)) (hans : answers sys s e = true)
    (hf : Fleet.Rule sys.detector sys.detectors s.current e s'.fleet o)
    (hout : out = (s.reads e ++ o.map Output.fleet).map fun o => (s.now, o)) :
    Judged sys s' (h ++ out) := by
  intro d x hp
  have hkept : (s.fleet.replicas d).worker.phase = .settling x .deadLettered →
      (∀ a ∈ o, ¬a.EndsAt d) → Cause sys (h ++ out) d x := by
    intro hold hno
    refine (hj d x hold).append fun y hy => ?_
    rw [hout] at hy
    exact not_endsAt_fleet hno hy
  generalize s'.fleet = f at hf hp
  cases hf with
  | publish ref =>
    refine hkept hp ?_
    intro a ha
    rw [List.mem_singleton.mp ha]
    exact id
  | expire key => exact hkept hp fun a ha => by cases ha
  | deliver d' i tag m c hd hm hc =>
    refine hkept ?_ fun a ha => by cases ha
    by_cases hdd : d = d'
    · subst hdd
      simpa using hp
    · simpa [hdd] using hp
  | crash d' pos hd =>
    by_cases hdd : d = d'
    · subst hdd
      simp [Replica.init] at hp
    · exact hkept (by simpa [hdd] using hp) fun a ha => by cases ha
  | take d' i now y w as hd hy hw =>
    by_cases hdd : d = d'
    · subst hdd
      have hp : w.phase = .settling x .deadLettered := by simpa using hp
      obtain ⟨-, ⟨rfl, -⟩ | ⟨-, rfl, -⟩⟩ := Worker.take_cases hw <;> cases hp
    · refine hkept (by simpa [hdd] using hp) ?_
      have hno := not_endsAt_of_ne (Ne.symm hdd) (as.map Out.act)
      rwa [List.map_map] at hno
  | work d' op pos w as guard hd hw hg =>
    by_cases hdd : d = d'
    · subst hdd
      have hp : w.phase = .settling x .deadLettered := by simpa using hp
      have hrule := Worker.Rule.of_step hw
      rcases hrule.settling_cases hp with hold | ⟨o', ho, hphase⟩
      · exact hkept hold (not_endsAt_of_settling hrule hold _)
      · exact cause_of_outcome hr hrule hw hans ho (hphase.trans hp) hout
    · exact hkept (by simpa [hdd] using hp) (not_endsAt_of_ne (Ne.symm hdd) _)

theorem Judged.of_reach (hr : (machine sys).Reach ok (start sys now₀) s h) : Judged sys s h := by
  induction hr with
  | init =>
    intro d x hp
    cases hp
  | @step s s' h out e hr ho hs ih =>
    have hr' := hr.step ho hs
    cases Rule.of_step hs with
    | tick t ht => exact fun d x hp => (ih d x hp).append fun y hy => by cases hy
    | put | publish =>
      refine fun d x hp => (ih d x hp).append fun y hy => ?_
      rw [List.mem_singleton.mp hy]
      exact id
    | run i e p o hs hput hpub =>
      refine fun d x hp => (ih d x hp).append fun y hy => ?_
      obtain ⟨o', -, rfl⟩ := List.mem_map.mp hy
      exact id
    | fleet e f o hown hans hf => exact ih.fleet_step hr' hans (.of_step hf) rfl

/-- What a step dead-letters was in the hand of its detector. -/
lemma settling_of_step (hr : (machine sys).Reach ok (start sys now₀) s h)
    (hs : s.step sys e = some (s', out))
    (hx : .replica d (.settled x .deadLettered) ∈ fleetOutputs out) :
    (s.fleet.replicas d).worker.phase = .settling x .deadLettered := by
  cases Rule.of_step hs with
  | tick | put => cases hx
  | publish => cases List.mem_singleton.mp hx
  | run i e p o hs hput hpub =>
    rw [fleetOutputs_run hpub] at hx
    cases hx
  | fleet e f o hown hans hf =>
    rw [fleetOutputs_fleet] at hx
    cases Fleet.Rule.of_step hf with
    | take d' i now y w as hd hy hw => simp at hx
    | work d' op pos w as guard hd hw hg =>
      obtain ⟨o', ho', heq⟩ := List.mem_map.mp hx
      obtain ⟨rfl, rfl⟩ := Fleet.Output.replica.inj heq
      exact (Fleet.aligned_of_reach (reach_fleet_any hr) d').deadLettered (.of_step hw) ho'
    | publish => cases List.mem_singleton.mp hx
    | deliver | expire | crash => cases hx

/-- A delivery is shed when it is taken, past the latency budget on the clock of the detector. -/
lemma stale_of_step (hs : s.step sys e = some (s', out))
    (hx : .replica d (.act (.outcome x .stale)) ∈ fleetOutputs out) :
    ∃ i now, e = .fleet (.take d i now) ∧ (s.fleet.replicas d).prefetched[i]? = some x ∧
      0 < sys.detector.maxFrameAgeSec ∧ sys.detector.maxFrameAgeSec < x.ref.ageSec now := by
  cases Rule.of_step hs with
  | tick | put => cases hx
  | publish => cases List.mem_singleton.mp hx
  | run i e p o hs hput hpub =>
    rw [fleetOutputs_run hpub] at hx
    cases hx
  | fleet e f o hown hans hf =>
    rw [fleetOutputs_fleet] at hx
    cases Fleet.Rule.of_step hf with
    | publish => cases List.mem_singleton.mp hx
    | deliver | expire | crash => cases hx
    | take d' i now y w as hd hy hw =>
      obtain ⟨a, ha, heq⟩ := List.mem_map.mp hx
      obtain ⟨rfl, hact⟩ := Fleet.Output.replica.inj heq
      obtain rfl := Out.act.inj hact
      simp only [Worker.take] at hw
      split at hw
      · split at hw
        · next hage =>
          cases hw
          obtain rfl : x = y := by simpa using ha
          exact ⟨i, now, rfl, hy, hage⟩
        · cases hw
          simp at ha
      · cases hw
    | work d' op pos w as guard hd hw hg =>
      have hact : .outcome x .stale ∈ Fleet.acts
          ((perform (s.current.replicas d').channel as).2.map (.replica d')) :=
        List.mem_filterMap.mpr ⟨_, hx, rfl⟩
      rw [Fleet.acts_perform] at hact
      exact absurd hact ((Worker.Rule.of_step hw).not_stale x)

/-- A dead letter had a cause when it was put out. -/
lemma cause_of_deadLettered (hr : (machine sys).Reach ok (start sys now₀) s h) {key : String}
    (hdead : Fleet.DeadLettered (fleetOutputs h) key) :
    ∃ h₁ h₂ d x, h = h₁ ++ h₂ ∧ x.ref.key = key ∧ Cause sys h₁ d x := by
  obtain ⟨d, x, hx, hkey⟩ := hdead
  induction hr with
  | init => cases hx
  | @step s s' h out e hr ho hs ih =>
    rw [fleetOutputs_append] at hx
    rcases List.mem_append.mp hx with hx | hx
    · obtain ⟨h₁, h₂, d', x', rfl, hkey', hc⟩ := ih hx
      exact ⟨h₁, h₂ ++ out, d', x', List.append_assoc _ _ _, hkey', hc⟩
    · exact ⟨h, out, d, x, rfl, hkey, Judged.of_reach hr d x (settling_of_step hr hs hx)⟩

/-- Every frame that is given up has a cause, whichever step of whichever run gives it up. The
detector that dead-letters a delivery has just ended `process` for it: the blob had expired, does
not decode, something unexpected was raised, or the store failed on a redelivery. A delivery is shed
by the step that takes it, only past the latency budget, and never if there is none. -/
theorem given_up_for_cause (hr : (machine sys).Reach ok (start sys now₀) s h)
    (hs : s.step sys e = some (s', out)) (d : ℕ) (x : Delivery) :
    (.replica d (.settled x .deadLettered) ∈ fleetOutputs out → Cause sys h d x) ∧
      (.replica d (.act (.outcome x .stale)) ∈ fleetOutputs out →
        ∃ i now, e = .fleet (.take d i now) ∧ (s.fleet.replicas d).prefetched[i]? = some x ∧
          0 < sys.detector.maxFrameAgeSec ∧ sys.detector.maxFrameAgeSec < x.ref.ageSec now) :=
  ⟨fun hx => Judged.of_reach hr d x (settling_of_step hr hs hx), stale_of_step hs⟩

/-- A detector dies with a frame in hand, and the redelivery is dead-lettered: the blob is gone. -/
theorem given_up_for_cause_run : ∃ sys s s' h out x,
    (machine sys).Reach Machine.anyStep (start sys 0) s h ∧
      s.step sys (.fleet (.work 0 .settled 0)) = some (s', out) ∧ x.ref.key = dedupKey "j" 0 ∧
      .replica 0 (.settled x .deadLettered) ∈ fleetOutputs out ∧ Cause sys h 0 x := by
  let sys : Deployment :=
    .clip {analyzerPublishers := 1, frameBlobTtlSec := 60} {} [.image 0 [7] 1 1]
  let x : Delivery := ⟨⟨"j", "v", 0, 0, 0, blobKey "j" 0⟩, 1, true⟩
  have hrun : ∃ s h, (machine sys).Reach Machine.anyStep (start sys 0) s h ∧
      (s.step sys (.fleet (.work 0 .settled 0))).map (fun r => fleetOutputs r.2) =
        some [.replica 0 (.act (.settle (.nack 1 false))),
          .replica 0 (.settled x .deadLettered)] :=
    Machine.Reach.exists_of_exec
      [.run 0 .advance, .run 0 .handle, .run 0 .enqueue, .run 0 (.worker 0 .take),
        .run 0 (.worker 0 (.stored 0)), .run 0 (.worker 0 .published), .fleet (.deliver 0 0 1),
        .fleet (.take 0 0 0), .fleet (.work 0 (.loaded .frame) 0), .fleet (.crash 0 fun _ => 0),
        .tick 60, .fleet (.deliver 0 0 1), .fleet (.take 0 0 60),
        .fleet (.work 0 (.loaded .missing) 0)]
      (by decide +kernel)
  obtain ⟨s, h, hr, hout⟩ := hrun
  obtain ⟨⟨s', out⟩, hs, heq⟩ := Option.map_eq_some_iff.mp hout
  have hx : .replica 0 (.settled x .deadLettered) ∈ fleetOutputs out := by
    rw [show fleetOutputs out = _ from heq]
    simp
  exact ⟨sys, s, s', h, out, x, hr, hs, rfl, hx, (given_up_for_cause hr hs 0 x).1 hx⟩

end System

end VideoPipeline

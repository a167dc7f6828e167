import VideoPipeline.Detector.Fate
import VideoPipeline.System.ClaimCheck
import VideoPipeline.System.Window

/-!
# From the answer to the reports

What a success answer of an analyzer means for the reports of the detectors, once the queue is
drained and the detectors are at rest: every decodable sampled frame of the request has been
reported, or one of its messages was dead-lettered or shed, and nothing else has been reported for
its job.
-/

namespace VideoPipeline

namespace System

variable {sys : Deployment} {s : System} {h : List (ℚ × Output)} {now₀ : ℚ} {i k : ℕ}
  {ref : FrameRef} {ok : System → List (ℚ × Output) → Event → Prop}

/-- The request of a run is answered with success, and the client is not gone. -/
def Succeeded (sys : Deployment) (s : System) (i : ℕ) : Prop :=
  Analysis.Returned (s.runs i) ∧
    ∃ o, ((sys.requests i).close (sys.jobs i) (s.runs i)).result = .ok o ∧ o.status ≠ .cancelled

lemma Succeeded.state (hsucc : Succeeded sys s i) :
    (s.runs i).main = .finished ∧ (s.runs i).state.error = none ∧ (s.runs i).abort = false := by
  obtain ⟨hret, o, ho, hst⟩ := hsucc
  obtain ⟨herr, rfl, hstatus⟩ := Analysis.close_ok ho
  refine ⟨hret.1, herr, ?_⟩
  cases hab : (s.runs i).abort with
  | false => rfl
  | true =>
    rw [hab, if_pos rfl] at hstatus
    exact absurd hstatus hst

/-! ### What a run publishes -/

lemma published_of_run (hpub : .published ref ∈ runOutputs i h) :
    ref ∈ Fleet.published (fleetOutputs h) := by
  obtain ⟨t, ht⟩ := mem_runOutputs.mp hpub
  refine List.mem_filterMap.mpr ⟨.published ref, ?_, rfl⟩
  exact List.mem_filterMap.mpr ⟨_, ht, rfl⟩

/-- A run whose request succeeded has published every decodable frame after its start. -/
lemma published_of_succeeded (hr : (machine sys).Reach ok (System.start sys now₀) s h)
    (hsure : (sys.requests i).SeeksSurely (RunState.initial (sys.jobs i).prior).lastSourceIndex)
    (hsucc : Succeeded sys s i) (hk : k ∈ (sys.requests i).decodable)
    (hlt : (RunState.initial (sys.jobs i).prior).lastSourceIndex < (k : ℤ)) :
    ∃ ref ∈ Fleet.published (fleetOutputs h), ref.key = dedupKey (sys.jobs i).jobId k ∧
      ref.jobId = (sys.jobs i).jobId ∧ ref.frameId = k := by
  have hreach := reach_run hr i
  have hflow := Pipeline.Flow.of_reach hreach
  obtain ⟨hfin, herr, hab⟩ := hsucc.state
  have hend := Analysis.items_eq_nil_of_returned hflow hsucc.1 hab
  have hdisp := congrArg (List.map SampledFrame.sourceIndex) (hflow.dispatched_eq hfin hend herr)
  have hmem : k ∈ (Pipeline.dispatched (runOutputs i h)).map SampledFrame.sourceIndex := by
    rw [hdisp]
    refine ((sys.requests i).frames_eq (sys.jobs i) hsure).symm ▸ ?_
    exact List.mem_filter.mpr ⟨hk, decide_eq_true hlt⟩
  obtain ⟨f, hf, rfl⟩ := List.mem_map.mp hmem
  have hid : f.frameId ∈ (Pipeline.publishedRefs (runOutputs i h)).map FrameRef.frameId :=
    (hflow.published_perm hfin herr).mem_iff.mpr (List.mem_map_of_mem hf)
  obtain ⟨ref, href, hframe⟩ := List.mem_map.mp hid
  obtain ⟨o, ho, horef⟩ := List.mem_filterMap.mp href
  cases o with
  | published ref' =>
    obtain rfl := Option.some.inj horef
    obtain ⟨g, now, -, heq⟩ := Pipeline.published_yields hreach ho
    have hjob : ref'.jobId = (sys.jobs i).jobId := by
      rw [heq]
      rfl
    refine ⟨ref', published_of_run ho, ?_, hjob, hframe⟩
    rw [FrameRef.key, hjob, hframe]
    rfl
  | _ => cases horef

/-- What a run publishes is about a decodable frame of its video. -/
lemma decodable_of_run (hr : (machine sys).Reach ok (System.start sys now₀) s h)
    (hsure : sys.SeeksSurely ref.jobId) (hpub : .published ref ∈ runOutputs i h) :
    ref.jobId = (sys.jobs i).jobId ∧ ref.videoId = (sys.requests i).videoId ∧
      ∃ k ∈ (sys.requests i).decodable, ref.frameId = k := by
  obtain ⟨f, now, hf, rfl⟩ := Pipeline.published_yields (reach_run hr i) hpub
  exact ⟨rfl, rfl, f.sourceIndex, hf.decodable (hsure i rfl), rfl⟩

/-! ### What is reported -/

/-- A report is of a decodable frame of a run, under the ids of its job and its video. -/
lemma reported_of_run (hr : (machine sys).Reach ok (System.start sys now₀) s h) {p : Pending}
    (hsure : sys.SeeksSurely p.delivery.ref.jobId) (hp : p ∈ Fleet.returned (fleetOutputs h)) :
    ∃ j, p.delivery.ref.jobId = (sys.jobs j).jobId ∧
      p.result.videoId = (sys.requests j).videoId ∧
      ∃ k ∈ (sys.requests j).decodable, p.result.frameId = k := by
  have hfleet := reach_fleet_any hr
  obtain ⟨j, hj⟩ := mem_published ((Fleet.Known.of_reach hfleet).returned p hp) hr
  obtain ⟨hjob, hvideo, k, hk, hframe⟩ := decodable_of_run hr hsure hj
  obtain ⟨hvid, hid⟩ := (Fleet.Labelled.of_reach hfleet).2 p hp
  exact ⟨j, hjob, hvid.trans hvideo, k, hk, hid.trans hframe⟩

lemma mem_reportedFrames {h : List Fleet.Output} {jobId : String} {x : ℤ} :
    x ∈ Fleet.reportedFrames h jobId ↔
      ∃ p ∈ Fleet.returned h, p.delivery.ref.jobId = jobId ∧ p.result.frameId = x := by
  simp only [Fleet.reportedFrames, List.mem_toFinset, List.mem_map, List.mem_filter, Worker.ofJob,
    decide_eq_true_eq, and_assoc]

/-! ### A drained queue -/

/-- The messages are read from one queue, and no detector drops a result while its key is
claimed. -/
def orderly (s : System) (h : List (ℚ × Output)) : Event → Prop
  | .fleet e => Fleet.orderly s.current (fleetOutputs h) e
  | _        => True

instance (s : System) (h : List (ℚ × Output)) (e : Event) : Decidable (orderly s h e) :=
  match e with
  | .fleet e => inferInstanceAs (Decidable (Fleet.orderly s.current (fleetOutputs h) e))
  | .tick _ | .run _ _ => inferInstanceAs (Decidable True)

/-- In addition no detector crashes. -/
def calm (s : System) (h : List (ℚ × Output)) (e : Event) : Prop :=
  orderly s h e ∧ match e with
    | .fleet e => Fleet.noCrash e
    | _        => True

instance (s : System) (h : List (ℚ × Output)) (e : Event) : Decidable (calm s h e) :=
  match e with
  | .fleet e => inferInstanceAs (Decidable (_ ∧ Fleet.noCrash e))
  | .tick _ | .run _ _ => inferInstanceAs (Decidable (_ ∧ True))

lemma kept_of_reach (hr : (machine sys).Reach orderly (System.start sys now₀) s h) :
    Fleet.Kept sys.detectors s.fleet (fleetOutputs h) := by
  have hquiet : ∀ (f : Fleet) (h : List Fleet.Output) (e : Fleet.Event), f.dropped e = [] →
      Fleet.keepsClaimed f h e := by
    intro f h e hnil p hp
    rw [hnil] at hp
    cases hp
  exact Fleet.Kept.of_reach <| reach_fleet (fun f h ref => ⟨trivial, hquiet f h _ rfl⟩)
    (fun f h key => ⟨trivial, hquiet f h _ rfl⟩) (fun _ _ _ hok => hok) hr

/-- A frame of a job has been reported, or one of its messages was dead-lettered or shed. -/
def Resolved (h : List (ℚ × Output)) (jobId : String) (k : ℕ) : Prop :=
  (k : ℤ) ∈ Fleet.reportedFrames (fleetOutputs h) jobId ∨
    Fleet.DeadLettered (fleetOutputs h) (dedupKey jobId k) ∨
    Fleet.Shed (fleetOutputs h) (dedupKey jobId k)

/-- The frames of an answer are resolved when the queue is drained and the detectors are at rest. -/
lemma resolved_of_succeeded (hr : (machine sys).Reach orderly (System.start sys now₀) s h)
    (hsure : (sys.requests i).SeeksSurely (RunState.initial (sys.jobs i).prior).lastSourceIndex)
    (hsucc : Succeeded sys s i) (hq : Fleet.Quiescent sys.detectors s.fleet)
    (hk : k ∈ (sys.requests i).decodable)
    (hlt : (RunState.initial (sys.jobs i).prior).lastSourceIndex < (k : ℤ)) :
    Resolved h (sys.jobs i).jobId k := by
  obtain ⟨ref, href, hkey, hjob, hframe⟩ := published_of_succeeded hr hsure hsucc hk hlt
  have hfate := (kept_of_reach hr).fate_of_quiescent hq href
  rw [hkey] at hfate
  refine hfate.imp_left ?_
  rintro ⟨p, hp, hpjob, -, hpframe⟩
  exact mem_reportedFrames.mpr ⟨p, hp, hpjob.trans hjob, hpframe.trans hframe⟩

/-- A frame of a fresh job is reported if none of its messages was dead-lettered or shed. -/
lemma reportedFrames_of_succeeded (hr : (machine sys).Reach orderly (System.start sys now₀) s h)
    (hsucc : Succeeded sys s i) (hq : Fleet.Quiescent sys.detectors s.fleet)
    (hfresh : (sys.jobs i).prior = none) (hk : k ∈ (sys.requests i).decodable)
    (hdead : ¬Fleet.DeadLettered (fleetOutputs h) (dedupKey (sys.jobs i).jobId k))
    (hshed : ¬Fleet.Shed (fleetOutputs h) (dedupKey (sys.jobs i).jobId k)) :
    (k : ℤ) ∈ Fleet.reportedFrames (fleetOutputs h) (sys.jobs i).jobId := by
  have hneg : (RunState.initial (sys.jobs i).prior).lastSourceIndex < 0 := by
    rw [hfresh]
    exact neg_one_lt_zero
  rcases resolved_of_succeeded hr (Request.seeksSurely_of_neg _ hneg) hsucc hq hk
    (hneg.trans_le k.cast_nonneg) with hrep | hd | hs
  · exact hrep
  · exact absurd hd hdead
  · exact absurd hs hshed

/-- What is reported for a job is a decodable frame of one of its runs. -/
lemma decodable_of_reported (hr : (machine sys).Reach ok (System.start sys now₀) s h)
    {jobId : String} (hsure : sys.SeeksSurely jobId) {x : ℤ}
    (hx : x ∈ Fleet.reportedFrames (fleetOutputs h) jobId) :
    ∃ j, (sys.jobs j).jobId = jobId ∧ ∃ k ∈ (sys.requests j).decodable, x = k := by
  obtain ⟨p, hp, rfl, rfl⟩ := mem_reportedFrames.mp hx
  obtain ⟨j, hjob, -, hk⟩ := reported_of_run hr hsure hp
  exact ⟨j, hjob.symm, hk⟩

/-- A success answer is kept, in a run in which the messages are taken in order and no result is
dropped while its key is claimed, for a job whose runs are sure of where they start to read. When
the queue is drained and the detectors are at rest, every decodable sampled frame after the start of
the run has been reported, or one of its messages was dead-lettered or shed. And only decodable
frames of the runs of the job are reported for it. -/
theorem answer_kept (hr : (machine sys).Reach orderly (System.start sys now₀) s h)
    (hsure : sys.SeeksSurely (sys.jobs i).jobId) (hsucc : Succeeded sys s i)
    (hq : Fleet.Quiescent sys.detectors s.fleet) :
    (∀ k ∈ (sys.requests i).decodable,
      (RunState.initial (sys.jobs i).prior).lastSourceIndex < (k : ℤ) →
        Resolved h (sys.jobs i).jobId k) ∧
      ∀ x ∈ Fleet.reportedFrames (fleetOutputs h) (sys.jobs i).jobId,
        ∃ j, (sys.jobs j).jobId = (sys.jobs i).jobId ∧ ∃ k ∈ (sys.requests j).decodable, x = k :=
  ⟨fun _ hk hlt => resolved_of_succeeded hr (hsure i rfl) hsucc hq hk hlt,
    fun _ hx => decodable_of_reported hr hsure hx⟩

/-! ### Each frame once -/

/-- Within one time to live, a guard that answers hands a frame to the sink once. -/
lemma countP_returned_le_one (hr : (machine sys).Reach ok (System.start sys now₀) s h)
    {key : String} (hshort : s.now - now₀ < sys.detector.dedupTtlSec)
    (hopen : failedOpen key h = 0) :
    (Fleet.returned (fleetOutputs h)).countP (fun p => p.key = key) ≤ 1 := by
  have hfleet := reach_fleet_any hr
  calc (Fleet.returned (fleetOutputs h)).countP (fun p => p.key = key)
      ≤ (Fleet.called (fleetOutputs h)).countP (fun p => p.key = key) :=
        Fleet.returned_le_called hfleet _
    _ ≤ (Fleet.won (fleetOutputs h)).countP (fun p => p.key = key) := Fleet.called_le_won hfleet _
    _ ≤ (Fleet.acts (fleetOutputs h)).countP (Act.grants key) := Fleet.won_le_granted hfleet key
    _ ≤ 1 := granted_le_one hr hshort hopen

/-- What has been reported of a job whose decodable frames have all been. -/
lemma reportedFrames_eq (hr : (machine sys).Reach ok (System.start sys now₀) s h)
    (hsure : sys.SeeksSurely (sys.jobs i).jobId)
    (hjob : ∀ j, (sys.jobs j).jobId = (sys.jobs i).jobId →
      (sys.requests j).decodable = (sys.requests i).decodable)
    (hmem : ∀ k ∈ (sys.requests i).decodable,
      (k : ℤ) ∈ Fleet.reportedFrames (fleetOutputs h) (sys.jobs i).jobId) :
    Fleet.reportedFrames (fleetOutputs h) (sys.jobs i).jobId =
      ((sys.requests i).decodable.map Nat.cast).toFinset := by
  refine Finset.ext fun x => ⟨fun hx => ?_, fun hx => ?_⟩
  · obtain ⟨j, hj, k, hk, rfl⟩ := decodable_of_reported hr hsure hx
    rw [hjob j hj] at hk
    exact List.mem_toFinset.mpr (List.mem_map_of_mem hk)
  · obtain ⟨k, hk, rfl⟩ := List.mem_map.mp (List.mem_toFinset.mp hx)
    exact hmem k hk

lemma countP_returned_eq_one (hr : (machine sys).Reach ok (System.start sys now₀) s h)
    {jobId : String} (hshort : s.now - now₀ < sys.detector.dedupTtlSec)
    (hopen : failedOpen (dedupKey jobId k) h = 0)
    (hmem : (k : ℤ) ∈ Fleet.reportedFrames (fleetOutputs h) jobId) :
    (Fleet.returned (fleetOutputs h)).countP (fun p => p.key = dedupKey jobId k) = 1 := by
  refine le_antisymm (countP_returned_le_one hr hshort hopen) ?_
  obtain ⟨p, hp, hpjob, hpframe⟩ := mem_reportedFrames.mp hmem
  have hlabel := ((Fleet.Labelled.of_reach (reach_fleet_any hr)).2 p hp).2
  refine List.countP_pos_iff.mpr ⟨p, hp, decide_eq_true ?_⟩
  rw [Pending.key, FrameRef.key, hpjob, ← hlabel, hpframe]

/-- The reports of a fresh job that was answered with success, when the queue is drained, the
detectors are at rest and none of its messages was dead-lettered or shed, in a run in which the
messages are taken in order and no result is dropped while its key is claimed: they are the
decodable sampled frames. And each was reported once, if the guard always answered and no key has
expired. -/
theorem reported_exactly (hr : (machine sys).Reach orderly (System.start sys now₀) s h)
    (hsure : sys.SeeksSurely (sys.jobs i).jobId) (hsucc : Succeeded sys s i)
    (hq : Fleet.Quiescent sys.detectors s.fleet)
    (hfresh : (sys.jobs i).prior = none)
    (hjob : ∀ j, (sys.jobs j).jobId = (sys.jobs i).jobId →
      (sys.requests j).decodable = (sys.requests i).decodable)
    (hdead : ∀ k ∈ (sys.requests i).decodable,
      ¬Fleet.DeadLettered (fleetOutputs h) (dedupKey (sys.jobs i).jobId k))
    (hshed : ∀ k ∈ (sys.requests i).decodable,
      ¬Fleet.Shed (fleetOutputs h) (dedupKey (sys.jobs i).jobId k)) :
    Fleet.reportedFrames (fleetOutputs h) (sys.jobs i).jobId =
        ((sys.requests i).decodable.map Nat.cast).toFinset ∧
      (s.now - now₀ < sys.detector.dedupTtlSec →
        ∀ k ∈ (sys.requests i).decodable, failedOpen (dedupKey (sys.jobs i).jobId k) h = 0 →
          (Fleet.returned (fleetOutputs h)).countP
            (fun p => p.key = dedupKey (sys.jobs i).jobId k) = 1) := by
  have hmem := fun k hk =>
    reportedFrames_of_succeeded hr hsucc hq hfresh hk (hdead k hk) (hshed k hk)
  exact ⟨reportedFrames_eq hr hsure hjob hmem,
    fun hshort k hk hopen => countP_returned_eq_one hr hshort hopen (hmem k hk)⟩

/-- A run of the system for a clip of a readable and an unreadable frame: it answers with success,
and the queue has been drained. -/
structure HalfClip (sys : Deployment) (s : System) (h : List (ℚ × Output)) : Prop where
  reach : (machine sys).Reach calm (System.start sys 0) s h
  jobs : ∀ i, sys.jobs i = ⟨"j", none⟩
  decodable : ∀ i, (sys.requests i).decodable = [0]
  succeeded : Succeeded sys s 0
  quiescent : Fleet.Quiescent sys.detectors s.fleet
  not_deadLettered : ¬Fleet.DeadLettered (fleetOutputs h) (dedupKey "j" 0)
  not_shed : ¬Fleet.Shed (fleetOutputs h) (dedupKey "j" 0)
  within : s.now - 0 < sys.detector.dedupTtlSec
  answered : failedOpen (dedupKey "j" 0) h = 0

lemma Succeeded.of_status {status : JobStatus} (hmain : (s.runs i).main = .finished)
    (hthread : (s.runs i).thread = .ended)
    (hstatus : ((sys.requests i).close (sys.jobs i) (s.runs i)).result.toOption.map
      AnalysisOutcome.status = some status) (hne : status ≠ .cancelled) : Succeeded sys s i := by
  refine ⟨⟨hmain, fun exc hexc => ?_⟩, ?_⟩
  · rw [hthread] at hexc
    cases hexc
  · obtain ⟨o, ho, hst⟩ := Option.map_eq_some_iff.mp hstatus
    refine ⟨o, ?_, hst ▸ hne⟩
    cases hres : ((sys.requests i).close (sys.jobs i) (s.runs i)).result with
    | error err =>
      rw [hres] at ho
      cases ho
    | ok o' =>
      rw [hres] at ho
      exact congrArg Except.ok (Option.some.inj ho)

namespace HalfClip

/-- The run ends with a partial job. The detector fails to load the frame once, and reports the
redelivery. -/
def events : List Event :=
  [.run 0 .advance, .run 0 .handle, .run 0 .enqueue, .run 0 .look, .run 0 .advance, .run 0 .handle,
    .run 0 .advance, .run 0 (.worker 0 .take), .run 0 (.worker 0 (.stored 0)),
    .run 0 (.worker 0 .published), .run 0 (.worker 0 .confirmed), .run 0 .decodeDone,
    .run 0 .putStop, .run 0 (.worker 0 .take), .run 0 .gathered, .fleet (.deliver 0 0 1),
    .fleet (.take 0 0 0), .fleet (.work 0 (.loaded .storeError) 0), .fleet (.work 0 .settled 0),
    .fleet (.deliver 0 0 2), .fleet (.take 0 0 0), .fleet (.work 0 (.loaded .frame) 0),
    .fleet (.work 0 (.detected (some [])) 0), .fleet (.work 0 (.claimed .won) 0),
    .fleet (.work 0 (.add 0) 0), .fleet (.work 0 (.batcher .sinkReturned) 0),
    .fleet (.work 0 (.batcher .settleNext) 0), .fleet (.work 0 .counted 0)]

lemma exists_run : ∃ sys s h, HalfClip sys s h := by
  let sys : Deployment :=
    .clip {analyzerPublishers := 1, maxFrameFailureRatio := 1} {batchMaxSize := 1}
      [.blank, .noImage]
  have hrun : ∃ s h, (machine sys).Reach calm (System.start sys 0) s h ∧
      ((s.runs 0).main = .finished ∧ (s.runs 0).thread = .ended) ∧
      ((sys.requests 0).close (sys.jobs 0) (s.runs 0)).result.toOption.map
        AnalysisOutcome.status = some .partial_ ∧ Fleet.Quiescent 1 s.fleet ∧
      ¬Fleet.DeadLettered (fleetOutputs h) (dedupKey "j" 0) ∧
      ¬Fleet.Shed (fleetOutputs h) (dedupKey "j" 0) ∧ s.now - 0 < sys.detector.dedupTtlSec ∧
      failedOpen (dedupKey "j" 0) h = 0 :=
    Machine.Reach.exists_of_exec events (by decide +kernel)
  obtain ⟨s, h, hr, ⟨hmain, hthread⟩, hstatus, hq, hdead, hshed, hshort, hopen⟩ := hrun
  have hdecodable : (sys.requests 0).decodable = [0] := by decide +kernel
  exact ⟨sys, s, h, hr, fun _ => rfl, fun _ => hdecodable,
    .of_status hmain hthread hstatus JobStatus.noConfusion, hq, hdead, hshed, hshort, hopen⟩

variable {sys : Deployment} {s : System} {h : List (ℚ × Output)} {i k : ℕ}

lemma orderly (hc : HalfClip sys s h) :
    (machine sys).Reach System.orderly (System.start sys 0) s h :=
  hc.reach.mono fun _ _ _ hok => hok.1

lemma jobId (hc : HalfClip sys s h) : (sys.jobs i).jobId = "j" := by rw [hc.jobs]

lemma fresh (hc : HalfClip sys s h) : (sys.jobs i).prior = none := by rw [hc.jobs]

lemma sure (hc : HalfClip sys s h) (jobId : String) : sys.SeeksSurely jobId := by
  intro j _
  rw [hc.jobs]
  exact Request.seeksSurely_of_neg _ neg_one_lt_zero

lemma eq_zero (hc : HalfClip sys s h) (hk : k ∈ (sys.requests i).decodable) : k = 0 := by
  rw [hc.decodable] at hk
  exact List.mem_singleton.mp hk

lemma same (hc : HalfClip sys s h) (j : ℕ) : (sys.requests j).decodable =
    (sys.requests i).decodable := by rw [hc.decodable, hc.decodable]

lemma key (hc : HalfClip sys s h) (hk : k ∈ (sys.requests i).decodable) :
    dedupKey (sys.jobs i).jobId k = dedupKey "j" 0 := by
  rw [hc.jobId, hc.eq_zero hk]
  rfl

end HalfClip

theorem answer_kept_halfClip : ∃ sys s h,
    (machine sys).Reach orderly (System.start sys 0) s h ∧ Succeeded sys s 0 ∧
      Resolved h "j" 0 := by
  obtain ⟨sys, s, h, hc⟩ := HalfClip.exists_run
  refine ⟨sys, s, h, hc.orderly, hc.succeeded, ?_⟩
  rw [← hc.jobId]
  refine (answer_kept hc.orderly (hc.sure _) hc.succeeded hc.quiescent).1 0 ?_ ?_
  · rw [hc.decodable]
    exact List.mem_singleton_self 0
  · rw [hc.fresh]
    decide

theorem reported_exactly_halfClip : ∃ sys s h,
    (machine sys).Reach orderly (System.start sys 0) s h ∧ Succeeded sys s 0 ∧
      Fleet.reportedFrames (fleetOutputs h) "j" = {0} := by
  obtain ⟨sys, s, h, hc⟩ := HalfClip.exists_run
  have hexact := (reported_exactly hc.orderly (hc.sure _) hc.succeeded hc.quiescent hc.fresh
    (fun j _ => hc.same j) (fun k hk => by rw [hc.key hk]; exact hc.not_deadLettered)
    (fun k hk => by rw [hc.key hk]; exact hc.not_shed)).1
  rw [hc.jobId, hc.decodable] at hexact
  exact ⟨sys, s, h, hc.orderly, hc.succeeded, hexact⟩

end System

end VideoPipeline

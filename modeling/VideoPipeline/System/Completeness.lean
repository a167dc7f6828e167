import VideoPipeline.Detector.Drain
import VideoPipeline.System.DeadLetters
import VideoPipeline.System.EndToEnd

/-!
# Archive mode

Without a latency budget nothing is skipped. If in addition the blobs live long enough and decode,
nothing unexpected is raised and the store does not fail twice for a frame, then every decodable
sampled frame is reported. And the detectors can always get there, whatever has happened before.
-/

namespace VideoPipeline

namespace System

variable {sys : Deployment} {s s' : System} {e : Event} {out h : List (ℚ × Output)} {now₀ : ℚ}
  {i k : ℕ} {ok : System → List (ℚ × Output) → Event → Prop}

/-! ### Nothing is given up -/

/-- No frame of the job has met an unexpected exception, nor a store failure on a redelivery. -/
def Undisturbed (h : List (ℚ × Output)) (jobId : String) : Prop :=
  ∀ x : Delivery, x.ref.jobId = jobId →
    .outcome x .unexpected ∉ Fleet.acts (fleetOutputs h) ∧
      (.outcome x .transient ∈ Fleet.acts (fleetOutputs h) → x.redelivered = false)

instance (h : List (ℚ × Output)) (jobId : String) : Decidable (Undisturbed h jobId) :=
  decidable_of_iff (∀ a ∈ Fleet.acts (fleetOutputs h), (match a with
    | .outcome x .unexpected => decide (x.ref.jobId ≠ jobId)
    | .outcome x .transient  => decide (x.ref.jobId = jobId → x.redelivered = false)
    | _                      => true) = true) <| by
    constructor
    · intro hall x hx
      refine ⟨fun hmem => of_decide_eq_true (hall _ hmem) hx, fun hmem => ?_⟩
      exact of_decide_eq_true (hall _ hmem) hx
    · intro hcalm a ha
      split
      · next x => exact decide_eq_true fun hx => (hcalm x hx).1 ha
      · next x => exact decide_eq_true fun hx => (hcalm x hx).2 ha
      · rfl

/-- The blobs of the job have not expired, and the detectors can decode them. -/
structure Readable (sys : Deployment) (jobId : String) (elapsed : ℚ) : Prop where
  alive : ∀ j, (sys.jobs j).jobId = jobId → elapsed < (sys.requests j).settings.frameBlobTtlSec
  decodes : ∀ j f, (sys.jobs j).jobId = jobId → (sys.requests j).source.Shows f →
    sys.decodes f.jpeg = true

/-- The read that found nothing came when the blob had lived for its whole time to live. -/
lemma ttl_le_of_expired (hr : (machine sys).Reach ok (System.start sys now₀) s h) {t t' : ℚ}
    {ref : FrameRef} {jpeg : List UInt8} {ttlSec : ℕ} {h₁ : List (ℚ × Output)}
    (hread : (t, .read ref none) ∈ h) (hleft : ∀ y ∈ h₁, y ∈ h)
    (hput : LastPut h₁ ref.blobKey t' i jpeg ttlSec) (hover : t' + (ttlSec : ℚ) ≤ t) :
    (ttlSec : ℚ) ≤ s.now - now₀ := by
  have htimes := (elapsed hr).2
  have ht : t ≤ s.now := (htimes _ hread).2
  obtain ⟨l₁, l₂, rfl, -⟩ := hput
  have ht' : now₀ ≤ t' :=
    (htimes (t', .run i (.put ref.blobKey jpeg ttlSec)) (hleft _ (by simp))).1
  linarith

/-- Where the blobs are readable and nothing is disturbed, no message is dead-lettered. -/
lemma not_deadLettered (hr : (machine sys).Reach ok (System.start sys now₀) s h)
    (hsure : sys.SeeksSurely (sys.jobs i).jobId)
    (hread : Readable sys (sys.jobs i).jobId (s.now - now₀))
    (hcalm : Undisturbed h (sys.jobs i).jobId) :
    ¬Fleet.DeadLettered (fleetOutputs h) (dedupKey (sys.jobs i).jobId k) := by
  intro hdead
  obtain ⟨h₁, h₂, d, x, rfl, hkey, hcause⟩ := cause_of_deadLettered hr hdead
  have hx : x.ref.jobId = (sys.jobs i).jobId := (dedupKey_injective hkey).1
  have hacts : ∀ a ∈ Fleet.acts (fleetOutputs h₁), a ∈ Fleet.acts (fleetOutputs (h₁ ++ h₂)) := by
    intro a ha
    rw [fleetOutputs_append, Fleet.acts_append]
    exact List.mem_append_left _ ha
  cases hcause with
  | expired t t' j f l₁ hended hput hframe hover =>
    obtain ⟨l₂, rfl, -⟩ := hended
    have hle := ttl_le_of_expired hr (by simp) (fun y hy => by simp [hy]) hput hover
    exact absurd hle (not_le.mpr (hread.alive j (hframe.jobId ▸ hx)))
  | undecodable t j f l₁ hended hframe hdecodes =>
    have hj : (sys.jobs j).jobId = (sys.jobs i).jobId := hframe.jobId ▸ hx
    have hshows := hframe.yields.shows (hsure j hj)
    exact Bool.false_ne_true (hdecodes.symm.trans (hread.decodes j f hj hshows))
  | unexpected t l₁ hended => exact (hcalm x hx).1 (hacts _ hended.mem_acts)
  | failedAgain t l₁ hended hred =>
    exact Bool.false_ne_true (((hcalm x hx).2 (hacts _ hended.mem_acts)).symm.trans hred)

/-- Without a latency budget no message is shed. -/
lemma not_shed (hr : (machine sys).Reach ok (System.start sys now₀) s h)
    (hage : sys.detector.maxFrameAgeSec = 0) (key : String) :
    ¬Fleet.Shed (fleetOutputs h) key := by
  rintro ⟨x, hx, -⟩
  induction hr with
  | init => cases hx
  | @step s s' h out e hr ho hs ih =>
    rw [fleetOutputs_append, Fleet.acts_append] at hx
    rcases List.mem_append.mp hx with hx | hx
    · exact ih hx
    · obtain ⟨o, ho, hact⟩ := List.mem_filterMap.mp hx
      cases o with
      | published => cases hact
      | replica d o =>
        cases o with
        | act a =>
          obtain rfl := Option.some.inj hact
          obtain ⟨-, -, -, -, hpos, -⟩ := stale_of_step hs ho
          exact hpos.ne' hage
        | _ => cases hact

/-- In archive mode the success answer to a fresh job means that all of its decodable sampled frames
are reported, once the queue is drained and the detectors are at rest, if the blobs outlive the run,
and decode, and nothing worse happens than a store failure that a retry makes up for. The messages
are taken in order, and no result is dropped while its key is claimed. -/
theorem archive_complete (hr : (machine sys).Reach orderly (System.start sys now₀) s h)
    (hsure : sys.SeeksSurely (sys.jobs i).jobId) (hsucc : Succeeded sys s i)
    (hq : Fleet.Quiescent sys.detectors s.fleet)
    (hfresh : (sys.jobs i).prior = none)
    (hjob : ∀ j, (sys.jobs j).jobId = (sys.jobs i).jobId →
      (sys.requests j).decodable = (sys.requests i).decodable)
    (hage : sys.detector.maxFrameAgeSec = 0)
    (hread : Readable sys (sys.jobs i).jobId (s.now - now₀))
    (hcalm : Undisturbed h (sys.jobs i).jobId) :
    Fleet.reportedFrames (fleetOutputs h) (sys.jobs i).jobId =
        ((sys.requests i).decodable.map Nat.cast).toFinset ∧
      (s.now - now₀ < sys.detector.dedupTtlSec →
        ∀ k ∈ (sys.requests i).decodable, failedOpen (dedupKey (sys.jobs i).jobId k) h = 0 →
          (Fleet.returned (fleetOutputs h)).countP
            (fun p => p.key = dedupKey (sys.jobs i).jobId k) = 1) := by
  have hmem : ∀ k ∈ (sys.requests i).decodable,
      (k : ℤ) ∈ Fleet.reportedFrames (fleetOutputs h) (sys.jobs i).jobId := fun k hk =>
    reportedFrames_of_succeeded hr hsucc hq hfresh hk (not_deadLettered hr hsure hread hcalm)
      (not_shed hr hage _)
  exact ⟨reportedFrames_eq hr hsure hjob hmem,
    fun hshort k hk hopen => countP_returned_eq_one hr hshort hopen (hmem k hk)⟩

/-- The clip of a readable and an unreadable frame. -/
theorem archive_complete_halfClip : ∃ sys s h,
    (machine sys).Reach orderly (System.start sys 0) s h ∧ Succeeded sys s 0 ∧
      Fleet.reportedFrames (fleetOutputs h) "j" = {0} := by
  let sys : Deployment :=
    .clip {analyzerPublishers := 1, maxFrameFailureRatio := 1} {batchMaxSize := 1}
      [.blank, .noImage]
  have hrun : ∃ s h, (machine sys).Reach orderly (System.start sys 0) s h ∧
      ((s.runs 0).main = .finished ∧ (s.runs 0).thread = .ended) ∧
      ((sys.requests 0).close (sys.jobs 0) (s.runs 0)).result.toOption.map
        AnalysisOutcome.status = some .partial_ ∧ Fleet.Quiescent 1 s.fleet ∧
      Undisturbed h "j" ∧ s.now - 0 < (sys.requests 0).settings.frameBlobTtlSec :=
    Machine.Reach.exists_of_exec HalfClip.events (by decide +kernel)
  obtain ⟨s, h, hr, ⟨hmain, hthread⟩, hstatus, hq, hcalm, halive⟩ := hrun
  have hsucc : Succeeded sys s 0 := .of_status hmain hthread hstatus JobStatus.noConfusion
  have hsure : sys.SeeksSurely "j" := fun _ _ => Request.seeksSurely_of_neg _ neg_one_lt_zero
  have hexact := (archive_complete hr hsure hsucc hq rfl (fun _ _ => rfl) rfl
    ⟨fun _ _ => halive, fun _ _ _ _ => rfl⟩ hcalm).1
  rw [show (sys.requests 0).decodable = [0] by decide +kernel] at hexact
  exact ⟨sys, s, h, hr, hsucc, hexact⟩

/-! ### The detectors can always get there -/

/-- Only the detectors and the broker act, the queue is read in order, and no message comes back. -/
def draining (s : System) (h : List (ℚ × Output)) : Event → Prop
  | .fleet e => Fleet.smooth s.current (fleetOutputs h) e
  | _        => False

instance (s : System) (h : List (ℚ × Output)) (e : Event) : Decidable (draining s h e) :=
  match e with
  | .fleet e => inferInstanceAs (Decidable (Fleet.smooth s.current (fleetOutputs h) e))
  | .tick _ | .run _ _ => inferInstanceAs (Decidable False)

lemma orderly_of_draining (hd : draining s h e) : orderly s h e := by
  cases e with
  | fleet e =>
    refine ⟨hd.2, ?_⟩
    have hnone : s.current.dropped e = [] := by
      unfold Fleet.dropped
      split
      · cases hd.1
      · cases hd.1
      · rfl
    rw [Fleet.keepsClaimed, hnone]
    intro p hp
    cases hp
  | tick | run => exact hd.elim

/-- As long as the detectors are not at rest, one of them or the broker can go on. The frame store
answers with what it holds. -/
lemma exists_draining (hl : Fleet.Live s.fleet) (hn : 0 < sys.detectors)
    (hbusy : ¬Fleet.Quiescent sys.detectors s.fleet) :
    ∃ e s' out, draining s h e ∧ s.step sys e = some (s', out) ∧
      (Fleet.Live s'.fleet ∧ s'.runs = s.runs) ∧
      s'.fleet.load sys.detectors < s.fleet.load sys.detectors := by
  have hlive : Fleet.Live s.current := ⟨hl.wellFormed, hl.locked⟩
  have hreply : ∀ x, sys.loadReply (s.blob x) ≠ .storeError := by
    intro x
    cases s.blob x with
    | none => exact Worker.LoadReply.noConfusion
    | some data =>
      simp only [Deployment.loadReply]
      split <;> exact Worker.LoadReply.noConfusion
  obtain ⟨e, f, o, hs, hgoes, hlt⟩ : ∃ e f o,
      s.current.step sys.detector sys.detectors e = some (f, o) ∧
        e.GoesOn (fun x => sys.loadReply (s.blob x)) s.current ∧
        f.load sys.detectors < s.current.load sys.detectors :=
    Fleet.exists_goesOn hlive hn hreply hbusy
  have hown : ofFleet e = true := by
    cases e with
    | publish => cases hgoes.smooth.1
    | expire key => exact absurd rfl (hgoes.not_expire key)
    | _ => rfl
  have hans : answers sys s e = true := by
    rw [answers]
    split
    · next x r hload =>
      obtain ⟨d, pos, rfl, hphase⟩ := load?_eq_some hload
      exact decide_eq_true (.inr (.inr (hgoes.loaded d r pos x rfl hphase)))
    · rfl
  have hstep : s.step sys (.fleet e) =
      some ({ s with fleet := f, claims := (Fleet.acts o).foldl (record s.now) s.claims },
        (s.reads e ++ o.map Output.fleet).map fun o => (s.now, o)) := by
    simp only [step, hown, hans, hs, and_self, if_true]
  exact ⟨.fleet e, _, _, hgoes.smooth, hstep, ⟨hlive.step (Fleet.Rule.of_step hs), rfl⟩, hlt⟩

/-- A success answer can always be kept. However the system has got to where it is, as long as the
messages were taken in order and no result was dropped while its key was claimed, the detectors can
go on from there, without another run or another second, to the point where every decodable sampled
frame after the start of the run has been reported, or a message of it was dead-lettered or shed.
This takes no more steps than there is left to do. -/
theorem answer_can_be_kept (hr : (machine sys).Reach orderly (System.start sys now₀) s h)
    (hsure : (sys.requests i).SeeksSurely (RunState.initial (sys.jobs i).prior).lastSourceIndex)
    (hsucc : Succeeded sys s i) (hn : 0 < sys.detectors) :
    ∃ es s' h', (machine sys).exec draining s h es = some (s', h') ∧
      es.length ≤ s.fleet.load sys.detectors ∧ Fleet.Quiescent sys.detectors s'.fleet ∧
      ∀ k ∈ (sys.requests i).decodable,
        (RunState.initial (sys.jobs i).prior).lastSourceIndex < (k : ℤ) →
          Resolved h' (sys.jobs i).jobId k := by
  have hstep : ∀ (s₁ : System) (h₁ : List (ℚ × Output)),
      Fleet.Live s₁.fleet ∧ s₁.runs = s.runs → ¬Fleet.Quiescent sys.detectors s₁.fleet →
      ∃ e s₂ out, draining s₁ h₁ e ∧ (machine sys).step s₁ e = some (s₂, out) ∧
        (Fleet.Live s₂.fleet ∧ s₂.runs = s.runs) ∧
        s₂.fleet.load sys.detectors < s₁.fleet.load sys.detectors := by
    intro s₁ h₁ hl hbusy
    obtain ⟨e, s₂, out, hd, hs, ⟨hl', hruns⟩, hlt⟩ := exists_draining hl.1 hn hbusy
    exact ⟨e, s₂, out, hd, hs, ⟨hl', hruns.trans hl.2⟩, hlt⟩
  obtain ⟨es, s', h', hexec, ⟨-, hruns⟩, hq, hlen⟩ :=
    Machine.exists_exec (I := fun (s₁ : System) _ => Fleet.Live s₁.fleet ∧ s₁.runs = s.runs)
      (m := fun (s₁ : System) => s₁.fleet.load sys.detectors) hstep
      ⟨Fleet.Live.of_reach (reach_fleet_any hr), rfl⟩
  have hr' := hr.exec_imp (fun _ _ _ => orderly_of_draining) hexec
  have hsucc' : Succeeded sys s' i := by
    rw [Succeeded, hruns]
    exact hsucc
  exact ⟨es, s', h', hexec, hlen, hq,
    fun k hk hlt => resolved_of_succeeded hr' hsure hsucc' hq hk hlt⟩

/-- The answer is there, and the detector is about to requeue the frame that it failed to load. -/
theorem answer_can_be_kept_halfClip : ∃ sys s h,
    (machine sys).Reach orderly (System.start sys 0) s h ∧ Succeeded sys s 0 ∧
      ¬Fleet.Quiescent sys.detectors s.fleet ∧
      ∃ es s' h', (machine sys).exec draining s h es = some (s', h') ∧ Resolved h' "j" 0 := by
  let sys : Deployment :=
    .clip {analyzerPublishers := 1, maxFrameFailureRatio := 1} {batchMaxSize := 1}
      [.blank, .noImage]
  have hrun : ∃ s h, (machine sys).Reach orderly (System.start sys 0) s h ∧
      ((s.runs 0).main = .finished ∧ (s.runs 0).thread = .ended) ∧
      ((sys.requests 0).close (sys.jobs 0) (s.runs 0)).result.toOption.map
        AnalysisOutcome.status = some .partial_ ∧ ¬Fleet.Quiescent 1 s.fleet :=
    Machine.Reach.exists_of_exec (HalfClip.events.take 18) (by decide +kernel)
  obtain ⟨s, h, hr, ⟨hmain, hthread⟩, hstatus, hbusy⟩ := hrun
  have hsucc : Succeeded sys s 0 := .of_status hmain hthread hstatus JobStatus.noConfusion
  obtain ⟨es, s', h', hexec, -, -, hkept⟩ :=
    answer_can_be_kept hr (Request.seeksSurely_of_neg _ neg_one_lt_zero) hsucc (by decide)
  have hzero : 0 ∈ (sys.requests 0).decodable := by decide +kernel
  exact ⟨sys, s, h, hr, hsucc, hbusy, es, s', h', hexec, hkept 0 hzero (by decide)⟩

end System

end VideoPipeline

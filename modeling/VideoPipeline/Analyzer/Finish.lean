import VideoPipeline.Analyzer.Service

/-!
# The record that a finished request leaves behind

The closing of a request writes the counters of the run and a status in which the job has ended. An
exception of the video source passes the closing by: the job is left marked as running.
-/

namespace VideoPipeline

namespace Analysis

variable {req : Request} {s s' : Analysis} {e : Event} {out h : List Output} {job : Job}
  {p : Pipeline} {r₀ : Option JobRecord} {run : Option (Job × Pipeline)}
  {result : Except ServiceError AnalysisOutcome}

/-- The calls that the request itself makes to the job repository succeed. -/
def repoSucceeds : Analysis → List Output → Event → Prop
  | _, _, .repoRaised .. => False
  | _, _, _              => True

instance (s : Analysis) (h : List Output) (e : Event) : Decidable (repoSucceeds s h e) :=
  match e with
  | .repoRaised .. => inferInstanceAs (Decidable False)
  | .found .. | .started _ | .run .. | .returned | .saved _ | .marked _ | .die =>
    inferInstanceAs (Decidable True)

/-- The record of the job has ended with the counters of the run, and unless it is completed the
next request continues it. -/
def Settled (s : Analysis) (run : Option (Job × Pipeline)) : Prop :=
  ∃ job p r, run = some (job, p) ∧ s.record = some r ∧ r.jobId = job.jobId ∧
    r.status.terminal = true ∧ r.progress = p.state.progress ∧
    (0 ≤ r.lastSourceIndex → r.status ≠ .completed →
      ∀ now, Request.findCheckpoint now (some r) = some r)

lemma close_terminal (req : Request) (job : Job) (p : Pipeline) :
    (req.close job p).status.terminal = true := by
  rw [Request.close]
  split
  · rfl
  · simp only [Request.finalise]
    split
    · rfl
    · split
      · rfl
      · split <;> rfl

/-- A record that has ended without being completed is continued. -/
lemma findCheckpoint_of_terminal {r : JobRecord} (ht : r.status.terminal = true)
    (hL : 0 ≤ r.lastSourceIndex) (hne : r.status ≠ .completed) (now : ℚ) :
    Request.findCheckpoint now (some r) = some r := by
  have hres : r.status.resumable = true := by
    cases hst : r.status <;> rw [hst] at ht hne <;> first | rfl | exact absurd rfl hne | cases ht
  rw [Request.findCheckpoint, if_neg (not_lt.mpr hL), if_pos hres]

/-- Where the calls succeed, no request exits by an exception of the repository. -/
lemma not_repository (hr : (machine req).Reach repoSucceeds (request r₀) s h) (exc : String) :
    s.phase ≠ .exited run (.error (.repository exc)) := by
  have hinv : ∀ run, s.phase ≠ .exited run (.error (.repository exc)) := by
    refine hr.invariant (P := fun s _ => ∀ run, s.phase ≠ .exited run (.error (.repository exc)))
      ?_ ?_
    · intro run h
      cases h
    · intro s h e s' o _ hinv hok hs run hx
      cases Rule.of_step hs with
      | marked now job p hp =>
        simp only [Phase.exited.injEq] at hx
        exact close_ne_repository req job p exc hx.2
      | findRaised | createRaised | resumeRaised | saveRaised | markRaised => exact hok
      | _ => cases hx
  exact hinv run

/-- A request whose own repository calls succeed leaves a settled record exactly when the video
source has raised nothing. -/
theorem settled_iff (hr : (machine req).Reach repoSucceeds (request r₀) s h)
    (hx : s.phase = .exited run result) :
    Settled s run ↔ Pipeline.sourceErrors (runOutputs h) = [] := by
  have hinv := Inv.of_reach hr
  simp only [Inv, hx] at hinv
  rcases hinv with ⟨exc, rfl⟩ | ⟨job, p, exc, rfl, hran, -, ht, -, r, hrec, -, hst⟩ |
    ⟨job, p, r, rfl, hran, ⟨-, ht⟩, -, hrec, hid, hst, hprog⟩
  · exact absurd hx (not_repository hr exc)
  · rw [hran.flow.errors, ht]
    constructor
    · rintro ⟨job', p', r', -, hrec', -, hterm, -⟩
      rw [hrec, Option.some.injEq] at hrec'
      rw [← hrec', hst] at hterm
      cases hterm
    · intro h
      cases h
  · have herrors : p.thread.errors = [] := by
      cases hthread : p.thread <;> first | rfl | exact absurd hthread (ht _)
    rw [hran.flow.errors, herrors]
    have hterm : r.status.terminal = true := hst ▸ close_terminal req job p
    refine ⟨fun _ => rfl, fun _ => ⟨job, p, r, rfl, hrec, hid, hterm, hprog, ?_⟩⟩
    intro hL hne now
    exact findCheckpoint_of_terminal hterm hL hne now

/-- A request for a clip of one frame is completed. -/
theorem settled_iff_run :
    ∃ s h run o, (machine (.clip {analyzerPublishers := 1} [.blank])).Reach repoSucceeds
        (request none) s h ∧ s.phase = .exited run (.ok o) ∧
      (Settled s run ↔ Pipeline.sourceErrors (runOutputs h) = []) := by
  have hrun : ∃ s h, (machine (.clip {analyzerPublishers := 1} [.blank])).Reach repoSucceeds
      (request none) s h ∧ s.phase.answer?.isSome = true :=
    Machine.Reach.exists_of_exec
      [.found 0 "j", .started 0, .run .advance 0, .run .handle 0, .run .enqueue 0, .run .look 0,
        .run .advance 0, .run (.worker 0 .take) 0, .run (.worker 0 (.stored 0)) 0,
        .run (.worker 0 .published) 0, .run (.worker 0 .confirmed) 0, .run .decodeDone 0,
        .run .putStop 0, .run (.worker 0 .take) 0, .run .gathered 0, .returned, .saved 0, .marked 0]
      (by decide +kernel)
  obtain ⟨s, h, hr, hs⟩ := hrun
  obtain ⟨o, ho⟩ := Option.isSome_iff_exists.mp hs
  obtain ⟨run, hx⟩ := Phase.answer?_eq_some ho
  exact ⟨s, h, run, o, hr, hx, settled_iff hr hx⟩

/-- The video source raises at the first frame, and the job is left running. -/
theorem not_settled :
    ∃ s h run exc, (machine (.clip {analyzerPublishers := 1} [.blank])).Reach repoSucceeds
        (request none) s h ∧ s.phase = .exited run (.error (.source exc)) ∧ ¬ Settled s run := by
  have hrun : ∃ s h, (machine (.clip {analyzerPublishers := 1} [.blank])).Reach repoSucceeds
      (request none) s h ∧ s.phase.error? = some (.source "corrupt packet") ∧
        s.record.map JobRecord.status = some .running :=
    Machine.Reach.exists_of_exec
      [.found 0 "j", .started 0, .run (.sourceRaised "corrupt packet") 0, .run .decodeDone 0,
        .run .putStop 0, .run (.worker 0 .take) 0, .run .gathered 0, .returned]
      (by decide +kernel)
  obtain ⟨s, h, hr, herr, hst⟩ := hrun
  obtain ⟨run, hx⟩ := Phase.error?_eq_some herr
  refine ⟨s, h, run, _, hr, hx, ?_⟩
  rintro ⟨job, p, r, -, hrec, -, hterm, -⟩
  rw [hrec, Option.map_some, Option.some.injEq] at hst
  rw [hst] at hterm
  cases hterm

end Analysis

end VideoPipeline

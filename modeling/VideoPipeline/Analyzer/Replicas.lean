import VideoPipeline.Analyzer.Admission

/-!
# Replicas that share a job repository

Any number of services, each in its own process, read and write the records of one repository. A
request reads the latest record under its resume key, decides later whether it continues that job,
and marks the job as running later still. Nothing but the age of the record tells a request that
another replica drives the job.
-/

namespace VideoPipeline

namespace Phase

/-- The job that a request has decided on and has not finished. -/
def jobId? : Phase → Option String
  | .creating r                                       => some r.jobId
  | .resuming prior                                   => some prior.jobId
  | .running job _ | .saving job _ | .marking job _   => some job.jobId
  | .finding | .exited _ _ | .dead                    => none

/-- The request has marked its job as running. -/
def marked : Phase → Bool
  | .running _ _ | .saving _ _ | .marking _ _ => true
  | _                                         => false

lemma jobId?_isSome_of_marked {ph : Phase} (h : ph.marked = true) : ph.jobId?.isSome = true := by
  cases ph <;> first | rfl | cases h

end Phase

/-- A record says that its job is running and is recent enough to be believed. -/
def JobRecord.Beating (now : ℚ) (r : JobRecord) : Prop :=
  r.status = .running ∧ now - r.updatedAt ≤ staleRunningJobSec

instance (now : ℚ) (r : JobRecord) : Decidable (r.Beating now) :=
  inferInstanceAs (Decidable (_ ∧ _))

/-- A job whose record is beating is not continued. -/
lemma findCheckpoint_of_beating {now : ℚ} {r : JobRecord} (hb : r.Beating now) :
    Request.findCheckpoint now (some r) = none := by
  rw [Request.findCheckpoint]
  split
  · rfl
  · rw [if_neg (by rw [hb.1]; decide), if_neg]
    rintro ⟨-, hold⟩
    exact absurd hb.2 (not_le.mpr hold)

namespace Analysis

variable {req : Request} {s s' : Analysis} {e : Event} {out : List Output} {now : ℚ}

/-- The time a step is taken at. -/
def Event.now? : Event → Option ℚ
  | .found now _ | .started now | .run _ now | .saved now | .marked now | .repoRaised _ _ now =>
    some now
  | .returned | .die => none

/-- The id that a fresh job would get. -/
def Event.jobId? : Event → Option String
  | .found _ jobId => some jobId
  | _              => none

/-- What a checkpoint preserves holds of the record after checkpoints. -/
lemma writeCheckpoints_preserves {P : JobRecord → Prop}
    (hP : ∀ r c, P r → P (r.checkpoint c now)) {record : Option JobRecord}
    (h : ∀ r, record = some r → P r) {out : List Pipeline.Output} :
    ∀ r, writeCheckpoints now record out = some r → P r := by
  induction out generalizing record with
  | nil => exact h
  | cons o out ih =>
    rw [writeCheckpoints, List.foldl_cons]
    cases o with
    | checkpoint c =>
      apply ih
      intro r hr
      obtain ⟨r₀, rfl, rfl⟩ := Option.map_eq_some_iff.mp hr
      exact hP r₀ c (h r₀ rfl)
    | _ => exact ih h

/-- A request that drives its job has marked it and keeps its record beating. -/
lemma Rule.beating (hr : Rule req s e s' out) (hnow : ∀ t, e.now? = some t → t = now)
    (hm : s'.phase.marked = true)
    (hcreate : ∀ r, s.phase = .creating r → r.Beating now)
    (hmarked : s.phase.marked = true → ∀ r, s.record = some r → r.Beating now) :
    ∀ r, s'.record = some r → r.Beating now := by
  have hzero : ∀ t : ℚ, t = now → now - t ≤ staleRunningJobSec := by
    rintro t rfl
    rw [sub_self]
    norm_num [staleRunningJobSec]
  intro r' hr'
  cases hr with
  | created now' r hp =>
    obtain rfl := Option.some.inj hr'
    exact hcreate r hp
  | resumed now' prior hp =>
    obtain ⟨r, -, rfl⟩ := Option.map_eq_some_iff.mp hr'
    exact ⟨rfl, hzero _ (hnow now' rfl)⟩
  | run e now' job p p' o hp hs =>
    obtain rfl := hnow now' rfl
    refine writeCheckpoints_preserves ?_ (hmarked (by rw [hp]; rfl)) r' hr'
    intro r c hb
    exact ⟨hb.1, hzero _ rfl⟩
  | returned job p hp => exact hmarked (by rw [hp]; rfl) r' hr'
  | saved now' job p hp =>
    obtain ⟨r, hrec, rfl⟩ := Option.map_eq_some_iff.mp hr'
    exact ⟨(hmarked (by rw [hp]; rfl) r hrec).1, hzero _ (hnow now' rfl)⟩
  | _ => cases hm

/-- The record that a step writes is that of the job. -/
lemma Rule.record_jobId (hr : Rule req s e s' out) {j : String} (hj : s.phase.jobId? = some j)
    (hrec : ∀ r, s.record = some r → r.jobId = j) : ∀ r, s'.record = some r → r.jobId = j := by
  have hmap : ∀ {f : JobRecord → JobRecord}, (∀ r, (f r).jobId = r.jobId) →
      ∀ r, s.record.map f = some r → r.jobId = j := by
    intro f hf r hr
    obtain ⟨r₀, h₀, rfl⟩ := Option.map_eq_some_iff.mp hr
    exact (hf r₀).trans (hrec r₀ h₀)
  cases hr with
  | resume now jobId prior hp | create now jobId hp =>
    rw [hp] at hj
    cases hj
  | created now r hp =>
    rintro r' hr'
    rw [hp] at hj
    cases hj
    cases hr'
    rfl
  | createRaised exc took now r hp =>
    cases took with
    | true =>
      rintro r' hr'
      rw [hp] at hj
      cases hj
      cases hr'
      rfl
    | false => exact hrec
  | run e now job p p' o hp hs => exact writeCheckpoints_preserves (fun _ _ => id) hrec
  | resumed | saved | marked => exact hmap fun _ => rfl
  | resumeRaised exc took | saveRaised exc took | markRaised exc took =>
    cases took with
    | true => exact hmap fun _ => rfl
    | false => exact hrec
  | sourceFailed | returned | findRaised | die => exact hrec

lemma Rule.started_of_creating (hr : Rule req s e s' out) {r : JobRecord}
    (hp : s.phase = .creating r) (hm : s'.phase.marked = true) : ∃ now, e = .started now := by
  cases hr with
  | created now' r hp' => exact ⟨now', rfl⟩
  | run e now job p p' o hp' | returned job p hp' | saved now job p hp' | resumed now prior hp' =>
    cases hp.symm.trans hp'
  | _ => cases hm

/-- How a step changes the job of a request: it decides on one, keeps it or is done with it. -/
lemma Rule.jobId_cases (hr : Rule req s e s' out) :
    (∃ now jobId prior, e = .found now jobId ∧ s.phase = .finding ∧
      Request.findCheckpoint now s.record = some prior ∧ s'.phase = .resuming prior) ∨
    (∃ now jobId, e = .found now jobId ∧ s.phase = .finding ∧
      s'.phase = .creating (req.newRecord jobId now)) ∨
    (s'.phase.jobId? = s.phase.jobId? ∧ s.phase.jobId?.isSome = true ∧ s'.phase.marked = true) ∨
    s'.phase.jobId? = none := by
  cases hr with
  | resume now jobId prior hp hf => exact .inl ⟨now, jobId, prior, rfl, hp, hf, rfl⟩
  | create now jobId hp => exact .inr (.inl ⟨now, jobId, rfl, hp, rfl⟩)
  | created now r hp | resumed now r hp | run e now job p p' o hp | returned job p hp
  | saved now job p hp =>
    rw [hp]
    exact .inr (.inr (.inl ⟨rfl, rfl, rfl⟩))
  | _ => exact .inr (.inr (.inr rfl))

end Analysis

namespace Call

/-- The job that a call drives or is about to. -/
def jobId? : Call → Option String
  | .working _ ph => ph.jobId?
  | _             => none

def marked : Call → Bool
  | .working _ ph => ph.marked
  | _             => false

/-- A call after a step between its reservation and its release. -/
def after (req : Request) : Phase → Call
  | .exited _ result => .closing (result.mapError .service)
  | ph               => .working req ph

lemma jobId?_after (req : Request) (ph : Phase) : (after req ph).jobId? = ph.jobId? := by
  cases ph <;> rfl

lemma marked_after (req : Request) (ph : Phase) : (after req ph).marked = ph.marked := by
  cases ph <;> rfl

/-- A step is one between the reservation and the release. -/
def Op.isWork : Op → Bool
  | .work _ _ => true
  | _         => false

variable {cfg : ServiceConfig} {sh sh' : Shared} {call call' : Call} {op : Op} {out : List Output}

lemma Rule.work_eq {req : Request} {ph : Phase} {e : Analysis.Event} {record : Option JobRecord}
    (hr : Rule cfg sh (.working req ph) (.work e record) sh' call' out) :
    ∃ a o, Analysis.step req ⟨record, ph⟩ e = some (a, o) ∧ call' = after req a.phase := by
  cases hr with
  | work req ph ph' e record record' o hx hs =>
    refine ⟨_, _, hs, ?_⟩
    cases ph' with
    | exited run result => exact absurd rfl (hx run result)
    | _ => rfl
  | leave req ph e record record' run result o hs => exact ⟨_, _, hs, rfl⟩

/-- The other steps decide on no job. -/
lemma Rule.jobId?_eq_none (hr : Rule cfg sh call op sh' call' out) (hop : op.isWork = false) :
    call.jobId? = none ∧ call'.jobId? = none ∧ call ≠ .absent ∧ call' ≠ .absent := by
  cases hr with
  | work | leave => cases hop
  | _ => exact ⟨rfl, rfl, by simp, by simp⟩

end Call

namespace AnalysisService

variable {cfg : ServiceConfig} {s s' : AnalysisService} {e : Event}
  {out : List (ℕ × Call.Output)}

/-- A step is one of a call between its reservation and its release. -/
def Event.isWork : Event → Bool
  | .analyze _ _ => false
  | .step _ op   => op.isWork

/-- A step of a service that is no such step decides on no job. -/
lemma Rule.quiet (hr : Rule cfg s e s' out) (he : e.isWork = false)
    (habs : ∀ c, s.made ≤ c → s.calls c = .absent) :
    (∀ c, s'.made ≤ c → s'.calls c = .absent) ∧
      ∀ c, s'.calls c = s.calls c ∨
        ((s.calls c).jobId? = none ∧ (s'.calls c).jobId? = none) := by
  have hcall : ∀ (slots : Semaphore) (call : Call), call.jobId? = none →
      (∀ c, (s.call slots call).made ≤ c → (s.call slots call).calls c = .absent) ∧
      ∀ c, (s.call slots call).calls c = s.calls c ∨
        ((s.calls c).jobId? = none ∧ ((s.call slots call).calls c).jobId? = none) := by
    intro slots call hcall
    constructor
    · intro c hc
      have hlt : s.made < c := hc
      exact (Function.update_of_ne hlt.ne' _ _).trans (habs c hlt.le)
    · intro c
      by_cases hc : c = s.made
      · have hself : (s.call slots call).calls c = call := by
          rw [hc]
          exact Function.update_self _ _ _
        rw [hself, habs c hc.ge]
        exact .inr ⟨rfl, hcall⟩
      · exact .inl (Function.update_of_ne hc _ _)
  cases hr with
  | full | admitted => exact hcall _ _ rfl
  | step c op sh call out hr =>
    obtain ⟨hold, hnew, hne, -⟩ := hr.jobId?_eq_none he
    have hlt : c < s.made := by
      by_contra h
      exact hne (habs c (not_lt.mp h))
    constructor
    · intro c' hc'
      have hcc : c' ≠ c := fun h => absurd (h ▸ hc' : s.made ≤ c) (not_le.mpr hlt)
      exact (Function.update_of_ne hcc _ _).trans (habs c' hc')
    · intro c'
      by_cases hcc : c' = c
      · subst hcc
        have hself : (⟨sh, s.made, Function.update s.calls c' call⟩ : AnalysisService).calls c' =
            call := Function.update_self _ _ _
        rw [hself]
        exact .inr ⟨hold, hnew⟩
      · exact .inl (Function.update_of_ne hcc _ _)

/-- A step of a call between its reservation and its release is one of its request. -/
lemma Rule.work {c : ℕ} {ae : Analysis.Event} {record : Option JobRecord} {req : Request}
    {ph : Phase} (hr : Rule cfg s (.step c (.work ae record)) s' out)
    (hc : s.calls c = .working req ph) :
    ∃ a o, Analysis.step req ⟨record, ph⟩ ae = some (a, o) ∧ s'.made = s.made ∧
      s'.calls = Function.update s.calls c (Call.after req a.phase) := by
  cases hr with
  | step c op sh call out hr =>
    rw [hc] at hr
    obtain ⟨a, o, hs, rfl⟩ := hr.work_eq
    exact ⟨a, o, hs, rfl, rfl⟩

end AnalysisService

/-- Services in their processes, and the job repository that they share. -/
structure Cluster where
  now : ℚ
  records : String → Option JobRecord
  /-- The job that was created last under a resume key. -/
  latest : String → Option String
  /-- The job ids that were drawn. -/
  used : List String
  services : ℕ → AnalysisService
  alive : ℕ → Bool
  /-- What the find of a call has read, while its answer is under way. -/
  answers : ℕ × ℕ → Option (Option JobRecord)

namespace Cluster

def start (cfg : ServiceConfig) (now : ℚ) : Cluster :=
  ⟨now, fun _ => none, fun _ => none, [], fun _ => .start cfg, fun _ => true, fun _ => none⟩

inductive Event where
  | tick (t : ℚ)
  /-- A step of a service that does not concern the job repository. -/
  | own (i : ℕ) (e : AnalysisService.Event)
  /-- The find of a call takes effect. -/
  | read (i c : ℕ)
  | work (i c : ℕ) (e : Analysis.Event)
  /-- A record expires. -/
  | expire (jobId : String)
  | crash (i : ℕ)

/-- `find_by_resume_key`. -/
def find (s : Cluster) (key : String) : Option JobRecord :=
  if key = "" then none else (s.latest key).bind s.records

/-- The record that the awaited call of a request is about. -/
def about (s : Cluster) (i c : ℕ) : Phase → Option (Option JobRecord)
  | .finding => s.answers (i, c)
  | ph       => some (ph.jobId?.bind s.records)

/-- The repository after a call of a request has come to an end. -/
def write (s : Cluster) (ph : Phase) (record : Option JobRecord) (e : Analysis.Event) : Cluster :=
  { s with
    records :=
      match ph.jobId? with
      | some j => Function.update s.records j record
      | none   => s.records
    latest :=
      match ph, record with
      | .creating r, some _ =>
        if r.resumeKey = "" then s.latest
        else Function.update s.latest r.resumeKey (some r.jobId)
      | _, _ => s.latest
    used := e.jobId?.toList ++ s.used }

/-- A step of a service. -/
def serve (cfg : ServiceConfig) (n : ℕ) (s : Cluster) (i : ℕ) (e : AnalysisService.Event) :
    Option (Cluster × List (ℕ × ℕ × Call.Output)) :=
  if i < n ∧ s.alive i = true then
    ((s.services i).step cfg e).map fun r =>
      ({ s with services := Function.update s.services i r.1 }, r.2.map fun o => (i, o))
  else none

/-- A step is taken at the time of the clock, and draws an id that was not drawn before. -/
def Timely (s : Cluster) (e : Analysis.Event) : Prop :=
  (∀ t ∈ e.now?, t = s.now) ∧ ∀ j ∈ e.jobId?, j ∉ s.used

instance (s : Cluster) (e : Analysis.Event) : Decidable (s.Timely e) :=
  inferInstanceAs (Decidable (_ ∧ _))

def step (cfg : ServiceConfig) (n : ℕ) (s : Cluster) :
    Event → Option (Cluster × List (ℕ × ℕ × Call.Output))
  | .tick t => if s.now ≤ t then some ({ s with now := t }, []) else none
  | .own i e => if e.isWork then none else s.serve cfg n i e
  | .read i c =>
    match (s.services i).calls c, s.answers (i, c) with
    | .working req .finding, none =>
      if s.alive i then
        some ({ s with
          answers := Function.update s.answers (i, c) (some (s.find req.resumeKey)) }, [])
      else none
    | _, _ => none
  | .work i c e =>
    match (s.services i).calls c with
    | .working req ph =>
      match s.about i c ph with
      | some record =>
        if s.Timely e then
          match Analysis.step req ⟨record, ph⟩ e, s.serve cfg n i (.step c (.work e record)) with
          | some (a, _), some (s', out) => some (s'.write ph a.record e, out)
          | _, _                        => none
        else none
      | none => none
    | _ => none
  | .expire jobId => some ({ s with records := Function.update s.records jobId none }, [])
  | .crash i => some ({ s with alive := Function.update s.alive i false }, [])

def machine (cfg : ServiceConfig) (n : ℕ) : Machine Cluster Event (ℕ × ℕ × Call.Output) :=
  ⟨step cfg n⟩

/-- The steps of a cluster. -/
inductive Rule (cfg : ServiceConfig) (n : ℕ) (s : Cluster) : Event → Cluster → Prop where
  | tick (t : ℚ) : Rule cfg n s (.tick t) { s with now := t }
  | own (i : ℕ) (e : AnalysisService.Event) (svc : AnalysisService)
      (out : List (ℕ × Call.Output)) (hi : i < n) (he : e.isWork = false)
      (hr : AnalysisService.Rule cfg (s.services i) e svc out) :
      Rule cfg n s (.own i e) { s with services := Function.update s.services i svc }
  | read (i c : ℕ) (req : Request) :
      Rule cfg n s (.read i c)
        { s with answers := Function.update s.answers (i, c) (some (s.find req.resumeKey)) }
  | work (i c : ℕ) (e : Analysis.Event) (req : Request) (ph : Phase) (record : Option JobRecord)
      (a : Analysis) (o : List Analysis.Output) (svc : AnalysisService) (hi : i < n)
      (ha : s.alive i = true) (hc : (s.services i).calls c = .working req ph)
      (hrec : s.about i c ph = some record) (ht : s.Timely e)
      (hr : Analysis.Rule req ⟨record, ph⟩ e a o) (hmade : svc.made = (s.services i).made)
      (hsvc : svc.calls = Function.update (s.services i).calls c (Call.after req a.phase)) :
      Rule cfg n s (.work i c e)
        (({ s with services := Function.update s.services i svc } : Cluster).write ph a.record e)
  | expire (jobId : String) :
      Rule cfg n s (.expire jobId) { s with records := Function.update s.records jobId none }
  | crash (i : ℕ) : Rule cfg n s (.crash i) { s with alive := Function.update s.alive i false }

variable {cfg : ServiceConfig} {n : ℕ} {s s' : Cluster} {e : Event}
  {out h : List (ℕ × ℕ × Call.Output)}

lemma serve_eq {i : ℕ} {e : AnalysisService.Event}
    (hs : s.serve cfg n i e = some (s', out)) :
    i < n ∧ s.alive i = true ∧ ∃ svc o, (s.services i).step cfg e = some (svc, o) ∧
      s' = { s with services := Function.update s.services i svc } := by
  rw [serve] at hs
  split at hs
  · next hg =>
    obtain ⟨⟨svc, o⟩, hstep, heq⟩ := Option.map_eq_some_iff.mp hs
    cases heq
    exact ⟨hg.1, hg.2, svc, o, hstep, rfl⟩
  · cases hs

lemma Rule.of_step (hs : s.step cfg n e = some (s', out)) : Rule cfg n s e s' := by
  cases e with
  | tick t =>
    simp only [Cluster.step] at hs
    split at hs
    · cases hs
      exact .tick t
    · cases hs
  | own i e =>
    simp only [Cluster.step] at hs
    split at hs
    · cases hs
    · next he =>
      obtain ⟨hi, -, svc, o, hstep, rfl⟩ := serve_eq hs
      exact .own i e svc o hi (Bool.not_eq_true _ ▸ he) (.of_step hstep)
  | read i c =>
    simp only [Cluster.step] at hs
    split at hs
    · split at hs
      · cases hs
        exact .read i c _
      · cases hs
    · cases hs
  | work i c e =>
    simp only [Cluster.step] at hs
    split at hs
    · next req ph hc =>
      split at hs
      · next record hrec =>
        split at hs
        · next ht =>
          split at hs
          · next a o s₁ out hstep hserve =>
            cases hs
            obtain ⟨hi, ha, svc, o', hsvc, rfl⟩ := serve_eq hserve
            obtain ⟨a', o'', hstep', hmade, hcalls⟩ := (AnalysisService.Rule.of_step hsvc).work hc
            rw [hstep, Option.some.injEq, Prod.mk.injEq] at hstep'
            obtain ⟨rfl, rfl⟩ := hstep'
            exact .work i c e req ph record a o svc hi ha hc hrec ht (.of_step hstep) hmade hcalls
          · cases hs
        · cases hs
      · cases hs
    · cases hs
  | expire jobId =>
    cases hs
    exact .expire jobId
  | crash i =>
    cases hs
    exact .crash i

/-! ### Live runs -/

/-- The job that a call of a process that is alive drives: it is past the look for a record to
continue and has not come to its end. -/
def job? (s : Cluster) (i c : ℕ) : Option String :=
  if s.alive i then ((s.services i).calls c).jobId? else none

def marked (s : Cluster) (i c : ℕ) : Bool := ((s.services i).calls c).marked

/-- Something holds of every call that was made of the replicas. -/
def everyCall (n : ℕ) (s : Cluster) (P : ℕ → ℕ → Prop) : Prop :=
  ∀ i < n, ∀ c < (s.services i).made, P i c

instance (n : ℕ) (s : Cluster) (P : ℕ → ℕ → Prop) [∀ i c, Decidable (P i c)] :
    Decidable (s.everyCall n P) :=
  inferInstanceAs (Decidable (∀ i < n, ∀ c < (s.services i).made, P i c))

/-- A run that has marked its job has refreshed the record recently. -/
def Beats (s : Cluster) (t : ℚ) (i c : ℕ) : Prop :=
  ∀ j ∈ s.job? i c, s.marked i c = true → ∀ r ∈ s.records j, t - r.updatedAt ≤ staleRunningJobSec

instance (s : Cluster) (t : ℚ) (i c : ℕ) : Decidable (s.Beats t i c) :=
  inferInstanceAs (Decidable (∀ j ∈ s.job? i c, _))

/-- The record that a request is about to create is recent. -/
def createdAt? (s : Cluster) (i c : ℕ) : Option ℚ :=
  match (s.services i).calls c with
  | .working _ (.creating r) => some r.updatedAt
  | _                        => none

/-- Every live run refreshes its record in time: the clock does not go on before that. -/
def heartbeat (n : ℕ) : Cluster → List (ℕ × ℕ × Call.Output) → Event → Prop
  | s, _, .tick t                 => s.everyCall n (s.Beats t)
  | s, _, .work i c (.started now) => ∀ t ∈ s.createdAt? i c, now - t ≤ staleRunningJobSec
  | _, _, _                       => True

/-- A run does not concern a request that is about to continue a record: it drives another job, or
it had marked the job before the record was read and has not refreshed it since. -/
def Clear (s : Cluster) (prior : JobRecord) (i c : ℕ) : Prop :=
  s.job? i c = some prior.jobId → s.marked i c = true ∧
    (s.records prior.jobId).map (fun r => (r.status, r.updatedAt)) =
      some (prior.status, prior.updatedAt)

instance (s : Cluster) (prior : JobRecord) (i c : ℕ) : Decidable (s.Clear prior i c) :=
  inferInstanceAs (Decidable (_ → _))

/-- The record that a request is about to continue. -/
def prior? (s : Cluster) (i c : ℕ) (now : ℚ) : Option JobRecord :=
  (s.answers (i, c)).bind (Request.findCheckpoint now)

/-- Between reading a record and deciding to continue it, and between another run's decision to
continue it and the mark of that run, the two do not overlap. -/
def noOverlap (n : ℕ) : Cluster → List (ℕ × ℕ × Call.Output) → Event → Prop
  | s, _, .work i c (.found now _) => ∀ prior ∈ s.prior? i c now,
      s.everyCall n fun i' c' => (i', c') ≠ (i, c) → s.Clear prior i' c'
  | _, _, _                        => True

instance (n : ℕ) (s : Cluster) (h : List (ℕ × ℕ × Call.Output)) (e : Event) :
    Decidable (heartbeat n s h e) :=
  match e with
  | .tick t => inferInstanceAs (Decidable (s.everyCall n (s.Beats t)))
  | .work i c (.started now) =>
    inferInstanceAs (Decidable (∀ t ∈ s.createdAt? i c, now - t ≤ staleRunningJobSec))
  | .work _ _ (.found ..) | .work _ _ (.run ..) | .work _ _ .returned | .work _ _ (.saved _)
  | .work _ _ (.marked _) | .work _ _ (.repoRaised ..) | .work _ _ .die | .own .. | .read ..
  | .expire _ | .crash _ => inferInstanceAs (Decidable True)

instance (n : ℕ) (s : Cluster) (h : List (ℕ × ℕ × Call.Output)) (e : Event) :
    Decidable (noOverlap n s h e) :=
  match e with
  | .work i c (.found now _) =>
    inferInstanceAs (Decidable (∀ prior ∈ s.prior? i c now,
      s.everyCall n fun i' c' => (i', c') ≠ (i, c) → s.Clear prior i' c'))
  | .work _ _ (.started _) | .work _ _ (.run ..) | .work _ _ .returned | .work _ _ (.saved _)
  | .work _ _ (.marked _) | .work _ _ (.repoRaised ..) | .work _ _ .die | .own .. | .read ..
  | .tick _ | .expire _ | .crash _ => inferInstanceAs (Decidable True)

/-- What holds while the records of live runs are refreshed and no decisions overlap. -/
structure Inv (n : ℕ) (s : Cluster) : Prop where
  absent : ∀ i c, n ≤ i ∨ (s.services i).made ≤ c → (s.services i).calls c = .absent
  used : ∀ i c j, ((s.services i).calls c).jobId? = some j → j ∈ s.used
  records : ∀ j r, s.records j = some r → r.jobId = j ∧ j ∈ s.used
  answers : ∀ p r, s.answers p = some (some r) → r.jobId ∈ s.used
  creating : ∀ i c req r, (s.services i).calls c = .working req (.creating r) → r.status = .running
  beating : ∀ i c j, s.job? i c = some j → s.marked i c = true →
    ∀ r, s.records j = some r → r.Beating s.now
  unique : ∀ i c i' c' j, s.job? i c = some j → s.job? i' c' = some j → (i, c) = (i', c')

lemma job?_eq_some {i c : ℕ} {j : String} (hj : s.job? i c = some j) :
    s.alive i = true ∧ ((s.services i).calls c).jobId? = some j := by
  rw [job?] at hj
  split at hj
  · next ha => exact ⟨ha, hj⟩
  · cases hj

/-- A request at work drives the job of its phase. -/
lemma job?_of_working {i c : ℕ} {req : Request} {ph : Phase} {j : String} (ha : s.alive i = true)
    (hc : (s.services i).calls c = .working req ph) (hj : ph.jobId? = some j) :
    s.job? i c = some j := by
  rw [job?, if_pos ha, hc]
  exact hj

/-- The record a request works on is that of its job. -/
lemma about_of_jobId {i c : ℕ} {ph : Phase} {record : Option JobRecord} {j : String}
    (hrec : s.about i c ph = some record) (hj : ph.jobId? = some j) : record = s.records j := by
  cases hph : ph <;> rw [hph] at hj hrec <;> cases hj <;> exact (Option.some.inj hrec).symm

lemma Inv.start (now : ℚ) : Inv n (start cfg now) := by
  have hnone : ∀ i c, (Cluster.start cfg now).job? i c = none := fun _ _ => rfl
  refine ⟨fun _ _ _ => rfl, ?_, ?_, ?_, ?_, ?_, ?_⟩
  · intro i c j hj
    cases hj
  · intro j r hr
    cases hr
  · intro p r hr
    cases hr
  · intro i c req r hr
    cases hr
  · intro i c j hj
    rw [hnone] at hj
    cases hj
  · intro i c i' c' j hj
    rw [hnone] at hj
    cases hj

/-- A call at work is one that was made. -/
lemma Inv.lt_of_ne (hinv : Inv n s) {i c : ℕ} (hc : (s.services i).calls c ≠ .absent) :
    i < n ∧ c < (s.services i).made := by
  by_contra h
  rw [not_and_or, not_lt, not_lt] at h
  exact hc (hinv.absent i c h)

lemma Inv.lt_of_job (hinv : Inv n s) {i c : ℕ} {j : String} (hj : s.job? i c = some j) :
    i < n ∧ c < (s.services i).made := by
  apply hinv.lt_of_ne
  intro habs
  have hj' := (job?_eq_some hj).2
  rw [habs] at hj'
  cases hj'

/-- A step after which fewer runs are live, and after which the repository has the records that it
had, except for expired ones. -/
lemma Inv.quiet (hinv : Inv n s) (hnow : s'.now = s.now) (hused : s'.used = s.used)
    (hrec : ∀ j r, s'.records j = some r → s.records j = some r)
    (hans : ∀ p r, s'.answers p = some (some r) → r.jobId ∈ s.used)
    (habs : ∀ i c, n ≤ i ∨ (s'.services i).made ≤ c → (s'.services i).calls c = .absent)
    (hcalls : ∀ i c, (s'.services i).calls c = (s.services i).calls c ∨
      ((s'.services i).calls c).jobId? = none)
    (halive : ∀ i, s'.alive i = true → s.alive i = true) : Inv n s' := by
  have hkeep : ∀ i c j, ((s'.services i).calls c).jobId? = some j →
      (s'.services i).calls c = (s.services i).calls c := by
    intro i c j hj
    rcases hcalls i c with h | h
    · exact h
    · rw [h] at hj
      cases hj
  have hjob : ∀ i c j, s'.job? i c = some j →
      (s'.services i).calls c = (s.services i).calls c ∧ s.job? i c = some j := by
    intro i c j hj
    obtain ⟨ha, hj'⟩ := job?_eq_some hj
    have heq := hkeep i c j hj'
    refine ⟨heq, ?_⟩
    rw [job?, if_pos (halive i ha), ← heq]
    exact hj'
  refine ⟨habs, ?_, ?_, ?_, ?_, ?_, ?_⟩
  · intro i c j hj
    rw [hused]
    have heq := hkeep i c j hj
    rw [heq] at hj
    exact hinv.used i c j hj
  · intro j r hr
    rw [hused]
    exact hinv.records j r (hrec j r hr)
  · intro p r hr
    rw [hused]
    exact hans p r hr
  · intro i c req r hr
    have heq := hkeep i c r.jobId (by rw [hr]; rfl)
    rw [heq] at hr
    exact hinv.creating i c req r hr
  · intro i c j hj hm r hr
    obtain ⟨heq, hj'⟩ := hjob i c j hj
    rw [marked, heq] at hm
    rw [hnow]
    exact hinv.beating i c j hj' hm r (hrec j r hr)
  · intro i c i' c' j hj hj'
    exact hinv.unique i c i' c' j (hjob i c j hj).2 (hjob i' c' j hj').2

section Work

variable {i c : ℕ} {e : Analysis.Event} {req : Request} {ph : Phase} {record : Option JobRecord}
  {a : Analysis} {o : List Analysis.Output} {svc : AnalysisService}

/-- A cluster after a step of a request. -/
def served (s : Cluster) (i : ℕ) (svc : AnalysisService) (ph : Phase) (a : Analysis)
    (e : Analysis.Event) : Cluster :=
  ({ s with services := Function.update s.services i svc } : Cluster).write ph a.record e

lemma served_calls (hsvc : svc.calls = Function.update (s.services i).calls c
      (Call.after req a.phase)) (i' c' : ℕ) :
    ((s.served i svc ph a e).services i').calls c' =
      if (i', c') = (i, c) then Call.after req a.phase else (s.services i').calls c' := by
  show (Function.update s.services i svc i').calls c' = _
  by_cases hi : i' = i
  · subst hi
    rw [Function.update_self, hsvc]
    by_cases hc : c' = c
    · subst hc
      rw [Function.update_self, if_pos rfl]
    · rw [Function.update_of_ne hc, if_neg (by simp [hc])]
  · rw [Function.update_of_ne hi, if_neg (by simp [hi])]

lemma served_job? (hsvc : svc.calls = Function.update (s.services i).calls c
      (Call.after req a.phase)) (ha : s.alive i = true) (i' c' : ℕ) :
    (s.served i svc ph a e).job? i' c' =
      if (i', c') = (i, c) then a.phase.jobId? else s.job? i' c' := by
  have halive : (s.served i svc ph a e).alive = s.alive := rfl
  rw [job?, halive, served_calls hsvc]
  by_cases heq : (i', c') = (i, c)
  · obtain ⟨rfl, rfl⟩ := Prod.mk.inj heq
    rw [if_pos ha, if_pos rfl, if_pos rfl]
    exact Call.jobId?_after req a.phase
  · rw [if_neg heq, if_neg heq, job?]

lemma served_records (j : String) : (s.served i svc ph a e).records j =
    if ph.jobId? = some j then a.record else s.records j := by
  show (match ph.jobId? with
    | some j => Function.update s.records j a.record
    | none   => s.records) j = _
  cases hj : ph.jobId? with
  | none => rfl
  | some j' =>
    by_cases hjj : j = j'
    · subst hjj
      rw [if_pos rfl]
      exact Function.update_self _ _ _
    · rw [if_neg (by simpa using Ne.symm hjj)]
      exact Function.update_of_ne hjj _ _

lemma served_made (hmade : svc.made = (s.services i).made) (i' : ℕ) :
    ((s.served i svc ph a e).services i').made = (s.services i').made := by
  show (Function.update s.services i svc i').made = _
  by_cases hi : i' = i
  · subst hi
    rw [Function.update_self, hmade]
  · rw [Function.update_of_ne hi]

/-- A request that was not made is not at work. -/
lemma Inv.served_absent (hinv : Inv n s) (hi : i < n)
    (hc : (s.services i).calls c = .working req ph) (hmade : svc.made = (s.services i).made)
    (hsvc : svc.calls = Function.update (s.services i).calls c (Call.after req a.phase)) (i' c' : ℕ)
    (hlt : n ≤ i' ∨ ((s.served i svc ph a e).services i').made ≤ c') :
    ((s.served i svc ph a e).services i').calls c' = .absent := by
  rw [served_made hmade] at hlt
  have hne : (i', c') ≠ (i, c) := by
    intro h
    have hmade' : c < (s.services i).made := (hinv.lt_of_ne (by rw [hc]; simp)).2
    cases h
    omega
  rw [served_calls hsvc, if_neg hne]
  exact hinv.absent i' c' hlt

/-- The record of a job that is marked is beating. -/
lemma Inv.served_beating (hinv : Inv n s) (ha : s.alive i = true)
    (hc : (s.services i).calls c = .working req ph)
    (hsvc : svc.calls = Function.update (s.services i).calls c (Call.after req a.phase))
    (hbeat : a.phase.marked = true → ph.jobId? = a.phase.jobId? ∧
      ∀ r, a.record = some r → r.Beating s.now) {i' c' : ℕ} {j : String}
    (hj : (s.served i svc ph a e).job? i' c' = some j)
    (hm : (s.served i svc ph a e).marked i' c' = true) {r : JobRecord}
    (hr : (s.served i svc ph a e).records j = some r) : r.Beating s.now := by
  rw [served_job? hsvc ha] at hj
  rw [marked, served_calls hsvc] at hm
  rw [served_records] at hr
  split at hj
  · next heq =>
    rw [if_pos heq, Call.marked_after] at hm
    obtain ⟨hsame, hb⟩ := hbeat hm
    rw [if_pos (hsame.trans hj)] at hr
    exact hb r hr
  · next hne =>
    rw [if_neg hne] at hm
    split at hr
    · next hph => exact absurd (hinv.unique i' c' i c j hj (job?_of_working ha hc hph)) hne
    · exact hinv.beating i' c' j hj hm r hr

/-- No two requests at work drive one job. -/
lemma Inv.served_unique (hinv : Inv n s) (ha : s.alive i = true)
    (hsvc : svc.calls = Function.update (s.services i).calls c (Call.after req a.phase))
    (hother : ∀ j, a.phase.jobId? = some j → ∀ i' c', (i', c') ≠ (i, c) → s.job? i' c' ≠ some j)
    {i₁ c₁ i₂ c₂ : ℕ} {j : String} (h₁ : (s.served i svc ph a e).job? i₁ c₁ = some j)
    (h₂ : (s.served i svc ph a e).job? i₂ c₂ = some j) : (i₁, c₁) = (i₂, c₂) := by
  rw [served_job? hsvc ha] at h₁ h₂
  by_cases heq₁ : (i₁, c₁) = (i, c)
  · by_cases heq₂ : (i₂, c₂) = (i, c)
    · exact heq₁.trans heq₂.symm
    · rw [if_pos heq₁] at h₁
      rw [if_neg heq₂] at h₂
      exact absurd h₂ (hother j h₁ i₂ c₂ heq₂)
  · rw [if_neg heq₁] at h₁
    by_cases heq₂ : (i₂, c₂) = (i, c)
    · rw [if_pos heq₂] at h₂
      exact absurd h₁ (hother j h₂ i₁ c₁ heq₁)
    · rw [if_neg heq₂] at h₂
      exact hinv.unique i₁ c₁ i₂ c₂ j h₁ h₂

/-- A step of a request keeps the invariant when the job it decides on or keeps is no other's, and
when the record is beating if it is marked. -/
lemma Inv.served (hinv : Inv n s) (hi : i < n) (ha : s.alive i = true)
    (hc : (s.services i).calls c = .working req ph) (hmade : svc.made = (s.services i).made)
    (hsvc : svc.calls = Function.update (s.services i).calls c (Call.after req a.phase))
    (hother : ∀ j, a.phase.jobId? = some j → ∀ i' c', (i', c') ≠ (i, c) → s.job? i' c' ≠ some j)
    (hused : ∀ j, a.phase.jobId? = some j → j ∈ e.jobId?.toList ++ s.used)
    (hcreate : ∀ r, a.phase = .creating r → r.status = .running)
    (hid : ∀ j, ph.jobId? = some j → ∀ r, a.record = some r → r.jobId = j)
    (hbeat : a.phase.marked = true → ph.jobId? = a.phase.jobId? ∧
      ∀ r, a.record = some r → r.Beating s.now) : Inv n (s.served i svc ph a e) := by
  have hused' : (s.served i svc ph a e).used = e.jobId?.toList ++ s.used := rfl
  refine ⟨hinv.served_absent hi hc hmade hsvc, ?_, ?_, ?_, ?_,
    fun _ _ _ hj hm _ hr => hinv.served_beating ha hc hsvc hbeat hj hm hr,
    fun _ _ _ _ _ => hinv.served_unique ha hsvc hother⟩
  · intro i' c' j hj
    rw [hused']
    rw [served_calls hsvc] at hj
    split at hj
    · rw [Call.jobId?_after] at hj
      exact hused j hj
    · exact List.mem_append_right _ (hinv.used i' c' j hj)
  · intro j r hr
    rw [hused']
    rw [served_records] at hr
    split at hr
    · next hj =>
      refine ⟨hid j hj r hr, List.mem_append_right _ (hinv.used i c j ?_)⟩
      rw [hc]
      exact hj
    · exact ⟨(hinv.records j r hr).1, List.mem_append_right _ (hinv.records j r hr).2⟩
  · intro p r hr
    exact List.mem_append_right _ (hinv.answers p r hr)
  · intro i' c' req' r hr
    rw [served_calls hsvc] at hr
    split at hr
    · apply hcreate r
      cases hph : a.phase <;> rw [hph] at hr <;> cases hr
      rfl
    · exact hinv.creating i' c' req' r hr

end Work

/-- The records that a key finds are records of the repository. -/
lemma find_eq_some {key : String} {r : JobRecord} (hf : s.find key = some r) :
    ∃ j, s.records j = some r := by
  rw [find] at hf
  split at hf
  · cases hf
  · obtain ⟨j, -, hr⟩ := Option.bind_eq_some_iff.mp hf
    exact ⟨j, hr⟩

/-- No live run drives a job whose record a request is about to continue. -/
lemma Inv.job_ne_prior (hinv : Inv n s) {i c : ℕ} {prior : JobRecord}
    (hf : Request.findCheckpoint s.now (some prior) = some prior)
    (hclear : s.everyCall n fun i' c' => (i', c') ≠ (i, c) → s.Clear prior i' c') (i' c' : ℕ)
    (hne : (i', c') ≠ (i, c)) : s.job? i' c' ≠ some prior.jobId := by
  intro hj
  obtain ⟨hi, hc⟩ := hinv.lt_of_job hj
  obtain ⟨hm, hsame⟩ := hclear i' hi c' hc hne hj
  obtain ⟨r, hr, heq⟩ := Option.map_eq_some_iff.mp hsame
  obtain ⟨hst, hup⟩ := Prod.mk.inj heq
  have hb := hinv.beating i' c' _ hj hm r hr
  have hb' : prior.Beating s.now := ⟨hst ▸ hb.1, hup ▸ hb.2⟩
  rw [findCheckpoint_of_beating hb'] at hf
  cases hf

/-- A step of a request keeps the invariant. -/
lemma Inv.work (hinv : Inv n s) {i c : ℕ} {e : Analysis.Event} {req : Request} {ph : Phase}
    {record : Option JobRecord} {a : Analysis} {o : List Analysis.Output} {svc : AnalysisService}
    (hi : i < n) (ha : s.alive i = true) (hc : (s.services i).calls c = .working req ph)
    (hrec : s.about i c ph = some record) (ht : s.Timely e)
    (hr : Analysis.Rule req ⟨record, ph⟩ e a o) (hmade : svc.made = (s.services i).made)
    (hsvc : svc.calls = Function.update (s.services i).calls c (Call.after req a.phase))
    (hheart : heartbeat n s h (.work i c e)) (hover : noOverlap n s h (.work i c e)) :
    Inv n (s.served i svc ph a e) := by
  have hnow : ∀ t, e.now? = some t → t = s.now := fun t h => ht.1 t h
  have hid : ∀ j, ph.jobId? = some j → ∀ r, a.record = some r → r.jobId = j := by
    intro j hj
    refine hr.record_jobId hj fun r hr => ?_
    rw [about_of_jobId hrec hj] at hr
    exact (hinv.records j r hr).1
  -- the job is another's checkpoint, drawn afresh, the one it was, or given up
  rcases hr.jobId_cases with ⟨now, jobId, prior, rfl, hph, hf, hp⟩ | ⟨now, jobId, rfl, -, hp⟩ |
    ⟨hsame, hsome, hm⟩ | hnone
  · obtain rfl := hnow now rfl
    obtain ⟨rfl, -⟩ := Analysis.findCheckpoint_eq_some hf
    have hans : s.answers (i, c) = some (some prior) := by
      rw [show ph = .finding from hph] at hrec
      exact hrec
    refine hinv.served hi ha hc hmade hsvc ?_ ?_ (fun r hp' => ?_) hid fun hm => ?_
    · intro j hj i' c' hne
      rw [hp] at hj
      cases hj
      refine hinv.job_ne_prior hf (hover prior ?_) i' c' hne
      rw [prior?, hans]
      exact hf
    · intro j hj
      rw [hp] at hj
      cases hj
      exact List.mem_append_right _ (hinv.answers (i, c) prior hans)
    · rw [hp] at hp'
      cases hp'
    · rw [hp] at hm
      cases hm
  · refine hinv.served hi ha hc hmade hsvc ?_ ?_ (fun r hp' => ?_) hid fun hm => ?_
    · intro j hj i' c' hne hj'
      rw [hp] at hj
      cases hj
      exact ht.2 jobId rfl (hinv.used i' c' jobId (job?_eq_some hj').2)
    · intro j hj
      rw [hp] at hj
      cases hj
      exact List.mem_append_left _ (by simp [Analysis.Event.jobId?, Request.newRecord])
    · rw [hp] at hp'
      cases hp'
      rfl
    · rw [hp] at hm
      cases hm
  · refine hinv.served hi ha hc hmade hsvc ?_ ?_ (fun r hp' => ?_) hid fun hm' => ?_
    · intro j hj i' c' hne hj'
      rw [hsame] at hj
      exact hne (hinv.unique i' c' i c j hj' (job?_of_working ha hc hj))
    · intro j hj
      rw [hsame] at hj
      exact List.mem_append_right _ (hinv.used i c j (by rw [hc]; exact hj))
    · rw [hp'] at hm
      cases hm
    · refine ⟨hsame.symm, hr.beating hnow hm' ?_ ?_⟩
      · intro r hph
        have hph' : ph = .creating r := hph
        refine ⟨hinv.creating i c req r (by rw [hc, hph']), ?_⟩
        obtain ⟨now, rfl⟩ := hr.started_of_creating hph hm'
        obtain rfl := hnow now rfl
        apply hheart
        rw [createdAt?, hc, hph']
        rfl
      · intro hmarked r hr'
        obtain ⟨j, hj⟩ := Option.isSome_iff_exists.mp hsome
        have hj' : ph.jobId? = some j := hj
        refine hinv.beating i c j (job?_of_working ha hc hj') ?_ r ?_
        · rw [marked, hc]
          exact hmarked
        · rw [← about_of_jobId hrec hj']
          exact hr'
  · refine hinv.served hi ha hc hmade hsvc (fun j hj => ?_) (fun j hj => ?_) (fun r hp' => ?_) hid
      fun hm => ?_
    · rw [hnone] at hj
      cases hj
    · rw [hnone] at hj
      cases hj
    · rw [hp'] at hnone
      cases hnone
    · have hsome := Phase.jobId?_isSome_of_marked hm
      rw [hnone] at hsome
      cases hsome

/-- A step of a service that touches no job keeps the invariant. -/
lemma Inv.own (hinv : Inv n s) {i : ℕ} {e : AnalysisService.Event} {svc : AnalysisService}
    {out : List (ℕ × Call.Output)} (hi : i < n) (he : e.isWork = false)
    (hr : AnalysisService.Rule cfg (s.services i) e svc out) :
    Inv n { s with services := Function.update s.services i svc } := by
  have hother : ∀ i', i' ≠ i → Function.update s.services i svc i' = s.services i' :=
    fun i' h => Function.update_of_ne h _ _
  obtain ⟨habs, hcalls⟩ := hr.quiet he fun c hc => hinv.absent i c (.inr hc)
  refine hinv.quiet rfl rfl (fun _ _ => id) hinv.answers ?_ ?_ fun _ => id
  · intro i' c hlt
    show (Function.update s.services i svc i').calls c = .absent
    by_cases hii : i' = i
    · subst hii
      rw [Function.update_self]
      apply habs
      rcases hlt with hlt | hlt
      · exact absurd hi (not_lt.mpr hlt)
      · change (Function.update s.services i' svc i').made ≤ c at hlt
        rwa [Function.update_self] at hlt
    · rw [hother i' hii]
      apply hinv.absent
      rcases hlt with hlt | hlt
      · exact .inl hlt
      · change (Function.update s.services i svc i').made ≤ c at hlt
        rw [hother i' hii] at hlt
        exact .inr hlt
  · intro i' c
    show (Function.update s.services i svc i').calls c = _ ∨
      ((Function.update s.services i svc i').calls c).jobId? = none
    by_cases hii : i' = i
    · subst hii
      rw [Function.update_self]
      exact (hcalls c).imp_right And.right
    · rw [hother i' hii]
      exact .inl rfl

theorem Inv.step (hinv : Inv n s) (hr : Rule cfg n s e s') (hheart : heartbeat n s h e)
    (hover : noOverlap n s h e) : Inv n s' := by
  cases hr with
  | tick t =>
    refine ⟨hinv.absent, hinv.used, hinv.records, hinv.answers, hinv.creating, ?_, hinv.unique⟩
    intro i c j hj hm r hr
    have hj' : s.job? i c = some j := hj
    obtain ⟨hi, hc⟩ := hinv.lt_of_job hj'
    exact ⟨(hinv.beating i c j hj' hm r hr).1, hheart i hi c hc j hj' hm r hr⟩
  | own i e svc out hi he hr =>
    exact hinv.own hi he hr
  | read i c req =>
    refine hinv.quiet rfl rfl (fun _ _ => id) ?_ hinv.absent (fun _ _ => .inl rfl) fun _ => id
    intro p r hr
    change Function.update s.answers (i, c) (some (s.find req.resumeKey)) p = some (some r) at hr
    by_cases hp : p = (i, c)
    · rw [hp, Function.update_self] at hr
      obtain ⟨j, hj⟩ := find_eq_some (Option.some.inj hr)
      obtain ⟨rfl, hu⟩ := hinv.records j r hj
      exact hu
    · rw [Function.update_of_ne hp] at hr
      exact hinv.answers p r hr
  | expire jobId =>
    refine hinv.quiet rfl rfl ?_ hinv.answers hinv.absent (fun _ _ => .inl rfl) fun _ => id
    intro j r hr
    change Function.update s.records jobId none j = some r at hr
    by_cases hj : j = jobId
    · rw [hj, Function.update_self] at hr
      cases hr
    · rwa [Function.update_of_ne hj] at hr
  | crash i =>
    refine hinv.quiet rfl rfl (fun _ _ => id) hinv.answers hinv.absent (fun _ _ => .inl rfl) ?_
    intro i' ha
    change Function.update s.alive i false i' = true at ha
    by_cases hii : i' = i
    · rw [hii, Function.update_self] at ha
      cases ha
    · rwa [Function.update_of_ne hii] at ha
  | work i c e req ph record a o svc hi ha hc hrec ht hr hmade hsvc =>
    exact hinv.work hi ha hc hrec ht hr hmade hsvc hheart hover

theorem Inv.of_reach {now : ℚ}
    (hr : (machine cfg n).Reach (fun s h e => heartbeat n s h e ∧ noOverlap n s h e)
      (Cluster.start cfg now) s h) : Inv n s :=
  hr.invariant (P := fun s _ => Inv n s) (.start now) fun _ _ _ _ _ _ hinv hok hs =>
    hinv.step (.of_step hs) hok.1 hok.2

/-- While live runs refresh their records and decisions do not overlap, no two live runs drive one
job. -/
theorem one_run_per_job {now : ℚ}
    (hr : (machine cfg n).Reach (fun s h e => heartbeat n s h e ∧ noOverlap n s h e)
      (Cluster.start cfg now) s h) {i c i' c' : ℕ} {j : String} (hj : s.job? i c = some j)
    (hj' : s.job? i' c' = some j) : (i, c) = (i', c') :=
  (Inv.of_reach hr).unique i c i' c' j hj hj'

/-- An overlap leads to two live runs that drive one job. -/
theorem two_runs_of_overlap {i c : ℕ} {now : ℚ} {jobId : String}
    (hs : s.step cfg n (.work i c (.found now jobId)) = some (s', out))
    (hover : ¬ noOverlap n s h (.work i c (.found now jobId))) :
    ∃ i' c' j, (i', c') ≠ (i, c) ∧ s'.job? i c = some j ∧ s'.job? i' c' = some j := by
  have hover' : ∃ prior ∈ s.prior? i c now, ∃ i' < n, ∃ c' < (s.services i').made,
      (i', c') ≠ (i, c) ∧ s.job? i' c' = some prior.jobId := by
    by_contra hno
    push Not at hno
    apply hover
    intro prior hp i' hi' c' hc' hne hj
    exact absurd hj (hno prior hp i' hi' c' hc' hne)
  obtain ⟨prior, hp, i', -, c', -, hne, hj⟩ := hover'
  cases Rule.of_step hs with
  | work i c e req ph record a o svc hi ha hc hrec ht hr hmade hsvc =>
    refine ⟨i', c', prior.jobId, hne, ?_, ?_⟩
    · refine (served_job? hsvc ha i c).trans ?_
      rw [if_pos rfl]
      have hans : ph = .finding → s.answers (i, c) = some record := by
        rintro rfl
        exact hrec
      cases hr with
      | resume now jobId prior' hph hf =>
        rw [prior?, hans hph] at hp
        obtain rfl := Option.some.inj (hf.symm.trans hp)
        rfl
      | create now jobId hph hf =>
        rw [prior?, hans hph] at hp
        cases hf.symm.trans hp
    · refine (served_job? hsvc ha i' c').trans ?_
      rw [if_neg hne]
      exact hj

/-- A job that was cancelled after its first frame is continued by another replica. -/
theorem one_run_per_job_run :
    ∃ cfg s h, (machine cfg 2).Reach (fun s h e => heartbeat 2 s h e ∧ noOverlap 2 s h e)
        (start cfg 0) s h ∧ s.job? 1 0 = some "j" ∧
      ∀ i c, s.job? i c = some "j" → (i, c) = (1, 0) := by
  have hrun : ∃ s h,
      (machine ⟨{analyzerPublishers := 1}, 4, fun _ => "v", fun _ _ => "k", by decide⟩ 2).Reach
        (fun s h e => heartbeat 2 s h e ∧ noOverlap 2 s h e)
        (start ⟨{analyzerPublishers := 1}, 4, fun _ => "v", fun _ _ => "k", by decide⟩ 0) s h ∧
      s.job? 1 0 = some "j" :=
    Machine.Reach.exists_of_exec
      [.own 0 (.analyze "clip.mp4" 1), .own 0 (.step 0 (.brokerPinged true)),
        .own 0 (.step 0 (.storePinged true)),
        .own 0 (.step 0 (.opened (.ok (.clip [.blank, .blank])))), .read 0 0,
        .work 0 0 (.found 0 "j"), .work 0 0 (.started 0), .tick 60, .work 0 0 (.run .advance 60),
        .work 0 0 (.run .handle 60), .work 0 0 (.run .enqueue 60), .work 0 0 (.run .look 60),
        .work 0 0 (.run (.worker 0 .take) 60), .work 0 0 (.run (.worker 0 (.stored 60)) 60),
        .work 0 0 (.run (.worker 0 .published) 60), .work 0 0 (.run (.worker 0 .confirmed) 60),
        .work 0 0 (.run .disconnect 60), .work 0 0 (.run .advance 60),
        .work 0 0 (.run .decodeDone 60), .work 0 0 (.run .putStop 60),
        .work 0 0 (.run (.worker 0 .take) 60), .work 0 0 (.run .gathered 60), .work 0 0 .returned,
        .work 0 0 (.saved 60), .work 0 0 (.marked 60), .own 0 (.step 0 .closed),
        .own 1 (.analyze "clip.mp4" 1), .own 1 (.step 0 (.brokerPinged true)),
        .own 1 (.step 0 (.storePinged true)),
        .own 1 (.step 0 (.opened (.ok (.clip [.blank, .blank])))), .read 1 0,
        .work 1 0 (.found 60 "j'"), .work 1 0 (.started 60)]
      (by decide +kernel)
  obtain ⟨s, h, hr, hj⟩ := hrun
  exact ⟨_, s, h, hr, hj, fun i c hj' => one_run_per_job hr hj' hj⟩

/-- Two replicas read the record of a cancelled job before either marks it as running, and both
continue it. -/
theorem two_runs_of_one_job :
    ∃ cfg s h, (machine cfg 2).Reach (heartbeat 2) (start cfg 0) s h ∧
      s.job? 0 1 = some "j" ∧ s.job? 1 0 = some "j" := by
  have hrun : ∃ s h,
      (machine ⟨{analyzerPublishers := 1}, 4, fun _ => "v", fun _ _ => "k", by decide⟩ 2).Reach
        (heartbeat 2)
        (start ⟨{analyzerPublishers := 1}, 4, fun _ => "v", fun _ _ => "k", by decide⟩ 0) s h ∧
      s.job? 0 1 = some "j" ∧ s.job? 1 0 = some "j" :=
    Machine.Reach.exists_of_exec
      [.own 0 (.analyze "clip.mp4" 1), .own 0 (.step 0 (.brokerPinged true)),
        .own 0 (.step 0 (.storePinged true)),
        .own 0 (.step 0 (.opened (.ok (.clip [.blank, .blank])))), .read 0 0,
        .work 0 0 (.found 0 "j"), .work 0 0 (.started 0), .work 0 0 (.run .advance 0),
        .work 0 0 (.run .handle 0), .work 0 0 (.run .enqueue 0), .work 0 0 (.run .look 0),
        .work 0 0 (.run (.worker 0 .take) 0), .work 0 0 (.run (.worker 0 (.stored 0)) 0),
        .work 0 0 (.run (.worker 0 .published) 0), .work 0 0 (.run (.worker 0 .confirmed) 0),
        .work 0 0 (.run .disconnect 0), .work 0 0 (.run .advance 0),
        .work 0 0 (.run .decodeDone 0), .work 0 0 (.run .putStop 0),
        .work 0 0 (.run (.worker 0 .take) 0), .work 0 0 (.run .gathered 0), .work 0 0 .returned,
        .work 0 0 (.saved 0), .work 0 0 (.marked 0), .own 0 (.step 0 .closed),
        .own 0 (.analyze "clip.mp4" 1), .own 1 (.analyze "clip.mp4" 1),
        .own 0 (.step 1 (.brokerPinged true)), .own 1 (.step 0 (.brokerPinged true)),
        .own 0 (.step 1 (.storePinged true)), .own 1 (.step 0 (.storePinged true)),
        .own 0 (.step 1 (.opened (.ok (.clip [.blank, .blank])))),
        .own 1 (.step 0 (.opened (.ok (.clip [.blank, .blank])))), .read 0 1, .read 1 0,
        .work 0 1 (.found 0 "j'"), .work 1 0 (.found 0 "j''"), .work 0 1 (.started 0),
        .work 1 0 (.started 0)]
      (by decide +kernel)
  obtain ⟨s, h, hr, hj, hj'⟩ := hrun
  exact ⟨_, s, h, hr, hj, hj'⟩

end Cluster

end VideoPipeline

import VideoPipeline.Analyzer.Blobs
import VideoPipeline.Detector.Origin
import VideoPipeline.System.Deployment

/-!
# The claim check

A message carries the key of a blob and no picture. Whatever the interleaving of runs, detectors,
redeliveries and deadlines, a detector that looks up the key gets the JPEG that a run of the same
job has put for the frame, or nothing once the time to live of the blob is over. Where the seeks of
the runs are sure, that is the JPEG of that very frame.
-/

namespace VideoPipeline

namespace System

variable {sys : Deployment} {s s' : System} {e : Event} {out h h₁ h₂ : List (ℚ × Output)}
  {now₀ t : ℚ} {i ttlSec : ℕ} {key : String} {jpeg : List UInt8} {ref : FrameRef}
  {blob : Option (List UInt8)} {ok : System → List (ℚ × Output) → Event → Prop}

/-! ### The store and the puts -/

def Output.PutsUnder (key : String) : Output → Prop
  | .run _ (.put key' _ _) => key' = key
  | _                      => False

/-- The last put under a key, by a run at a time. -/
def LastPut (h : List (ℚ × Output)) (key : String) (t : ℚ) (i : ℕ) (jpeg : List UInt8)
    (ttlSec : ℕ) : Prop :=
  ∃ h₁ h₂, h = h₁ ++ (t, .run i (.put key jpeg ttlSec)) :: h₂ ∧ ∀ x ∈ h₂, ¬x.2.PutsUnder key

lemma LastPut.append (hl : LastPut h key t i jpeg ttlSec) (hno : ∀ x ∈ out, ¬x.2.PutsUnder key) :
    LastPut (h ++ out) key t i jpeg ttlSec := by
  obtain ⟨h₁, h₂, rfl, hrest⟩ := hl
  refine ⟨h₁, h₂ ++ out, by simp, ?_⟩
  intro x hx
  rcases List.mem_append.mp hx with hx | hx
  · exact hrest x hx
  · exact hno x hx

/-- The store holds what was put last under each key. -/
def Stored (s : System) (h : List (ℚ × Output)) : Prop :=
  ∀ key, (s.blobs.entries key = none ∧ ∀ x ∈ h, ¬x.2.PutsUnder key) ∨
    ∃ t i jpeg ttlSec, LastPut h key t i jpeg ttlSec ∧
      s.blobs.entries key = some (jpeg, t + (ttlSec : ℚ))

lemma Stored.of_quiet (hst : Stored s h) (hblobs : s'.blobs = s.blobs)
    (hno : ∀ x ∈ out, ∀ key, ¬x.2.PutsUnder key) : Stored s' (h ++ out) := by
  intro key
  rw [hblobs]
  rcases hst key with ⟨hnone, hput⟩ | ⟨t, i, jpeg, ttlSec, hlast, hsome⟩
  · refine .inl ⟨hnone, ?_⟩
    intro x hx
    rcases List.mem_append.mp hx with hx | hx
    · exact hput x hx
    · exact hno x hx key
  · exact .inr ⟨t, i, jpeg, ttlSec, hlast.append fun x hx => hno x hx key, hsome⟩

/-- The fleet puts nothing. -/
lemma not_putsUnder_fleet {e : Fleet.Event} {o : List Fleet.Output} {x : ℚ × Output}
    (hx : x ∈ (s.reads e ++ o.map Output.fleet).map fun o => (t, o)) (key : String) :
    ¬x.2.PutsUnder key := by
  obtain ⟨x', hx', rfl⟩ := List.mem_map.mp hx
  rcases List.mem_append.mp hx' with hx' | hx'
  · rw [reads] at hx'
    split at hx'
    · split at hx'
      · cases hx'
      · rw [List.mem_singleton.mp hx']
        exact id
    · cases hx'
  · obtain ⟨o', -, rfl⟩ := List.mem_map.mp hx'
    exact id

lemma Stored.step (hst : Stored s h) (hr : Rule sys s e s' out) : Stored s' (h ++ out) := by
  cases hr with
  | tick t ht => exact hst.of_quiet rfl (by simp)
  | put i e p key jpeg ttlSec hs =>
    intro k
    by_cases hk : k = key
    · subst hk
      exact .inr ⟨s.now, i, jpeg, ttlSec, ⟨h, [], rfl, by simp⟩, Expiring.entries_put_self⟩
    · have hno : ∀ x ∈ [(s.now, Output.run i (.put key jpeg ttlSec))], ¬x.2.PutsUnder k := by
        intro x hx
        obtain rfl := List.mem_singleton.mp hx
        exact Ne.symm hk
      show ((s.blobs.put key jpeg (s.now + ttlSec)).entries k = none ∧ _) ∨ _
      rw [Expiring.entries_put_of_ne hk]
      rcases hst k with ⟨hnone, hput⟩ | ⟨t, j, jpeg', ttlSec', hlast, hsome⟩
      · refine .inl ⟨hnone, ?_⟩
        intro x hx
        rcases List.mem_append.mp hx with hx | hx
        · exact hput x hx
        · exact hno x hx
      · exact .inr ⟨t, j, jpeg', ttlSec', hlast.append hno, hsome⟩
  | publish i e p ref hs =>
    refine hst.of_quiet rfl ?_
    intro x hx key
    obtain rfl := List.mem_singleton.mp hx
    exact id
  | run i e p o hs hput hpub =>
    refine hst.of_quiet rfl ?_
    intro x hx key hputs
    obtain ⟨o', ho', rfl⟩ := List.mem_map.mp hx
    cases o' with
    | put key' jpeg ttlSec => exact hput key' jpeg ttlSec ho'
    | _ => exact hputs
  | fleet e f o hown hans hs =>
    exact hst.of_quiet rfl fun x hx => not_putsUnder_fleet hx

/-! ### What a detector reads -/

lemma mem_runOutputs {o : Pipeline.Output} : o ∈ runOutputs i h ↔ ∃ t, (t, .run i o) ∈ h := by
  simp only [runOutputs, List.mem_filterMap]
  constructor
  · rintro ⟨⟨t, x⟩, hx, hxo⟩
    cases x with
    | run j o' =>
      simp only [Output.run?, Option.ite_none_right_eq_some, Option.some.injEq] at hxo
      obtain ⟨rfl, rfl⟩ := hxo
      exact ⟨t, hx⟩
    | read | fleet => cases hxo
  · rintro ⟨t, hx⟩
    exact ⟨_, hx, by simp [Output.run?]⟩

/-- What the fleet knows as published, a run has published. -/
lemma mem_published (hpub : ref ∈ Fleet.published (fleetOutputs h))
    (hr : (machine sys).Reach ok (start sys now₀) s h) : ∃ i, .published ref ∈ runOutputs i h := by
  induction hr with
  | init => cases hpub
  | @step s s' h out e hr ho hs ih =>
    rw [fleetOutputs_append, Fleet.published_append] at hpub
    rcases List.mem_append.mp hpub with hpub | hpub
    · obtain ⟨i, hi⟩ := ih hpub
      refine ⟨i, ?_⟩
      rw [runOutputs_append]
      exact List.mem_append_left _ hi
    · cases Rule.of_step hs with
      | tick | put => cases hpub
      | publish i e p ref' hs =>
        obtain rfl := List.mem_singleton.mp hpub
        refine ⟨i, ?_⟩
        rw [runOutputs_append]
        exact List.mem_append_right _ (mem_runOutputs.mpr ⟨_, List.mem_singleton_self _⟩)
      | run i e p o hs hput hno =>
        rw [fleetOutputs_run hno] at hpub
        cases hpub
      | fleet e f o hown hans hf =>
        rw [fleetOutputs_fleet] at hpub
        rw [(Fleet.Rule.of_step hf).published_eq_nil (ofFleet_ne_publish hown)] at hpub
        cases hpub

/-- The read of a blob finds what was put last under its key, for as long as its time to live. -/
def ReadLast (h : List (ℚ × Output)) (x : ℚ × Output) : Prop :=
  ∀ ref blob, x.2 = .read ref blob → (∃ i, .published ref ∈ runOutputs i h) ∧
    ∃ t i jpeg ttlSec, LastPut h ref.blobKey t i jpeg ttlSec ∧
      blob = if x.1 < t + (ttlSec : ℚ) then some jpeg else none

lemma ReadLast.append {x : ℚ × Output} (hx : ReadLast h x)
    (hno : ∀ y ∈ out, ∀ key, ¬y.2.PutsUnder key) : ReadLast (h ++ out) x := by
  intro ref blob hread
  obtain ⟨⟨i, hpub⟩, t, j, jpeg, ttlSec, hlast, hblob⟩ := hx ref blob hread
  refine ⟨⟨i, ?_⟩, t, j, jpeg, ttlSec, hlast.append fun y hy => hno y hy _, hblob⟩
  rw [runOutputs_append]
  exact List.mem_append_left _ hpub

lemma load?_eq_some {e : Fleet.Event} {x : Delivery} {r : Worker.LoadReply}
    (hl : s.load? e = some (x, r)) : ∃ d pos, e = .work d (.loaded r) pos ∧
      (s.fleet.replicas d).worker.phase = .loading x := by
  unfold load? at hl
  split at hl
  · next d r' pos =>
    split at hl
    · next x' hphase =>
      obtain ⟨rfl, rfl⟩ := Prod.mk.inj (Option.some.inj hl)
      exact ⟨d, pos, rfl, hphase⟩
    · cases hl
  · cases hl

lemma mem_reads {e : Fleet.Event} (hx : .read ref blob ∈ s.reads e) :
    ∃ x r, s.load? e = some (x, r) ∧ ref = x.ref ∧ blob = s.blob x := by
  rw [reads] at hx
  split at hx
  · next x r hl =>
    split at hx
    · cases hx
    · obtain ⟨rfl, rfl⟩ := Output.read.inj (List.mem_singleton.mp hx)
      exact ⟨x, r, hl, rfl, rfl⟩
  · cases hx

/-- The blob of a frame that a detector loads was put. -/
lemma readLast_of_read {e : Fleet.Event} (hr : (machine sys).Reach ok (start sys now₀) s h)
    (hst : Stored s h) (hx : .read ref blob ∈ s.reads e) : ReadLast h (s.now, .read ref blob) := by
  obtain ⟨x, r, hl, rfl, rfl⟩ := mem_reads hx
  obtain ⟨d, pos, rfl, hphase⟩ := load?_eq_some hl
  have hheld : x ∈ (s.fleet.replicas d).worker.held := by
    simp [Worker.held, hphase, Worker.Phase.current]
  have hknown := (Fleet.Known.of_reach (reach_fleet_any hr)).mentioned d x (.inr (.inr hheld))
  obtain ⟨i, hi⟩ := mem_published hknown hr
  obtain ⟨o₁, o₂, hsplit⟩ := List.append_of_mem hi
  obtain ⟨f, now, href, hput⟩ := Pipeline.blob_first (reach_run hr i) hsplit
  have hput : .put x.ref.blobKey f.jpeg (sys.dispatch i).settings.frameBlobTtlSec ∈
      runOutputs i h := by
    rw [hsplit]
    exact List.mem_append_left _ hput
  rintro _ _ ⟨⟩
  refine ⟨⟨i, hi⟩, ?_⟩
  rcases hst x.ref.blobKey with ⟨-, hno⟩ | ⟨t, j, jpeg, ttlSec, hlast, hsome⟩
  · obtain ⟨t, ht⟩ := mem_runOutputs.mp hput
    exact absurd rfl (hno _ ht)
  · refine ⟨t, j, jpeg, ttlSec, hlast, ?_⟩
    rw [System.blob, Expiring.get, hsome]
    rfl

/-- A read is put out by a step of the fleet, which puts nothing. -/
lemma Rule.of_read (hr : Rule sys s e s' out) (hx : (t, .read ref blob) ∈ out) :
    ∃ e', e = .fleet e' ∧ t = s.now ∧ .read ref blob ∈ s.reads e' ∧
      ∀ y ∈ out, ∀ key, ¬y.2.PutsUnder key := by
  cases hr with
  | fleet e f o hown hans hs =>
    obtain ⟨x, hmem, heq⟩ := List.mem_map.mp hx
    obtain ⟨rfl, rfl⟩ := Prod.mk.inj heq
    refine ⟨e, rfl, rfl, ?_, fun y hy => not_putsUnder_fleet hy⟩
    rcases List.mem_append.mp hmem with hmem | hmem
    · exact hmem
    · obtain ⟨o', -, ho'⟩ := List.mem_map.mp hmem
      cases ho'
  | run i e p o hs hput hpub =>
    obtain ⟨o', -, heq⟩ := List.mem_map.mp hx
    cases heq
  | tick => cases hx
  | put | publish => cases List.mem_singleton.mp hx

lemma reads_caused (hr : (machine sys).Reach ok (start sys now₀) s h) :
    Stored s h ∧ Machine.Caused ReadLast h := by
  induction hr with
  | init =>
    refine ⟨fun key => .inl ⟨rfl, ?_⟩, .nil⟩
    intro x hx
    cases hx
  | @step s s' h out e hr ho hs ih =>
    obtain ⟨hst, hcaused⟩ := ih
    have hrule := Rule.of_step hs
    refine ⟨hst.step hrule, hcaused.append_of ?_⟩
    rintro o₁ ⟨t, x⟩ o₂ hout
    cases x with
    | run | fleet =>
      rintro ref blob ⟨⟩
    | read ref blob =>
      have hmem : (t, Output.read ref blob) ∈ out := by
        rw [hout]
        simp
      obtain ⟨e', rfl, rfl, hread, hno⟩ := hrule.of_read hmem
      refine (readLast_of_read hr hst hread).append ?_
      intro y hy
      exact hno y (by rw [hout]; exact List.mem_append_left _ hy)

/-- The reference is that of a frame `f` of a run that has published it. The blob is the JPEG that
the run `j` of the same job, which put it last, has yielded for the same number, until the time to
live of that put is over. -/
structure Fetched (sys : Deployment) (h : List (ℚ × Output)) (t : ℚ) (ref : FrameRef)
    (blob : Option (List UInt8)) (i j : ℕ) (f f' : SampledFrame) : Prop where
  published : .published ref ∈ runOutputs i h
  yields : (sys.requests i).Yields (sys.jobs i) f
  ref_eq : ∃ stamp, ref = (sys.dispatch i).frameRef f stamp
  yields' : (sys.requests j).Yields (sys.jobs j) f'
  jobId : (sys.jobs j).jobId = (sys.jobs i).jobId
  sourceIndex : f'.sourceIndex = f.sourceIndex
  blob_eq : ∃ t', LastPut h ref.blobKey t' j f'.jpeg (sys.requests j).settings.frameBlobTtlSec ∧
    blob = if t < t' + ((sys.requests j).settings.frameBlobTtlSec : ℚ) then some f'.jpeg else none

lemma exists_fetched (hr : (machine sys).Reach ok (start sys now₀) s h)
    (hh : h = h₁ ++ (t, .read ref blob) :: h₂) :
    ∃ i j f f', Fetched sys h₁ t ref blob i j f f' := by
  obtain ⟨⟨i, hpub⟩, t', j, jpeg, ttlSec, hlast, hblob⟩ :=
    (reads_caused hr).2 h₁ _ h₂ hh ref blob rfl
  have hleft : ∀ k o, o ∈ runOutputs k h₁ → o ∈ runOutputs k h := by
    intro k o ho
    rw [hh, runOutputs_append]
    exact List.mem_append_left _ ho
  obtain ⟨f, stamp, hf, href⟩ := Pipeline.published_yields (reach_run hr i) (hleft i _ hpub)
  have hput : .put ref.blobKey jpeg ttlSec ∈ runOutputs j h := by
    obtain ⟨l₁, l₂, rfl, -⟩ := hlast
    exact hleft j _ (mem_runOutputs.mpr ⟨t', by simp⟩)
  obtain ⟨f', hf', hkey, rfl, rfl⟩ := Pipeline.put_yields (reach_run hr j) hput
  -- the key of the blob names the job and the frame
  rw [href] at hkey
  obtain ⟨hjob, hframe⟩ := blobKey_injective hkey
  have hidx : f'.sourceIndex = f.sourceIndex := by exact_mod_cast hframe.symm
  exact ⟨i, j, f, f', hpub, hf, ⟨stamp, href⟩, hf', hjob.symm, hidx, t', hlast, hblob⟩

/-- The reference is that of a frame `f` of a run that has published it. The blob is the JPEG of the
frame with its number in the video of the run `j` of the same job that put it last, until the time
to live of that put is over. -/
def CheckedOut (sys : Deployment) (h : List (ℚ × Output)) (t : ℚ) (ref : FrameRef)
    (blob : Option (List UInt8)) : Prop :=
  ∃ i f stamp, .published ref ∈ runOutputs i h ∧ (sys.requests i).source.Shows f ∧
    ref = (sys.dispatch i).frameRef f stamp ∧
    ∃ t' j f', LastPut h ref.blobKey t' j f'.jpeg (sys.requests j).settings.frameBlobTtlSec ∧
      (sys.jobs j).jobId = (sys.jobs i).jobId ∧ (sys.requests j).source.Shows f' ∧
      f'.sourceIndex = f.sourceIndex ∧
      blob = (if t < t' + ((sys.requests j).settings.frameBlobTtlSec : ℚ) then some f'.jpeg
        else none) ∧
      ((sys.requests j).source = (sys.requests i).source → f'.jpeg = f.jpeg)

/-- Whenever a detector reads the blob of a frame of a job whose runs are sure of where they start
to read, it gets the JPEG of that frame of that job, or none after the time to live of the last
put. -/
theorem claim_check (hr : (machine sys).Reach ok (start sys now₀) s h)
    (hh : h = h₁ ++ (t, .read ref blob) :: h₂) (hsure : sys.SeeksSurely ref.jobId) :
    CheckedOut sys h₁ t ref blob := by
  obtain ⟨i, j, f, f', hf⟩ := exists_fetched hr hh
  obtain ⟨stamp, href⟩ := hf.ref_eq
  obtain ⟨t', hlast, hblob⟩ := hf.blob_eq
  have hi : (sys.jobs i).jobId = ref.jobId := by
    rw [href]
    rfl
  have hshows := hf.yields.shows (hsure i hi)
  have hshows' := hf.yields'.shows (hsure j (hf.jobId.trans hi))
  refine ⟨i, f, stamp, hf.published, hshows, href, t', j, f', hlast, hf.jobId, hshows',
    hf.sourceIndex, hblob, ?_⟩
  intro hsource
  rw [hsource] at hshows'
  exact hshows'.jpeg_eq hshows hf.sourceIndex

/-- A detector dies with a frame in hand, and the redelivery comes when the blob is gone. -/
theorem claim_check_run : ∃ sys s h h₁ h₂,
    (machine sys).Reach Machine.anyStep (start sys 0) s h ∧
      h = h₁ ++ (60, .read ⟨"j", "v", 0, 0, 0, blobKey "j" 0⟩ none) :: h₂ ∧
      CheckedOut sys h₁ 60 ⟨"j", "v", 0, 0, 0, blobKey "j" 0⟩ none := by
  have hrun : ∃ s h, (machine (.clip {analyzerPublishers := 1, frameBlobTtlSec := 60} {}
        [.image 0 [7] 1 1])).Reach Machine.anyStep
        (start (.clip {analyzerPublishers := 1, frameBlobTtlSec := 60} {} [.image 0 [7] 1 1]) 0)
        s h ∧
      ((0, .read ⟨"j", "v", 0, 0, 0, blobKey "j" 0⟩ (some [7])) ∈ h ∧
        (60, .read ⟨"j", "v", 0, 0, 0, blobKey "j" 0⟩ none) ∈ h) :=
    Machine.Reach.exists_of_exec
      [.run 0 .advance, .run 0 .handle, .run 0 .enqueue, .run 0 (.worker 0 .take),
        .run 0 (.worker 0 (.stored 0)), .run 0 (.worker 0 .published), .fleet (.deliver 0 0 1),
        .fleet (.take 0 0 0), .fleet (.work 0 (.loaded .frame) 0), .fleet (.crash 0 fun _ => 0),
        .tick 60, .fleet (.deliver 0 0 1), .fleet (.take 0 0 60),
        .fleet (.work 0 (.loaded .missing) 0)]
      (by decide +kernel)
  obtain ⟨s, h, hr, -, hmem⟩ := hrun
  obtain ⟨h₁, h₂, hh⟩ := List.append_of_mem hmem
  exact ⟨_, s, h, h₁, h₂, hr, hh,
    claim_check hr hh fun _ _ => Request.seeksSurely_of_neg _ neg_one_lt_zero⟩

end System

end VideoPipeline

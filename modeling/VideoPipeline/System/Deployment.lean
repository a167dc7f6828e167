import VideoPipeline.Analyzer.Service
import VideoPipeline.Common.FrameStore
import VideoPipeline.Detector.Fleet

/-!
# Analyzers, detectors and what is between them

Any number of dispatch runs and a fleet of detectors share the broker and Redis, which holds the
frame blobs and the dedup keys, each with a deadline on Redis's clock (`redis-server` runs with
`--maxmemory-policy noeviction`, so only a deadline removes an entry). Times are exact here, and the
millisecond in which Redis still keeps a key is left out. A run puts blobs and publishes references,
a detector reads the blob of a delivery and claims its key.

Every output carries the time of its step. The runs and the fleet are the machines of the other
modules, and their parts of a history of the system are histories of their own.
-/

namespace VideoPipeline

open Worker (LoadReply)

/-- The settings of the detectors and the runs of the analyzers. -/
structure Deployment where
  detector : DetectorSettings
  detectors : ℕ
  requests : ℕ → Request
  jobs : ℕ → Job
  /-- `cv2.imdecode` makes an image of the bytes. -/
  decodes : List UInt8 → Bool

namespace Deployment

/-- One detector and a job about a clip. -/
def clip (settings : AnalyzerSettings) (detector : DetectorSettings) (frames : List RawFrame) :
    Deployment :=
  ⟨detector, 1, fun _ => .clip settings frames, fun _ => ⟨"j", none⟩, fun _ => true⟩

variable (sys : Deployment)

/-- The dispatch of a run. -/
def dispatch (i : ℕ) : Dispatch := (sys.requests i).dispatch (sys.jobs i)

/-- The runs of a job are sure of where they start to read. -/
def SeeksSurely (jobId : String) : Prop :=
  ∀ j, (sys.jobs j).jobId = jobId →
    (sys.requests j).SeeksSurely (RunState.initial (sys.jobs j).prior).lastSourceIndex

/-- `_load_frame` on what the store holds. -/
def loadReply : Option (List UInt8) → LoadReply
  | none      => .missing
  | some data => if sys.decodes data then .frame else .undecodable

end Deployment

structure System where
  now : ℚ
  runs : ℕ → Pipeline
  blobs : RedisFrameStore.Redis
  /-- The dedup keys. -/
  claims : Expiring String Unit ℚ
  fleet : Fleet

namespace System

def start (sys : Deployment) (now : ℚ) : System :=
  ⟨now, fun i => (sys.requests i).start (sys.jobs i), ∅, ∅, Fleet.init⟩

inductive Event where
  | tick (t : ℚ)
  | run (i : ℕ) (e : Pipeline.Event)
  /-- A step of a detector or of the broker. -/
  | fleet (e : Fleet.Event)

inductive Output where
  | run (i : ℕ) (o : Pipeline.Output)
  /-- A detector has read the blob of a frame. -/
  | read (ref : FrameRef) (blob : Option (List UInt8))
  | fleet (o : Fleet.Output)
  deriving DecidableEq, Repr

/-- What a run puts out takes effect on Redis and on the broker. -/
def effect (s : System) : Pipeline.Output → System
  | .put key jpeg ttlSec => { s with blobs := s.blobs.put key jpeg (s.now + ttlSec) }
  | .published ref => { s with fleet.queue := s.fleet.queue ++ [⟨ref, false⟩] }
  | _ => s

/-- The fleet without the dedup keys that have expired. -/
def current (s : System) : Fleet :=
  { s.fleet with guard := s.fleet.guard.filter fun key => (s.claims.get s.now key).isSome }

@[simp] lemma current_replicas (s : System) : s.current.replicas = s.fleet.replicas := rfl

/-- `SET key 1 EX ttl NX`. The guard that fails open has not reached Redis. -/
def record (now : ℚ) (claims : Expiring String Unit ℚ) : Act → Expiring String Unit ℚ
  | .claim key ttlSec .won | .claim key ttlSec .lost =>
    (claims.claim now key () (now + ttlSec)).2
  | _ => claims

/-- The delivery whose blob a step reads, with the reply the step takes for it. -/
def load? (s : System) : Fleet.Event → Option (Delivery × LoadReply)
  | .work d (.loaded r) _ =>
    match (s.fleet.replicas d).worker.phase with
    | .loading x => some (x, r)
    | _          => none
  | _ => none

/-- What the store holds for a delivery. -/
def blob (s : System) (x : Delivery) : Option (List UInt8) := s.blobs.get s.now x.ref.blobKey

/-- Messages come from the runs and keys go by their deadlines, the other steps are the fleet's. -/
def ofFleet : Fleet.Event → Bool
  | .publish _ | .expire _ => false
  | _                      => true

/-- The frame store answers a read with the blob it holds, unless it raises. -/
def answers (sys : Deployment) (s : System) (e : Fleet.Event) : Bool :=
  match s.load? e with
  | some (x, r) => r = .storeError ∨ r = .raised ∨ r = sys.loadReply (s.blob x)
  | none        => true

/-- The read of a step, if the store answers. -/
def reads (s : System) (e : Fleet.Event) : List Output :=
  match s.load? e with
  | some (x, r) => if r = .storeError ∨ r = .raised then [] else [.read x.ref (s.blob x)]
  | none        => []

def step (sys : Deployment) (s : System) : Event → Option (System × List (ℚ × Output))
  | .tick t => if s.now ≤ t then some ({ s with now := t }, []) else none
  | .run i e =>
    match (s.runs i).step (sys.dispatch i) e with
    | some (p, out) =>
      some (out.foldl effect { s with runs := Function.update s.runs i p },
        out.map fun o => (s.now, .run i o))
    | none => none
  | .fleet e =>
    if ofFleet e ∧ answers sys s e then
      match s.current.step sys.detector sys.detectors e with
      | some (f, out) =>
        some ({ s with fleet := f, claims := (Fleet.acts out).foldl (record s.now) s.claims },
          (s.reads e ++ out.map Output.fleet).map fun o => (s.now, o))
      | none => none
    else none

/-- The deployment as a machine. -/
def machine (sys : Deployment) : Machine System Event (ℚ × Output) := ⟨step sys⟩

/-! ### The parts of a history -/

def Output.run? (i : ℕ) : Output → Option Pipeline.Output
  | .run j o => if j = i then some o else none
  | _        => none

/-- What the fleet sees of an output. -/
def Output.fleet? : Output → Option Fleet.Output
  | .run _ (.published ref) => some (.published ref)
  | .fleet o                => some o
  | _                       => none

/-- The history of a run. -/
def runOutputs (i : ℕ) (h : List (ℚ × Output)) : List Pipeline.Output :=
  h.filterMap fun x => x.2.run? i

/-- The history of the fleet. -/
def fleetOutputs (h : List (ℚ × Output)) : List Fleet.Output := h.filterMap fun x => x.2.fleet?

@[simp] lemma runOutputs_append (i : ℕ) (h₁ h₂ : List (ℚ × Output)) :
    runOutputs i (h₁ ++ h₂) = runOutputs i h₁ ++ runOutputs i h₂ :=
  List.filterMap_append

@[simp] lemma fleetOutputs_append (h₁ h₂ : List (ℚ × Output)) :
    fleetOutputs (h₁ ++ h₂) = fleetOutputs h₁ ++ fleetOutputs h₂ :=
  List.filterMap_append

/-! ### What a step does -/

/-- The steps of a system. -/
inductive Rule (sys : Deployment) (s : System) : Event → System → List (ℚ × Output) → Prop where
  | tick (t : ℚ) (ht : s.now ≤ t) : Rule sys s (.tick t) { s with now := t } []
  /-- A run puts a blob. -/
  | put (i : ℕ) (e : Pipeline.Event) (p : Pipeline) (key : String) (jpeg : List UInt8) (ttlSec : ℕ)
      (hs : (s.runs i).step (sys.dispatch i) e = some (p, [.put key jpeg ttlSec])) :
      Rule sys s (.run i e)
        { s with
          runs := Function.update s.runs i p
          blobs := s.blobs.put key jpeg (s.now + ttlSec) }
        [(s.now, .run i (.put key jpeg ttlSec))]
  /-- A run publishes a reference. -/
  | publish (i : ℕ) (e : Pipeline.Event) (p : Pipeline) (ref : FrameRef)
      (hs : (s.runs i).step (sys.dispatch i) e = some (p, [.published ref])) :
      Rule sys s (.run i e)
        { s with
          runs := Function.update s.runs i p
          fleet.queue := s.fleet.queue ++ [⟨ref, false⟩] } [(s.now, .run i (.published ref))]
  /-- A run goes on by itself. -/
  | run (i : ℕ) (e : Pipeline.Event) (p : Pipeline) (out : List Pipeline.Output)
      (hs : (s.runs i).step (sys.dispatch i) e = some (p, out))
      (hput : ∀ key jpeg ttlSec, .put key jpeg ttlSec ∉ out) (hpub : ∀ ref, .published ref ∉ out) :
      Rule sys s (.run i e) { s with runs := Function.update s.runs i p }
        (out.map fun o => (s.now, .run i o))
  | fleet (e : Fleet.Event) (f : Fleet) (out : List Fleet.Output) (hown : ofFleet e = true)
      (hans : answers sys s e = true)
      (hs : s.current.step sys.detector sys.detectors e = some (f, out)) :
      Rule sys s (.fleet e)
        { s with fleet := f, claims := (Fleet.acts out).foldl (record s.now) s.claims }
        ((s.reads e ++ out.map Output.fleet).map fun o => (s.now, o))

variable {sys : Deployment} {s s' : System} {e : Event} {out h : List (ℚ × Output)} {now₀ : ℚ}
  {ok : System → List (ℚ × Output) → Event → Prop}

/-- Every step of a system is one of the rules. -/
theorem Rule.of_step (hs : s.step sys e = some (s', out)) : Rule sys s e s' out := by
  cases e with
  | tick t =>
    simp only [step] at hs
    split at hs
    · next ht => cases hs; exact .tick t ht
    · cases hs
  | run i e =>
    simp only [step] at hs
    split at hs
    · next p o hp =>
      cases hs
      match o, hp, (Pipeline.Rule.of_step hp).length_le_one with
      | [], hp, _ => exact .run i e p [] hp (by simp) (by simp)
      | [o], hp, _ =>
        cases o with
        | put key jpeg ttlSec => exact .put i e p key jpeg ttlSec hp
        | published ref => exact .publish i e p ref hp
        | _ => exact .run i e p _ hp (by simp) (by simp)
    · cases hs
  | fleet e =>
    simp only [step] at hs
    split at hs
    · next hpos =>
      split at hs
      · next f o hf => cases hs; exact .fleet e f o hpos.1 hpos.2 hf
      · cases hs
    · cases hs

@[simp] lemma runOutputs_map_self (i : ℕ) (out : List Pipeline.Output) (now : ℚ) :
    runOutputs i (out.map fun o => (now, .run i o)) = out := by
  induction out with
  | nil => rfl
  | cons o out ih =>
    rw [List.map_cons, runOutputs, List.filterMap_cons]
    simp only [Output.run?, if_true]
    exact congrArg (o :: ·) ih

lemma runOutputs_map_of_ne {i j : ℕ} (hne : j ≠ i) (out : List Pipeline.Output) (now : ℚ) :
    runOutputs i (out.map fun o => (now, .run j o)) = [] := by
  simp [runOutputs, Output.run?, hne]

lemma reads_quiet {x : Output} {e : Fleet.Event} (hx : x ∈ s.reads e) :
    (∀ i, x.run? i = none) ∧ x.fleet? = none := by
  rw [reads] at hx
  split at hx
  · split at hx
    · cases hx
    · obtain rfl := List.mem_singleton.mp hx
      exact ⟨fun _ => rfl, rfl⟩
  · cases hx

@[simp] lemma fleetOutputs_fleet (e : Fleet.Event) (out : List Fleet.Output) (now : ℚ) :
    fleetOutputs ((s.reads e ++ out.map Output.fleet).map fun o => (now, o)) = out := by
  rw [List.map_append, fleetOutputs_append]
  have hreads : fleetOutputs ((s.reads e).map fun o => (now, o)) = [] := by
    rw [fleetOutputs, List.filterMap_map, List.filterMap_eq_nil_iff]
    exact fun x hx => (reads_quiet hx).2
  rw [hreads, List.nil_append, List.map_map, fleetOutputs, List.filterMap_map]
  exact List.filterMap_some

lemma runOutputs_fleet (i : ℕ) (e : Fleet.Event) (out : List Fleet.Output) (now : ℚ) :
    runOutputs i ((s.reads e ++ out.map Output.fleet).map fun o => (now, o)) = [] := by
  rw [runOutputs, List.filterMap_map, List.filterMap_eq_nil_iff]
  intro x hx
  rcases List.mem_append.mp hx with hx | hx
  · exact (reads_quiet hx).1 i
  · obtain ⟨o, -, rfl⟩ := List.mem_map.mp hx
    rfl

lemma fleetOutputs_run {i : ℕ} {out : List Pipeline.Output} {now : ℚ}
    (hpub : ∀ ref, .published ref ∉ out) :
    fleetOutputs (out.map fun o => (now, .run i o)) = [] := by
  rw [fleetOutputs, List.filterMap_map, List.filterMap_eq_nil_iff]
  intro o ho
  cases o with
  | published ref => exact absurd ho (hpub ref)
  | _ => rfl

/-- A step of the system is a step of one run, or of no run. -/
lemma Rule.run_or (hr : Rule sys s e s' out) (i : ℕ) :
    (s'.runs i = s.runs i ∧ runOutputs i out = []) ∨
      ∃ e', e = .run i e' ∧ (s.runs i).step (sys.dispatch i) e' =
        some (s'.runs i, runOutputs i out) := by
  have hone : ∀ (j : ℕ) (e' : Pipeline.Event) (p : Pipeline) (o : List Pipeline.Output)
      (s' : System), (s.runs j).step (sys.dispatch j) e' = some (p, o) →
      s'.runs = Function.update s.runs j p → e = .run j e' →
      (s'.runs i = s.runs i ∧ runOutputs i (o.map fun o => (s.now, .run j o)) = []) ∨
        ∃ e', e = .run i e' ∧ (s.runs i).step (sys.dispatch i) e' =
          some (s'.runs i, runOutputs i (o.map fun o => (s.now, .run j o))) := by
    intro j e' p o s' hs heq he
    by_cases hj : i = j
    · subst hj
      refine .inr ⟨e', he, ?_⟩
      rw [heq, Function.update_self, runOutputs_map_self, hs]
    · left
      rw [heq, Function.update_of_ne hj]
      exact ⟨rfl, runOutputs_map_of_ne (Ne.symm hj) o s.now⟩
  cases hr with
  | tick t ht => exact .inl ⟨rfl, rfl⟩
  | put j e' p key jpeg ttlSec hs => exact hone j e' p _ _ hs rfl rfl
  | publish j e' p ref hs => exact hone j e' p _ _ hs rfl rfl
  | run j e' p o hs => exact hone j e' p o _ hs rfl rfl
  | fleet e' f o hown hans hs => exact .inl ⟨rfl, runOutputs_fleet i e' o s.now⟩

/-- A run in the system is a run of its own. -/
theorem reach_run (hr : (machine sys).Reach ok (start sys now₀) s h) (i : ℕ) :
    (Pipeline.machine (sys.dispatch i)).Reach Machine.anyStep
      ((sys.requests i).start (sys.jobs i)) (s.runs i) (runOutputs i h) := by
  induction hr with
  | init => exact .init
  | @step s s' h out e hr ho hs ih =>
    rw [runOutputs_append]
    rcases (Rule.of_step hs).run_or i with ⟨hsame, hnil⟩ | ⟨e', -, hstep⟩
    · rw [hsame, hnil, List.append_nil]
      exact ih
    · exact ih.step trivial hstep

end System

namespace Fleet

variable {cfg : DetectorSettings} {n : ℕ} {ok : Fleet → List Output → Event → Prop} {f f₀ : Fleet}
  {h : List Output}

/-- Only a publish publishes. -/
lemma Rule.published_eq_nil {e : Event} {f' : Fleet} {out : List Output}
    (hr : Rule cfg n f e f' out) (hne : ∀ ref, e ≠ .publish ref) : published out = [] := by
  cases hr with
  | publish ref => exact absurd rfl (hne ref)
  | take d i now x w as hd hx hw => simp [published, Output.published?]
  | work d op pos w as guard hd hw hg => exact published_map_replica d _
  | deliver | expire | crash => rfl

/-- Where keys may expire, any of them may be gone. -/
lemma reach_filter (hexpire : ∀ f h key, ok f h (.expire key))
    (hr : (machine cfg n).Reach ok f₀ f h) (p : String → Bool) :
    (machine cfg n).Reach ok f₀ { f with guard := f.guard.filter p } h := by
  have hkeys : ∀ ks : List String,
      (machine cfg n).Reach ok f₀ { f with guard := f.guard.filter (· ∉ ks) } h := by
    intro ks
    induction ks with
    | nil => simpa using hr
    | cons k ks ih =>
      have hs := ih.step (hexpire _ _ k) (e := .expire k) (o := []) rfl
      rw [List.append_nil, List.filter_filter] at hs
      simpa [not_or] using hs
  have h := hkeys (f.guard.filter fun k => !p k)
  have hfilter : f.guard.filter (· ∉ f.guard.filter fun k => !p k) = f.guard.filter p := by
    apply List.filter_congr
    intro k hk
    simp [hk]
  rwa [hfilter] at h

end Fleet

namespace System

variable {sys : Deployment} {s s' : System} {e : Event} {out h : List (ℚ × Output)} {now₀ : ℚ}
  {ok : System → List (ℚ × Output) → Event → Prop}
  {okFleet : Fleet → List Fleet.Output → Fleet.Event → Prop}

lemma ofFleet_ne_publish {e : Fleet.Event} (hown : ofFleet e = true) (ref : FrameRef) :
    e ≠ .publish ref := by
  rintro rfl
  cases hown

/-- The fleet in the system is a fleet that runs on its own: the runs publish to it, and its guard
forgets the keys whose deadline has passed. -/
theorem reach_fleet (hpublish : ∀ f h ref, okFleet f h (.publish ref))
    (hexpire : ∀ f h key, okFleet f h (.expire key))
    (hfleet : ∀ s h e, ok s h (.fleet e) → okFleet s.current (fleetOutputs h) e)
    (hr : (machine sys).Reach ok (start sys now₀) s h) :
    (Fleet.machine sys.detector sys.detectors).Reach okFleet Fleet.init s.fleet
      (fleetOutputs h) := by
  induction hr with
  | init => exact .init
  | @step s s' h out e hr ho hs ih =>
    rw [fleetOutputs_append]
    cases Rule.of_step hs with
    | tick t ht =>
      rw [show fleetOutputs [] = [] from rfl, List.append_nil]
      exact ih
    | put i e p key jpeg ttlSec hs =>
      rw [show fleetOutputs [(s.now, .run i (.put key jpeg ttlSec))] = [] from rfl, List.append_nil]
      exact ih
    | publish i e p ref hs => exact ih.step (hpublish _ _ ref) rfl
    | run i e p o hs hput hpub =>
      rw [fleetOutputs_run hpub, List.append_nil]
      exact ih
    | fleet e f o hown hans hf =>
      rw [fleetOutputs_fleet]
      exact (Fleet.reach_filter hexpire ih _).step (hfleet s h e ho) hf

/-- The same without a restriction. -/
lemma reach_fleet_any (hr : (machine sys).Reach ok (start sys now₀) s h) :
    (Fleet.machine sys.detector sys.detectors).Reach Machine.anyStep Fleet.init s.fleet
      (fleetOutputs h) :=
  reach_fleet (fun _ _ _ => trivial) (fun _ _ _ => trivial) (fun _ _ _ _ => trivial) hr

/-- A step puts out what it does at the time of the clock, which does not go back. -/
lemma Rule.times (hr : Rule sys s e s' out) : s.now ≤ s'.now ∧ ∀ y ∈ out, y.1 = s.now := by
  have hmap : ∀ {α : Type} (o : List α) (g : α → Output), ∀ y ∈ o.map fun a => (s.now, g a),
      y.1 = s.now := by
    intro α o g y hy
    obtain ⟨a, -, rfl⟩ := List.mem_map.mp hy
    rfl
  cases hr with
  | tick t ht =>
    refine ⟨ht, ?_⟩
    rintro y ⟨⟩
  | put | publish => exact ⟨le_rfl, fun y hy => by rw [List.mem_singleton.mp hy]⟩
  | run i e p o => exact ⟨le_rfl, hmap o (.run i)⟩
  | fleet e f o => exact ⟨le_rfl, hmap _ id⟩

/-- The outputs of a history lie between its start and the present. -/
lemma elapsed (hr : (machine sys).Reach ok (start sys now₀) s h) :
    now₀ ≤ s.now ∧ ∀ y ∈ h, now₀ ≤ y.1 ∧ y.1 ≤ s.now := by
  induction hr with
  | init =>
    refine ⟨le_rfl, ?_⟩
    rintro y ⟨⟩
  | step hr ho hs ih =>
    obtain ⟨hnow, hout⟩ := (Rule.of_step hs).times
    refine ⟨ih.1.trans hnow, fun y hy => ?_⟩
    rcases List.mem_append.mp hy with hy | hy
    · exact ⟨(ih.2 y hy).1, (ih.2 y hy).2.trans hnow⟩
    · rw [hout y hy]
      exact ⟨ih.1, hnow⟩

end System

end VideoPipeline

import VideoPipeline.Analyzer.Service

/-!
# Concurrent requests in one process

`AnalysisService.analyze`. A request is admitted when a slot is free, checks the infrastructure,
opens its video and reserves its resume key. The check of the reservation and the reservation are in
one step, since nothing is awaited between them. Each `finally` block releases what was taken before
it.
-/

namespace VideoPipeline

/-- What a service is constructed with. Ids of videos and resume keys are digests. -/
structure ServiceConfig where
  settings : AnalyzerSettings
  maxConcurrentJobs : ℕ := 4
  makeVideoId : String → String
  resumeKey : String → ℤ → String
  maxConcurrent_pos : 0 < maxConcurrentJobs := by decide

inductive CallError where
  | tooManyConcurrentJobs (limit : ℕ)
  | infrastructureUnavailable (message : String)
  | jobAlreadyRunning (jobId : String)
  | invalidFrameRate (err : InvalidFrameRate)
  /-- What opening or closing the video, or asking for its metadata, has raised. -/
  | raised (exc : String)
  | service (err : ServiceError)
  deriving DecidableEq, Repr

/-- `asyncio.Semaphore`. -/
structure Semaphore where
  value : ℕ
  waiters : ℕ
  deriving DecidableEq, Repr

namespace Semaphore

def locked (s : Semaphore) : Bool := s.value = 0 || 0 < s.waiters

/-- Whether the caller is admitted at once, and the semaphore then. -/
def acquire (s : Semaphore) : Bool × Semaphore :=
  if s.locked then (false, { s with waiters := s.waiters + 1 })
  else (true, { s with value := s.value - 1 })

/-- One who waits is admitted. -/
def wake (s : Semaphore) : Option Semaphore :=
  if 0 < s.value ∧ 0 < s.waiters then some ⟨s.value - 1, s.waiters - 1⟩ else none

def release (s : Semaphore) : Semaphore := { s with value := s.value + 1 }

lemma value_of_wake {s s' : Semaphore} (hw : s.wake = some s') : s'.value + 1 = s.value := by
  rw [wake] at hw
  split at hw
  · next h =>
    cases hw
    exact Nat.sub_add_cancel h.1
  · cases hw

lemma acquire_of_not_locked {s : Semaphore} (h : s.locked = false) :
    s.acquire = (true, { s with value := s.value - 1 }) ∧ 0 < s.value := by
  refine ⟨by rw [acquire, h]; rfl, ?_⟩
  rw [locked, Bool.or_eq_false_iff, decide_eq_false_iff_not] at h
  exact Nat.pos_of_ne_zero h.1

end Semaphore

/-- One call of `analyze`, at the await it is in. -/
inductive Call where
  /-- It has not been made. -/
  | absent
  | waiting (path : String) (targetFps : ℤ)
  | pingingBroker (path : String) (targetFps : ℤ)
  | pingingStore (path : String) (targetFps : ℤ) (brokerOk : Bool)
  | opening (path : String) (targetFps : ℤ)
  /-- Between reserving its resume key and releasing it. -/
  | working (req : Request) (phase : Phase)
  | closing (result : Except CallError AnalysisOutcome)
  | exited (result : Except CallError AnalysisOutcome)

namespace Call

/-- What the calls share. -/
structure Shared where
  slots : Semaphore
  /-- The job id under each reserved resume key, empty while it is not known. -/
  inFlight : String → Option String

inductive Op where
  | woken
  | brokerPinged (ok : Bool)
  | storePinged (ok : Bool)
  /-- The video is open; its metadata is asked for. -/
  | opened (metadata : Except String Video)
  /-- A step between the reservation and its release, with the record that an awaited call of the
  job repository is about. -/
  | work (e : Analysis.Event) (record : Option JobRecord)
  | closed
  /-- The awaited call raises. -/
  | raised (exc : String)

inductive Output where
  | pinged
  | opened
  | closed
  | reserved (key : String)
  | released (key : String)
  | refused (key : String)
  /-- A call of the job repository. -/
  | repository
  | published (ref : FrameRef)
  deriving DecidableEq, Repr

/-- The request for an open video, if its rate is accepted. -/
def openRequest (cfg : ServiceConfig) (path : String) (targetFps : ℤ) (v : Video) :
    Except InvalidFrameRate Request :=
  match h : FrameSampler.new v.sourceFps targetFps 0 with
  | .error err => .error err
  | .ok probe  => .ok
    { settings := cfg.settings
      source := v
      videoId := cfg.makeVideoId path
      resumeKey := cfg.resumeKey (cfg.makeVideoId path) targetFps
      targetFps := targetFps
      probe := probe
      accepted := h }

/-- `_require_infrastructure` when one of the two does not answer well. -/
def unavailable (brokerOk storeOk : Bool) : String :=
  "unavailable: " ++ ", ".intercalate
    ([("broker", brokerOk), ("frame store", storeOk)].filterMap fun p =>
      if p.2 then none else some p.1)

/-- The calls that a step makes of the job repository and the publisher. -/
def uses (e : Analysis.Event) (out : List Analysis.Output) : List Output :=
  match e with
  | .found .. | .started _ | .saved _ | .marked _ | .repoRaised .. => [.repository]
  | .run .. =>
    out.filterMap fun o =>
      match o with
      | .run (.published ref)                          => some (.published ref)
      | .run (.checkpoint _) | .run (.checkpointRaised _) => some .repository
      | _                                              => none
  | .returned | .die => []

/-- The job id is entered under the resume key once the job is started. -/
def register (inFlight : String → Option String) (key : String) :
    Analysis.Event → Phase → String → Option String
  | .started _, .running job _ => Function.update inFlight key (some job.jobId)
  | _, _                       => inFlight

def step (cfg : ServiceConfig) (sh : Shared) (call : Call) :
    Op → Option (Shared × Call × List Output)
  | .woken =>
    match call, sh.slots.wake with
    | .waiting path fps, some slots =>
      some ({ sh with slots := slots }, .pingingBroker path fps, [])
    | _, _ => none
  | .brokerPinged ok =>
    match call with
    | .pingingBroker path fps => some (sh, .pingingStore path fps ok, [.pinged])
    | _                       => none
  | .storePinged ok =>
    match call with
    | .pingingStore path fps brokerOk =>
      if brokerOk && ok then some (sh, .opening path fps, [])
      else some ({ sh with slots := sh.slots.release },
        .exited (.error (.infrastructureUnavailable (unavailable brokerOk ok))), [])
    | _ => none
  | .opened (.error exc) =>
    match call with
    | .opening _ _ => some (sh, .closing (.error (.raised exc)), [.opened])
    | _            => none
  | .opened (.ok v) =>
    match call with
    | .opening path fps =>
      match openRequest cfg path fps v with
      | .error err => some (sh, .closing (.error (.invalidFrameRate err)), [.opened])
      | .ok req =>
        match sh.inFlight req.resumeKey with
        | some reserved =>
          some (sh,
            .closing (.error (.jobAlreadyRunning (if reserved = "" then "starting" else reserved))),
            [.opened, .refused req.resumeKey])
        | none =>
          some ({ sh with inFlight := Function.update sh.inFlight req.resumeKey (some "") },
            .working req .finding, [.opened, .reserved req.resumeKey])
    | _ => none
  | .work e record =>
    match call with
    | .working req ph =>
      if e = .die then none
      else
        match Analysis.step req ⟨record, ph⟩ e with
        | some (⟨_, .exited _ result⟩, out) =>
          some ({ sh with inFlight := Function.update sh.inFlight req.resumeKey none },
            .closing (result.mapError .service), uses e out ++ [.released req.resumeKey])
        | some (⟨_, ph'⟩, out) =>
          some ({ sh with inFlight := register sh.inFlight req.resumeKey e ph' },
            .working req ph', uses e out)
        | none => none
    | _ => none
  | .closed =>
    match call with
    | .closing result => some ({ sh with slots := sh.slots.release }, .exited result, [.closed])
    | _               => none
  | .raised exc =>
    match call with
    | .pingingBroker _ _ =>
      some ({ sh with slots := sh.slots.release }, .exited (.error (.infrastructureUnavailable
        ("dependency check failed: " ++ exc))), [.pinged])
    | .pingingStore _ _ _ =>
      some ({ sh with slots := sh.slots.release }, .exited (.error (.infrastructureUnavailable
        ("dependency check failed: " ++ exc))), [])
    | .opening _ _ =>
      some ({ sh with slots := sh.slots.release }, .exited (.error (.raised exc)), [])
    | .closing _ =>
      some ({ sh with slots := sh.slots.release }, .exited (.error (.raised exc)), [.closed])
    | _ => none

/-- The steps of a call. -/
inductive Rule (cfg : ServiceConfig) (sh : Shared) : Call → Op → Shared → Call → List Output →
    Prop where
  | woken (path : String) (fps : ℤ) (slots : Semaphore) (hw : sh.slots.wake = some slots) :
      Rule cfg sh (.waiting path fps) .woken { sh with slots := slots } (.pingingBroker path fps) []
  | brokerPinged (path : String) (fps : ℤ) (ok : Bool) :
      Rule cfg sh (.pingingBroker path fps) (.brokerPinged ok) sh (.pingingStore path fps ok)
        [.pinged]
  | available (path : String) (fps : ℤ) (brokerOk ok : Bool) :
      Rule cfg sh (.pingingStore path fps brokerOk) (.storePinged ok) sh (.opening path fps) []
  | unavailable (path : String) (fps : ℤ) (brokerOk ok : Bool) (err : CallError) :
      Rule cfg sh (.pingingStore path fps brokerOk) (.storePinged ok)
        { sh with slots := sh.slots.release } (.exited (.error err)) []
  | unusable (path : String) (fps : ℤ) (metadata : Except String Video) (err : CallError)
      (herr : ∀ jobId, err ≠ .jobAlreadyRunning jobId) :
      Rule cfg sh (.opening path fps) (.opened metadata) sh (.closing (.error err)) [.opened]
  | refused (path : String) (fps : ℤ) (v : Video) (req : Request) (reserved : String)
      (hreq : openRequest cfg path fps v = .ok req)
      (hres : sh.inFlight req.resumeKey = some reserved) :
      Rule cfg sh (.opening path fps) (.opened (.ok v)) sh
        (.closing (.error (.jobAlreadyRunning (if reserved = "" then "starting" else reserved))))
        [.opened, .refused req.resumeKey]
  | reserved (path : String) (fps : ℤ) (v : Video) (req : Request)
      (hreq : openRequest cfg path fps v = .ok req) (hres : sh.inFlight req.resumeKey = none) :
      Rule cfg sh (.opening path fps) (.opened (.ok v))
        { sh with inFlight := Function.update sh.inFlight req.resumeKey (some "") }
        (.working req .finding) [.opened, .reserved req.resumeKey]
  | work (req : Request) (ph ph' : Phase) (e : Analysis.Event) (record record' : Option JobRecord)
      (out : List Analysis.Output) (hx : ∀ run result, ph' ≠ .exited run result)
      (hs : Analysis.step req ⟨record, ph⟩ e = some (⟨record', ph'⟩, out)) :
      Rule cfg sh (.working req ph) (.work e record)
        { sh with inFlight := register sh.inFlight req.resumeKey e ph' } (.working req ph')
        (uses e out)
  | leave (req : Request) (ph : Phase) (e : Analysis.Event) (record record' : Option JobRecord)
      (run : Option (Job × Pipeline)) (result : Except ServiceError AnalysisOutcome)
      (out : List Analysis.Output)
      (hs : Analysis.step req ⟨record, ph⟩ e = some (⟨record', .exited run result⟩, out)) :
      Rule cfg sh (.working req ph) (.work e record)
        { sh with inFlight := Function.update sh.inFlight req.resumeKey none }
        (.closing (result.mapError .service)) (uses e out ++ [.released req.resumeKey])
  | closed (result : Except CallError AnalysisOutcome) :
      Rule cfg sh (.closing result) .closed { sh with slots := sh.slots.release } (.exited result)
        [.closed]
  | brokerRaised (path : String) (fps : ℤ) (exc : String) (err : CallError) :
      Rule cfg sh (.pingingBroker path fps) (.raised exc) { sh with slots := sh.slots.release }
        (.exited (.error err)) [.pinged]
  | storeRaised (path : String) (fps : ℤ) (brokerOk : Bool) (exc : String) (err : CallError) :
      Rule cfg sh (.pingingStore path fps brokerOk) (.raised exc)
        { sh with slots := sh.slots.release } (.exited (.error err)) []
  | openRaised (path : String) (fps : ℤ) (exc : String) :
      Rule cfg sh (.opening path fps) (.raised exc) { sh with slots := sh.slots.release }
        (.exited (.error (.raised exc))) []
  | closeRaised (result : Except CallError AnalysisOutcome) (exc : String) :
      Rule cfg sh (.closing result) (.raised exc) { sh with slots := sh.slots.release }
        (.exited (.error (.raised exc))) [.closed]

variable {cfg : ServiceConfig} {sh sh' : Shared} {call call' : Call} {op : Op} {out : List Output}

lemma Rule.of_step (hs : call.step cfg sh op = some (sh', call', out)) :
    Rule cfg sh call op sh' call' out := by
  cases op with
  | woken =>
    simp only [step] at hs
    split at hs
    · next hw =>
      cases hs
      exact .woken _ _ _ hw
    · cases hs
  | brokerPinged ok =>
    cases call <;> simp only [step, reduceCtorEq] at hs
    cases hs
    exact .brokerPinged _ _ ok
  | storePinged ok =>
    cases call <;> simp only [step, reduceCtorEq] at hs
    split at hs
    · cases hs
      exact .available _ _ _ _
    · cases hs
      exact .unavailable _ _ _ _ _
  | opened metadata =>
    cases metadata with
    | error exc =>
      cases call <;> simp only [step, reduceCtorEq] at hs
      cases hs
      exact .unusable _ _ _ _ (by simp)
    | ok v =>
      cases call <;> simp only [step, reduceCtorEq] at hs
      split at hs
      · cases hs
        exact .unusable _ _ _ _ (by simp)
      · next req hreq =>
        split at hs
        · next reserved hres =>
          cases hs
          exact .refused _ _ v req reserved hreq hres
        · next hres =>
          cases hs
          exact .reserved _ _ v req hreq hres
  | work e record =>
    cases call <;> simp only [step, reduceCtorEq] at hs
    split at hs
    · cases hs
    · split at hs
      · next hs' =>
        cases hs
        exact .leave _ _ e record _ _ _ _ hs'
      · next ph' _ hx hs' =>
        cases hs
        refine .work _ _ _ e record _ _ ?_ hs'
        rintro run result rfl
        exact hx _ _ rfl
      · cases hs
  | closed =>
    cases call <;> simp only [step, reduceCtorEq] at hs
    cases hs
    exact .closed _
  | raised exc =>
    cases call <;> simp only [step, reduceCtorEq] at hs <;> cases hs
    case raised.pingingBroker.refl => exact .brokerRaised _ _ exc _
    case raised.pingingStore.refl => exact .storeRaised _ _ _ exc _
    case raised.opening.refl => exact .openRaised _ _ exc
    case raised.closing.refl => exact .closeRaised _ exc

/-! ### What a call has taken -/

/-- The slots that a call holds. -/
def admitted : Call → ℕ
  | .absent | .waiting _ _ | .exited _ => 0
  | _                                  => 1

/-- A call is past its reservation and before the release of it. -/
def holds (key : String) : Call → ℕ
  | .working req _ => if req.resumeKey = key then 1 else 0
  | _              => 0

def isWaiting : Call → Bool
  | .waiting _ _ => true
  | _            => false

/-- How often a resume key is reserved. -/
def Shared.reservations (sh : Shared) (key : String) : ℕ :=
  if (sh.inFlight key).isSome then 1 else 0

lemma reservations_update (sh : Shared) (slots : Semaphore) (key key' : String)
    (value : Option String) :
    (⟨slots, Function.update sh.inFlight key value⟩ : Shared).reservations key' =
      if key = key' then (if value.isSome then 1 else 0) else sh.reservations key' := by
  by_cases hk : key = key'
  · subst hk
    simp [Shared.reservations]
  · simp [Shared.reservations, hk, Function.update_of_ne (Ne.symm hk)]

lemma register_eq (inFlight : String → Option String) (key : String) (e : Analysis.Event)
    (ph : Phase) : register inFlight key e ph = inFlight ∨
      ∃ jobId, register inFlight key e ph = Function.update inFlight key (some jobId) := by
  cases e <;> cases ph <;> first | exact .inl rfl | exact .inr ⟨_, rfl⟩

/-- A slot is free or held. -/
lemma Rule.slots (hr : Rule cfg sh call op sh' call' out) :
    sh'.slots.value + call'.admitted = sh.slots.value + call.admitted := by
  cases hr with
  | woken path fps slots hw => exact Semaphore.value_of_wake hw
  | _ => rfl

/-- No call comes to wait. -/
lemma Rule.waiters (hr : Rule cfg sh call op sh' call' out) (hw : call.isWaiting = false) :
    call'.isWaiting = false ∧ sh'.slots.waiters = sh.slots.waiters := by
  cases hr with
  | woken => cases hw
  | _ => exact ⟨rfl, rfl⟩

/-- A key is reserved by the call that holds it. -/
lemma Rule.reservations (hr : Rule cfg sh call op sh' call' out) (key : String)
    (hh : ∀ key, call.holds key ≤ sh.reservations key) :
    sh'.reservations key + call.holds key = sh.reservations key + call'.holds key := by
  cases hr with
  | reserved path fps v req hreq hres =>
    rw [reservations_update]
    by_cases hk : req.resumeKey = key
    · subst hk
      simp [holds, Shared.reservations, hres]
    · simp [holds, hk]
  | work req ph ph' e record record' o hx hs =>
    have hone := hh req.resumeKey
    rw [holds, if_pos rfl] at hone
    rcases register_eq sh.inFlight req.resumeKey e ph' with heq | ⟨jobId, heq⟩
    · rw [heq]
      rfl
    · rw [heq, reservations_update]
      by_cases hk : req.resumeKey = key
      · subst hk
        have hle : sh.reservations req.resumeKey ≤ 1 := by
          rw [Shared.reservations]
          split <;> decide
        simp only [holds, if_pos, Option.isSome_some]
        omega
      · simp [holds, hk]
  | leave req ph e record record' run result o hs =>
    have hone := hh req.resumeKey
    rw [holds, if_pos rfl] at hone
    rw [reservations_update]
    by_cases hk : req.resumeKey = key
    · subst hk
      have hle : sh.reservations req.resumeKey ≤ 1 := by
        rw [Shared.reservations]
        split <;> decide
      simp only [holds, if_pos, Option.isSome_none, Bool.false_eq_true, if_false]
      omega
    · simp [holds, hk]
  | _ => rfl

/-! ### What a call has done -/

/-- How a call ends that was refused: with that error, unless closing its video has raised. -/
def Refusal : Except CallError AnalysisOutcome → Prop
  | .error (.jobAlreadyRunning _) | .error (.raised _) => True
  | _                                                  => False

/-- What a call that was refused has not done. -/
def Untouched (mine : List Output) : Prop :=
  .repository ∉ mine ∧ (∀ ref, .published ref ∉ mine) ∧ (∀ key, .reserved key ∉ mine) ∧
    ∀ key, .released key ∉ mine

/-- The outputs of a call, by where it is. -/
def Done (mine : List Output) : Call → Prop
  | .working _ _ => mine.count .opened = 1 ∧ .closed ∉ mine ∧ ∀ key, .refused key ∉ mine
  | .closing result => mine.count .opened = 1 ∧ .closed ∉ mine ∧
      ∀ key, .refused key ∈ mine →
        (∃ jobId, result = .error (.jobAlreadyRunning jobId)) ∧ Untouched mine
  | .exited result => mine.count .closed = mine.count .opened ∧ mine.count .opened ≤ 1 ∧
      ∀ key, .refused key ∈ mine → Refusal result ∧ Untouched mine
  | _ => ∀ o ∈ mine, o = .pinged

lemma not_mem_uses (e : Analysis.Event) (o : List Analysis.Output) :
    .opened ∉ uses e o ∧ .closed ∉ uses e o ∧ ∀ key, .refused key ∉ uses e o := by
  have hrun : ∀ x, x ∈ uses e o → x = .repository ∨ ∃ ref, x = .published ref := by
    intro x hx
    cases e with
    | run e now =>
      obtain ⟨y, -, hy⟩ := List.mem_filterMap.mp hx
      split at hy <;> cases hy
      · exact .inr ⟨_, rfl⟩
      · exact .inl rfl
      · exact .inl rfl
    | returned | die => cases hx
    | _ => exact .inl (List.mem_singleton.mp hx)
  refine ⟨fun h => ?_, fun h => ?_, fun key h => ?_⟩ <;>
  · rcases hrun _ h with h | ⟨_, h⟩ <;> cases h

/-- What a call that has only asked the infrastructure has not done. -/
lemma of_pinged {mine : List Output} (h : ∀ o ∈ mine, o = .pinged) :
    mine.count .opened = 0 ∧ mine.count .closed = 0 ∧ (∀ key, .refused key ∉ mine) ∧
      Untouched mine := by
  have hno : ∀ o, o ≠ .pinged → o ∉ mine := fun o hne ho => hne (h o ho)
  exact ⟨List.count_eq_zero.mpr (hno _ (by simp)), List.count_eq_zero.mpr (hno _ (by simp)),
    fun key => hno _ (by simp), hno _ (by simp), fun ref => hno _ (by simp),
    fun key => hno _ (by simp), fun key => hno _ (by simp)⟩

lemma Untouched.append {mine : List Output} (hu : Untouched mine) {o : Output}
    (ho : Untouched [o]) : Untouched (mine ++ [o]) := by
  obtain ⟨h₁, h₂, h₃, h₄⟩ := hu
  obtain ⟨h₁', h₂', h₃', h₄'⟩ := ho
  refine ⟨?_, fun ref => ?_, fun key => ?_, fun key => ?_⟩ <;>
  · rw [List.mem_append, not_or]
    exact ⟨by first | exact h₁ | exact h₂ _ | exact h₃ _ | exact h₄ _,
      by first | exact h₁' | exact h₂' _ | exact h₃' _ | exact h₄' _⟩

lemma Done.of_pinged {mine : List Output} (h : ∀ o ∈ mine, o = .pinged)
    (result : Except CallError AnalysisOutcome) : Done mine (.exited result) := by
  obtain ⟨ho, hc, hr, -⟩ := Call.of_pinged h
  exact ⟨by rw [ho, hc], by rw [ho]; exact Nat.zero_le _, fun key hk => absurd hk (hr key)⟩

/-- A call whose video is closed. -/
lemma Done.exit {mine : List Output} {result result' : Except CallError AnalysisOutcome}
    (hd : Done mine (.closing result))
    (hres : (∃ jobId, result = .error (.jobAlreadyRunning jobId)) → Refusal result') :
    Done (mine ++ [.closed]) (.exited result') := by
  obtain ⟨hopen, hclose, href⟩ := hd
  refine ⟨?_, ?_, ?_⟩
  · rw [List.count_append, List.count_append, List.count_eq_zero.mpr hclose, hopen]
    rfl
  · rw [List.count_append, hopen]
    exact le_rfl
  · intro key hkey
    rw [List.mem_append] at hkey
    rcases hkey with hkey | hkey
    · obtain ⟨hr, hu⟩ := href key hkey
      exact ⟨hres hr, hu.append (by simp [Untouched])⟩
    · simp at hkey

lemma Rule.done (hr : Rule cfg sh call op sh' call' out) {mine : List Output}
    (hd : Done mine call) : Done (mine ++ out) call' := by
  cases hr with
  | woken | available =>
    rw [List.append_nil]
    exact hd
  | brokerPinged =>
    intro o ho
    rcases List.mem_append.mp ho with ho | ho
    · exact hd o ho
    · exact List.mem_singleton.mp ho
  | unavailable | storeRaised | openRaised =>
    rw [List.append_nil]
    exact .of_pinged hd _
  | brokerRaised =>
    refine .of_pinged (fun o ho => ?_) _
    rcases List.mem_append.mp ho with ho | ho
    · exact hd o ho
    · exact List.mem_singleton.mp ho
  | unusable path fps metadata err herr =>
    obtain ⟨ho, hc, hr, -⟩ := of_pinged hd
    refine ⟨?_, ?_, fun key hkey => ?_⟩
    · rw [List.count_append, ho]
      rfl
    · simpa using List.count_eq_zero.mp hc
    · simp [hr key] at hkey
  | refused path fps v req reserved =>
    obtain ⟨ho, hc, hr, hu⟩ := of_pinged hd
    refine ⟨?_, ?_, fun key _ => ⟨⟨_, rfl⟩, ?_⟩⟩
    · rw [List.count_append, ho]
      simp
    · simpa using List.count_eq_zero.mp hc
    · rw [List.append_cons]
      exact (hu.append (by simp [Untouched])).append (by simp [Untouched])
  | reserved path fps v req =>
    obtain ⟨ho, hc, hr, hu⟩ := of_pinged hd
    refine ⟨?_, ?_, fun key => ?_⟩
    · rw [List.count_append, ho]
      simp
    · simpa using List.count_eq_zero.mp hc
    · simpa using hr key
  | work req ph ph' e record record' o hx hs =>
    obtain ⟨hopen, hclose, href⟩ := hd
    obtain ⟨ho, hc, hr⟩ := not_mem_uses e o
    refine ⟨?_, ?_, fun key => ?_⟩
    · rw [List.count_append, hopen, List.count_eq_zero.mpr ho]
    · simp [hclose, hc]
    · simp [href key, hr key]
  | leave req ph e record record' run result o hs =>
    obtain ⟨hopen, hclose, href⟩ := hd
    obtain ⟨ho, hc, hr⟩ := not_mem_uses e o
    refine ⟨?_, ?_, fun key hkey => ?_⟩
    · rw [List.count_append, hopen, List.count_eq_zero.mpr (by simp [ho])]
    · simp [hclose, hc]
    · simp [href key, hr key] at hkey
  | closed result =>
    refine hd.exit ?_
    rintro ⟨jobId, rfl⟩
    exact trivial
  | closeRaised result exc => exact hd.exit fun _ => trivial

/-- A call that was refused leaves the reservations alone. -/
lemma Rule.inFlight_of_refused (hr : Rule cfg sh call op sh' call' out) {mine : List Output}
    (hd : Done mine call) {key : String} (hkey : .refused key ∈ mine ++ out) :
    sh'.inFlight = sh.inFlight := by
  have hpinged : ∀ {o : List Output}, (∀ o ∈ mine, o = .pinged) → (∀ key, .refused key ∉ o) →
      .refused key ∉ mine ++ o := by
    intro o hm ho hmem
    rcases List.mem_append.mp hmem with h | h
    · exact (of_pinged hm).2.2.1 key h
    · exact ho key h
  cases hr with
  | reserved => exact absurd hkey (hpinged hd (by simp))
  | work req ph ph' e record record' o hx hs =>
    rcases List.mem_append.mp hkey with h | h
    · exact absurd h (hd.2.2 key)
    · exact absurd h ((not_mem_uses e o).2.2 key)
  | leave req ph e record record' run result o hs =>
    rcases List.mem_append.mp hkey with h | h
    · exact absurd h (hd.2.2 key)
    · simp [(not_mem_uses e o).2.2 key] at h
  | _ => rfl

end Call

/-- The service of one process: what its calls share, and the calls in the order in which they were
made. -/
structure AnalysisService extends Call.Shared where
  made : ℕ
  calls : ℕ → Call

namespace AnalysisService

def start (cfg : ServiceConfig) : AnalysisService :=
  ⟨⟨⟨cfg.maxConcurrentJobs, 0⟩, fun _ => none⟩, 0, fun _ => .absent⟩

inductive Event where
  /-- `analyze` is called: nothing is awaited between the look at the slots and taking one. -/
  | analyze (path : String) (targetFps : ℤ)
  | step (c : ℕ) (op : Call.Op)

/-- The service after another call, that comes to a first await or is refused. -/
def call (s : AnalysisService) (slots : Semaphore) (c : Call) : AnalysisService :=
  ⟨⟨slots, s.inFlight⟩, s.made + 1, Function.update s.calls s.made c⟩

def step (cfg : ServiceConfig) (s : AnalysisService) :
    Event → Option (AnalysisService × List (ℕ × Call.Output))
  | .analyze path fps =>
    if s.slots.locked then
      some (s.call s.slots (.exited (.error (.tooManyConcurrentJobs cfg.maxConcurrentJobs))), [])
    else
      match s.slots.acquire with
      | (true, slots)  => some (s.call slots (.pingingBroker path fps), [])
      | (false, slots) => some (s.call slots (.waiting path fps), [])
  | .step c op =>
    match (s.calls c).step cfg s.toShared op with
    | some (sh, call, out) =>
      some (⟨sh, s.made, Function.update s.calls c call⟩, out.map fun o => (c, o))
    | none => none

def machine (cfg : ServiceConfig) : Machine AnalysisService Event (ℕ × Call.Output) := ⟨step cfg⟩

inductive Rule (cfg : ServiceConfig) (s : AnalysisService) :
    Event → AnalysisService → List (ℕ × Call.Output) → Prop where
  | full (path : String) (fps : ℤ) (hl : s.slots.locked = true) :
      Rule cfg s (.analyze path fps)
        (s.call s.slots (.exited (.error (.tooManyConcurrentJobs cfg.maxConcurrentJobs)))) []
  | admitted (path : String) (fps : ℤ) (hv : 0 < s.slots.value) :
      Rule cfg s (.analyze path fps)
        (s.call { s.slots with value := s.slots.value - 1 } (.pingingBroker path fps)) []
  | step (c : ℕ) (op : Call.Op) (sh : Call.Shared) (call : Call) (out : List Call.Output)
      (hr : Call.Rule cfg s.toShared (s.calls c) op sh call out) :
      Rule cfg s (.step c op) ⟨sh, s.made, Function.update s.calls c call⟩
        (out.map fun o => (c, o))

variable {cfg : ServiceConfig} {s s' : AnalysisService} {e : Event}
  {out h : List (ℕ × Call.Output)}

lemma Rule.of_step (hs : s.step cfg e = some (s', out)) : Rule cfg s e s' out := by
  cases e with
  | analyze path fps =>
    simp only [AnalysisService.step] at hs
    split at hs
    · next hl =>
      cases hs
      exact .full path fps hl
    · next hl =>
      obtain ⟨hacq, hv⟩ := Semaphore.acquire_of_not_locked (Bool.not_eq_true _ ▸ hl)
      rw [hacq] at hs
      cases hs
      exact .admitted path fps hv
  | step c op =>
    simp only [AnalysisService.step] at hs
    split at hs
    · next hc =>
      cases hs
      exact .step c op _ _ _ (.of_step hc)
    · cases hs

/-- What a call has put out. -/
def mine (h : List (ℕ × Call.Output)) (c : ℕ) : List Call.Output :=
  h.filterMap fun x => if x.1 = c then some x.2 else none

lemma mine_append (h₁ h₂ : List (ℕ × Call.Output)) (c : ℕ) :
    mine (h₁ ++ h₂) c = mine h₁ c ++ mine h₂ c :=
  List.filterMap_append

lemma mine_map (out : List Call.Output) (c c' : ℕ) :
    mine (out.map fun o => (c, o)) c' = if c = c' then out else [] := by
  by_cases hc : c = c'
  · subst hc
    rw [mine, if_pos rfl, List.filterMap_map]
    simp
  · rw [if_neg hc, mine, List.filterMap_eq_nil_iff]
    simp [hc]

lemma mem_mine {c : ℕ} {o : Call.Output} : o ∈ mine h c ↔ (c, o) ∈ h := by
  rw [mine, List.mem_filterMap]
  constructor
  · rintro ⟨⟨c', o'⟩, hmem, heq⟩
    split at heq
    · next hc =>
      cases heq
      rwa [← hc]
    · cases heq
  · intro hmem
    exact ⟨(c, o), hmem, if_pos rfl⟩

/-- What holds whatever the calls have come to. -/
structure Inv (cfg : ServiceConfig) (s : AnalysisService) (h : List (ℕ × Call.Output)) :
    Prop where
  slots : s.slots.value + ∑ c ∈ Finset.range s.made, (s.calls c).admitted = cfg.maxConcurrentJobs
  waiters : s.slots.waiters = 0 ∧ ∀ c, (s.calls c).isWaiting = false
  absent : ∀ c, s.made ≤ c → s.calls c = .absent
  reservations : ∀ key, ∑ c ∈ Finset.range s.made, (s.calls c).holds key = s.reservations key
  done : ∀ c, (s.calls c).Done (mine h c)

lemma Inv.start : Inv cfg (start cfg) [] := by
  refine ⟨?_, ⟨rfl, fun _ => rfl⟩, fun _ _ => rfl, fun _ => rfl, fun _ o ho => ?_⟩
  · simp [AnalysisService.start]
  · cases ho

/-- Another call, that has put out nothing. -/
lemma Inv.call (hinv : Inv cfg s h) {slots : Semaphore} {c : Call}
    (hslots : slots.value + c.admitted = s.slots.value) (hw : slots.waiters = s.slots.waiters)
    (hwait : c.isWaiting = false) (hholds : ∀ key, c.holds key = 0)
    (hdone : ∀ mine, (∀ o ∈ mine, o = .pinged) → c.Done mine) : Inv cfg (s.call slots c) h := by
  have hold : ∀ c' ∈ Finset.range s.made, (s.call slots c).calls c' = s.calls c' := by
    intro c' hc'
    exact Function.update_of_ne (Finset.mem_range.mp hc').ne _ _
  have hnew : (s.call slots c).calls s.made = c := Function.update_self _ _ _
  refine ⟨?_, ⟨hw.trans hinv.waiters.1, fun c' => ?_⟩, fun c' hc' => ?_, fun key => ?_,
    fun c' => ?_⟩
  · show slots.value + ∑ c' ∈ Finset.range (s.made + 1), _ = _
    rw [Finset.sum_range_succ, Finset.sum_congr rfl fun c' hc' => by rw [hold c' hc'], hnew]
    have := hinv.slots
    omega
  · by_cases hc : c' = s.made
    · rw [hc, hnew]
      exact hwait
    · exact (congrArg Call.isWaiting (Function.update_of_ne hc _ _)).trans (hinv.waiters.2 c')
  · have hlt : s.made < c' := hc'
    exact (Function.update_of_ne hlt.ne' _ _).trans (hinv.absent c' hlt.le)
  · show ∑ c' ∈ Finset.range (s.made + 1), _ = _
    rw [Finset.sum_range_succ, Finset.sum_congr rfl fun c' hc' => by rw [hold c' hc'], hnew,
      hholds, Nat.add_zero]
    exact hinv.reservations key
  · by_cases hc : c' = s.made
    · have hd := hinv.done c'
      rw [hinv.absent c' hc.ge] at hd
      rw [hc, hnew]
      exact hdone _ (hc ▸ hd)
    · have heq : (s.call slots c).calls c' = s.calls c' := Function.update_of_ne hc _ _
      rw [heq]
      exact hinv.done c'

/-- A key that a call holds is reserved. -/
lemma Inv.holds_le (hinv : Inv cfg s h) (c : ℕ) (key : String) :
    (s.calls c).holds key ≤ s.reservations key := by
  by_cases hc : c < s.made
  · rw [← hinv.reservations key]
    exact Family.le_sum (Call.holds key) s.calls hc
  · rw [hinv.absent c (not_lt.mp hc)]
    exact Nat.zero_le _

theorem Inv.step (hinv : Inv cfg s h) (hr : Rule cfg s e s' out) : Inv cfg s' (h ++ out) := by
  cases hr with
  | full path fps hl =>
    rw [List.append_nil]
    exact hinv.call rfl rfl rfl (fun _ => rfl) fun _ hm => .of_pinged hm _
  | admitted path fps hv =>
    rw [List.append_nil]
    exact hinv.call (Nat.sub_add_cancel hv) rfl rfl (fun _ => rfl) fun _ hm => hm
  | step c op sh call out hr =>
    have hc : c < s.made := by
      by_contra hc
      rw [hinv.absent c (not_lt.mp hc)] at hr
      cases hr
    have hself : Function.update s.calls c call c = call := Function.update_self _ _ _
    have hne : ∀ c', c' ≠ c → Function.update s.calls c call c' = s.calls c' :=
      fun c' h => Function.update_of_ne h _ _
    generalize Function.update s.calls c call = calls at hself hne ⊢
    refine ⟨?_, ⟨?_, fun c' => ?_⟩, fun c' hc' => ?_, fun key => ?_, fun c' => ?_⟩
    · have hsum := Family.sum_of_ne Call.admitted hc hne
      rw [hself] at hsum
      have hlocal := hr.slots
      have hold := hinv.slots
      show sh.slots.value + ∑ c ∈ Finset.range s.made, (calls c).admitted = _
      omega
    · exact (hr.waiters (hinv.waiters.2 c)).2.trans hinv.waiters.1
    · show (calls c').isWaiting = false
      by_cases hcc : c' = c
      · rw [hcc, hself]
        exact (hr.waiters (hinv.waiters.2 c)).1
      · rw [hne c' hcc]
        exact hinv.waiters.2 c'
    · have hcc : c' ≠ c := fun h => absurd (h ▸ hc' : s.made ≤ c) (not_le.mpr hc)
      exact (hne c' hcc).trans (hinv.absent c' hc')
    · have hsum := Family.sum_of_ne (Call.holds key) hc hne
      rw [hself] at hsum
      have hlocal := hr.reservations key (hinv.holds_le c)
      have hold := hinv.reservations key
      show ∑ c ∈ Finset.range s.made, (calls c).holds key = sh.reservations key
      omega
    · rw [mine_append, mine_map]
      by_cases hcc : c = c'
      · subst hcc
        rw [if_pos rfl]
        show Call.Done _ (calls c)
        rw [hself]
        exact hr.done (hinv.done c)
      · rw [if_neg hcc, List.append_nil]
        show Call.Done _ (calls c')
        rw [hne c' (Ne.symm hcc)]
        exact hinv.done c'

theorem Inv.of_reach {ok : AnalysisService → List (ℕ × Call.Output) → Event → Prop}
    (hr : (machine cfg).Reach ok (AnalysisService.start cfg) s h) : Inv cfg s h :=
  hr.invariant .start fun _ _ _ _ _ _ hinv _ hs => hinv.step (.of_step hs)

/-! ### Admission and refusal -/

/-- A call holds its resume key. -/
def Holds (s : AnalysisService) (c : ℕ) (key : String) : Prop :=
  ∃ req ph, s.calls c = .working req ph ∧ req.resumeKey = key

/-- Every call has exited. -/
def Idle (s : AnalysisService) : Prop := ∀ c < s.made, ∃ result, s.calls c = .exited result

lemma Holds.holds_eq {c : ℕ} {key : String} (hh : s.Holds c key) : (s.calls c).holds key = 1 := by
  obtain ⟨req, ph, hc, rfl⟩ := hh
  rw [hc, Call.holds, if_pos rfl]

namespace Inv

variable (hinv : Inv cfg s h)
include hinv

lemma lt_made {c : ℕ} (hc : s.calls c ≠ .absent) : c < s.made := by
  by_contra h
  exact hc (hinv.absent c (not_lt.mp h))

lemma holds_unique {c c' : ℕ} {key : String} (hc : s.Holds c key) (hc' : s.Holds c' key) :
    c = c' := by
  by_contra hne
  have hlt : ∀ {c}, s.Holds c key → c < s.made := by
    rintro c ⟨req, ph, heq, -⟩
    exact hinv.lt_made (by rw [heq]; simp)
  have hle := Family.add_le_sum (Call.holds key) s.calls (hlt hc) (hlt hc') hne
  rw [hc.holds_eq, hc'.holds_eq, hinv.reservations key, Call.Shared.reservations] at hle
  split at hle <;> omega

/-- When every call has exited nothing is taken. -/
lemma idle (hidle : s.Idle) :
    (∀ key, s.inFlight key = none) ∧ s.slots.value = cfg.maxConcurrentJobs := by
  constructor
  · intro key
    have hsum := hinv.reservations key
    rw [Finset.sum_eq_zero, Call.Shared.reservations] at hsum
    · cases hkey : s.inFlight key with
      | none => rfl
      | some jobId => simp [hkey] at hsum
    · intro c hc
      obtain ⟨result, heq⟩ := hidle c (Finset.mem_range.mp hc)
      rw [heq]
      rfl
  · have hsum := hinv.slots
    rw [Finset.sum_eq_zero, Nat.add_zero] at hsum
    · exact hsum
    · intro c hc
      obtain ⟨result, heq⟩ := hidle c (Finset.mem_range.mp hc)
      rw [heq]
      rfl

lemma closed_once (hidle : s.Idle) (c : ℕ) :
    (mine h c).count .opened ≤ 1 ∧ (mine h c).count .closed = (mine h c).count .opened := by
  have hd := hinv.done c
  by_cases hc : c < s.made
  · obtain ⟨result, heq⟩ := hidle c hc
    rw [heq] at hd
    exact ⟨hd.2.1, hd.1⟩
  · rw [hinv.absent c (not_lt.mp hc)] at hd
    obtain ⟨ho, hcl, -⟩ := Call.of_pinged hd
    rw [ho, hcl]
    exact ⟨Nat.zero_le _, rfl⟩

/-- A call that was refused is about to raise or has raised. -/
lemma refused {c : ℕ} {key : String} (hr : (c, .refused key) ∈ h) :
    Call.Untouched (mine h c) ∧
      ((∃ jobId, s.calls c = .closing (.error (.jobAlreadyRunning jobId))) ∨
        ∃ result, s.calls c = .exited result ∧ Call.Refusal result) := by
  rw [← mem_mine] at hr
  have hd := hinv.done c
  cases hc : s.calls c <;> rw [hc] at hd
  case closing result =>
    obtain ⟨⟨jobId, rfl⟩, hu⟩ := hd.2.2 key hr
    exact ⟨hu, .inl ⟨jobId, rfl⟩⟩
  case exited result =>
    obtain ⟨href, hu⟩ := hd.2.2 key hr
    exact ⟨hu, .inr ⟨result, rfl, href⟩⟩
  case working => exact absurd hr (hd.2.2 key)
  all_goals exact absurd hr ((Call.of_pinged hd).2.2.1 key)

end Inv

/-- Whatever the calls are and however their awaited calls interleave and fail: there are never more
calls past admission than slots and none waits for one; a resume key is held by one call at most; a
call that finds its key reserved raises, and takes part in nothing; and when all calls have exited
nothing is reserved, every slot is free and every open video was closed once. -/
theorem admission_and_refusal (cfg : ServiceConfig) :
    ∀ s h, (machine cfg).Reach Machine.anyStep (start cfg) s h →
      (∑ c ∈ Finset.range s.made, (s.calls c).admitted ≤ cfg.maxConcurrentJobs ∧
        ∀ c, (s.calls c).isWaiting = false) ∧
      (∀ key c c', s.Holds c key → s.Holds c' key → c = c') ∧
      (∀ c path fps v req reserved, s.calls c = .opening path fps →
        Call.openRequest cfg path fps v = .ok req → s.inFlight req.resumeKey = some reserved →
        s.step cfg (.step c (.opened (.ok v))) = some
          ({ s with calls := Function.update s.calls c (.closing (.error (.jobAlreadyRunning
            (if reserved = "" then "starting" else reserved)))) },
          [(c, .opened), (c, .refused req.resumeKey)])) ∧
      (∀ c key, (c, .refused key) ∈ h → Call.Untouched (mine h c) ∧
        ((∃ jobId, s.calls c = .closing (.error (.jobAlreadyRunning jobId))) ∨
          ∃ result, s.calls c = .exited result ∧ Call.Refusal result)) ∧
      (∀ c op key s' o, s.step cfg (.step c op) = some (s', o) → (c, .refused key) ∈ h ++ o →
        s'.inFlight = s.inFlight) ∧
      (s.Idle → (∀ key, s.inFlight key = none) ∧ s.slots.value = cfg.maxConcurrentJobs ∧
        ∀ c, (mine h c).count .opened ≤ 1 ∧
          (mine h c).count .closed = (mine h c).count .opened) := by
  intro s h hr
  have hinv := Inv.of_reach hr
  refine ⟨⟨?_, hinv.waiters.2⟩, fun key c c' => hinv.holds_unique, ?_, fun c key => hinv.refused,
    ?_, fun hidle => ⟨(hinv.idle hidle).1, (hinv.idle hidle).2, hinv.closed_once hidle⟩⟩
  · have := hinv.slots
    omega
  · intro c path fps v req reserved hc hreq hres
    simp only [AnalysisService.step, hc, Call.step, hreq, hres]
    rfl
  · intro c op key s' o hs hkey
    cases Rule.of_step hs with
    | step c op sh call out hr =>
      rw [← mem_mine, mine_append, mine_map, if_pos rfl] at hkey
      exact hr.inFlight_of_refused (hinv.done c) hkey

/-- Two calls for one video at one rate: the second is refused, and the first fails later. -/
theorem admission_and_refusal_run :
    ∃ cfg s h, (machine cfg).Reach Machine.anyStep (start cfg) s h ∧
      (1, .refused "k") ∈ h ∧ s.inFlight "k" = none ∧ Call.Untouched (mine h 1) := by
  have hrun : ∃ s h, (machine ⟨{}, 4, fun _ => "v", fun _ _ => "k", by decide⟩).Reach
      Machine.anyStep (start ⟨{}, 4, fun _ => "v", fun _ _ => "k", by decide⟩) s h ∧
      (1, .refused "k") ∈ h ∧ s.inFlight "k" = none :=
    Machine.Reach.exists_of_exec
      [.analyze "clip.mp4" 1, .analyze "clip.mp4" 1, .step 0 (.brokerPinged true),
        .step 1 (.brokerPinged true), .step 0 (.storePinged true), .step 1 (.storePinged true),
        .step 0 (.opened (.ok (.clip [.blank]))), .step 1 (.opened (.ok (.clip [.blank]))),
        .step 1 .closed, .step 0 (.work (.found 0 "j") none),
        .step 0 (.work (.repoRaised "connection reset" false 0) none), .step 0 .closed]
      (by decide +kernel)
  obtain ⟨s, h, hr, href, hfree⟩ := hrun
  exact ⟨_, s, h, hr, href, hfree, ((admission_and_refusal _ s h hr).2.2.2.1 1 "k" href).1⟩

end AnalysisService

end VideoPipeline

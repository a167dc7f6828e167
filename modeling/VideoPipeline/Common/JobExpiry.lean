import Mathlib.Algebra.Order.Ring.Rat
import VideoPipeline.Common.Interchange
import VideoPipeline.Lib.Expiry

/-!
# The job records expire

`RedisJobRepository.create` gives the hash of a job and the pointer to it a time to live of a day,
and nothing renews it. Up to then Redis answers as if nothing expired. After that the job is
unknown, unless a late update has written to its hash: what is left then has no deadline and never
validates.
-/

namespace VideoPipeline

open JobRecord

namespace JobRepository

namespace Op

/-- The time of a call that creates the job. -/
def createdAt? (job : String) (call : ℚ × Op) : Option ℚ :=
  call.2.created?.bind fun record => if record .jobId = job then some call.1 else none

end Op

/-- When the job was created last. -/
def createdAt (before : List (ℚ × Op)) (job : String) : Option ℚ :=
  (before.filterMap (Op.createdAt? job)).getLast?

/-- The job was updated at a time or later. -/
def UpdatedSince (before : List (ℚ × Op)) (job : String) (t : ℚ) : Prop :=
  ∃ call ∈ before, call.2.updates job ∧ t ≤ call.1

instance (before : List (ℚ × Op)) (job : String) (t : ℚ) : Decidable (UpdatedSince before job t) :=
  inferInstanceAs (Decidable (∃ call ∈ before, _))

section snoc

variable {before : List (ℚ × Op)} {call : ℚ × Op} {job : String} {t : ℚ}

lemma createdAt_snoc : createdAt (before ++ [call]) job =
    (Op.createdAt? job call).or (createdAt before job) := by
  rw [createdAt, List.filterMap_append]
  cases h : Op.createdAt? job call <;> simp [createdAt, h]

lemma createdAt_snoc_of_none (h : call.2.created? = none) :
    createdAt (before ++ [call]) job = createdAt before job := by
  rw [createdAt_snoc, Op.createdAt?, h, Option.bind_none, Option.none_or]

lemma createdAt_snoc_of_created {record : Row} (h : call.2.created? = some record) :
    createdAt (before ++ [call]) job =
      if record .jobId = job then some call.1 else createdAt before job := by
  rw [createdAt_snoc, Op.createdAt?, h, Option.bind_some]
  split <;> rfl

lemma updatedSince_snoc :
    UpdatedSince (before ++ [call]) job t ↔
      UpdatedSince before job t ∨ (call.2.updates job ∧ t ≤ call.1) := by
  simp only [UpdatedSince, List.mem_append, List.mem_singleton, or_and_right, exists_or,
    exists_eq_left]

end snoc

/-- A job that was created has a time of creation. -/
lemma createdAt_eq_none {before : List (ℚ × Op)} {job : String} :
    createdAt before job = none ↔ job ∉ ids (before.map Prod.snd) := by
  rw [createdAt, List.getLast?_eq_none_iff, List.filterMap_eq_nil_iff]
  simp only [ids, created, List.mem_map, List.mem_filterMap]
  constructor
  · rintro h ⟨record, ⟨op, ⟨call, hcall, rfl⟩, hrecord⟩, rfl⟩
    have hnone := h call hcall
    rw [Op.createdAt?, hrecord, Option.bind_some, if_pos rfl] at hnone
    cases hnone
  · intro h call hcall
    cases hrecord : call.2.created? with
    | none => rw [Op.createdAt?, hrecord, Option.bind_none]
    | some record =>
      rw [Op.createdAt?, hrecord, Option.bind_some, if_neg]
      intro hjob
      exact h ⟨record, ⟨call.2, ⟨call, hcall, rfl⟩, hrecord⟩, hjob⟩

end JobRepository

/-! ### The repository with its time to live -/

namespace RedisJobRepository

open JobRepository

/-- Redis with the deadlines of its keys. -/
abbrev TimedRedis := TimedHashStore String Field String ℚ

/-- `ttl_sec`. -/
def ttlSec : ℕ := 86400

variable (fmt : Format)

/-- Beside the writes of a call: `create` gives a time to live to what it has written. -/
def deadlines (now : ℚ) (s : TimedRedis) : Op → TimedRedis
  | .create record =>
    let s := s.expire (key (record .jobId)) (now + ttlSec)
    if record .resumeKey = "" then s
    else s.expire (resumePointer (record .resumeKey)) (now + ttlSec)
  | _ => s

/-- A call at a time at which nothing in Redis has expired. -/
def write (now : ℚ) (s : TimedRedis) (op : Op) : TimedRedis :=
  deadlines now { s with toHashStore := (redisJobRepository fmt).step s.toHashStore op } op

/-- A call at a time. -/
def timedStep (s : TimedRedis) (call : ℚ × Op) : TimedRedis :=
  write fmt call.1 (s.purge call.1) call.2

/-- What the reads among calls at their times return. -/
def timedReplies (s : TimedRedis) : List (ℚ × Op) → List (Option Reply)
  | [] => []
  | call :: calls =>
    (redisJobRepository fmt).reply? (s.purge call.1).toHashStore call.2 ::
      timedReplies (timedStep fmt s call) calls

/-! ### What an update writes -/

/-- The fields that an update writes to the hash of its job. -/
def written (raw : Field → Option String) : Op → Field → Option String
  | .setStatus _ status error now => fun
    | .status => some status.value
    | .updatedAt => some (fmt.str now)
    | .error => error
    | _ => none
  | .checkpoint _ framesDispatched framesFailed lastSourceIndex now => fun
    | .framesDispatched => some (Int.repr framesDispatched)
    | .framesFailed => some (Int.repr framesFailed)
    | .lastSourceIndex => some (Int.repr lastSourceIndex)
    | .updatedAt => some (fmt.str now)
    | _ => none
  | .incrementProcessed _ amount => fun
    | .framesProcessed =>
      (((raw .framesProcessed).map String.toInt?).getD (some 0)).map fun n => Int.repr (n + amount)
    | _ => none
  | _ => fun _ => none

variable {fmt} {redis : Redis} {op : Op} {job : String} {raw : Field → Option String}

lemma hset_none (redis : Redis) (k : String) : (redis.hset k fun _ => none) = redis := by
  have hself : (fun f => (none : Option String).or (redis.hashes k f)) = redis.hashes k := by
    funext f
    exact Option.none_or
  rw [HashStore.hset, hself, Function.update_eq_self]

/-- An update is a write to the hash of its job. -/
lemma step_of_updates (hu : op.updates job) : (redisJobRepository fmt).step redis op =
    redis.hset (key job) (written fmt (redis.hgetall (key job)) op) := by
  cases op with
  | create | get | findByResumeKey => cases hu
  | setStatus j status error now =>
    obtain rfl : j = job := hu
    rfl
  | checkpoint j framesDispatched framesFailed lastSourceIndex now =>
    obtain rfl : j = job := hu
    rfl
  | incrementProcessed j amount =>
    obtain rfl : j = job := hu
    show (redis.hincrby String.toInt? Int.repr (key j) .framesProcessed amount).getD redis = _
    rw [HashStore.hincrby, HashStore.hgetall]
    cases hn : ((redis.hashes (key j) .framesProcessed).map String.toInt?).getD (some 0) with
    | none =>
      have hw : written fmt (redis.hashes (key j)) (.incrementProcessed j amount) =
          fun _ => none := by
        funext f
        cases f with
        | framesProcessed => rw [written, hn, Option.map_none]
        | _ => rfl
      rw [hw, hset_none, Option.map_none, Option.getD_none]
    | some n =>
      have hw : written fmt (redis.hashes (key j)) (.incrementProcessed j amount) =
          fun f => if f = .framesProcessed then some (Int.repr (n + amount)) else none := by
        funext f
        cases f with
        | framesProcessed => rw [written, hn, Option.map_some, if_pos rfl]
        | _ => rfl
      rw [hw, Option.map_some, Option.getD_some]

/-- No update writes an id. -/
lemma written_ids : written fmt raw op .jobId = none ∧ written fmt raw op .videoId = none := by
  cases op <;> exact ⟨rfl, rfl⟩

/-- What an update writes is read back. -/
lemma decode_written {f : Field} {text : String} (hw : written fmt raw op f = some text) :
    (f.decode fmt text).isSome := by
  cases op with
  | create | get | findByResumeKey => cases hw
  | setStatus j status error now =>
    cases f with
    | status =>
      obtain rfl := Option.some.inj hw
      rw [Field.decode, JobStatus.ofValue?_value]
      rfl
    | updatedAt =>
      obtain rfl := Option.some.inj hw
      rw [Field.decode, fmt.float_str]
      rfl
    | error => rfl
    | _ => cases hw
  | checkpoint j framesDispatched framesFailed lastSourceIndex now =>
    cases f with
    | framesDispatched | framesFailed | lastSourceIndex =>
      obtain rfl := Option.some.inj hw
      rw [Field.decode, Int.toInt?_repr]
      rfl
    | updatedAt =>
      obtain rfl := Option.some.inj hw
      rw [Field.decode, fmt.float_str]
      rfl
    | _ => cases hw
  | incrementProcessed j amount =>
    cases f with
    | framesProcessed =>
      obtain ⟨n, -, rfl⟩ := Option.map_eq_some_iff.mp hw
      rw [Field.decode, Int.toInt?_repr]
      rfl
    | _ => cases hw

/-- An update writes something, if the counter holds a number. -/
lemma exists_written (hu : op.updates job)
    (hcount : ∀ text, raw .framesProcessed = some text → text.toInt?.isSome) :
    ∃ f, written fmt raw op f ≠ none := by
  cases op with
  | create | get | findByResumeKey => cases hu
  | setStatus | checkpoint => exact ⟨.updatedAt, Option.some_ne_none _⟩
  | incrementProcessed j amount =>
    refine ⟨.framesProcessed, ?_⟩
    rw [written]
    cases htext : raw .framesProcessed with
    | none => exact Option.some_ne_none _
    | some text =>
      obtain ⟨n, hn⟩ := Option.isSome_iff_exists.mp (hcount text htext)
      rw [Option.map_some, Option.getD_some, hn]
      exact Option.some_ne_none _

/-! ### What expiry leaves -/

/-- What the hash of a job holds when it has expired. -/
structure Remnant (fmt : Format) (raw : Field → Option String) : Prop where
  ids : raw .jobId = none ∧ raw .videoId = none
  decodes : ∀ (f : Field) (text : String), raw f = some text → (f.decode fmt text).isSome

namespace Remnant

lemma empty : Remnant fmt fun _ => none := by
  refine ⟨⟨rfl, rfl⟩, ?_⟩
  intro f text htext
  cases htext

lemma update (hr : Remnant fmt raw) (op : Op) :
    Remnant fmt fun f => (written fmt raw op f).or (raw f) := by
  constructor
  · exact ⟨Option.or_eq_none_iff.mpr ⟨written_ids.1, hr.ids.1⟩,
      Option.or_eq_none_iff.mpr ⟨written_ids.2, hr.ids.2⟩⟩
  · intro f text htext
    rcases Option.or_eq_some_iff.mp htext with hw | ⟨-, hraw⟩
    · exact decode_written hw
    · exact hr.decodes f text hraw

/-- Only the required fields have no value. -/
lemma isNone_read (hr : Remnant fmt raw) (f : Field) :
    (f.read fmt raw).isNone = decide (f = .jobId ∨ f = .videoId) := by
  rw [Field.read]
  cases hraw : raw f with
  | none => cases f <;> rfl
  | some text =>
    have hsome := hr.decodes f text hraw
    have hne : ¬(f = .jobId ∨ f = .videoId) := by
      rintro (rfl | rfl)
      · rw [hr.ids.1] at hraw
        cases hraw
      · rw [hr.ids.2] at hraw
        cases hraw
    rw [decide_eq_false hne]
    show (f.decode fmt text).isNone = false
    rw [← Option.not_isSome, hsome]
    rfl

lemma validate (hr : Remnant fmt raw) :
    JobRecord.validate fmt raw = .error ⟨[.jobId, .videoId]⟩ := by
  have hmissing : ¬∀ f : Field, (f.read fmt raw).isSome := by
    intro hall
    have hid := hr.isNone_read .jobId
    rw [← Option.not_isSome, hall] at hid
    cases hid
  have hfilter : Field.all.filter (fun f => (f.read fmt raw).isNone) = [.jobId, .videoId] := by
    rw [List.filter_congr fun f _ => hr.isNone_read f]
    decide
  rw [JobRecord.validate, dif_neg hmissing, hfilter]

end Remnant

/-! ### The answers -/

/-- The answer about a job whose time to live was over at a time. -/
def expiredReply (before : List (ℚ × Op)) (job : String) (t : ℚ) : Op → Reply
  | .get _ => if UpdatedSince before job t then .error ⟨[.jobId, .videoId]⟩ else .ok none
  | _ => .ok none

/-- The answer to a call, when a repository in which nothing expires would answer `untimed`. -/
def expectedReply (before : List (ℚ × Op)) (call : ℚ × Op) (untimed : Option Reply) :
    Option Reply :=
  match call.2.subject? (before.map Prod.snd) with
  | none => untimed
  | some job =>
    match createdAt before job with
    | none => untimed
    | some t =>
      if call.1 < t + ttlSec then untimed
      else some (expiredReply before job (t + ttlSec) call.2)

lemma expectedReply_of_created {before : List (ℚ × Op)} {call : ℚ × Op} {t : ℚ}
    {untimed : Option Reply} (hs : call.2.subject? (before.map Prod.snd) = some job)
    (ht : createdAt before job = some t) :
    expectedReply before call untimed =
      if call.1 < t + ttlSec then untimed
      else some (expiredReply before job (t + ttlSec) call.2) := by
  rw [expectedReply, hs]
  simp only [ht]

lemma expectedReply_of_none {before : List (ℚ × Op)} {call : ℚ × Op} {untimed : Option Reply}
    (h : ∀ job, call.2.subject? (before.map Prod.snd) = some job → createdAt before job = none) :
    expectedReply before call untimed = untimed := by
  rw [expectedReply]
  cases hs : call.2.subject? (before.map Prod.snd) with
  | none => rfl
  | some job => simp only [h job hs]

/-- The answers to calls after others, when nothing had expired in `redis`. -/
def expectedReplies (fmt : Format) (before : List (ℚ × Op)) (redis : Redis) :
    List (ℚ × Op) → List (Option Reply)
  | [] => []
  | call :: calls =>
    expectedReply before call ((redisJobRepository fmt).reply? redis call.2) ::
      expectedReplies fmt (before ++ [call]) ((redisJobRepository fmt).step redis call.2) calls

/-- The deadline of what was created at a time. -/
def deadlineOf : Option ℚ → WithTop ℚ
  | none   => ⊤
  | some t => ((t + ttlSec : ℚ) : WithTop ℚ)

/-- What Redis holds at a time after some calls, beside a Redis in which nothing expires. -/
structure Follows (fmt : Format) (before : List (ℚ × Op)) (now : ℚ) (s : TimedRedis)
    (redis : Redis) : Prop where
  times : ∀ call ∈ before, call.1 ≤ now
  counter : ∀ job text, s.hgetall (key job) .framesProcessed = some text → text.toInt?.isSome
  current : ∀ job, (now : WithTop ℚ) < deadlineOf (createdAt before job) →
    s.hgetall (key job) = redis.hgetall (key job) ∧
      s.deadline (key job) = deadlineOf (createdAt before job)
  gone : ∀ job t, createdAt before job = some t → t + ttlSec ≤ now →
    s.deadline (key job) = ⊤ ∧ Remnant fmt (s.hgetall (key job)) ∧
      ((∀ f, s.hgetall (key job) f = none) ↔ ¬UpdatedSince before job (t + ttlSec))
  untimed : ∀ resumeKey, resumeKey ≠ "" →
    redis.get (resumePointer resumeKey) = latestUnder (before.map Prod.snd) resumeKey
  /-- A pointer lives as long as the job it leads to. -/
  pointed : ∀ resumeKey job t, resumeKey ≠ "" →
    latestUnder (before.map Prod.snd) resumeKey = some job → createdAt before job = some t →
      now < t + ttlSec → s.get (resumePointer resumeKey) = some job ∧
        s.deadline (resumePointer resumeKey) = deadlineOf (some t)
  unpointed : ∀ resumeKey, resumeKey ≠ "" →
    (∀ job t, latestUnder (before.map Prod.snd) resumeKey = some job →
      createdAt before job = some t → t + ttlSec ≤ now) →
    s.get (resumePointer resumeKey) = none ∧ s.deadline (resumePointer resumeKey) = ⊤

variable {before : List (ℚ × Op)} {now now' t : ℚ} {s : TimedRedis}

lemma Follows.empty : Follows fmt [] now ∅ ∅ := by
  refine ⟨?_, ?_, fun _ _ => ⟨rfl, rfl⟩, ?_, fun _ _ => rfl, ?_, fun _ _ _ => ⟨rfl, rfl⟩⟩
  · intro call hcall
    cases hcall
  · intro job text htext
    cases htext
  · intro job t ht
    cases ht
  · intro resumeKey job t _ hlatest
    cases hlatest

/-- Time goes by, and what has expired is gone. -/
lemma Follows.later (hf : Follows fmt before now s redis) (hle : now ≤ now') :
    Follows fmt before now' (s.purge now') redis := by
  have hlt : ∀ {d : WithTop ℚ}, (now' : WithTop ℚ) < d → (now : WithTop ℚ) < d :=
    fun h => (WithTop.coe_le_coe.mpr hle).trans_lt h
  refine ⟨fun call hcall => (hf.times call hcall).trans hle, ?_, ?_, ?_, hf.untimed, ?_, ?_⟩
  · intro job text htext
    rcases lt_or_ge (now' : WithTop ℚ) (s.deadline (key job)) with h | h
    · rw [(TimedHashStore.purge_of_lt h).1] at htext
      exact hf.counter job text htext
    · rw [(TimedHashStore.purge_of_le h).1] at htext
      cases htext
  · intro job hcur
    obtain ⟨hsame, hdeadline⟩ := hf.current job (hlt hcur)
    have hpurge := TimedHashStore.purge_of_lt (s := s) (k := key job) (hcur.trans_eq hdeadline.symm)
    rw [hpurge.1, hpurge.2.2]
    exact ⟨hsame, hdeadline⟩
  · intro job t ht hgone
    rcases lt_or_ge now (t + ttlSec) with hcur | hpast
    · have hdeadline := (hf.current job (by
        rw [ht]
        exact WithTop.coe_lt_coe.mpr hcur)).2
      rw [ht] at hdeadline
      have hpurge := TimedHashStore.purge_of_le (s := s) (k := key job)
        (hdeadline.trans_le (WithTop.coe_le_coe.mpr hgone))
      rw [hpurge.1, hpurge.2.2]
      refine ⟨rfl, .empty, iff_of_true (fun _ => rfl) ?_⟩
      rintro ⟨call, hcall, -, hsince⟩
      exact absurd ((hsince.trans (hf.times call hcall)).trans_lt hcur) (lt_irrefl _)
    · obtain ⟨hdeadline, hrest⟩ := hf.gone job t ht hpast
      have hpurge := TimedHashStore.purge_of_lt (s := s) (k := key job)
        ((WithTop.coe_lt_top now').trans_eq hdeadline.symm)
      rw [hpurge.1, hpurge.2.2]
      exact ⟨hdeadline, hrest⟩
  · intro resumeKey job t hk hlatest ht hcur
    obtain ⟨hget, hdeadline⟩ := hf.pointed resumeKey job t hk hlatest ht (hle.trans_lt hcur)
    have hpurge := TimedHashStore.purge_of_lt (s := s) (k := resumePointer resumeKey)
      ((WithTop.coe_lt_coe.mpr hcur).trans_eq hdeadline.symm)
    rw [hpurge.2.1, hpurge.2.2]
    exact ⟨hget, hdeadline⟩
  · intro resumeKey hk hgone
    by_cases hall : ∀ job t, latestUnder (before.map Prod.snd) resumeKey = some job →
        createdAt before job = some t → t + ttlSec ≤ now
    · obtain ⟨hget, hdeadline⟩ := hf.unpointed resumeKey hk hall
      have hpurge := TimedHashStore.purge_of_lt (s := s) (k := resumePointer resumeKey)
        ((WithTop.coe_lt_top now').trans_eq hdeadline.symm)
      rw [hpurge.2.1, hpurge.2.2]
      exact ⟨hget, hdeadline⟩
    · push Not at hall
      obtain ⟨job, t, hlatest, ht, hcur⟩ := hall
      have hdeadline := (hf.pointed resumeKey job t hk hlatest ht hcur).2
      exact (TimedHashStore.purge_of_le (s := s) (k := resumePointer resumeKey)
        (hdeadline.trans_le (WithTop.coe_le_coe.mpr (hgone job t hlatest ht)))).2

/-! ### A call -/

/-- A call that writes to one hash or to none. -/
lemma Follows.of_quiet {s' : TimedRedis} {redis' : Redis} (hf : Follows fmt before now s redis)
    (hc : op.created? = none)
    (hother : ∀ job, ¬op.updates job → s'.hgetall (key job) = s.hgetall (key job) ∧
      redis'.hgetall (key job) = redis.hgetall (key job))
    (hupdate : ∀ job, op.updates job →
      s'.hgetall (key job) = (fun f => (written fmt (s.hgetall (key job)) op f).or
        (s.hgetall (key job) f)) ∧
      redis'.hgetall (key job) = fun f => (written fmt (redis.hgetall (key job)) op f).or
        (redis.hgetall (key job) f))
    (hdeadline : s'.deadline = s.deadline) (hget : ∀ k, s'.get k = s.get k)
    (hget' : ∀ k, redis'.get k = redis.get k) :
    Follows fmt (before ++ [(now, op)]) now s' redis' := by
  have hcreated : ∀ job, createdAt (before ++ [(now, op)]) job = createdAt before job :=
    fun _ => createdAt_snoc_of_none hc
  have hlatest : ∀ resumeKey, latestUnder ((before ++ [(now, op)]).map Prod.snd) resumeKey =
      latestUnder (before.map Prod.snd) resumeKey := by
    intro resumeKey
    rw [List.map_append]
    exact latestUnder_snoc_of_none hc
  refine ⟨?_, ?_, ?_, ?_, ?_, ?_, ?_⟩
  · intro call hcall
    rcases List.mem_append.mp hcall with hcall | hcall
    · exact hf.times call hcall
    · rw [List.mem_singleton.mp hcall]
  · intro job text htext
    by_cases hu : op.updates job
    · rw [(hupdate job hu).1] at htext
      rcases Option.or_eq_some_iff.mp htext with hw | ⟨-, htext⟩
      · exact decode_written hw
      · exact hf.counter job text htext
    · rw [(hother job hu).1] at htext
      exact hf.counter job text htext
  · intro job hcur
    rw [hcreated] at hcur ⊢
    obtain ⟨hsame, hdead⟩ := hf.current job hcur
    rw [hdeadline]
    refine ⟨?_, hdead⟩
    by_cases hu : op.updates job
    · rw [(hupdate job hu).1, (hupdate job hu).2, hsame]
    · rw [(hother job hu).1, (hother job hu).2, hsame]
  · intro job t ht hgone
    rw [hcreated] at ht
    obtain ⟨hdead, hremnant, hempty⟩ := hf.gone job t ht hgone
    rw [hdeadline, updatedSince_snoc]
    refine ⟨hdead, ?_⟩
    by_cases hu : op.updates job
    · rw [(hupdate job hu).1]
      refine ⟨hremnant.update op, iff_of_false ?_ ?_⟩
      · intro hall
        obtain ⟨f, hwritten⟩ : ∃ f, written fmt (s.hgetall (key job)) op f ≠ none :=
          exists_written hu (hf.counter job)
        exact hwritten (Option.or_eq_none_iff.mp (hall f)).1
      · exact not_not.mpr (.inr ⟨hu, hgone⟩)
    · rw [(hother job hu).1]
      refine ⟨hremnant, hempty.trans (not_congr ?_)⟩
      exact ⟨.inl, fun h => h.resolve_right fun h => hu h.1⟩
  · intro resumeKey hk
    rw [hget', hlatest]
    exact hf.untimed resumeKey hk
  · intro resumeKey job t hk hl ht hcur
    rw [hlatest] at hl
    rw [hcreated] at ht
    rw [hget, hdeadline]
    exact hf.pointed resumeKey job t hk hl ht hcur
  · intro resumeKey hk hgone
    simp only [hlatest, hcreated] at hgone
    rw [hget, hdeadline]
    exact hf.unpointed resumeKey hk hgone

/-- A read writes nothing. -/
lemma Follows.of_read (hf : Follows fmt before now s redis) (hc : op.created? = none)
    (hu : ∀ job, ¬op.updates job) : Follows fmt (before ++ [(now, op)]) now s redis :=
  hf.of_quiet hc (fun _ _ => ⟨rfl, rfl⟩) (fun job h => absurd h (hu job)) rfl (fun _ => rfl)
    fun _ => rfl

/-- An update writes to the hash of its job, which keeps its deadline. -/
lemma Follows.of_update (hf : Follows fmt before now s redis) (hc : op.created? = none)
    {job : String} (hu : ∀ j, op.updates j ↔ job = j) :
    Follows fmt (before ++ [(now, op)]) now
      { s with toHashStore := (redisJobRepository fmt).step s.toHashStore op }
      ((redisJobRepository fmt).step redis op) := by
  rw [step_of_updates ((hu job).mpr rfl), step_of_updates ((hu job).mpr rfl)]
  refine hf.of_quiet hc ?_ ?_ rfl (fun _ => rfl) fun _ => rfl
  · intro j hj
    have hne : key j ≠ key job := key_injective.ne fun h => hj ((hu j).mpr h.symm)
    exact ⟨HashStore.hgetall_hset_of_ne hne, HashStore.hgetall_hset_of_ne hne⟩
  · intro j hj
    obtain rfl := (hu j).mp hj
    exact ⟨HashStore.hgetall_hset_self, HashStore.hgetall_hset_self⟩

/-- The deadlines after a create. -/
lemma deadline_create_key (record : Row) (job : String) :
    (deadlines now s (.create record)).deadline (key job) =
      if job = record .jobId then deadlineOf (some now) else s.deadline (key job) := by
  have hone : (deadlines now s (.create record)).deadline (key job) =
      (s.expire (key (record .jobId)) (now + ttlSec)).deadline (key job) := by
    rw [deadlines]
    split
    · rfl
    · exact TimedHashStore.deadline_expire_of_ne (key_ne_resumePointer _ _)
  rw [hone]
  by_cases hj : job = record .jobId
  · rw [if_pos hj, hj]
    exact TimedHashStore.deadline_expire_self
  · rw [if_neg hj]
    exact TimedHashStore.deadline_expire_of_ne (key_injective.ne hj)

lemma deadline_create_pointer (record : Row) {resumeKey : String} (hk : resumeKey ≠ "") :
    (deadlines now s (.create record)).deadline (resumePointer resumeKey) =
      if record .resumeKey = resumeKey then deadlineOf (some now)
      else s.deadline (resumePointer resumeKey) := by
  have hkey : (s.expire (key (record .jobId)) (now + ttlSec)).deadline (resumePointer resumeKey) =
      s.deadline (resumePointer resumeKey) :=
    TimedHashStore.deadline_expire_of_ne (key_ne_resumePointer _ _).symm
  rw [deadlines]
  by_cases heq : record .resumeKey = resumeKey
  · rw [if_pos heq, if_neg (heq ▸ hk), heq]
    exact TimedHashStore.deadline_expire_self
  · rw [if_neg heq]
    split
    · exact hkey
    · exact (TimedHashStore.deadline_expire_of_ne
        (resumePointer_injective.ne (Ne.symm heq))).trans hkey

lemma toHashStore_deadlines (op : Op) : (deadlines now s op).toHashStore = s.toHashStore := by
  cases op with
  | create record =>
    rw [deadlines]
    split <;> rfl
  | _ => rfl

section Create

variable {record : Row} {job resumeKey : String}

lemma hgetall_write_create : (write fmt now s (.create record)).hgetall (key job) =
    if job = record .jobId then fun f => some (f.encode fmt (record f))
    else s.hgetall (key job) := by
  have hstore : (write fmt now s (.create record)).toHashStore =
      RedisJobRepository.create fmt record s.toHashStore := toHashStore_deadlines _
  rw [hstore, hgetall_create]

lemma get_write_create (hk : resumeKey ≠ "") :
    (write fmt now s (.create record)).get (resumePointer resumeKey) =
      if record .resumeKey = resumeKey then some (record .jobId)
      else s.get (resumePointer resumeKey) := by
  have hstore : (write fmt now s (.create record)).toHashStore =
      RedisJobRepository.create fmt record s.toHashStore := toHashStore_deadlines _
  rw [hstore, get_create _ _ hk]

lemma createdAt_snoc_create : createdAt (before ++ [(now, .create record)]) job =
    if record .jobId = job then some now else createdAt before job :=
  createdAt_snoc_of_created rfl

lemma latestUnder_snoc_create :
    latestUnder ((before ++ [(now, Op.create record)]).map Prod.snd) resumeKey =
      if record .resumeKey = resumeKey then some (record .jobId)
      else latestUnder (before.map Prod.snd) resumeKey := by
  rw [List.map_append]
  exact latestUnder_snoc_of_created rfl

/-- A new job is not the latest under any resume key. -/
lemma jobId_ne_of_latestUnder (hnew : createdAt before (record .jobId) = none)
    (hl : latestUnder (before.map Prod.snd) resumeKey = some job) : record .jobId ≠ job := by
  rintro rfl
  exact createdAt_eq_none.mp hnew (latestUnder_mem_ids hl)

lemma lt_add_ttlSec (now : ℚ) : now < now + ttlSec := lt_add_of_pos_right now (by decide)

lemma Follows.create_current (hf : Follows fmt before now s redis)
    (hcur : (now : WithTop ℚ) < deadlineOf (createdAt (before ++ [(now, .create record)]) job)) :
    (write fmt now s (.create record)).hgetall (key job) =
        (RedisJobRepository.create fmt record redis).hgetall (key job) ∧
      (write fmt now s (.create record)).deadline (key job) =
        deadlineOf (createdAt (before ++ [(now, .create record)]) job) := by
  rw [createdAt_snoc_create] at hcur ⊢
  rw [hgetall_write_create, hgetall_create, write, deadline_create_key]
  by_cases hj : job = record .jobId
  · rw [if_pos hj, if_pos hj, if_pos hj, if_pos hj.symm]
    exact ⟨rfl, rfl⟩
  · rw [if_neg (Ne.symm hj)] at hcur
    rw [if_neg hj, if_neg hj, if_neg hj, if_neg (Ne.symm hj)]
    exact hf.current job hcur

/-- The job whose time is over is another one. -/
lemma Follows.create_gone (hf : Follows fmt before now s redis)
    (ht : createdAt (before ++ [(now, .create record)]) job = some t) (hgone : t + ttlSec ≤ now) :
    (write fmt now s (.create record)).deadline (key job) = ⊤ ∧
      Remnant fmt ((write fmt now s (.create record)).hgetall (key job)) ∧
      ((∀ f, (write fmt now s (.create record)).hgetall (key job) f = none) ↔
        ¬UpdatedSince (before ++ [(now, .create record)]) job (t + ttlSec)) := by
  rw [createdAt_snoc_create] at ht
  by_cases hj : record .jobId = job
  · rw [if_pos hj] at ht
    obtain rfl := Option.some.inj ht
    exact absurd hgone (not_le.mpr (lt_add_ttlSec now))
  · rw [if_neg hj] at ht
    rw [hgetall_write_create, write, deadline_create_key, if_neg (Ne.symm hj),
      if_neg (Ne.symm hj), updatedSince_snoc, or_iff_left (fun h => h.1)]
    exact hf.gone job t ht hgone

/-- The pointer to the created job lives as long as that. -/
lemma Follows.create_pointed (hf : Follows fmt before now s redis)
    (hnew : createdAt before (record .jobId) = none) (hk : resumeKey ≠ "")
    (hl : latestUnder ((before ++ [(now, Op.create record)]).map Prod.snd) resumeKey = some job)
    (ht : createdAt (before ++ [(now, .create record)]) job = some t) (hcur : now < t + ttlSec) :
    (write fmt now s (.create record)).get (resumePointer resumeKey) = some job ∧
      (write fmt now s (.create record)).deadline (resumePointer resumeKey) =
        deadlineOf (some t) := by
  rw [get_write_create hk, write, deadline_create_pointer record hk]
  rw [latestUnder_snoc_create] at hl
  rw [createdAt_snoc_create] at ht
  by_cases hkey : record .resumeKey = resumeKey
  · rw [if_pos hkey] at hl ⊢
    obtain rfl := Option.some.inj hl
    rw [if_pos rfl] at ht
    obtain rfl := Option.some.inj ht
    rw [if_pos hkey]
    exact ⟨rfl, rfl⟩
  · rw [if_neg hkey] at hl ⊢
    rw [if_neg (jobId_ne_of_latestUnder hnew hl)] at ht
    rw [if_neg hkey]
    exact hf.pointed resumeKey job t hk hl ht hcur

/-- A pointer whose job has expired is not the one to the created job. -/
lemma Follows.create_unpointed (hf : Follows fmt before now s redis)
    (hnew : createdAt before (record .jobId) = none) (hk : resumeKey ≠ "")
    (hgone : ∀ job t,
      latestUnder ((before ++ [(now, Op.create record)]).map Prod.snd) resumeKey = some job →
      createdAt (before ++ [(now, .create record)]) job = some t → t + ttlSec ≤ now) :
    (write fmt now s (.create record)).get (resumePointer resumeKey) = none ∧
      (write fmt now s (.create record)).deadline (resumePointer resumeKey) = ⊤ := by
  by_cases hkey : record .resumeKey = resumeKey
  · have hpast := hgone (record .jobId) now (by rw [latestUnder_snoc_create, if_pos hkey])
      (by rw [createdAt_snoc_create, if_pos rfl])
    exact absurd hpast (not_le.mpr (lt_add_ttlSec now))
  · rw [get_write_create hk, write, deadline_create_pointer record hk, if_neg hkey, if_neg hkey]
    refine hf.unpointed resumeKey hk fun job t hl ht => ?_
    refine hgone job t (by rw [latestUnder_snoc_create, if_neg hkey, hl]) ?_
    rw [createdAt_snoc_create, if_neg (jobId_ne_of_latestUnder hnew hl), ht]

/-- A created job starts its time to live, with the pointer to it. -/
lemma Follows.of_create (hf : Follows fmt before now s redis)
    (hnew : createdAt before (record .jobId) = none) :
    Follows fmt (before ++ [(now, .create record)]) now (write fmt now s (.create record))
      (RedisJobRepository.create fmt record redis) := by
  refine ⟨?_, ?_, fun _ => hf.create_current, fun _ _ => hf.create_gone, ?_,
    fun _ _ _ => hf.create_pointed hnew, fun _ => hf.create_unpointed hnew⟩
  · intro call hcall
    rcases List.mem_append.mp hcall with hcall | hcall
    · exact hf.times call hcall
    · rw [List.mem_singleton.mp hcall]
  · intro job text htext
    rw [hgetall_write_create] at htext
    split at htext
    · obtain rfl := Option.some.inj htext
      rw [Field.encode, Int.toInt?_repr]
      rfl
    · exact hf.counter job text htext
  · intro resumeKey hk
    rw [get_create record redis hk, latestUnder_snoc_create]
    split
    · rfl
    · exact hf.untimed resumeKey hk

end Create

/-- Every call keeps the two states together, as long as no job is created twice. -/
lemma Follows.write (hf : Follows fmt before now s redis)
    (hnew : ∀ record, op = Op.create record → createdAt before (record .jobId) = none) :
    Follows fmt (before ++ [(now, op)]) now (write fmt now s op)
      ((redisJobRepository fmt).step redis op) := by
  cases op with
  | create record => exact hf.of_create (hnew record rfl)
  | get job => exact hf.of_read rfl fun _ h => h
  | findByResumeKey resumeKey => exact hf.of_read rfl fun _ h => h
  | setStatus job status error now => exact hf.of_update rfl fun _ => Iff.rfl
  | checkpoint job dispatched failed last now => exact hf.of_update rfl fun _ => Iff.rfl
  | incrementProcessed job amount => exact hf.of_update rfl fun _ => Iff.rfl

/-- The answer about a job. -/
lemma Follows.reply_get (hf : Follows fmt before now s redis) (job : String) :
    (redisJobRepository fmt).reply? s.toHashStore (.get job) =
      expectedReply before (now, .get job) ((redisJobRepository fmt).reply? redis (.get job)) := by
  have hsame : (now : WithTop ℚ) < deadlineOf (createdAt before job) →
      (redisJobRepository fmt).reply? s.toHashStore (.get job) =
        (redisJobRepository fmt).reply? redis (.get job) := by
    intro hcur
    show some (RedisJobRepository.get fmt job s.toHashStore) =
      some (RedisJobRepository.get fmt job redis)
    rw [RedisJobRepository.get, RedisJobRepository.get, (hf.current job hcur).1]
  cases ht : createdAt before job with
  | none =>
    rw [expectedReply_of_none]
    · exact hsame (ht ▸ WithTop.coe_lt_top now)
    · rintro _ ⟨⟩
      exact ht
  | some t =>
    rw [expectedReply_of_created rfl ht]
    by_cases hcur : now < t + ttlSec
    · rw [if_pos hcur]
      exact hsame (ht ▸ WithTop.coe_lt_coe.mpr hcur)
    · obtain ⟨-, hremnant, hempty⟩ := hf.gone job t ht (not_lt.mp hcur)
      rw [if_neg hcur]
      show some (RedisJobRepository.get fmt job s.toHashStore) =
        some (if UpdatedSince before job (t + ttlSec) then _ else _)
      rw [RedisJobRepository.get]
      by_cases hlate : UpdatedSince before job (t + ttlSec)
      · rw [if_pos hlate, if_neg (fun hall => hempty.mp hall hlate), hremnant.validate]
        rfl
      · rw [if_neg hlate, if_pos (hempty.mpr hlate)]

/-- The answer about the latest job under a resume key. -/
lemma Follows.reply_find (hf : Follows fmt before now s redis) (resumeKey : String) :
    (redisJobRepository fmt).reply? s.toHashStore (.findByResumeKey resumeKey) =
      expectedReply before (now, .findByResumeKey resumeKey)
        ((redisJobRepository fmt).reply? redis (.findByResumeKey resumeKey)) := by
  by_cases hk : resumeKey = ""
  · subst hk
    rfl
  have hreply : ∀ r : Redis, (redisJobRepository fmt).reply? r (.findByResumeKey resumeKey) =
      some (match r.get (resumePointer resumeKey) with
        | none => .ok none
        | some job => RedisJobRepository.get fmt job r) := by
    intro r
    exact congrArg some (if_neg hk)
  have hsubject : Op.subject? (before.map Prod.snd) (.findByResumeKey resumeKey) =
      latestUnder (before.map Prod.snd) resumeKey := if_neg hk
  rw [hreply, hreply, hf.untimed resumeKey hk]
  cases hl : latestUnder (before.map Prod.snd) resumeKey with
  | none =>
    rw [expectedReply_of_none, (hf.unpointed resumeKey hk _).1]
    · intro job t hjob
      rw [hl] at hjob
      cases hjob
    · intro job hjob
      rw [hsubject, hl] at hjob
      cases hjob
  | some job =>
    obtain ⟨t, ht⟩ := Option.ne_none_iff_exists'.mp fun hnone =>
      createdAt_eq_none.mp hnone (latestUnder_mem_ids hl)
    rw [expectedReply_of_created (hsubject.trans hl) ht]
    by_cases hcur : now < t + ttlSec
    · have hhash := (hf.current job (ht ▸ WithTop.coe_lt_coe.mpr hcur)).1
      rw [if_pos hcur, (hf.pointed resumeKey job t hk hl ht hcur).1]
      simp only [RedisJobRepository.get, hhash]
    · rw [if_neg hcur, (hf.unpointed resumeKey hk _).1]
      · rfl
      · intro job' t' hl' ht'
        obtain rfl := Option.some.inj (hl.symm.trans hl')
        obtain rfl := Option.some.inj (ht.symm.trans ht')
        exact not_lt.mp hcur

lemma Follows.reply (hf : Follows fmt before now s redis) (op : Op) :
    (redisJobRepository fmt).reply? s.toHashStore op =
      expectedReply before (now, op) ((redisJobRepository fmt).reply? redis op) := by
  cases op with
  | get job => exact hf.reply_get job
  | findByResumeKey resumeKey => exact hf.reply_find resumeKey
  | create | setStatus | checkpoint | incrementProcessed => rfl

lemma timedReplies_eq_of_follows {calls : List (ℚ × Op)} (hf : Follows fmt before now s redis)
    (hnew : (ids ((before ++ calls).map Prod.snd)).Nodup)
    (htimes : (calls.map Prod.fst).Pairwise (· ≤ ·)) (hnow : ∀ call ∈ calls, now ≤ call.1) :
    timedReplies fmt s calls = expectedReplies fmt before redis calls := by
  induction calls generalizing before now s redis with
  | nil => rfl
  | cons call calls ih =>
    obtain ⟨t, op⟩ := call
    obtain ⟨hfirst, htimes⟩ := List.pairwise_cons.mp htimes
    have hlater := hf.later (hnow (t, op) List.mem_cons_self)
    have hfresh : ∀ record, op = Op.create record → createdAt before (record .jobId) = none := by
      rintro record rfl
      rw [createdAt_eq_none]
      rw [List.map_append, ids, created, List.filterMap_append, List.map_append,
        List.nodup_append] at hnew
      intro hmem
      exact hnew.2.2 _ hmem _ List.mem_cons_self rfl
    rw [timedReplies, expectedReplies, hlater.reply op]
    congr 1
    refine ih (hlater.write hfresh) ?_ htimes fun call hcall =>
      hfirst call.1 (List.mem_map_of_mem hcall)
    rw [List.append_assoc]
    exact hnew

/-- As long as no job id is created twice and time does not go back, Redis answers about a job for a
day from its creation as if nothing expired. From then on the job is not found under its resume key,
and by its id neither, unless it was updated after that day: then its record never validates. -/
theorem timedReplies_eq_expected {calls : List (ℚ × Op)}
    (hnew : (ids (calls.map Prod.snd)).Nodup)
    (htimes : (calls.map Prod.fst).Pairwise (· ≤ ·)) :
    timedReplies fmt ∅ calls = expectedReplies fmt [] ∅ calls := by
  cases calls with
  | nil => rfl
  | cons call calls =>
    have hempty : Follows fmt [] call.1 ∅ ∅ := .empty
    refine timedReplies_eq_of_follows hempty hnew htimes ?_
    intro call' hcall'
    rcases List.mem_cons.mp hcall' with rfl | hcall'
    · exact le_rfl
    · exact (List.pairwise_cons.mp htimes).1 _ (List.mem_map_of_mem hcall')

/-- A job that is counted up after its day: its record is gone, and then it never validates. -/
theorem timedReplies_eq_expected_late :
    (timedReplies Format.whole ∅ [(0, .create (requested "j")), (86400, .get "j"),
        (86401, .incrementProcessed "j" 1), (86402, .get "j"),
        (86403, .findByResumeKey "v@5")]).map (Option.map (Except.map Option.isSome)) =
      [none, some (.ok false), none, some (.error ⟨[.jobId, .videoId]⟩), some (.ok false)] := by
  rw [timedReplies_eq_expected (by decide) (by decide +kernel)]
  decide +kernel

end RedisJobRepository

end VideoPipeline

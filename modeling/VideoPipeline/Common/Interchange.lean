import VideoPipeline.Common.Repositories

/-!
# When the two repositories are interchangeable

The repositories answer every read alike as long as no read is of a job that was updated but never
created, and none of a record whose error text was left standing by a later status without an
error (the dictionary clears it, Redis keeps it) or is empty (Redis reads it back as none).
-/

namespace VideoPipeline

open JobRecord

namespace JobRepository

/-! ## What a sequence of calls says about a job -/

namespace Op

/-- The record a call creates. -/
def created? : Op → Option Row
  | create record => some record
  | _ => none

/-- The call updates the job. -/
def updates (job : String) : Op → Prop
  | setStatus jobId .. | checkpoint jobId .. | incrementProcessed jobId _ => jobId = job
  | _ => False

instance (job : String) : DecidablePred (updates job)
  | setStatus .. | checkpoint .. | incrementProcessed .. => decEq _ job
  | create _ | get _ | findByResumeKey _ => inferInstanceAs (Decidable False)

/-- The error with which a call creates the job or sets its status. -/
def errorGiven (job : String) : Op → Option (Option String)
  | create record => if record .jobId = job then some (record .error) else none
  | setStatus jobId _ error _ => if jobId = job then some error else none
  | _ => none

/-- The error text with which a call creates the job or sets its status. A record created without
an error gives the empty text, a status without an error gives none. -/
def textGiven (job : String) : Op → Option String
  | create record => if record .jobId = job then some ((record .error).getD "") else none
  | setStatus jobId _ error _ => if jobId = job then error else none
  | _ => none

end Op

/-- The records created by the calls. -/
def created (before : List Op) : List Row := before.filterMap Op.created?

/-- The jobs created by the calls. -/
def ids (before : List Op) : List String := (created before).map fun record => record .jobId

def lastError (before : List Op) (job : String) : Option (Option String) :=
  (before.filterMap (Op.errorGiven job)).getLast?

def lastText (before : List Op) (job : String) : Option String :=
  (before.filterMap (Op.textGiven job)).getLast?

/-- The job created last under a resume key. -/
def latestUnder (before : List Op) (resumeKey : String) : Option String :=
  ((created before).reverse.find? fun record => record .resumeKey = resumeKey).map
    fun record => record .jobId

/-- The calls before it leave nothing for the repositories to disagree about in a read of the job.
Either the job was created and the error given last is the error text given last, or it was neither
created nor updated. -/
def Readable (before : List Op) (job : String) : Prop :=
  if job ∈ ids before then
    lastError before job =
      (lastText before job).map fun text => if text = "" then none else some text
  else ∀ op ∈ before, ¬op.updates job

instance (before : List Op) : DecidablePred (Readable before) := fun _ =>
  inferInstanceAs (Decidable (ite _ _ _))

/-- The job whose record a read is about. -/
def Op.subject? (before : List Op) : Op → Option String
  | get jobId => some jobId
  | findByResumeKey resumeKey => if resumeKey = "" then none else latestUnder before resumeKey
  | _ => none

/-- Every read of the calls is of a job that is readable when it is made. -/
def ReadsReadable : List Op → List Op → Prop
  | _, [] => True
  | before, op :: ops =>
    (∀ job ∈ op.subject? before, Readable before job) ∧ ReadsReadable (before ++ [op]) ops

instance : ∀ before ops : List Op, Decidable (ReadsReadable before ops)
  | _, [] => inferInstanceAs (Decidable True)
  | before, op :: ops =>
    have := instDecidableReadsReadable (before ++ [op]) ops
    inferInstanceAs (Decidable (_ ∧ _))

section snoc

variable {before : List Op} {op : Op} {job : String}

lemma created_snoc : created (before ++ [op]) = created before ++ op.created?.toList := by
  rw [created, List.filterMap_append]
  cases h : op.created? <;> simp [created, h]

lemma lastError_snoc :
    lastError (before ++ [op]) job = (op.errorGiven job).or (lastError before job) := by
  rw [lastError, List.filterMap_append]
  cases h : op.errorGiven job <;> simp [lastError, h]

lemma lastText_snoc :
    lastText (before ++ [op]) job = (op.textGiven job).or (lastText before job) := by
  rw [lastText, List.filterMap_append]
  cases h : op.textGiven job <;> simp [lastText, h]

lemma ids_snoc_of_created {record : Row} (h : op.created? = some record) :
    ids (before ++ [op]) = ids before ++ [record .jobId] := by
  rw [ids, created_snoc, h, List.map_append]
  rfl

lemma ids_snoc_of_none (h : op.created? = none) : ids (before ++ [op]) = ids before := by
  rw [ids, created_snoc, h, Option.toList_none, List.append_nil, ids]

lemma latestUnder_snoc_of_none {resumeKey : String} (h : op.created? = none) :
    latestUnder (before ++ [op]) resumeKey = latestUnder before resumeKey := by
  rw [latestUnder, created_snoc, h, Option.toList_none, List.append_nil, latestUnder]

lemma latestUnder_snoc_of_created {record : Row} {resumeKey : String}
    (h : op.created? = some record) :
    latestUnder (before ++ [op]) resumeKey =
      if record .resumeKey = resumeKey then some (record .jobId)
      else latestUnder before resumeKey := by
  rw [latestUnder, created_snoc, h, Option.toList_some, List.reverse_append, List.reverse_singleton,
    List.singleton_append, List.find?_cons]
  by_cases hk : record .resumeKey = resumeKey
  · simp [hk]
  · simp [hk, latestUnder]

lemma forall_not_updates_snoc :
    (∀ o ∈ before ++ [op], ¬o.updates job) ↔ (∀ o ∈ before, ¬o.updates job) ∧ ¬op.updates job := by
  simp only [List.mem_append, List.mem_singleton, or_imp, forall_and, forall_eq]

end snoc

/-- The latest job under a resume key was created. -/
lemma latestUnder_mem_ids {before : List Op} {resumeKey job : String}
    (h : latestUnder before resumeKey = some job) : job ∈ ids before := by
  obtain ⟨record, hfind, rfl⟩ := Option.map_eq_some_iff.mp h
  exact List.mem_map_of_mem (List.mem_reverse.mp (List.mem_of_find?_eq_some hfind))

/-! ## A hash and the record it stores -/

variable {fmt : Format}

/-- The hash stores the record, except that its error text is `text`. -/
structure Stored (fmt : Format) (raw : Field → Option String) (record : Row) (text : String) :
    Prop where
  error : raw .error = some text
  field : ∀ f : Field, f ≠ .error → raw f = some (f.encode fmt (record f))

/-- The record with the error that an error text is read as. -/
def withText (record : Row) (text : String) : Row :=
  record.copy fun
    | .error => some (if text = "" then none else some text)
    | _ => none

lemma withText_of_ne {record : Row} {text : String} {f : Field} (hf : f ≠ .error) :
    withText record text f = record f := by
  cases f <;> first | rfl | exact absurd rfl hf

lemma withText_eq_self {record : Row} {text : String} :
    withText record text = record ↔ record .error = if text = "" then none else some text := by
  constructor
  · intro h
    exact (congrFun h .error).symm
  · intro h
    funext f
    by_cases hf : f = .error
    · subst hf
      exact h.symm
    · exact withText_of_ne hf

namespace Stored

variable {raw : Field → Option String} {record : Row} {text : String}

lemma read (hs : Stored fmt raw record text) (f : Field) :
    f.read fmt raw = some (withText record text f) := by
  by_cases hf : f = .error
  · subst hf
    rw [Field.read, hs.error]
    rfl
  · rw [Field.read, hs.field f hf, withText_of_ne hf]
    exact Field.decode_encode fmt hf _

lemma validate (hs : Stored fmt raw record text) :
    JobRecord.validate fmt raw = .ok (withText record text) :=
  validate_eq_ok hs.read

/-- Writing the encoded update of a record to its hash. -/
lemma merge {update : (f : Field) → Option f.Value} {mapping : Field → Option String}
    (hs : Stored fmt raw record text)
    (hm : ∀ f : Field, f ≠ .error → mapping f = (update f).map (f.encode fmt)) :
    Stored fmt (fun f => (mapping f).or (raw f)) (record.copy update)
      ((mapping .error).getD text) := by
  constructor
  · rw [hs.error]
    cases mapping .error <;> rfl
  · intro f hf
    rw [hm f hf, hs.field f hf, Row.copy]
    cases update f <;> rfl

lemma of_create (record : Row) :
    Stored fmt (fun f => some (f.encode fmt (record f))) record ((record .error).getD "") :=
  ⟨rfl, fun _ _ => rfl⟩

end Stored

/-! ## The two states after the same calls -/

open InMemoryJobRepository RedisJobRepository

/-- A created record overwrites every field of its hash. -/
lemma hgetall_create (record : Row) (redis : Redis) (job : String) :
    (RedisJobRepository.create fmt record redis).hgetall (key job) =
      if job = record .jobId then fun f => some (f.encode fmt (record f))
      else redis.hgetall (key job) := by
  have hset : (RedisJobRepository.create fmt record redis).hgetall (key job) =
      (redis.hset (key (record .jobId)) fun f => some (f.encode fmt (record f))).hgetall
        (key job) := by
    rw [RedisJobRepository.create]
    split <;> rfl
  rw [hset]
  by_cases hj : job = record .jobId
  · rw [if_pos hj, hj, HashStore.hgetall_hset_self]
    rfl
  · rw [if_neg hj, HashStore.hgetall_hset_of_ne (key_injective.ne hj)]

lemma get_create (record : Row) (redis : Redis) {resumeKey : String} (hk : resumeKey ≠ "") :
    (RedisJobRepository.create fmt record redis).get (resumePointer resumeKey) =
      if record .resumeKey = resumeKey then some (record .jobId)
      else redis.get (resumePointer resumeKey) := by
  rw [RedisJobRepository.create]
  by_cases hkey : record .resumeKey = resumeKey
  · rw [if_pos hkey, if_neg (hkey ▸ hk), hkey]
    exact HashStore.get_set_self
  · rw [if_neg hkey]
    split
    · rfl
    · exact HashStore.get_set_of_ne (resumePointer_injective.ne (Ne.symm hkey))

/-- What the two repositories hold after the calls `before`. -/
structure Agree (fmt : Format) (before : List Op) (records : Records) (redis : Redis) : Prop where
  unknown : ∀ job, records.get job = none → job ∉ ids before ∧
    redis.hgetall (key job) .jobId = none ∧
    ((∀ f, redis.hgetall (key job) f = none) ↔ ∀ op ∈ before, ¬op.updates job)
  known : ∀ job record, records.get job = some record → job ∈ ids before ∧ record .jobId = job ∧
    ∃ text, Stored fmt (redis.hgetall (key job)) record text ∧ lastText before job = some text ∧
      lastError before job = some (record .error)
  counter : ∀ job v, redis.hgetall (key job) .framesProcessed = some v → ∃ n : ℤ, v = n.repr
  pointer : ∀ resumeKey, resumeKey ≠ "" →
    redis.get (resumePointer resumeKey) = latestUnder before resumeKey ∧
    (records.latest fun record => record .resumeKey = resumeKey).map (fun record => record .jobId) =
      latestUnder before resumeKey

lemma Agree.empty : Agree fmt [] ∅ ∅ := by
  constructor
  · intro job _
    refine ⟨List.not_mem_nil, rfl, ?_⟩
    simp
  · intro job record h
    exact absurd h (by simp)
  · intro job v h
    exact absurd h (by simp)
  · intro resumeKey _
    exact ⟨rfl, rfl⟩

namespace Agree

variable {before : List Op} {records : Records} {redis : Redis} {op : Op}

/-- Calls that create and update nothing change nothing that is told about a job. -/
lemma of_read (ha : Agree fmt before records redis) (hc : op.created? = none)
    (hu : ∀ job, ¬op.updates job) (ht : ∀ job, op.textGiven job = none)
    (he : ∀ job, op.errorGiven job = none) : Agree fmt (before ++ [op]) records redis := by
  constructor
  · intro job hj
    obtain ⟨hid, hjob, hall⟩ := ha.unknown job hj
    rw [ids_snoc_of_none hc, forall_not_updates_snoc, and_iff_left (hu job)]
    exact ⟨hid, hjob, hall⟩
  · intro job record hj
    rw [ids_snoc_of_none hc, lastText_snoc, ht, Option.none_or, lastError_snoc, he, Option.none_or]
    exact ha.known job record hj
  · exact ha.counter
  · intro resumeKey hk
    rw [latestUnder_snoc_of_none hc]
    exact ha.pointer resumeKey hk

/-- An update of one job: Redis merges the mapping into its hash, and the record, when there is
one, is copied with the update that the mapping encodes. -/
lemma of_update (ha : Agree fmt before records redis) {job : String}
    {update : Row → (f : Field) → Option f.Value} {mapping : Field → Option String}
    (hc : op.created? = none) (hu : ∀ j, op.updates j ↔ job = j)
    (ht : ∀ j, op.textGiven j = if job = j then mapping .error else none)
    (he : ∀ j record, op.errorGiven j = if job = j then update record .error else none)
    (hjob : ∀ record, update record .jobId = none)
    (hkey : ∀ record, update record .resumeKey = none)
    (hid : mapping .jobId = none) (hne : ∃ f, mapping f ≠ none)
    (hcount : ∀ v, mapping .framesProcessed = some v → ∃ n : ℤ, v = n.repr)
    (hm : ∀ record, records.get job = some record → ∀ f : Field, f ≠ .error →
      mapping f = (update record f).map (f.encode fmt)) :
    Agree fmt (before ++ [op])
      (InMemoryJobRepository.modify job (fun record => record.copy (update record)) records)
      (redis.hset (key job) mapping) := by
  constructor
  · intro j hj
    rw [ids_snoc_of_none hc, forall_not_updates_snoc, hu]
    by_cases hjj : j = job
    · subst hjj
      rw [get_modify_self, Option.map_eq_none_iff] at hj
      obtain ⟨hids, hno, -⟩ := ha.unknown j hj
      rw [HashStore.hgetall_hset_self]
      refine ⟨hids, ?_, iff_of_false (fun hall => ?_) (fun h => h.2 rfl)⟩
      · exact Option.or_eq_none_iff.mpr ⟨hid, hno⟩
      obtain ⟨f, hf⟩ := hne
      exact hf (Option.or_eq_none_iff.mp (hall f)).1
    · rw [get_modify_of_ne hjj] at hj
      rw [HashStore.hgetall_hset_of_ne (key_injective.ne hjj), and_iff_left (Ne.symm hjj)]
      exact ha.unknown j hj
  · intro j record' hj
    rw [ids_snoc_of_none hc, lastText_snoc, lastError_snoc, ht]
    by_cases hjj : j = job
    · subst hjj
      rw [get_modify_self, Option.map_eq_some_iff] at hj
      obtain ⟨record, hrec, rfl⟩ := hj
      obtain ⟨hids, hrid, text, hs, htext, herr⟩ := ha.known j record hrec
      rw [HashStore.hgetall_hset_self, he j record, if_pos rfl, if_pos rfl, htext, herr]
      refine ⟨hids, ?_, (mapping .error).getD text, hs.merge (hm record hrec), ?_, ?_⟩
      · rw [Row.copy, hjob, Option.getD_none, hrid]
      · cases mapping .error <;> rfl
      · rw [Row.copy]
        cases update record .error <;> rfl
    · rw [get_modify_of_ne hjj] at hj
      rw [HashStore.hgetall_hset_of_ne (key_injective.ne hjj), he j record',
        if_neg (Ne.symm hjj), if_neg (Ne.symm hjj), Option.none_or, Option.none_or]
      exact ha.known j record' hj
  · intro j v hv
    by_cases hjj : j = job
    · subst hjj
      rw [HashStore.hgetall_hset_self, Option.or_eq_some_iff] at hv
      obtain hv | ⟨-, hv⟩ := hv
      · exact hcount v hv
      · exact ha.counter j v hv
    · rw [HashStore.hgetall_hset_of_ne (key_injective.ne hjj)] at hv
      exact ha.counter j v hv
  · intro resumeKey hk
    obtain ⟨hptr, hlast⟩ := ha.pointer resumeKey hk
    rw [latestUnder_snoc_of_none hc, HashStore.get_hset]
    refine ⟨hptr, ?_⟩
    rw [← hlast, InMemoryJobRepository.modify]
    cases hrec : records.get job with
    | none => rfl
    | some record =>
      refine Dict.latest_set_of_some hrec ?_ ?_
      · rw [Row.copy, hkey, Option.getD_none]
      · rw [Row.copy, hjob, Option.getD_none]

/-- A created record is in both repositories. -/
lemma of_create (ha : Agree fmt before records redis) {record : Row}
    (hnew : record .jobId ∉ ids before) :
    Agree fmt (before ++ [.create record]) (InMemoryJobRepository.create record records)
      (RedisJobRepository.create fmt record redis) := by
  have hnone : records.get (record .jobId) = none := by
    by_contra h
    obtain ⟨r, hr⟩ := Option.ne_none_iff_exists'.mp h
    exact hnew (ha.known _ r hr).1
  have hgetall : ∀ j, (RedisJobRepository.create fmt record redis).hgetall (key j) =
      if j = record .jobId then fun f => some (f.encode fmt (record f))
      else redis.hgetall (key j) := hgetall_create record redis
  have hids : ids (before ++ [.create record]) = ids before ++ [record .jobId] :=
    ids_snoc_of_created rfl
  constructor
  · intro j hj
    have hjj : j ≠ record .jobId := by
      rintro rfl
      rw [InMemoryJobRepository.create, Dict.get_set_self] at hj
      cases hj
    rw [InMemoryJobRepository.create, Dict.get_set_of_ne hjj] at hj
    obtain ⟨hid, hno, hall⟩ := ha.unknown j hj
    rw [hgetall, if_neg hjj, hids, forall_not_updates_snoc,
      and_iff_left (show ¬Op.updates j (.create record) from fun h => h)]
    exact ⟨by simp [hid, hjj], hno, hall⟩
  · intro j r hj
    rw [lastText_snoc, lastError_snoc, hgetall, hids]
    by_cases hjj : j = record .jobId
    · subst hjj
      rw [InMemoryJobRepository.create, Dict.get_set_self] at hj
      obtain rfl := Option.some.inj hj
      rw [if_pos rfl, Op.textGiven, Op.errorGiven, if_pos rfl, if_pos rfl]
      exact ⟨by simp, rfl, _, Stored.of_create _, rfl, rfl⟩
    · rw [InMemoryJobRepository.create, Dict.get_set_of_ne hjj] at hj
      obtain ⟨hid, hrest⟩ := ha.known j r hj
      rw [if_neg hjj, Op.textGiven, Op.errorGiven, if_neg (Ne.symm hjj), if_neg (Ne.symm hjj),
        Option.none_or, Option.none_or]
      exact ⟨List.mem_append_left _ hid, hrest⟩
  · intro j v hv
    rw [hgetall] at hv
    split at hv
    · exact ⟨record .framesProcessed, (Option.some.inj hv).symm⟩
    · exact ha.counter j v hv
  · intro resumeKey hk
    obtain ⟨hptr, hlast⟩ := ha.pointer resumeKey hk
    rw [latestUnder_snoc_of_created rfl, InMemoryJobRepository.create,
      Dict.latest_set_of_none hnone]
    rw [get_create record redis hk]
    by_cases hkey : record .resumeKey = resumeKey
    · rw [if_pos hkey, if_pos hkey, if_pos (decide_eq_true hkey)]
      exact ⟨rfl, rfl⟩
    · rw [if_neg hkey, if_neg hkey, if_neg (by simpa using hkey)]
      exact ⟨hptr, hlast⟩

/-- Counting in a hash that no counter of holds anything but a number. -/
lemma incrementProcessed_eq (ha : Agree fmt before records redis) (job : String) (amount : ℤ) :
    ∃ n : ℤ, RedisJobRepository.incrementProcessed job amount redis =
        redis.hset (key job) (fun f =>
          if f = .framesProcessed then some (Int.repr (n + amount)) else none) ∧
      ∀ record, records.get job = some record → record .framesProcessed = n := by
  cases hv : redis.hgetall (key job) .framesProcessed with
  | none =>
    refine ⟨0, ?_, fun record hrec => ?_⟩
    · rw [RedisJobRepository.incrementProcessed, HashStore.hincrby_of_absent hv]
      rfl
    · obtain ⟨-, -, text, hs, -⟩ := ha.known job record hrec
      rw [hs.field _ (by decide)] at hv
      cases hv
  | some v =>
    obtain ⟨n, rfl⟩ := ha.counter job v hv
    refine ⟨n, ?_, fun record hrec => ?_⟩
    · rw [RedisJobRepository.incrementProcessed,
        HashStore.hincrby_of_number hv (Int.toInt?_repr n)]
      rfl
    · obtain ⟨-, -, text, hs, -⟩ := ha.known job record hrec
      rw [hs.field _ (by decide)] at hv
      exact Int.repr_injective (Option.some.inj hv)

/-- Every call keeps the two states in agreement, as long as no job is created twice. -/
lemma step (ha : Agree fmt before records redis)
    (hnew : ∀ record, op = .create record → record .jobId ∉ ids before) :
    Agree fmt (before ++ [op]) (inMemoryJobRepository.step records op)
      ((redisJobRepository fmt).step redis op) := by
  cases op with
  | create record => exact ha.of_create (hnew record rfl)
  | get job => exact ha.of_read rfl (fun _ h => h) (fun _ => rfl) fun _ => rfl
  | findByResumeKey resumeKey => exact ha.of_read rfl (fun _ h => h) (fun _ => rfl) fun _ => rfl
  | setStatus job status error now =>
    refine ha.of_update rfl (fun _ => Iff.rfl) (fun _ => rfl) (fun _ _ => rfl) (fun _ => rfl)
      (fun _ => rfl) rfl ⟨.status, Option.some_ne_none _⟩ (fun v hv => ?_) fun record _ f hf => ?_
    · cases hv
    · cases f <;> first | rfl | exact absurd rfl hf
  | checkpoint job dispatched failed last now =>
    refine ha.of_update rfl (fun _ => Iff.rfl) (fun _ => (ite_self _).symm)
      (fun _ _ => (ite_self _).symm) (fun _ => rfl) (fun _ => rfl) rfl
      ⟨.updatedAt, Option.some_ne_none _⟩ (fun v hv => ?_) fun record _ f hf => ?_
    · cases hv
    · cases f <;> rfl
  | incrementProcessed job amount =>
    obtain ⟨n, heq, hn⟩ := ha.incrementProcessed_eq job amount
    show Agree fmt _ _ (RedisJobRepository.incrementProcessed job amount redis)
    rw [heq]
    refine ha.of_update rfl (fun _ => Iff.rfl) (fun _ => (ite_self _).symm)
      (fun _ _ => (ite_self _).symm) (fun _ => rfl) (fun _ => rfl) rfl
      ⟨.framesProcessed, Option.some_ne_none _⟩ (fun v hv => ?_) fun record hrec f hf => ?_
    · exact ⟨n + amount, (Option.some.inj hv).symm⟩
    · rw [← hn record hrec]
      cases f <;> rfl

/-- The answers about a job agree exactly when the job is readable. -/
lemma get_eq_iff (ha : Agree fmt before records redis) (job : String) :
    InMemoryJobRepository.get job records = RedisJobRepository.get fmt job redis ↔
      Readable before job := by
  cases hrec : records.get job with
  | none =>
    obtain ⟨hid, hno, hall⟩ := ha.unknown job hrec
    rw [Readable, if_neg hid, ← hall, InMemoryJobRepository.get, hrec, RedisJobRepository.get]
    split
    · next h => exact iff_of_true rfl h
    · next h =>
      have hread : Field.read fmt (redis.hgetall (key job)) .jobId = none := by
        rw [Field.read, hno]
        rfl
      obtain ⟨e, he⟩ := validate_eq_error hread
      rw [he]
      exact iff_of_false (fun heq => by cases heq) h
  | some record =>
    obtain ⟨hid, -, text, hs, htext, herr⟩ := ha.known job record hrec
    have hne : ¬∀ f, redis.hgetall (key job) f = none := by
      intro hall
      have herror := hs.error
      rw [hall] at herror
      cases herror
    rw [Readable, if_pos hid, htext, herr, Option.map_some, Option.some_inj, ← withText_eq_self,
      InMemoryJobRepository.get, hrec, RedisJobRepository.get, if_neg hne, hs.validate]
    constructor
    · intro h
      exact (Option.some.inj (Except.ok.inj h)).symm
    · intro h
      rw [h]
      rfl

/-- The answers of a call agree exactly when the job it reads, if any, is readable. -/
lemma reply_eq_iff (ha : Agree fmt before records redis) (op : Op) :
    inMemoryJobRepository.reply? records op = (redisJobRepository fmt).reply? redis op ↔
      ∀ job ∈ op.subject? before, Readable before job := by
  cases op with
  | create _ | setStatus _ _ _ _ | checkpoint _ _ _ _ _ | incrementProcessed _ _ =>
    exact iff_of_true rfl fun job hjob => absurd hjob (Option.not_mem_none job)
  | get job =>
    rw [reply?, reply?, Option.some_inj, Op.subject?]
    exact (ha.get_eq_iff job).trans (by simp)
  | findByResumeKey resumeKey =>
    rw [reply?, reply?, Option.some_inj, Op.subject?]
    show InMemoryJobRepository.findByResumeKey resumeKey records =
      RedisJobRepository.findByResumeKey fmt resumeKey redis ↔ _
    rw [InMemoryJobRepository.findByResumeKey, RedisJobRepository.findByResumeKey]
    by_cases hk : resumeKey = ""
    · rw [if_pos hk, if_pos hk, if_pos hk]
      exact iff_of_true rfl fun job hjob => absurd hjob (Option.not_mem_none job)
    · rw [if_neg hk, if_neg hk, if_neg hk]
      obtain ⟨hptr, hlast⟩ := ha.pointer resumeKey hk
      rw [hptr]
      cases hu : latestUnder before resumeKey with
      | none =>
        rw [hu, Option.map_eq_none_iff] at hlast
        rw [hlast]
        exact iff_of_true rfl fun job hjob => absurd hjob (Option.not_mem_none job)
      | some job =>
        rw [hu, Option.map_eq_some_iff] at hlast
        obtain ⟨record, hlatest, hjob⟩ := hlast
        obtain ⟨-, j, hget⟩ := Dict.get_of_latest hlatest
        obtain ⟨-, hj, -⟩ := ha.known j record hget
        have hsame : InMemoryJobRepository.get job records = .ok (some record) := by
          rw [InMemoryJobRepository.get, ← hjob, hj, hget]
        rw [hlatest, ← hsame]
        exact (ha.get_eq_iff job).trans (by simp)

/-- From agreeing states the rest of the answers agree exactly when all its reads are readable. -/
lemma replies_eq_iff {ops : List Op} (ha : Agree fmt before records redis)
    (hids : (ids (before ++ ops)).Nodup) :
    inMemoryJobRepository.replies records ops = (redisJobRepository fmt).replies redis ops ↔
      ReadsReadable before ops := by
  induction ops generalizing before records redis with
  | nil => exact iff_of_true rfl trivial
  | cons op ops ih =>
    rw [replies, replies, List.cons.injEq, ReadsReadable, ha.reply_eq_iff]
    refine and_congr_right fun _ => ih (ha.step fun record hop => ?_) ?_
    · subst hop
      rw [ids, created, List.filterMap_append, List.map_append] at hids
      exact fun hmem => (List.nodup_append'.mp hids).2.2 hmem (List.mem_cons_self)
    · rwa [List.append_assoc, List.singleton_append]

end Agree

/-- Sequences of calls that create no job twice are answered alike by the two repositories exactly
when all their reads are readable. -/
theorem interchangeable_iff (fmt : Format) (ops : List Op) (hids : (ids ops).Nodup) :
    inMemoryJobRepository.replies ∅ ops = (redisJobRepository fmt).replies ∅ ops ↔
      ReadsReadable [] ops :=
  Agree.empty.replies_eq_iff hids

/-- A record as a request for 50 frames of the video `"v"` creates it. -/
def requested (jobId : String) : Row
  | .jobId => jobId
  | .videoId => "v"
  | .resumeKey => "v@5"
  | .status => JobStatus.pending
  | .sourceFps => (30 : ℚ)
  | .targetFps => (5 : ℤ)
  | .totalSourceFrames => (300 : ℤ)
  | .framesExpected => (50 : ℤ)
  | .framesDispatched | .framesFailed | .framesProcessed => (0 : ℤ)
  | .lastSourceIndex => (-1 : ℤ)
  | .startedAt | .updatedAt => (10 : ℚ)
  | .error => none

/-- A job that runs, is counted and found by its key, and fails, next to one never heard of. -/
theorem interchangeable_run :
    inMemoryJobRepository.replies ∅ [.create (requested "j"), .setStatus "j" .running none 11,
        .checkpoint "j" 2 0 12 12, .incrementProcessed "j" 2, .findByResumeKey "v@5",
        .setStatus "j" .failed (some "boom") 13, .get "j", .get "k"] =
      (redisJobRepository Format.whole).replies ∅ [.create (requested "j"),
        .setStatus "j" .running none 11, .checkpoint "j" 2 0 12 12, .incrementProcessed "j" 2,
        .findByResumeKey "v@5", .setStatus "j" .failed (some "boom") 13, .get "j", .get "k"] :=
  (interchangeable_iff Format.whole _ (by decide)).mpr (by decide)

/-- A failed job that runs again keeps its error in Redis only, and a frame counted for an unknown
job leaves a hash in Redis that does not validate. -/
theorem not_interchangeable :
    inMemoryJobRepository.replies ∅ [.create (requested "j"),
        .setStatus "j" .failed (some "boom") 11, .setStatus "j" .running none 12, .get "j"] ≠
      (redisJobRepository Format.whole).replies ∅ [.create (requested "j"),
        .setStatus "j" .failed (some "boom") 11, .setStatus "j" .running none 12, .get "j"] ∧
    inMemoryJobRepository.replies ∅ [.incrementProcessed "k" 1, .get "k"] ≠
      (redisJobRepository Format.whole).replies ∅ [.incrementProcessed "k" 1, .get "k"] := by
  constructor
  · rw [Ne, Agree.empty.replies_eq_iff (by decide)]
    decide
  · rw [Ne, Agree.empty.replies_eq_iff (by decide)]
    decide

/-! ## The record of a job in Redis -/

/-- `JobRecord.model_dump`. -/
def dump (r : JobRecord) : Row
  | .jobId => r.jobId
  | .videoId => r.videoId
  | .resumeKey => r.resumeKey
  | .status => r.status
  | .sourceFps => r.sourceFps
  | .targetFps => r.targetFps
  | .totalSourceFrames => (r.totalSourceFrames : ℤ)
  | .framesExpected => (r.framesExpected : ℤ)
  | .framesDispatched => (r.framesDispatched : ℤ)
  | .framesFailed => (r.framesFailed : ℤ)
  | .framesProcessed => (r.framesProcessed : ℤ)
  | .lastSourceIndex => r.lastSourceIndex
  | .startedAt => r.startedAt
  | .updatedAt => r.updatedAt
  | .error => r.error

/-- The hash of the job stores its record. -/
def Holds (fmt : Format) (redis : Redis) (r : JobRecord) : Prop :=
  Stored fmt (redis.hgetall (key r.jobId)) (dump r) (r.error.getD "")

namespace Holds

variable {redis : Redis} {r : JobRecord}

/-- The record is read back unless its error is empty. -/
lemma get (hh : Holds fmt redis r) (he : r.error ≠ some "") :
    RedisJobRepository.get fmt r.jobId redis = .ok (some (dump r)) := by
  have hne : ¬∀ f, redis.hgetall (key r.jobId) f = none := by
    intro hall
    have herror := hh.error
    rw [hall] at herror
    cases herror
  have hself : withText (dump r) (r.error.getD "") = dump r := by
    rw [withText_eq_self]
    show r.error = _
    cases h : r.error with
    | none => rfl
    | some e =>
      rw [h] at he
      rw [Option.getD_some, if_neg fun h0 => he (congrArg some h0)]
  rw [RedisJobRepository.get, if_neg hne, Stored.validate hh, hself]
  rfl

lemma create (fmt : Format) (redis : Redis) (r : JobRecord) :
    Holds fmt (RedisJobRepository.create fmt (dump r) redis) r := by
  have hset : (RedisJobRepository.create fmt (dump r) redis).hgetall (key r.jobId) =
      fun f => some (f.encode fmt (dump r f)) := by
    rw [RedisJobRepository.create]
    split <;> exact HashStore.hgetall_hset_self
  rw [Holds, hset]
  exact Stored.of_create (dump r)

/-- A status set in Redis is the status set on the record. -/
lemma setStatus (hh : Holds fmt redis r) (status : JobStatus) (error : Option String) (now : ℚ) :
    Holds fmt (RedisJobRepository.setStatus fmt r.jobId status error now redis)
      (r.setStatus status error now) := by
  rw [Holds, RedisJobRepository.setStatus]
  constructor
  · rw [show (r.setStatus status error now).jobId = r.jobId from rfl, HashStore.hgetall_hset_self]
    beta_reduce
    rw [hh.error, JobRecord.setStatus]
    cases error <;> rfl
  · intro f hf
    rw [show (r.setStatus status error now).jobId = r.jobId from rfl, HashStore.hgetall_hset_self]
    beta_reduce
    rw [hh.field f hf]
    cases f <;> first | rfl | exact absurd rfl hf

/-- A checkpoint written to Redis is the checkpoint of the record. -/
lemma checkpoint (hh : Holds fmt redis r) (c : Checkpoint) (now : ℚ) :
    Holds fmt (RedisJobRepository.checkpoint fmt r.jobId c.framesDispatched c.framesFailed
      c.lastSourceIndex now redis) (r.checkpoint c now) := by
  rw [Holds, RedisJobRepository.checkpoint]
  constructor
  · rw [show (r.checkpoint c now).jobId = r.jobId from rfl, HashStore.hgetall_hset_self]
    exact hh.error
  · intro f hf
    rw [show (r.checkpoint c now).jobId = r.jobId from rfl, HashStore.hgetall_hset_self]
    beta_reduce
    rw [hh.field f hf]
    cases f <;> rfl

end Holds

end JobRepository

end VideoPipeline

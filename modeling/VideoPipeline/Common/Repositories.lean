import Mathlib
import VideoPipeline.Lib.Store
import VideoPipeline.Common.Messages
import VideoPipeline.Common.Identity

/-!
# The job repositories

The port `JobRepository` and its two adapters: the dictionary of records of
`InMemoryJobRepository` and the Redis hashes of `RedisJobRepository`, which keeps beside every
record the pointer from its resume key to the latest job created under it.

A record is taken field by field here, as `model_dump` gives it, with Python's unbounded integers
in its counters. Redis holds the text of a field, and a missing error as the empty text.
-/

namespace VideoPipeline

/-! ## The fields of a record -/

namespace JobStatus

/-- The value of the enumeration member. -/
def value : JobStatus → String
  | pending => "PENDING"
  | running => "RUNNING"
  | completed => "COMPLETED"
  | partial_ => "PARTIAL"
  | failed => "FAILED"
  | cancelled => "CANCELLED"

def all : List JobStatus := [pending, running, completed, partial_, failed, cancelled]

def ofValue? (s : String) : Option JobStatus := all.find? (·.value = s)

@[simp] lemma ofValue?_value (st : JobStatus) : ofValue? st.value = some st := by
  cases st <;> decide

end JobStatus

namespace JobRecord

inductive Field where
  | jobId
  | videoId
  | resumeKey
  | status
  | sourceFps
  | targetFps
  | totalSourceFrames
  | framesExpected
  | framesDispatched
  | framesFailed
  | framesProcessed
  | lastSourceIndex
  | startedAt
  | updatedAt
  | error
  deriving DecidableEq, Repr

namespace Field

def all : List Field :=
  [jobId, videoId, resumeKey, status, sourceFps, targetFps, totalSourceFrames, framesExpected,
    framesDispatched, framesFailed, framesProcessed, lastSourceIndex, startedAt, updatedAt, error]

lemma mem_all (f : Field) : f ∈ all := by
  cases f <;> decide

instance : Fintype Field := Fintype.ofList all mem_all

@[reducible] def Value : Field → Type
  | jobId | videoId | resumeKey => String
  | status => JobStatus
  | sourceFps | startedAt | updatedAt => ℚ
  | targetFps | totalSourceFrames | framesExpected | framesDispatched | framesFailed
  | framesProcessed | lastSourceIndex => ℤ
  | error => Option String

/-- The default of the field. A job id and a video id are required. -/
def default? : (f : Field) → Option f.Value
  | jobId | videoId => none
  | resumeKey => some ""
  | status => some JobStatus.pending
  | sourceFps | startedAt | updatedAt => some (0 : ℚ)
  | targetFps | totalSourceFrames | framesExpected | framesDispatched | framesFailed
  | framesProcessed => some (0 : ℤ)
  | lastSourceIndex => some (-1 : ℤ)
  | error => some none

end Field

/-- A record as a value for each of its fields. -/
abbrev Row := (f : Field) → f.Value

/-- `model_copy(update=...)`. -/
def Row.copy (r : Row) (update : (f : Field) → Option f.Value) : Row :=
  fun f => (update f).getD (r f)

/-- The texts of floating point numbers. -/
structure Format where
  str : ℚ → String
  float : String → Option ℚ
  float_str : ∀ q, float (str q) = some q

namespace Format

/-- A whole number is printed as `str` prints it, any other rational with one less than its
denominator behind the point. -/
def wholeStr (q : ℚ) : String := Int.repr q.num ++ "." ++ Nat.repr (q.den - 1)

def wholeFloat (s : String) : Option ℚ :=
  (String.ofList (s.toList.takeWhile (· ≠ '.'))).toInt?.bind fun n =>
    (String.ofList ((s.toList.dropWhile (· ≠ '.')).drop 1)).toNat?.map
      fun d : ℕ => (n : ℚ) / ((d : ℚ) + 1)

lemma wholeFloat_wholeStr (q : ℚ) : wholeFloat (wholeStr q) = some q := by
  have hdot : '.' ∉ (Int.repr q.num).toList := not_mem_int_repr (by decide) (by decide) _
  have hl : (wholeStr q).toList =
      (Int.repr q.num).toList ++ '.' :: (Nat.repr (q.den - 1)).toList := by
    rw [wholeStr, String.toList_append, String.toList_append, List.append_assoc]
    rfl
  have hden : ((q.den - 1 : ℕ) : ℚ) + 1 = q.den := by
    exact_mod_cast Nat.sub_add_cancel q.pos
  rw [wholeFloat, hl, List.takeWhile_append_of_pos (by grind), List.takeWhile_cons_of_neg (by simp),
    List.dropWhile_append_of_pos (by grind), List.dropWhile_cons_of_neg (by simp), List.append_nil,
    List.drop_one, List.tail_cons, String.ofList_toList, String.ofList_toList, Int.toInt?_repr,
    Option.bind_some, Nat.toNat?_repr, Option.map_some, hden, q.num_div_den]

/-- A formatting that agrees with Python's on whole numbers. -/
def whole : Format := ⟨wholeStr, wholeFloat, wholeFloat_wholeStr⟩

end Format

namespace Field

/-- The text that `create` stores for a value of the field. -/
def encode (fmt : Format) : (f : Field) → f.Value → String
  | jobId, s | videoId, s | resumeKey, s => s
  | status, st => st.value
  | sourceFps, q | startedAt, q | updatedAt, q => fmt.str q
  | targetFps, n | totalSourceFrames, n | framesExpected, n | framesDispatched, n
  | framesFailed, n | framesProcessed, n | lastSourceIndex, n => Int.repr n
  | error, e => e.getD ""

/-- The value read from a stored text. An empty error is read as none. -/
def decode (fmt : Format) : (f : Field) → String → Option f.Value
  | jobId, s | videoId, s | resumeKey, s => some s
  | status, s => JobStatus.ofValue? s
  | sourceFps, s | startedAt, s | updatedAt, s => fmt.float s
  | targetFps, s | totalSourceFrames, s | framesExpected, s | framesDispatched, s
  | framesFailed, s | framesProcessed, s | lastSourceIndex, s => s.toInt?
  | error, s => some (if s = "" then none else some s)

lemma decode_encode (fmt : Format) {f : Field} (hf : f ≠ error) (v : f.Value) :
    f.decode fmt (f.encode fmt v) = some v := by
  cases f with
  | jobId | videoId | resumeKey => rfl
  | status => exact JobStatus.ofValue?_value v
  | sourceFps | startedAt | updatedAt => exact fmt.float_str v
  | targetFps | totalSourceFrames | framesExpected | framesDispatched | framesFailed
  | framesProcessed | lastSourceIndex => exact Int.toInt?_repr v
  | error => exact absurd rfl hf

/-- The value a field of a hash is given, its default when it is not in the hash. -/
def read (fmt : Format) (raw : Field → Option String) (f : Field) : Option f.Value :=
  match raw f with
  | none => f.default?
  | some s => f.decode fmt s

end Field

/-- The fields for which `model_validate` found no value. -/
structure ValidationError where
  loc : List Field
  deriving DecidableEq, Repr

/-- `JobRecord.model_validate` on the fields of a hash. -/
def validate (fmt : Format) (raw : Field → Option String) : Except ValidationError Row :=
  if h : ∀ f : Field, (f.read fmt raw).isSome then
    .ok fun f => (f.read fmt raw).get (h f)
  else
    .error ⟨Field.all.filter fun f => (f.read fmt raw).isNone⟩

lemma validate_eq_ok {fmt : Format} {raw : Field → Option String} {r : Row}
    (h : ∀ f : Field, f.read fmt raw = some (r f)) : validate fmt raw = .ok r := by
  rw [validate, dif_pos fun f => by rw [h f]; rfl]
  congr 1
  funext f
  simp [h f]

lemma validate_eq_error {fmt : Format} {raw : Field → Option String} {f : Field}
    (h : f.read fmt raw = none) : ∃ e, validate fmt raw = .error e := by
  refine ⟨_, dif_neg fun hall => ?_⟩
  have := hall f
  rw [h] at this
  exact absurd this (by simp)

end JobRecord

open JobRecord

/-! ## The port -/

/-- What a read returns: a record or none, or the exception of a record that does not
validate. -/
abbrev Reply := Except ValidationError (Option Row)

/-- The operations of the port `JobRepository` on a state of the repository. The updates are told
the time they happen at. -/
structure JobRepository (σ : Type) where
  create (record : Row) (s : σ) : σ
  get (jobId : String) (s : σ) : Reply
  findByResumeKey (resumeKey : String) (s : σ) : Reply
  setStatus (jobId : String) (status : JobStatus) (error : Option String) (now : ℚ) (s : σ) : σ
  checkpoint (jobId : String) (framesDispatched framesFailed lastSourceIndex : ℤ) (now : ℚ)
    (s : σ) : σ
  incrementProcessed (jobId : String) (amount : ℤ) (s : σ) : σ

namespace JobRepository

/-- A call of the port. -/
inductive Op where
  | create (record : Row)
  | get (jobId : String)
  | findByResumeKey (resumeKey : String)
  | setStatus (jobId : String) (status : JobStatus) (error : Option String) (now : ℚ)
  | checkpoint (jobId : String) (framesDispatched framesFailed lastSourceIndex : ℤ) (now : ℚ)
  | incrementProcessed (jobId : String) (amount : ℤ)

variable {σ : Type} (repo : JobRepository σ)

/-- The state after a call. -/
def step (s : σ) : Op → σ
  | .create record => repo.create record s
  | .get _ | .findByResumeKey _ => s
  | .setStatus jobId status error now => repo.setStatus jobId status error now s
  | .checkpoint jobId dispatched failed last now =>
    repo.checkpoint jobId dispatched failed last now s
  | .incrementProcessed jobId amount => repo.incrementProcessed jobId amount s

/-- What a call returns, if it is a read. -/
def reply? (s : σ) : Op → Option Reply
  | .get jobId => some (repo.get jobId s)
  | .findByResumeKey resumeKey => some (repo.findByResumeKey resumeKey s)
  | _ => none

/-- What the reads of a sequence of calls return. -/
def replies (s : σ) : List Op → List (Option Reply)
  | [] => []
  | op :: ops => repo.reply? s op :: replies (repo.step s op) ops

end JobRepository

/-! ## The dictionary of records -/

namespace InMemoryJobRepository

abbrev Records := Dict String Row

def create (record : Row) (records : Records) : Records :=
  records.set (record .jobId) record

def get (jobId : String) (records : Records) : Reply := .ok (records.get jobId)

/-- Last write wins, mirroring the Redis pointer key. -/
def findByResumeKey (resumeKey : String) (records : Records) : Reply :=
  if resumeKey = "" then .ok none
  else .ok (records.latest fun record => record .resumeKey = resumeKey)

/-- An update of a record, nothing when the job is unknown. -/
def modify (jobId : String) (f : Row → Row) (records : Records) : Records :=
  match records.get jobId with
  | none => records
  | some record => records.set jobId (f record)

lemma get_modify_self {jobId : String} {f : Row → Row} {records : Records} :
    (modify jobId f records).get jobId = (records.get jobId).map f := by
  rw [modify]
  cases h : records.get jobId with
  | none => simp [h]
  | some record => simp

lemma get_modify_of_ne {jobId j : String} {f : Row → Row} {records : Records} (hj : j ≠ jobId) :
    (modify jobId f records).get j = records.get j := by
  rw [modify]
  cases records.get jobId with
  | none => rfl
  | some record => exact Dict.get_set_of_ne hj

def setStatus (jobId : String) (status : JobStatus) (error : Option String) (now : ℚ) :
    Records → Records :=
  modify jobId fun record => record.copy fun
    | .status => some status
    | .error => some error
    | .updatedAt => some now
    | _ => none

def checkpoint (jobId : String) (framesDispatched framesFailed lastSourceIndex : ℤ) (now : ℚ) :
    Records → Records :=
  modify jobId fun record => record.copy fun
    | .framesDispatched => some framesDispatched
    | .framesFailed => some framesFailed
    | .lastSourceIndex => some lastSourceIndex
    | .updatedAt => some now
    | _ => none

def incrementProcessed (jobId : String) (amount : ℤ) : Records → Records :=
  modify jobId fun record => record.copy fun
    | .framesProcessed => some (record .framesProcessed + amount)
    | _ => none

end InMemoryJobRepository

/-- `InMemoryJobRepository`. -/
def inMemoryJobRepository : JobRepository InMemoryJobRepository.Records where
  create := InMemoryJobRepository.create
  get := InMemoryJobRepository.get
  findByResumeKey := InMemoryJobRepository.findByResumeKey
  setStatus := InMemoryJobRepository.setStatus
  checkpoint := InMemoryJobRepository.checkpoint
  incrementProcessed := InMemoryJobRepository.incrementProcessed

/-! ## The hashes in Redis -/

namespace RedisJobRepository

abbrev Redis := HashStore String Field String

def key (jobId : String) : String := "job:" ++ jobId

def resumePointer (resumeKey : String) : String := "resume:" ++ resumeKey

variable (fmt : Format)

def create (record : Row) (redis : Redis) : Redis :=
  let redis := redis.hset (key (record .jobId)) fun f => some (f.encode fmt (record f))
  if record .resumeKey = "" then redis
  else redis.set (resumePointer (record .resumeKey)) (record .jobId)

def get (jobId : String) (redis : Redis) : Reply :=
  if ∀ f, redis.hgetall (key jobId) f = none then .ok none
  else (validate fmt (redis.hgetall (key jobId))).map some

def findByResumeKey (resumeKey : String) (redis : Redis) : Reply :=
  if resumeKey = "" then .ok none
  else
    match redis.get (resumePointer resumeKey) with
    | none => .ok none
    | some jobId => get fmt jobId redis

/-- The error is written only when there is one. -/
def setStatus (jobId : String) (status : JobStatus) (error : Option String) (now : ℚ)
    (redis : Redis) : Redis :=
  redis.hset (key jobId) fun
    | .status => some status.value
    | .updatedAt => some (fmt.str now)
    | .error => error
    | _ => none

def checkpoint (jobId : String) (framesDispatched framesFailed lastSourceIndex : ℤ) (now : ℚ)
    (redis : Redis) : Redis :=
  redis.hset (key jobId) fun
    | .framesDispatched => some (Int.repr framesDispatched)
    | .framesFailed => some (Int.repr framesFailed)
    | .lastSourceIndex => some (Int.repr lastSourceIndex)
    | .updatedAt => some (fmt.str now)
    | _ => none

/-- Redis refuses to count in a field that holds no number, and then changes nothing. -/
def incrementProcessed (jobId : String) (amount : ℤ) (redis : Redis) : Redis :=
  (redis.hincrby String.toInt? Int.repr (key jobId) .framesProcessed amount).getD redis

lemma key_injective : Function.Injective key := fun _ _ h => String.append_right_inj _ |>.mp h

lemma resumePointer_injective : Function.Injective resumePointer :=
  fun _ _ h => String.append_right_inj _ |>.mp h

/-- The hashes and the pointers share no key. -/
lemma key_ne_resumePointer (jobId resumeKey : String) : key jobId ≠ resumePointer resumeKey := by
  intro h
  have := congrArg (fun s => s.toList.head?) h
  simp [key, resumePointer] at this

end RedisJobRepository

/-- `RedisJobRepository`, where number formatting parses back, nothing expires and Redis is always
reached. -/
def redisJobRepository (fmt : Format) : JobRepository RedisJobRepository.Redis where
  create := RedisJobRepository.create fmt
  get := RedisJobRepository.get fmt
  findByResumeKey := RedisJobRepository.findByResumeKey fmt
  setStatus := RedisJobRepository.setStatus fmt
  checkpoint := RedisJobRepository.checkpoint fmt
  incrementProcessed := RedisJobRepository.incrementProcessed

end VideoPipeline

import Mathlib.Data.Rat.Floor
import VideoPipeline.Lib.Expiry
import VideoPipeline.Lib.Store

/-!
# The frame store

The port `FrameStore` and its two adapters. `InMemoryFrameStore` removes a blob when it is read
after its deadline, Redis whenever it likes. Both answer with the blob put last under the key, for
as long as its time to live, which Redis counts in milliseconds.
-/

namespace VideoPipeline

/-- The frame store is unreachable or rejected a write. -/
structure FrameStoreError where
  key : String
  deriving DecidableEq, Repr

/-- The operations of the port `FrameStore`, each told the time it happens at. -/
structure FrameStore (σ : Type) where
  put (key : String) (data : List UInt8) (ttlSec : ℤ) (now : ℚ) (s : σ) :
    Except FrameStoreError Unit × σ
  get (key : String) (now : ℚ) (s : σ) : Option (List UInt8) × σ

namespace FrameStore

inductive Op where
  | put (key : String) (data : List UInt8) (ttlSec : ℤ)
  | get (key : String)
  deriving DecidableEq, Repr

/-- A call of the port. -/
structure Call where
  now : ℚ
  op : Op
  deriving DecidableEq, Repr

inductive Reply where
  | stored (r : Except FrameStoreError Unit)
  | blob (data : Option (List UInt8))
  deriving DecidableEq

variable {σ : Type} (store : FrameStore σ)

def call (s : σ) (c : Call) : Reply × σ :=
  match c.op with
  | .put key data ttlSec =>
    ((.stored (store.put key data ttlSec c.now s).1), (store.put key data ttlSec c.now s).2)
  | .get key => ((.blob (store.get key c.now s).1), (store.get key c.now s).2)

/-- What a sequence of calls returns. -/
def replies (s : σ) : List Call → List Reply
  | []      => []
  | c :: cs => (store.call s c).1 :: replies (store.call s c).2 cs

/-- What a call puts under a key, with its deadline. -/
def Call.putUnder (key : String) (c : Call) : Option (List UInt8 × ℚ) :=
  match c.op with
  | .put key' data ttlSec => if key' = key then some (data, c.now + ttlSec) else none
  | .get _ => none

/-- The blob put last under a key, for as long as its time to live. -/
def expected (before : List Call) (key : String) (now : ℚ) : Option (List UInt8) :=
  (before.filterMap (Call.putUnder key)).getLast?.bind fun e =>
    if now < e.2 then some e.1 else none

/-- What a sequence of calls is to return, after the calls `before`. -/
def expectedReplies (before : List Call) : List Call → List Reply
  | [] => []
  | c :: cs =>
    (match c.op with
      | .put .. => .stored (.ok ())
      | .get key => .blob (expected before key c.now)) :: expectedReplies (before ++ [c]) cs

end FrameStore

/-! ## The two adapters -/

namespace InMemoryFrameStore

/-- The blobs with the time at which each expires. -/
abbrev Blobs := Dict String (List UInt8 × ℚ)

def put (key : String) (data : List UInt8) (ttlSec : ℤ) (now : ℚ) (blobs : Blobs) :
    Except FrameStoreError Unit × Blobs :=
  (.ok (), blobs.set key (data, now + ttlSec))

def get (key : String) (now : ℚ) (blobs : Blobs) : Option (List UInt8) × Blobs :=
  match blobs.get key with
  | none => (none, blobs)
  | some (data, expiresAt) => if now ≥ expiresAt then (none, blobs.pop key) else (some data, blobs)

end InMemoryFrameStore

/-- `InMemoryFrameStore`. -/
def inMemoryFrameStore : FrameStore InMemoryFrameStore.Blobs where
  put := InMemoryFrameStore.put
  get := InMemoryFrameStore.get

namespace RedisFrameStore

abbrev Redis := Expiring String (List UInt8) ℚ

/-- The clock of Redis. -/
def millis (now : ℚ) : ℤ := ⌊1000 * now⌋

/-- The largest signed integer of 64 bits. -/
def maxMillis : ℤ := 2 ^ 63 - 1

/-- The bytes of a key or a value: 512 MB. -/
def maxBulk : ℕ := 512 * 1024 ^ 2

/-- Redis takes a positive time to live whose deadline is an integer of 64 bits. -/
def accepts (key : String) (data : List UInt8) (ttlSec : ℤ) (now : ℚ) : Bool :=
  key.utf8ByteSize ≤ maxBulk ∧ data.length ≤ maxBulk ∧ 0 < ttlSec ∧
    1000 * ttlSec ≤ maxMillis ∧ millis now + 1000 * ttlSec ≤ maxMillis

/-- When a key is gone: Redis still answers with it in the millisecond of its deadline. -/
def goneAt (now : ℚ) (ttlSec : ℤ) : ℚ := (millis now + 1000 * ttlSec + 1 : ℤ) / 1000

/-- `SET key data EX ttl`. -/
def put (key : String) (data : List UInt8) (ttlSec : ℤ) (now : ℚ) (redis : Redis) :
    Except FrameStoreError Unit × Redis :=
  if accepts key data ttlSec now then (.ok (), redis.put key data (goneAt now ttlSec))
  else (.error ⟨key⟩, redis)

def get (key : String) (now : ℚ) (redis : Redis) : Option (List UInt8) × Redis :=
  (redis.get now key, redis)

end RedisFrameStore

/-- `RedisFrameStore`, where Redis is always reached. -/
def redisFrameStore : FrameStore RedisFrameStore.Redis where
  put := RedisFrameStore.put
  get := RedisFrameStore.get

/-! ## What they answer -/

namespace FrameStore

open InMemoryFrameStore RedisFrameStore

/-- Redis takes what the call puts. -/
def Call.accepted (c : Call) : Bool :=
  match c.op with
  | .put key data ttlSec => accepts key data ttlSec c.now
  | .get _ => true

/-- The second call does not read between the end of the time to live that the first one has set and
the end of the millisecond in which it falls. -/
def Call.clear (c c' : Call) : Bool :=
  match c.op, c'.op with
  | .put key _ ttlSec, .get key' =>
    key' ≠ key ∨ c'.now < c.now + ttlSec ∨ goneAt c.now ttlSec ≤ c'.now
  | _, _ => true

/-- The calls are made in the order of their times, Redis takes what they put, and no read falls
into the last millisecond of a key. -/
structure WellTimed (calls : List Call) : Prop where
  sorted : calls.Pairwise fun c c' => c.now ≤ c'.now
  accepted : ∀ c ∈ calls, c.accepted
  clear : calls.Pairwise fun c c' => c.clear c'

variable {before calls : List Call} {c : Call} {key : String} {data : List UInt8} {ttlSec : ℤ}
  {now t : ℚ} {blobs : Blobs} {redis : Redis}

/-- Redis keeps a key for its time to live. -/
lemma lt_goneAt (now : ℚ) (ttlSec : ℤ) : now + ttlSec < goneAt now ttlSec := by
  have hfloor : 1000 * now < (millis now : ℚ) + 1 := Int.lt_floor_add_one _
  rw [goneAt, lt_div_iff₀ (by norm_num)]
  push_cast
  linarith

/-- What is put last under each key, with its deadline. -/
def latest (before : List Call) : Redis :=
  ⟨fun key => (before.filterMap (Call.putUnder key)).getLast?⟩

lemma get_latest : (latest before).get now key = expected before key now := rfl

lemma latest_snoc_put (hop : c.op = .put key data ttlSec) :
    latest (before ++ [c]) = (latest before).put key data (c.now + ttlSec) := by
  rw [latest, latest, Expiring.put]
  congr 1
  funext k
  have hunder : c.putUnder k = if key = k then some (data, c.now + ttlSec) else none := by
    rw [Call.putUnder, hop]
  rw [List.filterMap_append]
  by_cases hk : k = key
  · subst hk
    simp [hunder]
  · simp [hunder, hk, Ne.symm hk]

lemma latest_snoc_get (hop : c.op = .get key) : latest (before ++ [c]) = latest before := by
  have hunder : ∀ k, c.putUnder k = none := by
    intro k
    rw [Call.putUnder, hop]
  simp [latest, hunder]

/-- The dictionary as a store whose entries expire. -/
def expiring (blobs : Blobs) : Redis := ⟨blobs.get⟩

lemma get_expiring (blobs : Blobs) : (expiring blobs).get now key =
    (blobs.get key).bind fun e => if now < e.2 then some e.1 else none := rfl

lemma expiring_set (blobs : Blobs) (data : List UInt8) (deadline : ℚ) :
    expiring (blobs.set key (data, deadline)) = (expiring blobs).put key data deadline := by
  have h : (blobs.set key (data, deadline)).get =
      Function.update blobs.get key (some (data, deadline)) := by
    funext k
    by_cases hk : k = key
    · subst hk
      rw [Dict.get_set_self, Function.update_self]
    · rw [Dict.get_set_of_ne hk, Function.update_of_ne hk]
  rw [expiring, h]
  rfl

lemma expiring_pop (blobs : Blobs) : expiring (blobs.pop key) = (expiring blobs).remove key := by
  have h : (blobs.pop key).get = Function.update blobs.get key none := by
    funext k
    by_cases hk : k = key
    · subst hk
      rw [Dict.get_pop_self, Function.update_self]
    · rw [Dict.get_pop_of_ne hk, Function.update_of_ne hk]
  rw [expiring, h]
  rfl

/-- A read of the dictionary answers like the store, and what it removes was gone. -/
lemma get_agrees (ha : Expiring.AgreeFrom now (expiring blobs) redis) :
    (InMemoryFrameStore.get key now blobs).1 = redis.get now key ∧
      Expiring.AgreeFrom now (expiring (InMemoryFrameStore.get key now blobs).2) redis := by
  have hget : (expiring blobs).get now key =
      (blobs.get key).bind fun e => if now < e.2 then some e.1 else none := get_expiring blobs
  rw [← ha now le_rfl key, hget, InMemoryFrameStore.get]
  cases he : blobs.get key with
  | none => exact ⟨rfl, ha⟩
  | some e =>
    obtain ⟨data, expiresAt⟩ := e
    rw [he, Option.bind_some] at hget
    dsimp only
    by_cases hgone : now ≥ expiresAt
    · rw [if_neg hgone.not_gt] at hget
      rw [if_pos hgone, expiring_pop, Option.bind_some, if_neg hgone.not_gt]
      exact ⟨rfl, ha.remove hget⟩
    · rw [if_neg hgone, Option.bind_some, if_pos (not_le.mp hgone)]
      exact ⟨rfl, ha⟩

/-- What the two stores hold after the calls `before`. -/
structure Agree (before : List Call) (now : ℚ) (blobs : Blobs) (redis : Redis) : Prop where
  memory : Expiring.AgreeFrom now (expiring blobs) (latest before)
  redis : ∀ t key, (∀ c ∈ before, c.clear ⟨t, .get key⟩) → redis.get t key = expected before key t

lemma Agree.empty : Agree [] now ∅ ∅ := ⟨.refl now _, fun _ _ _ => rfl⟩

lemma Agree.put (ha : Agree before now blobs redis) (hnow : now ≤ c.now)
    (hop : c.op = .put key data ttlSec) :
    Agree (before ++ [c]) c.now (blobs.set key (data, c.now + ttlSec))
      (redis.put key data (goneAt c.now ttlSec)) := by
  constructor
  · rw [expiring_set, latest_snoc_put hop]
    exact (ha.memory.later hnow).put key data _
  · intro t k hclear
    rw [← get_latest, latest_snoc_put hop]
    by_cases hk : k = key
    · subst hk
      rw [Expiring.get_put_self, Expiring.get_put_self]
      have hgone := lt_goneAt c.now ttlSec
      have hc := hclear c (by simp)
      simp only [Call.clear, hop, ne_eq, not_true_eq_false, false_or, decide_eq_true_eq] at hc
      rcases hc with hlt | hle
      · rw [if_pos hlt, if_pos (hlt.trans hgone)]
      · rw [if_neg hle.not_gt, if_neg (hgone.le.trans hle).not_gt]
    · rw [Expiring.get_put_of_ne hk, Expiring.get_put_of_ne hk, get_latest]
      exact ha.redis t k fun c' hc' => hclear c' (by simp [hc'])

lemma Agree.get (ha : Agree before now blobs redis) (hnow : now ≤ c.now) (hop : c.op = .get key) :
    Agree (before ++ [c]) c.now (InMemoryFrameStore.get key c.now blobs).2 redis := by
  constructor
  · rw [latest_snoc_get hop]
    exact (get_agrees (ha.memory.later hnow)).2
  · intro t k hclear
    rw [← get_latest, latest_snoc_get hop, get_latest]
    exact ha.redis t k fun c' hc' => hclear c' (by simp [hc'])

lemma replies_of_agree (hw : WellTimed calls) (hnow : ∀ c ∈ calls, now ≤ c.now)
    (hclear : ∀ c ∈ before, ∀ c' ∈ calls, c.clear c')
    (ha : Agree before now blobs redis) :
    inMemoryFrameStore.replies blobs calls = expectedReplies before calls ∧
      redisFrameStore.replies redis calls = expectedReplies before calls := by
  induction calls generalizing before now blobs redis with
  | nil => exact ⟨rfl, rfl⟩
  | cons c calls ih =>
    have hc : now ≤ c.now := hnow c List.mem_cons_self
    obtain ⟨hfirst, hsorted⟩ := List.pairwise_cons.mp hw.sorted
    obtain ⟨hfirstClear, hlaterClear⟩ := List.pairwise_cons.mp hw.clear
    have hlater : WellTimed calls :=
      ⟨hsorted, fun c' hc' => hw.accepted c' (List.mem_cons_of_mem c hc'), hlaterClear⟩
    have hclear' : ∀ b ∈ before ++ [c], ∀ c' ∈ calls, b.clear c' := by
      intro b hb c' hc'
      rcases List.mem_append.mp hb with hb | hb
      · exact hclear b hb c' (List.mem_cons_of_mem c hc')
      · obtain rfl := List.mem_singleton.mp hb
        exact hfirstClear c' hc'
    rw [replies, replies, expectedReplies, call, call]
    cases hop : c.op with
    | put key data ttlSec =>
      have haccepts : accepts key data ttlSec c.now = true := by
        have hc := hw.accepted c List.mem_cons_self
        rwa [Call.accepted, hop] at hc
      have hput : redisFrameStore.put key data ttlSec c.now redis =
          (.ok (), redis.put key data (goneAt c.now ttlSec)) := if_pos haccepts
      simp only [hput]
      obtain ⟨hmem, hred⟩ := ih hlater hfirst hclear' (ha.put hc hop)
      exact ⟨congrArg _ hmem, congrArg _ hred⟩
    | get key =>
      have hmemory : (InMemoryFrameStore.get key c.now blobs).1 = expected before key c.now :=
        (get_agrees (ha.memory.later hc)).1
      have hredis : redis.get c.now key = expected before key c.now := by
        refine ha.redis _ _ fun b hb => ?_
        rw [← hop]
        exact hclear b hb c List.mem_cons_self
      obtain ⟨hmem, hred⟩ := ih hlater hfirst hclear' (ha.get hc hop)
      constructor
      · exact congrArg₂ List.cons (congrArg Reply.blob hmemory) hmem
      · exact congrArg₂ List.cons (congrArg Reply.blob hredis) hred

/-- As long as the clock does not go back, Redis takes what is put and no read falls into the last
millisecond of a key, both stores answer every sequence of calls alike: a read gets the blob put
last under its key, or none once the time to live of that blob is over. -/
theorem replies_eq_expected (hw : WellTimed calls) :
    inMemoryFrameStore.replies ∅ calls = expectedReplies [] calls ∧
      redisFrameStore.replies ∅ calls = expectedReplies [] calls := by
  cases calls with
  | nil => exact ⟨rfl, rfl⟩
  | cons c calls =>
    have hempty : Agree [] c.now ∅ ∅ := .empty
    refine replies_of_agree hw ?_ (by simp) hempty
    intro c' hc'
    rcases List.mem_cons.mp hc' with rfl | hc'
    · exact le_rfl
    · exact (List.pairwise_cons.mp hw.sorted).1 c' hc'

/-- A blob is read twice, replaced after it expired, and read again. -/
theorem replies_eq_expected_four :
    let calls : List Call :=
      [⟨0, .put "frame:j:0" [1] 60⟩, ⟨59, .get "frame:j:0"⟩, ⟨61, .get "frame:j:0"⟩,
        ⟨61, .put "frame:j:0" [2] 60⟩, ⟨62, .get "frame:j:0"⟩]
    inMemoryFrameStore.replies ∅ calls = redisFrameStore.replies ∅ calls ∧
      expectedReplies [] calls = [.stored (.ok ()), .blob (some [1]), .blob none,
        .stored (.ok ()), .blob (some [2])] := by
  intro calls
  have hw : WellTimed calls := ⟨by decide +kernel, by decide +kernel, by decide +kernel⟩
  obtain ⟨hmem, hred⟩ := replies_eq_expected hw
  exact ⟨hmem.trans hred.symm, by decide +kernel⟩

end FrameStore

end VideoPipeline

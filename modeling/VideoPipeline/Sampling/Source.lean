import VideoPipeline.Sampling.Cursor

/-!
# Decoding a video into sampled frames

`video_analyzer/domain/video_source.py`. The loop of `iter_sampled` is a decoder that grabs one
frame at a time and retrieves it when the sampler keeps it. It labels the frames by a counter, and
the capture that it reads from has a position of its own.
-/

namespace VideoPipeline

/-- What becomes of a frame when it is retrieved and encoded. -/
inductive RawFrame where
  | noImage
  | notEncodable
  | image (posMsec : ℚ) (jpeg : List UInt8) (width height : ℕ)
  deriving DecidableEq, Repr

/-- One kept frame, already JPEG-encoded and ready to store. -/
structure SampledFrame where
  slot : ℕ
  sourceIndex : ℕ
  timestampSec : ℚ
  jpeg : List UInt8
  width : ℕ
  height : ℕ
  deriving DecidableEq, Repr

/-- A frame the sampler wanted but that could not be decoded or encoded. -/
structure DecodeFailure where
  sourceIndex : ℕ
  reason : String
  deriving DecidableEq, Repr

inductive Item where
  | frame (f : SampledFrame)
  | failure (f : DecodeFailure)
  deriving DecidableEq, Repr

namespace Item

def sourceIndex : Item → ℕ
  | .frame f   => f.sourceIndex
  | .failure f => f.sourceIndex

def frame? : Item → Option SampledFrame
  | .frame f   => some f
  | .failure _ => none

def failure? : Item → Option DecodeFailure
  | .frame _   => none
  | .failure f => some f

end Item

/-- A video as its container reports it and as it decodes. A seek lands where the backend has a
keyframe, and the backend may not report where that is. -/
structure Video where
  sourceFps : ℚ
  totalFrames : ℕ
  frames : List RawFrame
  landing : ℕ → ℕ
  reports : Bool

/-- What the generator yields: the slot that the sampler answered with, the frame that was really
decoded, and the item. -/
structure Yielded where
  slot : ℕ
  position : ℕ
  item : Item
  deriving DecidableEq, Repr

/-- The slot and the source index of what is yielded. -/
def Yielded.labels (y : Yielded) : ℕ × ℕ := (y.slot, y.item.sourceIndex)

namespace Video

/-- Set the position of the capture. The start is always found, any other position only as the
backend can. -/
def setPosFrames (v : Video) (p : ℕ) : ℕ := if p = 0 then 0 else v.landing p

/-- The position as it is reported: none when it is not finite or negative. -/
def getPosFrames (v : Video) (position : ℕ) : Option ℕ :=
  if v.reports then some position else none

/-- Seek for a resume: the index on which the seek is taken to have landed, and the position of the
capture. -/
def seekTo (v : Video) (target : ℕ) : ℕ × ℕ :=
  let position := v.setPosFrames target
  let landed := (v.getPosFrames position).getD 0
  if landed > target then (0, v.setPosFrames 0) else (landed, position)

lemma seekTo_le (v : Video) (target : ℕ) : (v.seekTo target).1 ≤ target := by
  simp only [seekTo]
  split
  · exact Nat.zero_le _
  · next hle => exact not_lt.mp hle

/-- The frame at an index can be retrieved and encoded. -/
def decodes (v : Video) (i : ℕ) : Bool :=
  match v.frames[i]? with
  | some (.image ..) => true
  | _                => false

/-- What `iter_sampled` makes of a frame it keeps. -/
def retrieve (v : Video) (index slot : ℕ) : RawFrame → Item
  | .noImage      => .failure ⟨index, "retrieve returned no image"⟩
  | .notEncodable => .failure ⟨index, "JPEG encoding failed"⟩
  | .image posMsec jpeg width height =>
    .frame ⟨slot, index, if posMsec > 0 then posMsec / 1000 else index / v.sourceFps, jpeg, width,
      height⟩

/-- The decode loop over the remaining frames: the first of them is at a position and gets a
label. -/
def loop (v : Video) : FrameSampler → ℕ → ℕ → List RawFrame → List Yielded
  | _, _, _, [] => []
  | s, index, position, f :: fs =>
    match s.take index with
    | (some slot, s') =>
      ⟨slot, position, v.retrieve index slot f⟩ :: loop v s' (index + 1) (position + 1) fs
    | (none, s')      => loop v s' (index + 1) (position + 1) fs

/-- The source indices that are sampled from the frames of the video. -/
def sampled (v : Video) (r : SamplingRate) : List ℕ :=
  (r.iterSlots v.frames.length).map Prod.snd

end Video

/-- The generator of `iter_sampled` between two frames: the label of the next frame, which has not
passed the frame that the sampler waits for, and the position of the capture. -/
structure Decoder where
  sampler : FrameSampler
  index : ℕ
  position : ℕ
  waiting : index ≤ sampler.cursorIndex
  deriving DecidableEq, Repr

namespace Decoder

/-- The generator as it starts, after the single seek. -/
def start (v : Video) (s : FrameSampler) : Decoder :=
  if s.nextSourceIndex > 0 then
    ⟨s, (v.seekTo s.nextSourceIndex).1, (v.seekTo s.nextSourceIndex).2, v.seekTo_le _⟩
  else ⟨s, 0, 0, Nat.zero_le _⟩

lemma waiting_take {s : FrameSampler} {i : ℕ} (h : i ≤ s.cursorIndex) :
    i + 1 ≤ (s.take i).2.cursorIndex := by
  by_cases heq : i = s.cursorIndex
  · rw [FrameSampler.take_of_eq heq, heq]
    exact s.lt_cursorIndex_next
  · rw [FrameSampler.take_of_ne heq]
    exact lt_of_le_of_ne h heq

/-- Grab the next frame; at the end of the stream there is none. -/
def grab (v : Video) (d : Decoder) : Option (Option Item × Decoder) :=
  match v.frames[d.position]? with
  | none => none
  | some f =>
    some ((d.sampler.take d.index).1.map fun slot => v.retrieve d.index slot f,
      ⟨(d.sampler.take d.index).2, d.index + 1, d.position + 1, waiting_take d.waiting⟩)

/-- What the generator yields from here on, without an abort. -/
def yields (v : Video) (d : Decoder) : List Yielded :=
  v.loop d.sampler d.index d.position (v.frames.drop d.position)

/-- The items that the generator has still to yield. -/
def items (v : Video) (d : Decoder) : List Item := (d.yields v).map Yielded.item

/-- The frames still to be yielded. -/
def frames (v : Video) (d : Decoder) : List SampledFrame := (d.items v).filterMap Item.frame?

/-- The failures still to be yielded. -/
def failures (v : Video) (d : Decoder) : List DecodeFailure := (d.items v).filterMap Item.failure?

end Decoder

/-! ### The loop -/

namespace Video

variable {v : Video}

lemma retrieve_sourceIndex (index slot : ℕ) (f : RawFrame) :
    (v.retrieve index slot f).sourceIndex = index := by
  cases f <;> rfl

lemma loop_cons (s : FrameSampler) (index position : ℕ) (f : RawFrame) (fs : List RawFrame) :
    v.loop s index position (f :: fs) =
      ((s.take index).1.map fun slot =>
        (⟨slot, position, v.retrieve index slot f⟩ : Yielded)).toList ++
      v.loop (s.take index).2 (index + 1) (position + 1) fs := by
  rw [loop]
  split <;> next htake => simp [htake]

/-- The loop labels consecutive frames with consecutive indices, of which the sampler keeps some. -/
lemma loop_labels (s : FrameSampler) (index position : ℕ) (fs : List RawFrame) :
    (v.loop s index position fs).map Yielded.labels =
      s.kept (List.range' index fs.length) := by
  induction fs generalizing s index position with
  | nil => rfl
  | cons f fs ih =>
    rw [loop_cons, List.map_append, ih, List.length_cons, List.range'_succ, FrameSampler.kept_cons]
    congr 1
    cases (s.take index).1 with
    | none => rfl
    | some slot => simp [Yielded.labels, retrieve_sourceIndex]

/-- Label and position advance together. -/
lemma loop_offset {s : FrameSampler} {index position : ℕ} {fs : List RawFrame} {y : Yielded}
    (hy : y ∈ v.loop s index position fs) :
    y.item.sourceIndex + position = y.position + index := by
  induction fs generalizing s index position with
  | nil => cases hy
  | cons f fs ih =>
    rw [loop_cons, List.mem_append] at hy
    rcases hy with hy | hy
    · rw [Option.mem_toList, Option.map_eq_some_iff] at hy
      obtain ⟨slot, -, rfl⟩ := hy
      rw [retrieve_sourceIndex, Nat.add_comm]
    · have hnext := ih hy
      omega

/-- What is yielded is retrieved from the frame at its position. -/
lemma loop_retrieve {s : FrameSampler} {index position : ℕ} {fs : List RawFrame} {y : Yielded}
    (hfs : v.frames.drop position = fs) (hy : y ∈ v.loop s index position fs) :
    ∃ f, v.frames[y.position]? = some f ∧ y.item = v.retrieve y.item.sourceIndex y.slot f := by
  induction fs generalizing s index position with
  | nil => cases hy
  | cons f fs ih =>
    rw [loop_cons, List.mem_append] at hy
    rcases hy with hy | hy
    · rw [Option.mem_toList, Option.map_eq_some_iff] at hy
      obtain ⟨slot, -, rfl⟩ := hy
      refine ⟨f, ?_, by rw [retrieve_sourceIndex]⟩
      rw [← List.head?_drop, hfs, List.head?_cons]
    · refine ih ?_ hy
      rw [← List.tail_drop, hfs, List.tail_cons]

lemma sampled_pairwise (r : SamplingRate) : (v.sampled r).Pairwise (· < ·) :=
  r.iterSlots_pairwise _

lemma length_sampled (r : SamplingRate) :
    (v.sampled r).length = r.expectedFrameCount v.frames.length := by
  simp [sampled, SamplingRate.iterSlots]

end Video

namespace Decoder

variable {v : Video} {d d' : Decoder}

/-! ### Grabbing one frame -/

lemma items_of_grab_none (h : d.grab v = none) : d.items v = [] := by
  rw [grab] at h
  split at h
  · next hn =>
    rw [items, yields, List.drop_eq_nil_of_le (List.getElem?_eq_none_iff.mp hn)]
    rfl
  · cases h

lemma items_of_grab {it : Option Item} (h : d.grab v = some (it, d')) :
    d.items v = it.toList ++ d'.items v := by
  rw [grab] at h
  split at h
  · cases h
  · next f hf =>
    cases h
    obtain ⟨hlt, hget⟩ := List.getElem?_eq_some_iff.mp hf
    rw [items, yields, List.drop_eq_getElem_cons hlt, hget, Video.loop_cons, List.map_append]
    congr 1
    cases (d.sampler.take d.index).1 <;> rfl

lemma frames_of_grab {it : Option Item} (h : d.grab v = some (it, d')) :
    d.frames v = (it.bind Item.frame?).toList ++ d'.frames v := by
  rw [frames, items_of_grab h, List.filterMap_append, frames]
  cases it with
  | none => rfl
  | some it => cases it <;> rfl

lemma failures_of_grab {it : Option Item} (h : d.grab v = some (it, d')) :
    d.failures v = (it.bind Item.failure?).toList ++ d'.failures v := by
  rw [failures, items_of_grab h, List.filterMap_append, failures]
  cases it with
  | none => rfl
  | some it => cases it <;> rfl

/-! ### What a decoder yields -/

lemma sampler_start (v : Video) (s : FrameSampler) : (start v s).sampler = s := by
  rw [start]
  split <;> rfl

/-- Wherever the capture is, the labels are those of the slots from the cursor on, for as many
frames as there are left. -/
lemma yields_labels (v : Video) (d : Decoder) :
    (d.yields v).map Yielded.labels =
      (d.sampler.iterSlots ((d.index + (v.frames.length - d.position) : ℕ) : ℤ)).drop
        d.sampler.cursorSlot := by
  rw [yields, Video.loop_labels, List.length_drop, ← FrameSampler.kept_range' d.waiting,
    Nat.add_sub_cancel_left]

lemma items_sourceIndex (v : Video) (d : Decoder) :
    (d.items v).map Item.sourceIndex = ((d.yields v).map Yielded.labels).map Prod.snd := by
  rw [items, List.map_map, List.map_map]
  rfl

/-- The items come in the order of the frames. -/
lemma items_pairwise (v : Video) (d : Decoder) :
    ((d.items v).map Item.sourceIndex).Pairwise (· < ·) := by
  rw [items_sourceIndex, yields_labels, List.map_drop]
  exact (d.sampler.iterSlots_pairwise _).drop

/-- A run that starts after a source index labels everything with a later one. -/
lemma lt_of_mem_items {r : SamplingRate} {L : ℤ} {it : Item}
    (hit : it ∈ (start v (.startAt r (r.slotAfterSourceIndex L))).items v) :
    L < (it.sourceIndex : ℤ) := by
  have hmem := List.mem_map_of_mem (f := Item.sourceIndex) hit
  rw [items_sourceIndex, yields_labels, sampler_start] at hmem
  obtain ⟨p, hp, heq⟩ := List.mem_map.mp hmem
  obtain ⟨hle, hidx⟩ := FrameSampler.mem_drop_iterSlots hp
  rw [← heq, hidx]
  exact (r.slotAfterSourceIndex_le_iff L p.1).mp hle

lemma mem_items_of_frame {f : SampledFrame} (hf : f ∈ d.frames v) :
    .frame f ∈ d.items v := by
  obtain ⟨it, hit, hframe⟩ := List.mem_filterMap.mp hf
  cases it with
  | frame f' =>
    obtain rfl := Option.some.inj hframe
    exact hit
  | failure => cases hframe

lemma mem_items_of_failure {f : DecodeFailure} (hf : f ∈ d.failures v) :
    .failure f ∈ d.items v := by
  obtain ⟨it, hit, hfail⟩ := List.mem_filterMap.mp hf
  cases it with
  | frame => cases hfail
  | failure f' =>
    obtain rfl := Option.some.inj hfail
    exact hit

/-- The frames are among the items, in their order. -/
lemma frames_sublist (v : Video) (d : Decoder) :
    ((d.frames v).map SampledFrame.sourceIndex).Sublist ((d.items v).map Item.sourceIndex) := by
  rw [frames]
  induction d.items v with
  | nil => exact .slnil
  | cons it l ih =>
    cases it with
    | frame f => exact ih.cons_cons f.sourceIndex
    | failure f => exact ih.cons f.sourceIndex

lemma frames_pairwise (v : Video) (d : Decoder) :
    ((d.frames v).map SampledFrame.sourceIndex).Pairwise (· < ·) :=
  (items_pairwise v d).sublist (frames_sublist v d)

end Decoder

/-- A frame that can be retrieved and encoded. -/
def RawFrame.blank : RawFrame := .image 0 [] 1 1

/-- A clip at one frame per second, sampled completely by `everyFrame`. -/
def Video.clip (frames : List RawFrame) : Video := ⟨1, frames.length, frames, id, true⟩

def FrameSampler.everyFrame : FrameSampler := .startAt ⟨1, 1, 1, le_rfl⟩ 0

lemma FrameSampler.new_everyFrame : FrameSampler.new 1 1 0 = .ok everyFrame := by decide +kernel

end VideoPipeline

import Mathlib.Data.List.Sort
import VideoPipeline.Sampling.Source

/-!
# Seeking on a resume

`OpenCVVideoSource.iter_sampled` and `_seek_to` over a capture that has a position of its own. The
label of a frame is right as long as the counter and the position agree, and a seek whose position
the backend does not report is taken for one that landed on frame 0. Where a seek is sure, a run
yields the sampled frames after the one that it resumes from, each once and under its own index.
-/

namespace VideoPipeline

/-- The label is the true index of the decoded frame. -/
def Yielded.Truthful (y : Yielded) : Prop := y.item.sourceIndex = y.position

instance : DecidablePred Yielded.Truthful := fun y =>
  inferInstanceAs (Decidable (y.item.sourceIndex = y.position))

namespace Video

variable {v : Video} {s : FrameSampler}

/-- Everything that is yielded by a run without abort, which starts at the next source index of its
sampler. -/
def iterSampled (v : Video) (s : FrameSampler) : List Yielded := (Decoder.start v s).yields v

/-- What a run from a slot on must yield: truly labelled items, and in order the slots from there
on whose frame the video has. -/
def YieldsRightly (v : Video) (s : FrameSampler) (startSlot : ℤ) : Prop :=
  (∀ y ∈ v.iterSampled s, y.Truthful) ∧
    (v.iterSampled s).map Yielded.labels =
      (s.iterSlots v.frames.length).filter fun p => startSlot ≤ p.1

/-- A seek to a target cannot go wrong unnoticed: none is made, the backend reports where it has
landed, it goes to the start, or there is no frame left to label. -/
def SeeksSurely (v : Video) (target : ℕ) : Prop :=
  target = 0 ∨ v.reports = true ∨ v.landing target = 0 ∨ v.frames.length ≤ target

instance (v : Video) (target : ℕ) : Decidable (v.SeeksSurely target) :=
  inferInstanceAs (Decidable (_ ∨ _ ∨ _ ∨ _))

/-! ### Label and position -/

/-- A seek whose position is reported leaves label and position equal. -/
lemma seekTo_reported (hrep : v.reports = true) (target : ℕ) :
    (v.seekTo target).1 = (v.seekTo target).2 := by
  simp only [seekTo, getPosFrames, hrep, if_true, Option.getD_some]
  split
  · rfl
  · rfl

/-- A seek whose position is not reported is taken for one to the start. -/
lemma seekTo_unreported (hrep : v.reports = false) {target : ℕ} (hpos : 0 < target) :
    v.seekTo target = (0, v.landing target) := by
  simp [seekTo, setPosFrames, getPosFrames, hrep, hpos.ne']

lemma start_of_zero (h : s.nextSourceIndex = 0) :
    (Decoder.start v s).index = 0 ∧ (Decoder.start v s).position = 0 := by
  rw [Decoder.start, if_neg (by omega)]
  exact ⟨rfl, rfl⟩

lemma start_of_pos (h : 0 < s.nextSourceIndex) :
    (Decoder.start v s).index = (v.seekTo s.nextSourceIndex).1 ∧
      (Decoder.start v s).position = (v.seekTo s.nextSourceIndex).2 := by
  rw [Decoder.start, if_pos h]
  exact ⟨rfl, rfl⟩

lemma iterSampled_labels (v : Video) (s : FrameSampler) :
    (v.iterSampled s).map Yielded.labels =
      (s.iterSlots (((Decoder.start v s).index +
        (v.frames.length - (Decoder.start v s).position) : ℕ) : ℤ)).drop s.cursorSlot := by
  rw [iterSampled, Decoder.yields_labels, Decoder.sampler_start]

/-- A slot from the cursor on is not before the index that the cursor waits for. -/
lemma drop_eq_nil_of_le {n : ℕ} (hn : n ≤ s.nextSourceIndex) :
    (s.iterSlots n).drop s.cursorSlot = [] := by
  apply FrameSampler.drop_iterSlots_eq_nil
  rw [← s.cursor]
  exact_mod_cast hn

/-- With label and position equal at the start, they stay so. -/
lemma yieldsRightly_of_start
    (heq : (Decoder.start v s).index = (Decoder.start v s).position) :
    v.YieldsRightly s s.cursorSlot := by
  have hwait : (Decoder.start v s).index ≤ s.nextSourceIndex := by
    have := (Decoder.start v s).waiting
    rwa [Decoder.sampler_start] at this
  constructor
  · intro y hy
    have hoff := loop_offset hy
    rw [heq] at hoff
    exact Nat.add_right_cancel hoff
  · rw [iterSampled_labels, ← heq]
    simp only [Nat.cast_le, FrameSampler.filter_slot_iterSlots]
    rcases le_total (Decoder.start v s).index v.frames.length with hle | hle
    · rw [Nat.add_sub_cancel' hle]
    · rw [Nat.sub_eq_zero_of_le hle, Nat.add_zero, drop_eq_nil_of_le hwait,
        drop_eq_nil_of_le (hle.trans hwait)]

/-- Where no frame is left and the first label is 0, nothing is yielded. -/
lemma yieldsRightly_of_exhausted (hzero : (Decoder.start v s).index = 0)
    (hle : v.frames.length ≤ s.nextSourceIndex) : v.YieldsRightly s s.cursorSlot := by
  have hlabels : (v.iterSampled s).map Yielded.labels = [] := by
    rw [iterSampled_labels, hzero]
    exact drop_eq_nil_of_le (by omega)
  have hnil := List.map_eq_nil_iff.mp hlabels
  constructor
  · rw [hnil]
    exact List.forall_mem_nil _
  · simp only [Nat.cast_le, FrameSampler.filter_slot_iterSlots]
    rw [hlabels, drop_eq_nil_of_le hle]

/-- Where the seek is sure, the run is right. -/
lemma yieldsRightly_of_sure (hsure : v.SeeksSurely s.nextSourceIndex) :
    v.YieldsRightly s s.cursorSlot := by
  rcases Nat.eq_zero_or_pos s.nextSourceIndex with hzero | hpos
  · obtain ⟨hindex, hposition⟩ := start_of_zero (v := v) hzero
    exact yieldsRightly_of_start (hindex.trans hposition.symm)
  · obtain ⟨hindex, hposition⟩ := start_of_pos (v := v) hpos
    cases hrep : v.reports with
    | true =>
      apply yieldsRightly_of_start
      rw [hindex, hposition, seekTo_reported hrep]
    | false =>
      rw [seekTo_unreported hrep hpos] at hindex hposition
      rcases hsure with hnone | htrue | hstart | hle
      · exact absurd hnone hpos.ne'
      · rw [hrep] at htrue
        cases htrue
      · exact yieldsRightly_of_start (hindex.trans (hposition.trans hstart).symm)
      · exact yieldsRightly_of_exhausted hindex hle

/-- With a first label of 0 for a later frame, the run is right only if nothing is due. -/
lemma length_le_of_yieldsRightly (hzero : (Decoder.start v s).index = 0)
    (hpos : 0 < (Decoder.start v s).position) (hright : v.YieldsRightly s s.cursorSlot) :
    v.frames.length ≤ s.nextSourceIndex := by
  obtain ⟨htrue, hlabels⟩ := hright
  simp only [Nat.cast_le, FrameSampler.filter_slot_iterSlots] at hlabels
  by_contra hlt
  have hdue : (s.sourceIndexForSlot s.cursorSlot : ℤ) < v.frames.length := by
    rw [← s.cursor]
    exact_mod_cast not_le.mp hlt
  have hmem : (s.cursorSlot, s.sourceIndexForSlot s.cursorSlot) ∈
      (v.iterSampled s).map Yielded.labels := by
    rw [hlabels, FrameSampler.drop_iterSlots _ _ hdue]
    exact List.mem_cons_self
  obtain ⟨y, hy, -⟩ := List.mem_map.mp hmem
  have hsame : y.item.sourceIndex = y.position := htrue y hy
  have hoff := loop_offset hy
  rw [hzero, hsame] at hoff
  omega

/-- A resumed run is right exactly when it needs no seek, its backend reports the position after
the seek, the seek went to the start of the video, or the video has no frame left to sample. -/
theorem yieldsRightly_iff {sourceFps : ℚ} {targetFps startSlot : ℤ}
    (h : FrameSampler.new sourceFps targetFps startSlot = .ok s) (v : Video) :
    v.YieldsRightly s startSlot ↔
      s.nextSourceIndex = 0 ∨ v.reports = true ∨ v.landing s.nextSourceIndex = 0 ∨
        v.frames.length ≤ s.nextSourceIndex := by
  obtain ⟨-, -, hslot, -⟩ := FrameSampler.new_ok h
  rw [← hslot]
  refine ⟨fun hright => ?_, yieldsRightly_of_sure⟩
  by_cases hsure : v.SeeksSurely s.nextSourceIndex
  · exact hsure
  · simp only [SeeksSurely, not_or, Bool.not_eq_true] at hsure
    obtain ⟨hnext, hrep, hlanding, -⟩ := hsure
    obtain ⟨hindex, hposition⟩ := start_of_pos (v := v) (Nat.pos_of_ne_zero hnext)
    rw [seekTo_unreported hrep (Nat.pos_of_ne_zero hnext)] at hindex hposition
    have hpos : 0 < (Decoder.start v s).position := by
      rw [hposition]
      exact Nat.pos_of_ne_zero hlanding
    exact .inr (.inr (.inr (length_le_of_yieldsRightly hindex hpos hright)))

/-- A seek that goes past its target is reported, so the clip is scanned from the start. -/
theorem yieldsRightly_iff_late :
    ∃ s, FrameSampler.new 1 1 (1 : ℕ) = .ok s ∧
      (⟨1, 3, [.blank, .blank, .blank], fun _ => 2, true⟩ : Video).YieldsRightly s (1 : ℕ) :=
  ⟨_, FrameSampler.new_startSlot FrameSampler.new_everyFrame 1,
    (yieldsRightly_iff (FrameSampler.new_startSlot FrameSampler.new_everyFrame 1) _).mpr
      (.inr (.inl rfl))⟩

/-- The seek lands on frame 1, which it was asked for, but the backend does not report it. Frame 2
is then yielded under the index 1, and the slot of frame 2 is missing. -/
theorem seek_unreported_mislabels :
    ∃ s, FrameSampler.new 1 1 1 = .ok s ∧
      ((⟨1, 3, [.blank, .blank, .blank], id, false⟩ : Video).iterSampled s).map
        (fun y => (y.labels, y.position)) = [((1, 1), 2)] ∧
      ¬ (⟨1, 3, [.blank, .blank, .blank], id, false⟩ : Video).YieldsRightly s 1 := by
  refine ⟨.startAt FrameSampler.everyFrame.toSamplingRate 1, ?_, ?_, ?_⟩
  · exact FrameSampler.new_startSlot FrameSampler.new_everyFrame 1
  · decide +kernel
  · rintro ⟨htrue, -⟩
    revert htrue
    decide +kernel

/-- The frame is what the video shows at its index. -/
def Shows (v : Video) (f : SampledFrame) : Prop :=
  ∃ posMsec width height, v.frames[f.sourceIndex]? = some (.image posMsec f.jpeg width height)

/-- A video shows one picture at an index. -/
lemma Shows.jpeg_eq {f f' : SampledFrame} (hf : v.Shows f) (hf' : v.Shows f')
    (hidx : f.sourceIndex = f'.sourceIndex) : f.jpeg = f'.jpeg := by
  obtain ⟨pos, w, h, hf⟩ := hf
  obtain ⟨pos', w', h', hf'⟩ := hf'
  rw [hidx, hf', Option.some.injEq, RawFrame.image.injEq] at hf
  exact hf.2.1.symm

end Video

/-! ### A run with a sure seek -/

namespace Decoder

variable {v : Video} {r : SamplingRate} {L : ℤ}

/-- A run that starts after source index `L` yields the sampled frames after it, each once and in
order. -/
theorem items_start (r : SamplingRate) (L : ℤ)
    (hsure : v.SeeksSurely (r.sourceIndexForSlot (r.slotAfterSourceIndex L))) :
    ((start v (.startAt r (r.slotAfterSourceIndex L))).items v).map Item.sourceIndex =
      (v.sampled r).filter fun i : ℕ => L < (i : ℤ) := by
  have hlabels := (Video.yieldsRightly_of_sure
    (s := .startAt r (r.slotAfterSourceIndex L)) hsure).2
  rw [items_sourceIndex]
  refine (congrArg (List.map Prod.snd) hlabels).trans ?_
  rw [Video.sampled, List.filter_map]
  congr 1
  apply List.filter_congr
  intro p hp
  have hidx : p.2 = r.sourceIndexForSlot p.1 := by
    obtain ⟨k, -, rfl⟩ := List.mem_map.mp hp
    rfl
  simp only [Function.comp_apply, hidx, Nat.cast_le, FrameSampler.startAt_cursorSlot,
    r.slotAfterSourceIndex_le_iff]

/-- An item is retrieved from the frame at its index. -/
lemma exists_retrieve {s : FrameSampler} (hsure : v.SeeksSurely s.nextSourceIndex) {it : Item}
    (hit : it ∈ (start v s).items v) :
    ∃ slot f, v.frames[it.sourceIndex]? = some f ∧ it = v.retrieve it.sourceIndex slot f := by
  obtain ⟨y, hy, rfl⟩ := List.mem_map.mp hit
  obtain ⟨f, hf, heq⟩ := Video.loop_retrieve rfl hy
  have htrue : y.item.sourceIndex = y.position := (Video.yieldsRightly_of_sure hsure).1 y hy
  exact ⟨y.slot, f, by rw [htrue, hf], heq⟩

/-- A retrieved item is a frame exactly when the frame decodes. -/
lemma decodes_of_retrieve {it : Item} {slot : ℕ} {f : RawFrame}
    (hf : v.frames[it.sourceIndex]? = some f) (hit : it = v.retrieve it.sourceIndex slot f) :
    it.frame?.isSome = v.decodes it.sourceIndex ∧
      it.failure?.isSome = !v.decodes it.sourceIndex := by
  rw [Video.decodes, hf]
  cases f <;>
  · rw [hit]
    exact ⟨rfl, rfl⟩

/-- Picking out one kind of item picks out the indices at which that kind is yielded. -/
lemma map_filterMap_items {α : Type*} {g : Item → Option α} {f : α → ℕ} {p : ℕ → Bool}
    {l : List Item} (hf : ∀ it a, g it = some a → f a = it.sourceIndex)
    (hp : ∀ it ∈ l, (g it).isSome = p it.sourceIndex) :
    (l.filterMap g).map f = (l.map Item.sourceIndex).filter p := by
  induction l with
  | nil => rfl
  | cons it l ih =>
    have hit := hp it List.mem_cons_self
    have htail := ih fun it' h' => hp it' (List.mem_cons_of_mem _ h')
    cases hg : g it with
    | none =>
      rw [hg, Option.isSome_none] at hit
      rw [List.filterMap_cons_none hg, List.map_cons, List.filter_cons_of_neg (by simp [← hit]),
        htail]
    | some a =>
      rw [hg, Option.isSome_some] at hit
      rw [List.filterMap_cons_some hg, List.map_cons, List.map_cons,
        List.filter_cons_of_pos (by simp [← hit]), htail, hf it a hg]

/-- The frames of a run that starts after source index `L`. -/
theorem frames_start (r : SamplingRate) (L : ℤ)
    (hsure : v.SeeksSurely (r.sourceIndexForSlot (r.slotAfterSourceIndex L))) :
    ((start v (.startAt r (r.slotAfterSourceIndex L))).frames v).map SampledFrame.sourceIndex =
      (v.sampled r).filter fun i : ℕ => decide (L < (i : ℤ)) && v.decodes i := by
  rw [frames, map_filterMap_items (p := v.decodes), items_start r L hsure, List.filter_filter]
  · congr 1
    funext i
    rw [Bool.and_comm]
  · intro it a h
    cases it <;> cases h
    rfl
  · intro it hit
    obtain ⟨slot, f, hf, heq⟩ := exists_retrieve hsure hit
    exact (decodes_of_retrieve hf heq).1

/-- The failures of a run that starts after source index `L`. -/
theorem failures_start (r : SamplingRate) (L : ℤ)
    (hsure : v.SeeksSurely (r.sourceIndexForSlot (r.slotAfterSourceIndex L))) :
    ((start v (.startAt r (r.slotAfterSourceIndex L))).failures v).map DecodeFailure.sourceIndex =
      (v.sampled r).filter fun i : ℕ => decide (L < (i : ℤ)) && !v.decodes i := by
  rw [failures, map_filterMap_items (p := fun i => !v.decodes i), items_start r L hsure,
    List.filter_filter]
  · congr 1
    funext i
    rw [Bool.and_comm]
  · intro it a h
    cases it <;> cases h
    rfl
  · intro it hit
    obtain ⟨slot, f, hf, heq⟩ := exists_retrieve hsure hit
    exact (decodes_of_retrieve hf heq).2

/-- What a run yields is what the video shows. -/
lemma frames_shows {s : FrameSampler} (hsure : v.SeeksSurely s.nextSourceIndex) {f : SampledFrame}
    (hf : f ∈ (start v s).frames v) : v.Shows f := by
  obtain ⟨slot, raw, hraw, heq⟩ := exists_retrieve hsure (mem_items_of_frame hf)
  cases raw with
  | noImage | notEncodable => cases heq
  | image pos jpeg w h =>
    have hjpeg := congrArg SampledFrame.jpeg (Item.frame.inj heq)
    exact ⟨pos, w, h, by rw [hjpeg]; exact hraw⟩

end Decoder

end VideoPipeline

import VideoPipeline.System.EndToEnd

/-!
# The progress of a job

`GET /jobs/{job_id}` shows `frames_processed`, which the detectors count up for every result that
`process` gave. Whatever crashes, is redelivered or published again: as long as the guard answers
and its keys live, the counter does not pass the number of decodable sampled frames. Without a crash
it gets there.
-/

namespace VideoPipeline

namespace System

variable {sys : Deployment} {s : System} {h : List (ℚ × Output)} {now₀ : ℚ} {i : ℕ}
  {ok : System → List (ℚ × Output) → Event → Prop}

lemma decodable_nodup (req : Request) : (req.decodable.map (Nat.cast : ℕ → ℤ)).Nodup := by
  have hnodup : req.decodable.Nodup :=
    ((req.source.sampled_pairwise req.rate).filter _).imp fun hlt => hlt.ne
  exact hnodup.map Nat.cast_injective

/-- A result is of a decodable frame of a run of its job. -/
lemma decodable_of_won (hr : (machine sys).Reach ok (System.start sys now₀) s h) {p : Pending}
    (hsure : sys.SeeksSurely p.delivery.ref.jobId) (hp : p ∈ Fleet.won (fleetOutputs h)) :
    ∃ j, p.delivery.ref.jobId = (sys.jobs j).jobId ∧
      ∃ k ∈ (sys.requests j).decodable, p.delivery.ref.frameId = k := by
  obtain ⟨j, hj⟩ := mem_published ((Fleet.Known.of_reach (reach_fleet_any hr)).won p hp) hr
  obtain ⟨hjob, -, hk⟩ := decodable_of_run hr hsure hj
  exact ⟨j, hjob, hk⟩

/-- The frames of the results of a job are decodable. -/
lemma won_subset (hr : (machine sys).Reach ok (System.start sys now₀) s h)
    (hsure : sys.SeeksSurely (sys.jobs i).jobId)
    (hjob : ∀ j, (sys.jobs j).jobId = (sys.jobs i).jobId →
      (sys.requests j).decodable = (sys.requests i).decodable) :
    (((Fleet.won (fleetOutputs h)).filter (Worker.ofJob (sys.jobs i).jobId)).map
      fun p => p.delivery.ref.frameId) ⊆ (sys.requests i).decodable.map Nat.cast := by
  intro x hx
  obtain ⟨p, hp, rfl⟩ := List.mem_map.mp hx
  obtain ⟨hp, hof⟩ := List.mem_filter.mp hp
  have hof : p.delivery.ref.jobId = (sys.jobs i).jobId := of_decide_eq_true hof
  obtain ⟨j, hj, k, hk, hframe⟩ := decodable_of_won hr (hof ▸ hsure) hp
  rw [hjob j (hj.symm.trans hof)] at hk
  rw [hframe]
  exact List.mem_map_of_mem hk

/-- The progress of a job whose runs are sure of where they start to read does not pass the number
of its decodable sampled frames, whatever crashes, fails or is redelivered, as long as its keys have
not expired and the guard answers. -/
theorem processed_le (hr : (machine sys).Reach ok (System.start sys now₀) s h)
    (hsure : sys.SeeksSurely (sys.jobs i).jobId)
    (hjob : ∀ j, (sys.jobs j).jobId = (sys.jobs i).jobId →
      (sys.requests j).decodable = (sys.requests i).decodable)
    (hshort : s.now - now₀ < sys.detector.dedupTtlSec)
    (hopen : ∀ k ∈ (sys.requests i).decodable,
      failedOpen (dedupKey (sys.jobs i).jobId k) h = 0) :
    Fleet.processed (fleetOutputs h) (sys.jobs i).jobId ≤ (sys.requests i).decodable.length := by
  have hfleet := reach_fleet_any hr
  have honce : ∀ x : ℤ, (Fleet.won (fleetOutputs h)).countP
      (fun p => p.key = dedupKey (sys.jobs i).jobId x) ≤ 1 := by
    intro x
    by_contra hlt
    obtain ⟨p, hp, hkey⟩ := List.countP_pos_iff.mp (Nat.zero_lt_of_lt (not_le.mp hlt))
    -- a frame that has a result is decodable, so its key is one of those that were answered
    obtain ⟨hpj, hpx⟩ := dedupKey_injective (of_decide_eq_true hkey)
    obtain ⟨j, hj, k, hk, hframe⟩ := decodable_of_won hr (hpj ▸ hsure) hp
    rw [hjob j (hj.symm.trans hpj)] at hk
    have hle := (Fleet.won_le_granted hfleet _).trans (granted_le_one hr hshort (hopen k hk))
    rw [← hframe, hpx] at hle
    exact hlt hle
  calc Fleet.processed (fleetOutputs h) (sys.jobs i).jobId
      ≤ (Fleet.won (fleetOutputs h)).countP (Worker.ofJob (sys.jobs i).jobId) :=
        Fleet.processed_le_won hfleet _
    _ = (((Fleet.won (fleetOutputs h)).filter (Worker.ofJob (sys.jobs i).jobId)).map
          fun p => p.delivery.ref.frameId).length := by
        rw [List.length_map, List.countP_eq_length_filter]
    _ ≤ ((sys.requests i).decodable.map (Nat.cast : ℕ → ℤ)).length :=
        (List.subperm_of_subset (Fleet.nodup_frameIds honce) (won_subset hr hsure hjob)).length_le
    _ = (sys.requests i).decodable.length := List.length_map _

/-! ### A full counter -/

/-- At rest every result has been counted, where nothing has crashed. -/
lemma processed_eq_won (hr : (machine sys).Reach calm (System.start sys now₀) s h)
    (hq : Fleet.Quiescent sys.detectors s.fleet) (jobId : String) :
    Fleet.processed (fleetOutputs h) jobId =
      (Fleet.won (fleetOutputs h)).countP (Worker.ofJob jobId) := by
  have hfleet : (Fleet.machine sys.detector sys.detectors).Reach (fun _ _ e => Fleet.noCrash e)
      Fleet.init s.fleet (fleetOutputs h) :=
    reach_fleet (fun _ _ _ => trivial) (fun _ _ _ => trivial) (fun _ _ _ hok => hok.2) hr
  have hbal := Fleet.processed_balance hfleet jobId
  rw [Fleet.sum_eq_zero_of_quiescent
    (fun w hp _ _ => by rw [Worker.uncounted, hp]; rfl) hq, Nat.add_zero] at hbal
  exact hbal

theorem processed_le_halfClip : ∃ sys s h,
    (machine sys).Reach calm (System.start sys 0) s h ∧
      Fleet.processed (fleetOutputs h) "j" ≤ 1 := by
  obtain ⟨sys, s, h, hc⟩ := HalfClip.exists_run
  have hopen : ∀ k ∈ (sys.requests 0).decodable,
      failedOpen (dedupKey (sys.jobs 0).jobId k) h = 0 := fun k hk => by
    rw [hc.key hk]
    exact hc.answered
  have hle := processed_le hc.reach (hc.sure _) (fun j _ => hc.same j) hc.within hopen
  rw [hc.jobId, hc.decodable] at hle
  exact ⟨sys, s, h, hc.reach, hle⟩

end System

end VideoPipeline

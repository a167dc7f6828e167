import VideoPipeline.Detector.Processed
import VideoPipeline.System.Deployment

/-!
# The dedup window

The guard answers by `SET NX EX`, so a key is claimed again only after its time to live. What the
detectors hand to the sink is claimed before, which bounds how often one frame is reported, over all
detectors, redeliveries, crashes and resumed runs.
-/

namespace VideoPipeline

/-- A claim that the guard has decided. -/
structure Ask where
  key : String
  ttlSec : ℕ
  won : Bool
  deriving DecidableEq, Repr

def Act.asked? : Act → Option Ask
  | .claim key ttlSec .won  => some ⟨key, ttlSec, true⟩
  | .claim key ttlSec .lost => some ⟨key, ttlSec, false⟩
  | _                       => none

/-- The guard lets the frame with a key pass, by a won claim or because it fails open. -/
def Act.grants (key : String) : Act → Bool
  | .claim key' _ .won | .claim key' _ .failedOpen => key' = key
  | _                                              => false

namespace Worker

variable {cfg : DetectorSettings} {w w' : Worker} {op : Op} {acts : List Act}
  {guard guard' : List String}

/-- A step asks the guard for one key at most. -/
lemma Rule.asked_cases (hr : Rule cfg w op w' acts) (hg : answer guard acts = some guard') :
    (acts.filterMap Act.asked? = [] ∧ guard' = guard) ∨
    ∃ key, (acts.filterMap Act.asked? = [⟨key, cfg.dedupTtlSec, true⟩] ∧ key ∉ guard ∧
        guard' = key :: guard) ∨
      (acts.filterMap Act.asked? = [⟨key, cfg.dedupTtlSec, false⟩] ∧ key ∈ guard ∧
        guard' = guard) := by
  cases hr with
  | claimed d faces r hw =>
    cases r with
    | won =>
      simp only [answer] at hg
      split at hg
      · cases hg
      · next hk =>
        cases hg
        exact .inr ⟨_, .inl ⟨rfl, hk, rfl⟩⟩
    | lost =>
      simp only [answer] at hg
      split at hg
      · next hk =>
        cases hg
        exact .inr ⟨_, .inr ⟨rfl, hk, rfl⟩⟩
      · cases hg
    | failedOpen | raised =>
      cases hg
      exact .inl ⟨rfl, rfl⟩
  | _ =>
    cases hg
    exact .inl ⟨rfl, rfl⟩

/-- A result comes out of `process` only if the guard lets its frame pass. -/
lemma Rule.won_granted (hr : Rule cfg w op w' acts) (key : String) :
    (acts.flatMap Act.won).countP (fun p => p.key = key) ≤ acts.countP (Act.grants key) := by
  cases hr with
  | fail d o hw ho => rcases ho with rfl | rfl | rfl <;> simp [Act.won]
  | claimed d faces r hw =>
    have hkey : ∀ r, (Pending.mk r d).key = dedupKey d.ref.jobId d.ref.frameId := fun _ => rfl
    cases r <;> simp [claimOutcome, Act.won, Act.grants, List.countP_cons, hkey]
  | _ => simp [Act.won]

end Worker

namespace Fleet

variable {cfg : DetectorSettings} {n : ℕ} {f f' : Fleet} {e : Event} {out h : List Output}
  {ok : Fleet → List Output → Event → Prop}

lemma Rule.asked_cases (hr : Rule cfg n f e f' out) (hown : ∀ key, e ≠ .expire key) :
    ((acts out).filterMap Act.asked? = [] ∧ f'.guard = f.guard) ∨
    ∃ key, ((acts out).filterMap Act.asked? = [⟨key, cfg.dedupTtlSec, true⟩] ∧ key ∉ f.guard ∧
        f'.guard = key :: f.guard) ∨
      ((acts out).filterMap Act.asked? = [⟨key, cfg.dedupTtlSec, false⟩] ∧ key ∈ f.guard ∧
        f'.guard = f.guard) := by
  cases hr with
  | expire key => exact absurd rfl (hown key)
  | take d i now x w as hd hx hw =>
    left
    rw [acts_map_act]
    obtain ⟨-, ⟨-, rfl⟩ | ⟨-, -, rfl⟩⟩ := Worker.take_cases hw <;> exact ⟨rfl, rfl⟩
  | work d op pos w as guard hd hw hg =>
    rw [acts_perform]
    exact (Worker.Rule.of_step hw).asked_cases hg
  | publish | deliver | crash => exact .inl ⟨rfl, rfl⟩

/-- No frame gives more results than the guard has let it pass. -/
lemma won_le_granted (hr : (machine cfg n).Reach ok Fleet.init f h) (key : String) :
    (won h).countP (fun p => p.key = key) ≤ (acts h).countP (Act.grants key) := by
  have hle := lost_le_gained (m := fun _ => 0)
    (l := fun as => (as.flatMap Act.won).countP fun p => p.key = key)
    (g := List.countP (Act.grants key)) rfl
    (fun _ _ => by rw [List.flatMap_append, List.countP_append]) (fun _ _ => List.countP_append)
    (fun w op w' as hw => by
      have hgrant := hw.won_granted key
      omega)
    (fun w x now w' as hw => by
      rw [(Worker.take_flow hw).2.2.1, List.countP_nil]
      exact Nat.zero_le _) hr
  exact (Nat.le_add_right _ _).trans hle

end Fleet

namespace System

variable {sys : Deployment} {s s' : System} {e : Event} {out h h₁ h₂ : List (ℚ × Output)}
  {now₀ t : ℚ} {key : String} {ok : System → List (ℚ × Output) → Event → Prop}

def Output.asked? : Output → Option Ask
  | .fleet (.replica _ (.act a)) => a.asked?
  | _                            => none

/-- The claims that the guard has decided, each with its time. -/
def asks (h : List (ℚ × Output)) : List (ℚ × Ask) :=
  h.filterMap fun x => x.2.asked?.map fun a => (x.1, a)

/-- The times at which a key was claimed and won. -/
def wins (key : String) (h : List (ℚ × Output)) : List ℚ :=
  ((asks h).filter fun a => a.2.key = key ∧ a.2.won = true).map Prod.fst

@[simp] lemma asks_append : asks (h₁ ++ h₂) = asks h₁ ++ asks h₂ := List.filterMap_append

@[simp] lemma wins_append : wins key (h₁ ++ h₂) = wins key h₁ ++ wins key h₂ := by
  rw [wins, asks_append, List.filter_append, List.map_append]
  rfl

lemma wins_of_asks_eq_nil (hnil : asks out = []) : wins key out = [] := by
  rw [wins, hnil]
  rfl

/-- A step of the fleet decides the claims among its acts. -/
lemma asks_fleet (e : Fleet.Event) (o : List Fleet.Output) :
    asks ((s.reads e ++ o.map Output.fleet).map fun o => (t, o)) =
      ((Fleet.acts o).filterMap Act.asked?).map (t, ·) := by
  have hreads : ((s.reads e).map fun o => (t, o)).filterMap (fun x : ℚ × Output =>
      x.2.asked?.map fun a => (x.1, a)) = [] := by
    rw [List.filterMap_map, List.filterMap_eq_nil_iff]
    intro x hx
    rw [reads] at hx
    split at hx
    · split at hx
      · cases hx
      · rw [List.mem_singleton.mp hx]
        rfl
    · cases hx
  have hfleet : ∀ x : Fleet.Output, (Output.fleet x).asked? = x.act?.bind Act.asked? := by
    intro x
    cases x with
    | published ref => rfl
    | replica d o => cases o <;> rfl
  rw [asks, List.map_append, List.filterMap_append, hreads, List.nil_append, List.map_map,
    List.filterMap_map, Fleet.acts, List.filterMap_filterMap, List.map_filterMap]
  refine List.filterMap_congr fun x _ => ?_
  rw [Function.comp_apply, Function.comp_apply, hfleet]

lemma asks_run {i : ℕ} {o : List Pipeline.Output} :
    asks (o.map fun o => (t, .run i o)) = [] := by
  rw [asks, List.filterMap_map, List.filterMap_eq_nil_iff]
  exact fun _ _ => rfl

/-- What the dedup keys in Redis say about the claims that were won. -/
structure Guarded (sys : Deployment) (now₀ : ℚ) (s : System) (h : List (ℚ × Output)) : Prop where
  guard : ∀ key, s.claims.get s.now key ≠ none → key ∈ s.fleet.guard
  entries : ∀ key, s.claims.entries key =
    (wins key h).getLast?.map fun t => ((), t + (sys.detector.dedupTtlSec : ℚ))
  spaced : ∀ key, (wins key h).Pairwise fun a b => a + (sys.detector.dedupTtlSec : ℚ) ≤ b
  elapsed : ∀ key, ∀ t ∈ wins key h, now₀ ≤ t ∧ t ≤ s.now
  started : now₀ ≤ s.now

lemma foldl_record (now : ℚ) (claims : Expiring String Unit ℚ) (as : List Act) :
    as.foldl (record now) claims = (as.filterMap Act.asked?).foldl
      (fun c a => (c.claim now a.key () (now + (a.ttlSec : ℚ))).2) claims := by
  induction as generalizing claims with
  | nil => rfl
  | cons a as ih =>
    rw [List.foldl_cons, ih]
    cases a with
    | claim key ttlSec r => cases r <;> rfl
    | _ => rfl

lemma Guarded.start : Guarded sys now₀ (start sys now₀) [] := by
  refine ⟨?_, fun _ => rfl, fun _ => .nil, ?_, le_rfl⟩
  · intro key hk
    exact absurd rfl hk
  · intro key t ht
    cases ht

/-- A step in which no claim is won and no key is recorded. -/
lemma Guarded.of_quiet (hg : Guarded sys now₀ s h) (hwins : ∀ key, wins key out = [])
    (hclaims : s'.claims = s.claims) (hnow : s.now ≤ s'.now)
    (hguard : ∀ key, s.claims.get s'.now key ≠ none → key ∈ s'.fleet.guard) :
    Guarded sys now₀ s' (h ++ out) := by
  refine ⟨?_, ?_, ?_, ?_, hg.started.trans hnow⟩
  · rw [hclaims]
    exact hguard
  · intro key
    rw [hclaims, wins_append, hwins, List.append_nil]
    exact hg.entries key
  · intro key
    rw [wins_append, hwins, List.append_nil]
    exact hg.spaced key
  · intro key t ht
    rw [wins_append, hwins, List.append_nil] at ht
    obtain ⟨hstart, hle⟩ := hg.elapsed key t ht
    exact ⟨hstart, hle.trans hnow⟩

/-- The keys of the guard that are current are those in Redis. -/
lemma Guarded.mem_current (hg : Guarded sys now₀ s h) :
    key ∈ s.current.guard ↔ s.claims.get s.now key ≠ none := by
  have hsome : (s.claims.get s.now key).isSome = true ↔ s.claims.get s.now key ≠ none :=
    Option.isSome_iff_ne_none
  rw [System.current, List.mem_filter, hsome]
  exact ⟨And.right, fun hk => ⟨hg.guard key hk, hk⟩⟩

/-- A key is won again only after its time to live. -/
lemma Guarded.won (hg : Guarded sys now₀ s h) (hfree : key ∉ s.current.guard) :
    ∀ t ∈ wins key h, t + (sys.detector.dedupTtlSec : ℚ) ≤ s.now := by
  have hgone : s.claims.get s.now key = none := by
    by_contra hk
    exact hfree (hg.mem_current.mpr hk)
  intro t ht
  obtain ⟨last, hlast⟩ := Option.ne_none_iff_exists'.mp
    (mt List.getLast?_eq_none_iff.mp (List.ne_nil_of_mem ht))
  have hentry := hg.entries key
  rw [hlast, Option.map_some] at hentry
  have hend := Expiring.get_eq_none.mp hgone _ hentry
  obtain ⟨l, hl⟩ := List.getLast?_eq_some_iff.mp hlast
  have hspaced := hg.spaced key
  rw [hl] at hspaced ht
  rcases List.mem_append.mp ht with ht | ht
  · have hle := (List.pairwise_append.mp hspaced).2.2 t ht last (List.mem_singleton_self last)
    have hnow := (hg.elapsed key last (by rw [hl]; simp)).2
    exact hle.trans hnow
  · rw [List.mem_singleton.mp ht]
    exact hend

/-- A key that is taken was won within its time to live. -/
lemma Guarded.lost (hg : Guarded sys now₀ s h) (htaken : key ∈ s.current.guard) :
    ∃ t ∈ wins key h, s.now < t + (sys.detector.dedupTtlSec : ℚ) := by
  obtain ⟨v, hv⟩ := Option.ne_none_iff_exists'.mp (hg.mem_current.mp htaken)
  obtain ⟨deadline, hentry, hlt⟩ := Expiring.get_eq_some.mp hv
  rw [hg.entries key, Option.map_eq_some_iff] at hentry
  obtain ⟨t, ht, heq⟩ := hentry
  obtain ⟨-, rfl⟩ := Prod.mk.inj heq
  exact ⟨t, List.mem_of_getLast? ht, hlt⟩

/-- A step in which a claim is won. -/
lemma Guarded.of_win (hg : Guarded sys now₀ s h) (hfree : key ∉ s.current.guard)
    (hwins : ∀ k, wins k out = if key = k then [s.now] else [])
    (hclaims : s'.claims = s.claims.put key () (s.now + sys.detector.dedupTtlSec))
    (hnow : s'.now = s.now) (hguard : s'.fleet.guard = key :: s.current.guard) :
    Guarded sys now₀ s' (h ++ out) := by
  have hother : ∀ k, k ≠ key → wins k (h ++ out) = wins k h := by
    intro k hk
    rw [wins_append, hwins, if_neg (Ne.symm hk), List.append_nil]
  have hself : wins key (h ++ out) = wins key h ++ [s.now] := by
    rw [wins_append, hwins, if_pos rfl]
  refine ⟨?_, ?_, ?_, ?_, hnow ▸ hg.started⟩
  · intro k hk
    rw [hguard]
    by_cases hkk : k = key
    · rw [hkk]
      exact List.mem_cons_self
    · rw [hclaims, hnow, Expiring.get_put_of_ne hkk] at hk
      exact List.mem_cons_of_mem _ (hg.mem_current.mpr hk)
  · intro k
    rw [hclaims]
    by_cases hkk : k = key
    · subst hkk
      rw [hself, Expiring.entries_put_self, List.getLast?_concat]
      rfl
    · rw [hother k hkk, Expiring.entries_put_of_ne hkk]
      exact hg.entries k
  · intro k
    by_cases hkk : k = key
    · subst hkk
      rw [hself, List.pairwise_append]
      refine ⟨hg.spaced k, List.pairwise_singleton _ _, ?_⟩
      intro a ha b hb
      rw [List.mem_singleton.mp hb]
      exact hg.won hfree a ha
    · rw [hother k hkk]
      exact hg.spaced k
  · intro k t ht
    rw [hnow]
    by_cases hkk : k = key
    · subst hkk
      rw [hself] at ht
      rcases List.mem_append.mp ht with ht | ht
      · exact hg.elapsed k t ht
      · rw [List.mem_singleton.mp ht]
        exact ⟨hg.started, le_rfl⟩
    · rw [hother k hkk] at ht
      exact hg.elapsed k t ht

theorem Guarded.step (hg : Guarded sys now₀ s h) (hr : Rule sys s e s' out) :
    Guarded sys now₀ s' (h ++ out) := by
  cases hr with
  | tick t ht =>
    refine hg.of_quiet (fun _ => rfl) rfl ht fun key hk => hg.guard key fun hnone => ?_
    exact hk (Expiring.get_eq_none_of_le hnone ht)
  | put i e p key jpeg ttlSec hs =>
    exact hg.of_quiet (fun _ => wins_of_asks_eq_nil rfl) rfl le_rfl hg.guard
  | publish i e p ref hs =>
    exact hg.of_quiet (fun _ => wins_of_asks_eq_nil rfl) rfl le_rfl hg.guard
  | run i e p o hs hput hpub =>
    exact hg.of_quiet (fun _ => wins_of_asks_eq_nil asks_run) rfl le_rfl hg.guard
  | fleet e f o hown hans hs =>
    have hcurrent : ∀ key, s.claims.get s.now key ≠ none → key ∈ s.current.guard :=
      fun key hk => hg.mem_current.mpr hk
    have hnoexpire : ∀ key, e ≠ .expire key := by
      rintro key rfl
      cases hown
    rcases (Fleet.Rule.of_step hs).asked_cases hnoexpire with ⟨hnil, hguard⟩ |
      ⟨key, ⟨hwon, hfree, hguard⟩ | ⟨hlost, htaken, hguard⟩⟩
    · have hclaims : (Fleet.acts o).foldl (record s.now) s.claims = s.claims := by
        rw [foldl_record, hnil]
        rfl
      rw [hclaims]
      refine hg.of_quiet ?_ rfl le_rfl ?_
      · intro key
        rw [wins, asks_fleet, hnil]
        rfl
      · rw [hguard]
        exact hcurrent
    · have hgone : s.claims.get s.now key = none := by
        by_contra hk
        exact hfree (hcurrent key hk)
      have hclaims : (Fleet.acts o).foldl (record s.now) s.claims =
          s.claims.put key () (s.now + sys.detector.dedupTtlSec) := by
        rw [foldl_record, hwon, List.foldl_cons, Expiring.claim_of_none hgone]
        rfl
      have hwins : ∀ k, wins k ((s.reads e ++ o.map Output.fleet).map fun o => (s.now, o)) =
          if key = k then [s.now] else [] := by
        intro k
        rw [wins, asks_fleet, hwon]
        by_cases hk : key = k
        · simp [hk]
        · simp [hk]
      rw [hclaims]
      exact hg.of_win hfree hwins rfl rfl hguard
    · have hclaims : (Fleet.acts o).foldl (record s.now) s.claims = s.claims := by
        rw [foldl_record, hlost, List.foldl_cons, Expiring.claim_of_some (hg.mem_current.mp htaken)]
        rfl
      rw [hclaims]
      refine hg.of_quiet ?_ rfl le_rfl ?_
      · intro k
        rw [wins, asks_fleet, hlost]
        simp
      · rw [hguard]
        exact hcurrent

lemma Guarded.of_reach (hr : (machine sys).Reach ok (System.start sys now₀) s h) :
    Guarded sys now₀ s h :=
  hr.invariant .start fun _ _ _ _ _ _ hg _ hs => hg.step (Rule.of_step hs)

/-- A claim is won if every earlier win of its key is as old as the time to live, and else lost. -/
def Answered (ttlSec : ℚ) (h : List (ℚ × Output)) (x : ℚ × Output) : Prop :=
  ∀ a, x.2.asked? = some a → (a.won = true ↔ ∀ t ∈ wins a.key h, t + ttlSec ≤ x.1)

/-- How often the guard has failed open for a key. -/
def failedOpen (key : String) (h : List (ℚ × Output)) : ℕ :=
  (Fleet.acts (fleetOutputs h)).countP fun a =>
    match a with
    | .claim key' _ .failedOpen => key' = key
    | _                         => false

/-- A step decides one claim at most, by what the guard holds. -/
lemma Guarded.asks_cases (hg : Guarded sys now₀ s h) (hr : Rule sys s e s' out) :
    asks out = [] ∨ ∃ a : Ask, asks out = [(s.now, a)] ∧
      (a.won = true ↔ ∀ t ∈ wins a.key h, t + (sys.detector.dedupTtlSec : ℚ) ≤ s.now) := by
  cases hr with
  | tick | put | publish => exact .inl rfl
  | run => exact .inl asks_run
  | fleet e f o hown hans hs =>
    have hnoexpire : ∀ key, e ≠ .expire key := by
      rintro key rfl
      cases hown
    rw [asks_fleet]
    rcases (Fleet.Rule.of_step hs).asked_cases hnoexpire with ⟨hnil, -⟩ |
      ⟨key, ⟨hwon, hfree, -⟩ | ⟨hlost, htaken, -⟩⟩
    · rw [hnil]
      exact .inl rfl
    · rw [hwon]
      exact .inr ⟨_, rfl, iff_of_true rfl (hg.won hfree)⟩
    · rw [hlost]
      refine .inr ⟨_, rfl, iff_of_false Bool.false_ne_true fun hall => ?_⟩
      obtain ⟨t, ht, hlt⟩ := hg.lost htaken
      exact absurd (hall t ht) (not_le.mpr hlt)

lemma answered_caused (hr : (machine sys).Reach ok (System.start sys now₀) s h) :
    Machine.Caused (Answered sys.detector.dedupTtlSec) h := by
  induction hr with
  | init => exact .nil
  | @step s s' h out e hr ho hs ih =>
    apply ih.append_of
    rintro o₁ x o₂ hout a ha
    have hx : asks [x] = [(x.1, a)] := by
      rw [asks, List.filterMap_cons, ha]
      rfl
    have hsplit : asks out = asks o₁ ++ (x.1, a) :: asks o₂ := by
      rw [hout, asks_append, ← List.singleton_append, asks_append, hx]
      rfl
    rcases (Guarded.of_reach hr).asks_cases (Rule.of_step hs) with hnil | ⟨a', hone, hans⟩
    · rw [hnil] at hsplit
      simp at hsplit
    · rw [hone] at hsplit
      obtain ⟨hnil, hrest⟩ : asks o₁ = [] ∧ (s.now, a') = (x.1, a) := by
        cases h₁ : asks o₁ with
        | nil =>
          rw [h₁] at hsplit
          exact ⟨rfl, (List.cons.inj hsplit).1⟩
        | cons b l =>
          rw [h₁] at hsplit
          have := (List.cons.inj hsplit).2
          simp at this
      obtain ⟨hnow, rfl⟩ := Prod.mk.inj hrest
      rw [wins_append, wins_of_asks_eq_nil hnil, List.append_nil, ← hnow]
      exact hans

lemma map_snd_asks (h : List (ℚ × Output)) :
    (asks h).map Prod.snd = (Fleet.acts (fleetOutputs h)).filterMap Act.asked? := by
  rw [asks, Fleet.acts, fleetOutputs, List.map_filterMap, List.filterMap_filterMap,
    List.filterMap_filterMap]
  refine List.filterMap_congr fun x _ => ?_
  obtain ⟨t, o⟩ := x
  cases o with
  | run i o => cases o <;> rfl
  | read => rfl
  | fleet o =>
    cases o with
    | published ref => rfl
    | replica d o =>
      cases o with
      | act a => cases h : a.asked? <;> simp [Output.asked?, Output.fleet?, Fleet.Output.act?, h]
      | _ => rfl

/-- The guard lets a frame pass by a won claim or because it fails open. -/
lemma countP_grants (h : List (ℚ × Output)) (key : String) :
    (Fleet.acts (fleetOutputs h)).countP (Act.grants key) =
      (wins key h).length + failedOpen key h := by
  have hlen : (wins key h).length =
      ((asks h).map Prod.snd).countP fun a => a.key = key ∧ a.won = true := by
    rw [wins, List.length_map, ← List.countP_eq_length_filter, List.countP_map]
    rfl
  rw [hlen, map_snd_asks, failedOpen]
  induction Fleet.acts (fleetOutputs h) with
  | nil => rfl
  | cons a as ih =>
    rw [List.countP_cons, ih, List.countP_cons, List.filterMap_cons]
    cases a with
    | claim key' ttlSec r =>
      cases r <;> simp [Act.asked?, Act.grants, List.countP_cons] <;> omega
    | _ => simp [Act.asked?, Act.grants]

/-- A frame passes the guard at most once for every time to live begun, and once for every time the
guard fails open. -/
lemma granted_mul_le (hr : (machine sys).Reach ok (System.start sys now₀) s h) (key : String) :
    ((Fleet.acts (fleetOutputs h)).countP (Act.grants key) : ℚ) * sys.detector.dedupTtlSec ≤
      (s.now - now₀) + sys.detector.dedupTtlSec +
        failedOpen key h * sys.detector.dedupTtlSec := by
  have hg := Guarded.of_reach hr
  have hwins := length_mul_le_of_spaced (hg.spaced key)
    (hg.started.trans (le_add_of_nonneg_right (Nat.cast_nonneg _))) (hg.elapsed key)
  rw [countP_grants, Nat.cast_add, add_mul]
  linarith

/-- Within one time to live, a guard that answers lets a frame pass once. -/
lemma granted_le_one (hr : (machine sys).Reach ok (System.start sys now₀) s h)
    (hshort : s.now - now₀ < sys.detector.dedupTtlSec) (hopen : failedOpen key h = 0) :
    (Fleet.acts (fleetOutputs h)).countP (Act.grants key) ≤ 1 := by
  have hmul := granted_mul_le hr key
  have hpos := (sub_nonneg.mpr (Guarded.of_reach hr).started).trans_lt hshort
  rw [hopen, Nat.cast_zero, zero_mul, add_zero] at hmul
  have htwo : ((Fleet.acts (fleetOutputs h)).countP (Act.grants key) : ℚ) < 2 := by
    by_contra hge
    have := mul_le_mul_of_nonneg_right (not_lt.mp hge) hpos.le
    linarith
  have hnat : (Fleet.acts (fleetOutputs h)).countP (Act.grants key) < 2 := by
    exact_mod_cast htwo
  omega

/-- What is handed to the sink has passed the guard. -/
lemma called_mul_le (hr : (machine sys).Reach ok (System.start sys now₀) s h) (key : String) :
    ((Fleet.called (fleetOutputs h)).countP (fun p => p.key = key) : ℚ) *
        sys.detector.dedupTtlSec ≤
      (s.now - now₀) + sys.detector.dedupTtlSec +
        failedOpen key h * sys.detector.dedupTtlSec := by
  have hfleet := reach_fleet_any hr
  have hle := (Fleet.called_le_won hfleet _).trans (Fleet.won_le_granted hfleet key)
  have hcast : ((Fleet.called (fleetOutputs h)).countP (fun p => p.key = key) : ℚ) ≤
      (Fleet.acts (fleetOutputs h)).countP (Act.grants key) := by
    exact_mod_cast hle
  exact (mul_le_mul_of_nonneg_right hcast (Nat.cast_nonneg _)).trans (granted_mul_le hr key)

/-- A claim is won exactly if no earlier win of its key is younger than the time to live. So the
wins of a key are that far apart, which bounds how often its frame is handed to the sink. -/
theorem dedup_window (hr : (machine sys).Reach ok (System.start sys now₀) s h) :
    (∀ h₁ x h₂, h = h₁ ++ x :: h₂ → Answered sys.detector.dedupTtlSec h₁ x) ∧
      ∀ key, (wins key h).Pairwise (fun a b => a + (sys.detector.dedupTtlSec : ℚ) ≤ b) ∧
        ((Fleet.called (fleetOutputs h)).countP (fun p => p.key = key) : ℚ) *
            sys.detector.dedupTtlSec ≤
          (s.now - now₀) + sys.detector.dedupTtlSec +
            failedOpen key h * sys.detector.dedupTtlSec :=
  ⟨answered_caused hr, fun key => ⟨(Guarded.of_reach hr).spaced key, called_mul_le hr key⟩⟩

/-- Three runs publish the same frame: the second report is refused, the third comes when the window
is over. -/
theorem dedup_window_run : ∃ sys s h,
    (machine sys).Reach Machine.anyStep (System.start sys 0) s h ∧
      (Fleet.called (fleetOutputs h)).countP (fun p => p.key = dedupKey "j" 0) = 2 ∧
      ((2 : ℕ) : ℚ) * (60 : ℕ) ≤ (s.now - 0) + (60 : ℕ) +
        failedOpen (dedupKey "j" 0) h * (60 : ℕ) := by
  let sys : Deployment :=
    .clip {analyzerPublishers := 1} {batchMaxSize := 1, dedupTtlSec := 60} [.blank]
  have hrun : ∃ s h, (machine sys).Reach Machine.anyStep (System.start sys 0) s h ∧
      (Fleet.called (fleetOutputs h)).countP (fun p => p.key = dedupKey "j" 0) = 2 := by
    let publish (i : ℕ) : List Event :=
      [.run i .advance, .run i .handle, .run i .enqueue, .run i (.worker 0 .take),
        .run i (.worker 0 (.stored 0)), .run i (.worker 0 .published)]
    let process (tag : ℕ) (r : ClaimReply) : List Event :=
      [.fleet (.deliver 0 0 tag), .fleet (.take 0 0 0), .fleet (.work 0 (.loaded .frame) 0),
        .fleet (.work 0 (.detected (some [])) 0), .fleet (.work 0 (.claimed r) 0)]
    let report : List Event :=
      [.fleet (.work 0 (.add 0) 0), .fleet (.work 0 (.batcher .sinkReturned) 0),
        .fleet (.work 0 (.batcher .settleNext) 0), .fleet (.work 0 .counted 0)]
    exact Machine.Reach.exists_of_exec
      (publish 0 ++ publish 1 ++ publish 2 ++ process 1 .won ++ report ++ [.tick 59] ++
        process 2 .lost ++ [.fleet (.work 0 .settled 0), .tick 60] ++ process 3 .won ++ report)
      (by decide +kernel)
  obtain ⟨s, h, hr, hcount⟩ := hrun
  have hle := ((dedup_window hr).2 (dedupKey "j" 0)).2
  rw [hcount] at hle
  exact ⟨sys, s, h, hr, hcount, hle⟩

end System

end VideoPipeline

import Mathlib.Data.List.Basic
import Mathlib.Order.Nat
import VideoPipeline.Lib.Machine

/-!
# The connection of the publisher

`RabbitMQFramePublisher` of `pipeline_common/adapters/rabbitmq.py`. `_ensure_channel` looks at the
channel, connects, opens a channel and declares the queues, and only then is there a channel for the
next call to find. A connection is replaced without being closed, so as long as none is open and no
`close` awaits when a call gets its connection, the publisher owns one connection at most. Calls
that follow one another keep to that.
-/

namespace VideoPipeline

/-- A channel of a connection. -/
structure PublisherChannel where
  connection : ℕ
  id : ℕ
  deriving DecidableEq, Repr

/-- A call of `_ensure_channel` between two awaits. -/
inductive EnsureChannel where
  | connecting
  | opening (connection : ℕ)
  | declaring (channel : PublisherChannel)
  deriving DecidableEq, Repr

/-- The publisher, the calls in progress, and the connections and channels of the broker. -/
structure RabbitMQFramePublisher where
  connection : Option ℕ := none
  channel : Option PublisherChannel := none
  calls : List EnsureChannel := []
  /-- The connections that the `close` calls in progress await. -/
  closing : List ℕ := []
  /-- How many connections were opened. -/
  opened : ℕ := 0
  /-- The connections that were opened and not closed. -/
  live : List ℕ := []
  /-- How many channels were opened. -/
  channels : ℕ := 0
  closedChannels : List ℕ := []
  deriving DecidableEq, Repr

namespace RabbitMQFramePublisher

/-- `is_closed` of a channel. -/
def isClosed (s : RabbitMQFramePublisher) (channel : PublisherChannel) : Bool :=
  channel.id ∈ s.closedChannels || channel.connection ∉ s.live

/-- The channel that `_ensure_channel` finds. -/
def usable? (s : RabbitMQFramePublisher) : Option PublisherChannel :=
  s.channel.filter fun channel => !s.isClosed channel

inductive Event where
  /-- `publish` or `ping` calls `_ensure_channel`. -/
  | ensure
  | connected (i : ℕ)
  | channelOpened (i : ℕ)
  | declared (i : ℕ)
  /-- The awaited step of a call raises. -/
  | raised (i : ℕ)
  /-- The broker closes a channel. -/
  | channelClosed (id : ℕ)
  | close
  /-- The connection that a `close` awaits is closed. -/
  | connectionClosed (connection : ℕ)
  | closeReturned (connection : ℕ)
  | closeRaised (connection : ℕ)
  deriving DecidableEq, Repr

inductive Output where
  | ensured (channel : PublisherChannel)
  | opened (connection : ℕ)
  | closed (connection : ℕ)
  /-- `close` has returned. -/
  | closeReturned
  deriving DecidableEq, Repr

/-- The end of `close`. -/
def reset (s : RabbitMQFramePublisher) : RabbitMQFramePublisher :=
  { s with connection := none, channel := none }

/-- The connection that `close` has to close. -/
def toClose? (s : RabbitMQFramePublisher) : Option ℕ := s.connection.filter (· ∈ s.live)

def step (s : RabbitMQFramePublisher) : Event → Option (RabbitMQFramePublisher × List Output)
  | .ensure =>
    match s.usable? with
    | some channel => some (s, [.ensured channel])
    | none         => some ({ s with calls := s.calls ++ [.connecting] }, [])
  | .connected i =>
    match s.calls[i]? with
    | some .connecting =>
      some ({ s with
        connection := some s.opened
        calls := s.calls.set i (.opening s.opened)
        opened := s.opened + 1
        live := s.live ++ [s.opened] }, [.opened s.opened])
    | _ => none
  | .channelOpened i =>
    match s.calls[i]? with
    | some (.opening connection) =>
      if connection ∈ s.live then
        some ({ s with
          calls := s.calls.set i (.declaring ⟨connection, s.channels⟩)
          channels := s.channels + 1 }, [])
      else none
    | _ => none
  | .declared i =>
    match s.calls[i]? with
    | some (.declaring channel) =>
      some ({ s with channel := some channel, calls := s.calls.eraseIdx i }, [.ensured channel])
    | _ => none
  | .raised i =>
    if i < s.calls.length then some ({ s with calls := s.calls.eraseIdx i }, []) else none
  | .channelClosed id =>
    if id < s.channels then some ({ s with closedChannels := s.closedChannels ++ [id] }, [])
    else none
  | .close =>
    match s.toClose? with
    | some connection => some ({ s with closing := s.closing ++ [connection] }, [])
    | none            => some (s.reset, [.closeReturned])
  | .connectionClosed connection =>
    if connection ∈ s.closing ∧ connection ∈ s.live then
      some ({ s with live := s.live.filter (· ≠ connection) }, [.closed connection])
    else none
  | .closeReturned connection =>
    if connection ∈ s.closing ∧ connection ∉ s.live then
      some ({ s.reset with closing := s.closing.erase connection }, [.closeReturned])
    else none
  | .closeRaised connection =>
    if connection ∈ s.closing then
      some ({ s with closing := s.closing.erase connection }, [])
    else none

def machine : Machine RabbitMQFramePublisher Event Output := ⟨step⟩

/-! ### What a step does to the connections -/

variable {s s' : RabbitMQFramePublisher} {e : Event} {h out : List Output} {c : ℕ}

/-- The steps of a publisher, for its connections. -/
inductive Effect (s : RabbitMQFramePublisher) : Event → RabbitMQFramePublisher → List Output → Prop
    where
  | kept (e : Event) (s' : RabbitMQFramePublisher) (out : List Output)
      (hc : s'.connection = s.connection) (hl : s'.live = s.live)
      (hclosing : s'.closing.Sublist s.closing) (ho : s.opened ≤ s'.opened)
      (hout : .closeReturned ∉ out) : Effect s e s' out
  | connected (i : ℕ) (s' : RabbitMQFramePublisher) (hc : s'.connection = some s.opened)
      (hl : s'.live = s.live ++ [s.opened]) (hclosing : s'.closing = s.closing)
      (ho : s.opened ≤ s'.opened) : Effect s (.connected i) s' [.opened s.opened]
  | awaited (c : ℕ) (s' : RabbitMQFramePublisher) (hheld : s.connection = some c)
      (hc : s'.connection = s.connection) (hl : s'.live = s.live)
      (hclosing : s'.closing = s.closing ++ [c]) (ho : s.opened ≤ s'.opened) :
      Effect s .close s' []
  | closed (c : ℕ) (s' : RabbitMQFramePublisher) (hc : s'.connection = s.connection)
      (hin : c ∈ s.closing) (hl : s'.live = s.live.filter (· ≠ c))
      (hclosing : s'.closing = s.closing) (ho : s.opened ≤ s'.opened) :
      Effect s (.connectionClosed c) s' [.closed c]
  | idle (s' : RabbitMQFramePublisher) (hheld : ∀ c ∈ s.connection, c ∉ s.live)
      (hc : s'.connection = none) (hl : s'.live = s.live) (hclosing : s'.closing = s.closing)
      (ho : s.opened ≤ s'.opened) : Effect s .close s' [.closeReturned]
  | returned (c : ℕ) (s' : RabbitMQFramePublisher) (hin : c ∈ s.closing) (hnot : c ∉ s.live)
      (hc : s'.connection = none) (hl : s'.live = s.live)
      (hclosing : s'.closing = s.closing.erase c) (ho : s.opened ≤ s'.opened) :
      Effect s (.closeReturned c) s' [.closeReturned]

lemma Effect.of_step (hs : s.step e = some (s', out)) : Effect s e s' out := by
  cases e with
  | ensure =>
    simp only [step] at hs
    split at hs <;>
    · cases hs
      exact .kept _ _ _ rfl rfl (.refl _) le_rfl (by simp)
  | connected i =>
    simp only [step] at hs
    split at hs
    · cases hs
      exact .connected i _ rfl rfl rfl (Nat.le_succ _)
    · cases hs
  | channelOpened i =>
    simp only [step] at hs
    split at hs
    · split at hs
      · cases hs
        exact .kept _ _ _ rfl rfl (.refl _) le_rfl (by simp)
      · cases hs
    · cases hs
  | declared i =>
    simp only [step] at hs
    split at hs
    · cases hs
      exact .kept _ _ _ rfl rfl (.refl _) le_rfl (by simp)
    · cases hs
  | raised i | channelClosed i =>
    simp only [step] at hs
    split at hs
    · cases hs
      exact .kept _ _ _ rfl rfl (.refl _) le_rfl (by simp)
    · cases hs
  | close =>
    simp only [step, toClose?] at hs
    split at hs
    · next c hc =>
      cases hs
      exact .awaited c _ (Option.filter_eq_some_iff.mp hc).1 rfl rfl rfl le_rfl
    · next hnone =>
      cases hs
      refine .idle _ ?_ rfl rfl rfl le_rfl
      intro c hc
      simpa using Option.filter_eq_none_iff.mp hnone c hc
  | connectionClosed c =>
    simp only [step] at hs
    split at hs
    · next hc =>
      cases hs
      exact .closed c _ rfl hc.1 rfl rfl le_rfl
    · cases hs
  | closeReturned c =>
    simp only [step] at hs
    split at hs
    · next hc =>
      cases hs
      exact .returned c _ hc.1 hc.2 rfl rfl rfl le_rfl
    · cases hs
  | closeRaised c =>
    simp only [step] at hs
    split at hs
    · cases hs
      exact .kept _ _ _ rfl rfl List.erase_sublist le_rfl (by simp)
    · cases hs

/-! ### Owning one connection -/

/-- A call gets its connection while none is open and no `close` awaits. -/
def ConnectsAlone (s : RabbitMQFramePublisher) (_ : List Output) : Event → Prop
  | .connected _ => s.live = [] ∧ s.closing = []
  | _            => True

instance (s : RabbitMQFramePublisher) (h : List Output) :
    (e : Event) → Decidable (ConnectsAlone s h e)
  | .connected _        => inferInstanceAs (Decidable (s.live = [] ∧ s.closing = []))
  | .ensure             => inferInstanceAs (Decidable True)
  | .channelOpened _    => inferInstanceAs (Decidable True)
  | .declared _         => inferInstanceAs (Decidable True)
  | .raised _           => inferInstanceAs (Decidable True)
  | .channelClosed _    => inferInstanceAs (Decidable True)
  | .close              => inferInstanceAs (Decidable True)
  | .connectionClosed _ => inferInstanceAs (Decidable True)
  | .closeReturned _    => inferInstanceAs (Decidable True)
  | .closeRaised _      => inferInstanceAs (Decidable True)

/-- The open connection is the one that is held, and what is held is what is being closed. -/
structure Owns (s : RabbitMQFramePublisher) : Prop where
  held : ∀ c ∈ s.live, s.connection = some c
  one : s.live.length ≤ 1
  closing : ∀ c ∈ s.closing, ∀ c' ∈ s.connection, c' = c

/-- When a `close` resets the publisher, nothing is open. -/
lemma Owns.live_eq_nil (ho : Owns s) (hs : Effect s e s' out) (hout : .closeReturned ∈ out) :
    s'.live = [] := by
  cases hs with
  | kept _ _ _ hc hl hclosing ho' hnot => exact absurd hout hnot
  | connected | awaited | closed => simp at hout
  | idle s' hheld hc hl =>
    rw [hl]
    apply List.eq_nil_iff_forall_not_mem.mpr
    intro c hlive
    exact hheld c (ho.held c hlive) hlive
  | returned c s' hin hnot hc hl =>
    rw [hl]
    apply List.eq_nil_iff_forall_not_mem.mpr
    intro c' hlive
    obtain rfl := ho.closing c hin c' (ho.held c' hlive)
    exact hnot hlive

lemma Owns.step (ho : Owns s) (hok : ConnectsAlone s h e) (hs : Effect s e s' out) :
    Owns s' := by
  have hreset : s'.live = [] → s'.connection = none → Owns s' := by
    intro hl hc
    refine ⟨?_, ?_, ?_⟩
    · intro c hlive
      rw [hl] at hlive
      cases hlive
    · rw [hl]
      exact Nat.zero_le 1
    · intro c _ c' hheld
      rw [hc] at hheld
      cases hheld
  cases hs with
  | kept _ _ _ hc hl hclosing =>
    refine ⟨?_, hl ▸ ho.one, ?_⟩
    · rw [hl, hc]
      exact ho.held
    · intro c hin
      rw [hc]
      exact ho.closing c (hclosing.subset hin)
  | connected i s' hc hl hclosing =>
    obtain ⟨hnone, hidle⟩ := hok
    rw [hnone, List.nil_append] at hl
    refine ⟨?_, ?_, ?_⟩
    · intro c hlive
      rw [hl, List.mem_singleton] at hlive
      rw [hc, hlive]
    · rw [hl]
      exact le_rfl
    · intro c hin
      rw [hclosing, hidle] at hin
      cases hin
  | awaited c s' hheld hc hl hclosing =>
    refine ⟨?_, hl ▸ ho.one, ?_⟩
    · rw [hl, hc]
      exact ho.held
    · intro c' hin c'' hc''
      rw [hclosing, List.mem_append, List.mem_singleton] at hin
      rw [hc] at hc''
      rcases hin with hin | rfl
      · exact ho.closing c' hin c'' hc''
      · exact Option.some.inj (hc''.symm.trans hheld)
  | closed c s' hc hin hl hclosing =>
    refine ⟨?_, ?_, ?_⟩
    · intro c' hlive
      rw [hl] at hlive
      rw [hc]
      exact ho.held c' (List.mem_filter.mp hlive).1
    · rw [hl]
      exact (List.length_filter_le _ _).trans ho.one
    · rw [hc, hclosing]
      exact ho.closing
  | idle s' hheld hc hl hclosing ho' =>
    exact hreset (ho.live_eq_nil (.idle s' hheld hc hl hclosing ho') (List.mem_singleton_self _)) hc
  | returned c s' hin hnot hc hl hclosing ho' =>
    exact hreset (ho.live_eq_nil (.returned c s' hin hnot hc hl hclosing ho')
      (List.mem_singleton_self _)) hc

/-- As long as every call gets its connection while none is open and no `close` awaits, the
publisher owns one connection at most, which it holds, and nothing is open when a `close`
returns. -/
theorem owns_one_connection (hr : machine.Reach ConnectsAlone {} s h) :
    s.live.length ≤ 1 ∧ (∀ c ∈ s.live, s.connection = some c) ∧
    ∀ e s' out, s.step e = some (s', out) → .closeReturned ∈ out → s'.live = [] := by
  have ho : Owns s := by
    have hstart : Owns {} := ⟨by simp, Nat.zero_le 1, by simp⟩
    exact hr.invariant (P := fun s _ => Owns s) hstart
      fun _ _ _ _ _ _ ho hok hs => ho.step hok (.of_step hs)
  exact ⟨ho.one, ho.held, fun e s' out hs hout => ho.live_eq_nil (.of_step hs) hout⟩

/-! ### Calls that follow one another -/

/-- A call starts when no other one is in progress and does not raise once it has its connection,
and a channel closes with its connection only. -/
def InSequence (s : RabbitMQFramePublisher) (_ : List Output) : Event → Prop
  | .ensure | .close => s.calls = [] ∧ s.closing = []
  | .raised _        => s.live = []
  | .channelClosed _ => False
  | _                => True

/-- The connections that are open while a call of `_ensure_channel` is in progress. -/
def EnsureChannel.live : EnsureChannel → List ℕ
  | .connecting         => []
  | .opening connection => [connection]
  | .declaring channel  => [channel.connection]

/-- One call at a time is in progress, and none finds an open connection without a channel. -/
structure Sequential (s : RabbitMQFramePublisher) : Prop where
  owns : Owns s
  call : s.calls = [] ∨ ∃ call, s.calls = [call] ∧ s.live = EnsureChannel.live call ∧ s.closing = []
  idle : s.calls = [] → ∀ c ∈ s.live, ∃ channel, s.channel = some channel ∧ channel.connection = c
  channels : s.closedChannels = []

/-- The call in progress is the only one. -/
lemma Sequential.only (hq : Sequential s) {i : ℕ} {call : EnsureChannel}
    (hi : s.calls[i]? = some call) :
    i = 0 ∧ s.calls = [call] ∧ s.live = EnsureChannel.live call ∧ s.closing = [] := by
  rcases hq.call with hnone | ⟨call', hcall, hlive, hclosing⟩
  · rw [hnone] at hi
    cases hi
  · rw [hcall, List.getElem?_singleton] at hi
    split at hi
    · next h0 =>
      cases hi
      exact ⟨h0, hcall, hlive, hclosing⟩
    · cases hi

/-- A call that connects finds no connection. -/
lemma Sequential.connectsAlone (hq : Sequential s) (hs : s.step e = some (s', out)) :
    ConnectsAlone s h e := by
  cases e with
  | connected i =>
    simp only [RabbitMQFramePublisher.step] at hs
    split at hs
    · next hi => exact (hq.only hi).2.2
    · cases hs
  | _ => trivial

/-- When no call is in progress, an open connection has a channel for the next one to find. -/
lemma Sequential.live_eq_nil (hq : Sequential s) (hcalls : s.calls = [])
    (hnone : s.usable? = none) : s.live = [] := by
  apply List.eq_nil_iff_forall_not_mem.mpr
  intro c hlive
  obtain ⟨channel, hchannel, rfl⟩ := hq.idle hcalls c hlive
  simp [usable?, hchannel, isClosed, hq.channels, hlive] at hnone

/-- No call starts while a `close` awaits. -/
lemma Sequential.calls_eq_nil (hq : Sequential s) (hc : c ∈ s.closing) : s.calls = [] := by
  rcases hq.call with hcalls | ⟨-, -, -, hclosing⟩
  · exact hcalls
  · rw [hclosing] at hc
    cases hc

/-- Nothing is open and no call is in progress. -/
lemma Sequential.of_live_eq_nil (ho : Owns s) (hcalls : s.calls = []) (hlive : s.live = [])
    (hch : s.closedChannels = []) : Sequential s := by
  refine ⟨ho, .inl hcalls, ?_, hch⟩
  intro _ c hmem
  rw [hlive] at hmem
  cases hmem

lemma Sequential.step (hq : Sequential s) (hok : InSequence s h e)
    (hs : s.step e = some (s', out)) : Sequential s' := by
  have heffect := Effect.of_step hs
  have ho : Owns s' := hq.owns.step (h := h) (hq.connectsAlone hs) heffect
  cases e with
  | ensure =>
    obtain ⟨hcalls, hclosing⟩ := hok
    simp only [RabbitMQFramePublisher.step] at hs
    split at hs
    · cases hs
      exact hq
    · next hnone =>
      cases hs
      refine ⟨ho, .inr ⟨.connecting, ?_, hq.live_eq_nil hcalls hnone, hclosing⟩, ?_, hq.channels⟩
      · rw [hcalls, List.nil_append]
      · simp
  | connected i =>
    simp only [RabbitMQFramePublisher.step] at hs
    split at hs
    · next hi =>
      cases hs
      obtain ⟨rfl, hcalls, hlive, hclosing⟩ := hq.only hi
      refine ⟨ho, .inr ⟨.opening s.opened, ?_, ?_, hclosing⟩, ?_, hq.channels⟩
      · rw [hcalls, List.set_cons_zero]
      · rw [hlive]
        rfl
      · simp [hcalls]
    · cases hs
  | channelOpened i =>
    simp only [RabbitMQFramePublisher.step] at hs
    split at hs
    · next c hi =>
      split at hs
      · cases hs
        obtain ⟨rfl, hcalls, hlive, hclosing⟩ := hq.only hi
        refine ⟨ho, .inr ⟨.declaring ⟨c, s.channels⟩, ?_, hlive, hclosing⟩, ?_, hq.channels⟩
        · rw [hcalls, List.set_cons_zero]
        · simp [hcalls]
      · cases hs
    · cases hs
  | declared i =>
    simp only [RabbitMQFramePublisher.step] at hs
    split at hs
    · next channel hi =>
      cases hs
      obtain ⟨rfl, hcalls, hlive, hclosing⟩ := hq.only hi
      refine ⟨ho, .inl ?_, ?_, hq.channels⟩
      · rw [hcalls, List.eraseIdx_zero, List.tail_cons]
      · intro _ c hmem
        rw [hlive] at hmem
        exact ⟨channel, rfl, (List.mem_singleton.mp hmem).symm⟩
    · cases hs
  | raised i =>
    simp only [RabbitMQFramePublisher.step] at hs
    split at hs
    · next hi =>
      cases hs
      obtain ⟨rfl, hcalls, -⟩ := hq.only (List.getElem?_eq_getElem hi)
      exact .of_live_eq_nil ho (by rw [hcalls, List.eraseIdx_zero, List.tail_cons]) hok hq.channels
    · cases hs
  | channelClosed id => exact hok.elim
  | close =>
    obtain ⟨hcalls, hclosing⟩ := hok
    simp only [RabbitMQFramePublisher.step] at hs
    split at hs
    · cases hs
      exact ⟨ho, .inl hcalls, hq.idle, hq.channels⟩
    · cases hs
      exact .of_live_eq_nil ho hcalls (hq.owns.live_eq_nil heffect (List.mem_singleton_self _))
        hq.channels
  | connectionClosed c =>
    simp only [RabbitMQFramePublisher.step] at hs
    split at hs
    · next hc =>
      cases hs
      have hcalls := hq.calls_eq_nil hc.1
      refine ⟨ho, .inl hcalls, ?_, hq.channels⟩
      exact fun _ c' hmem => hq.idle hcalls c' (List.mem_filter.mp hmem).1
    · cases hs
  | closeReturned c =>
    simp only [RabbitMQFramePublisher.step] at hs
    split at hs
    · next hc =>
      cases hs
      exact .of_live_eq_nil ho (hq.calls_eq_nil hc.1)
        (hq.owns.live_eq_nil heffect (List.mem_singleton_self _)) hq.channels
    · cases hs
  | closeRaised c =>
    simp only [RabbitMQFramePublisher.step] at hs
    split at hs
    · next hc =>
      cases hs
      exact ⟨ho, .inl (hq.calls_eq_nil hc), hq.idle, hq.channels⟩
    · cases hs

lemma Sequential.of_reach (hr : machine.Reach InSequence {} s h) : Sequential s := by
  have hstart : Sequential {} := .of_live_eq_nil ⟨by simp, Nat.zero_le 1, by simp⟩ rfl rfl rfl
  exact hr.invariant (P := fun s _ => Sequential s) hstart
    fun _ _ _ _ _ _ hq hok hs => hq.step hok hs

/-- Calls that follow one another get their connections alone. -/
theorem connectsAlone_of_inSequence (hr : machine.Reach InSequence {} s h) :
    machine.Reach ConnectsAlone {} s h :=
  hr.mono_step fun _ _ _ _ _ hr _ hs => (Sequential.of_reach hr).connectsAlone hs

/-! ### A connection that is replaced -/

/-- The connection is open, and it is neither held nor being closed. -/
structure Leaked (s : RabbitMQFramePublisher) (c : ℕ) : Prop where
  live : c ∈ s.live
  lost : s.connection ≠ some c
  closing : c ∉ s.closing
  old : c < s.opened

instance (s : RabbitMQFramePublisher) (c : ℕ) : Decidable (Leaked s c) :=
  decidable_of_iff (c ∈ s.live ∧ s.connection ≠ some c ∧ c ∉ s.closing ∧ c < s.opened)
    ⟨fun h => ⟨h.1, h.2.1, h.2.2.1, h.2.2.2⟩, fun h => ⟨h.live, h.lost, h.closing, h.old⟩⟩

lemma Leaked.step (hl : Leaked s c) (hs : Effect s e s' out) : Leaked s' c := by
  obtain ⟨hlive, hlost, hclosing, hold⟩ := hl
  cases hs with
  | kept _ _ _ hc hl' hsub ho =>
    exact ⟨hl' ▸ hlive, hc ▸ hlost, fun hin => hclosing (hsub.subset hin), hold.trans_le ho⟩
  | connected i s' hc hl' hsame ho =>
    refine ⟨?_, ?_, hsame ▸ hclosing, hold.trans_le ho⟩
    · rw [hl']
      exact List.mem_append_left _ hlive
    · rw [hc]
      exact fun heq => hold.ne' (Option.some.inj heq)
  | awaited c' s' hheld hc hl' hadd ho =>
    refine ⟨hl' ▸ hlive, hc ▸ hlost, ?_, hold.trans_le ho⟩
    rw [hadd, List.mem_append, List.mem_singleton]
    rintro (hin | rfl)
    · exact hclosing hin
    · exact hlost hheld
  | closed c' s' hc hin hl' hsame ho =>
    refine ⟨?_, hc ▸ hlost, hsame ▸ hclosing, hold.trans_le ho⟩
    rw [hl', List.mem_filter]
    exact ⟨hlive, decide_eq_true fun heq => hclosing (heq ▸ hin)⟩
  | idle s' hheld hc hl' hsame ho =>
    refine ⟨hl' ▸ hlive, ?_, hsame ▸ hclosing, hold.trans_le ho⟩
    rw [hc]
    intro h
    cases h
  | returned c' s' hin hnot hc hl' herase ho =>
    refine ⟨hl' ▸ hlive, ?_, ?_, hold.trans_le ho⟩
    · rw [hc]
      intro h
      cases h
    · rw [herase]
      exact fun hmem => hclosing (List.mem_of_mem_erase hmem)

/-- Nobody closes a connection that was replaced. -/
theorem Leaked.of_reach {ok : RabbitMQFramePublisher → List Output → Event → Prop}
    (hl : Leaked s c) (hr : machine.Reach ok s s' h) : Leaked s' c :=
  hr.invariant (P := fun s _ => Leaked s c) hl fun _ _ _ _ _ _ hl _ hs => hl.step (.of_step hs)

/-- A channel closes with its connection, and the next call connects anew after a `close`. -/
theorem owns_one_connection_reopened :
    ∃ s h, machine.Reach ConnectsAlone {} s h ∧ s.opened = 2 ∧ s.live.length ≤ 1 ∧
      ∀ c ∈ s.live, s.connection = some c := by
  have hrun : ∃ s h, machine.Reach ConnectsAlone {} s h ∧ s.opened = 2 :=
    Machine.Reach.exists_of_exec
      [.ensure, .connected 0, .channelOpened 0, .declared 0, .ensure, .close, .connectionClosed 0,
        .ensure, .closeReturned 0, .connected 0, .channelOpened 0, .declared 0]
      (by decide +kernel)
  obtain ⟨s, h, hr, hopened⟩ := hrun
  obtain ⟨hone, hheld, -⟩ := owns_one_connection hr
  exact ⟨s, h, hr, hopened, hone, hheld⟩

/-- Two calls on a new publisher both connect. The second connection replaces the first, and after
`close` the first is open for good. The same happens to the connection of a channel that the broker
has closed, with one call after the other. -/
theorem first_connection_leaks :
    (∃ s h, machine.Reach Machine.anyStep {} s h ∧ s.calls = [] ∧ s.closing = [] ∧
      s.connection = none ∧ h.getLast? = some .closeReturned ∧
      ∀ s' h', machine.Reach Machine.anyStep s s' h' → 0 ∈ s'.live) ∧
    ∃ s h, machine.Reach Machine.anyStep {} s h ∧ s.calls = [] ∧ s.connection = some 1 ∧
      0 ∈ s.live := by
  have hrun : ∃ s h, machine.Reach Machine.anyStep {} s h ∧ s.calls = [] ∧ s.closing = [] ∧
      s.connection = none ∧ h.getLast? = some .closeReturned ∧ Leaked s 0 :=
    Machine.Reach.exists_of_exec
      [.ensure, .ensure, .connected 0, .connected 1, .channelOpened 0, .channelOpened 1,
        .declared 0, .declared 0, .close, .connectionClosed 1, .closeReturned 1]
      (by decide +kernel)
  obtain ⟨s, h, hr, hcalls, hclosing, hc, hlast, hleak⟩ := hrun
  refine ⟨⟨s, h, hr, hcalls, hclosing, hc, hlast, fun s' h' hr' => (hleak.of_reach hr').live⟩, ?_⟩
  exact Machine.Reach.exists_of_exec
    [.ensure, .connected 0, .channelOpened 0, .declared 0, .channelClosed 0, .ensure, .connected 0,
      .channelOpened 0, .declared 0]
    (by decide +kernel)

end RabbitMQFramePublisher

end VideoPipeline

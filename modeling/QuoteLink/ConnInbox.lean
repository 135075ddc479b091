import QuoteLink.ConnDeadline
import QuoteLink.ServerLink

namespace QuoteLink

/-- What happens at a connection: a packet is put into `recv_rx`, the loop takes
one branch of `select!`, or one of its awaits returns. -/
inductive InboxEvent
  | arrive (packet : Packet)
  | tick
  | recv
  | recvClosed
  | other (e : ConnEvent)
  deriving DecidableEq, Repr

/-- Neither a tick nor about `recv_rx`. -/
def ConnEvent.isOther : ConnEvent → Bool
  | .tick _ => false
  | .recv _ _ => false
  | .recvClosed => false
  | _ => true

/-- The main process loop with `recv_rx` in front of it. Each waiting packet has
the time it was put there; `arrivals` lists these times for all packets. -/
structure ConnInbox where
  loop : ConnLoop
  recvRx : List (Packet × Nat)
  arrivals : List Nat
  now : Nat
  nextTick : Nat
  deriving DecidableEq, Repr

structure InboxConfig where
  healthy : HealthyConfig
  heartbeatInterval : Nat
  recvChanSize : Nat
  deriving DecidableEq, Repr

namespace ConnInbox

/-- The first tick of an interval is due at once. -/
def new (peerAddr : String) (now : Nat) : ConnInbox := ⟨.new peerAddr now, [], [], now, now⟩

/-- The events carry the time they happen at. A missed tick stays due until the
loop polls again, and the next one is due an interval after it. -/
def step (decode : DecodeAuth) (conf : InboxConfig) (s : ConnInbox) :
    Nat × InboxEvent → Option ConnInbox
  | (now, .arrive packet) =>
    if s.now ≤ now ∧ s.recvRx.length < conf.recvChanSize then
      some { s with
        recvRx := s.recvRx ++ [(packet, now)]
        arrivals := s.arrivals ++ [now]
        now := now }
    else none
  | (now, .tick) =>
    if s.now ≤ now ∧ s.nextTick ≤ now then
      (s.loop.next decode conf.healthy (.tick now)).map fun loop =>
        { s with loop := loop, now := now, nextTick := s.nextTick + conf.heartbeatInterval }
    else none
  | (now, .recv) =>
    match s.recvRx with
    | [] => none
    | (packet, _) :: rest =>
      if s.now ≤ now then
        (s.loop.next decode conf.healthy (.recv packet now)).map fun loop =>
          { s with loop := loop, recvRx := rest, now := now }
      else none
  | (now, .recvClosed) =>
    if s.now ≤ now ∧ s.recvRx = [] then
      (s.loop.next decode conf.healthy .recvClosed).map fun loop => { s with loop := loop, now := now }
    else none
  | (now, .other e) =>
    if s.now ≤ now ∧ e.isOther = true then
      (s.loop.next decode conf.healthy e).map fun loop => { s with loop := loop, now := now }
    else none

/-- A packet that arrived waits in `recv_rx`, or it was taken and has refreshed
`last_ping_at`. -/
structure Tracked (s : ConnInbox) : Prop where
  arrived : ∀ a ∈ s.arrivals, a ≤ s.loop.lastPingAt ∨ ∃ packet, (packet, a) ∈ s.recvRx
  waiting : ∀ x ∈ s.recvRx, x.2 ∈ s.arrivals
  past : ∀ a ∈ s.arrivals, a ≤ s.now
  ping : s.loop.lastPingAt ≤ s.now

/-- The 'heartbeat timeout' exit is taken. -/
def HeartbeatExit (s : ConnInbox) (e : Nat × InboxEvent) (s' : ConnInbox) : Prop :=
  e.2 = .tick ∧ s.loop.isAuthOk = true ∧ s'.loop.ended = true

/-- A step that does not drop a peer of which a packet arrived in the last `heartbeat_timeout`. -/
def SparesLive (conf : InboxConfig) (s : ConnInbox) (e : Nat × InboxEvent) (s' : ConnInbox) : Prop :=
  s.HeartbeatExit e s' → ∀ a ∈ s.arrivals, a + conf.healthy.heartbeatTimeout < e.1

/-- An overdue tick is taken only when no packet that arrived in the last
`heartbeat_timeout` waits in `recv_rx`. -/
def TickAfterPackets (conf : InboxConfig) (s : ConnInbox) (e : Nat × InboxEvent) : Prop :=
  e.2 = .tick → s.loop.isAuthOk = true → s.loop.lastPingAt + conf.healthy.heartbeatTimeout < e.1 →
    ∀ x ∈ s.recvRx, x.2 + conf.healthy.heartbeatTimeout < e.1

instance (conf : InboxConfig) (s : ConnInbox) (e : Nat × InboxEvent) :
    Decidable (s.TickAfterPackets conf e) := inferInstanceAs (Decidable (_ → _ → _ → _))

section Steps

variable {decode : DecodeAuth} {conf : InboxConfig} {s s' : ConnInbox}

theorem new_tracked (peerAddr : String) (now : Nat) : (new peerAddr now).Tracked where
  arrived := fun _ h => absurd h List.not_mem_nil
  waiting := fun _ h => absurd h List.not_mem_nil
  past := fun _ h => absurd h List.not_mem_nil
  ping := le_rfl

/-- A step of the loop that takes no packet. -/
theorem Tracked.loop (h : s.Tracked) {now nextTick : Nat} {l : ConnLoop} (hnow : s.now ≤ now)
    (hping : l.lastPingAt = s.loop.lastPingAt) :
    Tracked { s with loop := l, now := now, nextTick := nextTick } where
  arrived := by
    intro a ha
    show a ≤ l.lastPingAt ∨ _
    rw [hping]
    exact h.arrived a ha
  waiting := h.waiting
  past := fun a ha => (h.past a ha).trans hnow
  ping := by
    have hbefore := h.ping
    show l.lastPingAt ≤ now
    omega

theorem refresh_of_isOther {e : ConnEvent} (he : e.isOther = true) (last : Nat) :
    ConnLoop.refresh last e = last := by
  cases e with
  | recv packet now => cases he
  | _ => rfl

theorem step_tracked {e : Nat × InboxEvent} (h : s.Tracked) (hs : s.step decode conf e = some s') :
    s'.Tracked := by
  obtain ⟨now, e⟩ := e
  cases e with
  | arrive packet =>
    simp only [step, Option.ite_none_right_eq_some, Option.some.injEq] at hs
    obtain ⟨⟨hnow, _⟩, rfl⟩ := hs
    refine ⟨?_, ?_, ?_, h.ping.trans hnow⟩
    · intro a ha
      rcases List.mem_append.mp ha with ha | ha
      · rcases h.arrived a ha with hle | ⟨p, hp⟩
        · exact Or.inl hle
        · exact Or.inr ⟨p, List.mem_append_left _ hp⟩
      · obtain rfl := List.mem_singleton.mp ha
        exact Or.inr ⟨packet, List.mem_append_right _ List.mem_cons_self⟩
    · intro x hx
      rcases List.mem_append.mp hx with hx | hx
      · exact List.mem_append_left _ (h.waiting x hx)
      · obtain rfl := List.mem_singleton.mp hx
        exact List.mem_append_right _ List.mem_cons_self
    · intro a ha
      rcases List.mem_append.mp ha with ha | ha
      · exact (h.past a ha).trans hnow
      · exact (List.mem_singleton.mp ha).le
  | tick =>
    simp only [step, Option.ite_none_right_eq_some] at hs
    obtain ⟨⟨hnow, _⟩, hs⟩ := hs
    obtain ⟨l, hl, rfl⟩ := Option.map_eq_some_iff.mp hs
    exact h.loop hnow (ConnLoop.next_lastPingAt hl)
  | recv =>
    simp only [step] at hs
    split at hs
    next => cases hs
    next p at' rest hqueue =>
      simp only [Option.ite_none_right_eq_some] at hs
      obtain ⟨hnow, hs⟩ := hs
      obtain ⟨l, hl, rfl⟩ := Option.map_eq_some_iff.mp hs
      have hping : l.lastPingAt = now := ConnLoop.next_lastPingAt hl
      -- all that has arrived is not later than the time of this step
      refine ⟨?_, ?_, fun a ha => (h.past a ha).trans hnow, hping.le⟩
      · intro a ha
        left
        show a ≤ l.lastPingAt
        rw [hping]
        exact (h.past a ha).trans hnow
      · intro x hx
        refine h.waiting x ?_
        rw [hqueue]
        exact List.mem_cons_of_mem _ hx
  | recvClosed =>
    simp only [step, Option.ite_none_right_eq_some] at hs
    obtain ⟨⟨hnow, _⟩, hs⟩ := hs
    obtain ⟨l, hl, rfl⟩ := Option.map_eq_some_iff.mp hs
    exact h.loop hnow (ConnLoop.next_lastPingAt hl)
  | other e =>
    simp only [step, Option.ite_none_right_eq_some] at hs
    obtain ⟨⟨hnow, he⟩, hs⟩ := hs
    obtain ⟨l, hl, rfl⟩ := Option.map_eq_some_iff.mp hs
    have hping := ConnLoop.next_lastPingAt hl
    rw [refresh_of_isOther he] at hping
    exact h.loop hnow hping

/-- An authenticated loop is left by a tick if and only if the tick is overdue. -/
theorem heartbeatExit_iff {now : Nat} {e : InboxEvent} (hs : s.step decode conf (now, e) = some s') :
    s.HeartbeatExit (now, e) s' ↔ e = .tick ∧ s.loop.isAuthOk = true ∧
      s.loop.lastPingAt + conf.healthy.heartbeatTimeout < now := by
  by_cases htick : e = .tick
  · subst htick
    by_cases hok : s.loop.isAuthOk = true
    · simp only [step, Option.ite_none_right_eq_some] at hs
      obtain ⟨_, hs⟩ := hs
      obtain ⟨l, hl, rfl⟩ := Option.map_eq_some_iff.mp hs
      have hended := ConnLoop.tick_ended_iff hl
      rw [ConnLoop.timeout, if_pos hok] at hended
      simp only [HeartbeatExit, hok, hended, true_and]
      omega
    · simp [HeartbeatExit, hok]
  · simp [HeartbeatExit, htick]

theorem sparesLive_iff {e : Nat × InboxEvent} (h : s.Tracked) (hs : s.step decode conf e = some s') :
    s.SparesLive conf e s' ↔ s.TickAfterPackets conf e := by
  obtain ⟨now, e⟩ := e
  rw [SparesLive, heartbeatExit_iff hs]
  constructor
  · intro hlive htick hok hover x hx
    exact hlive ⟨htick, hok, hover⟩ x.2 (h.waiting x hx)
  · rintro hafter ⟨htick, hok, hover⟩ a ha
    rcases h.arrived a ha with hle | ⟨packet, hmem⟩
    · show a + conf.healthy.heartbeatTimeout < now
      omega
    · exact hafter htick hok hover (packet, a) hmem

end Steps

/-- A peer of which a packet arrived in the last `heartbeat_timeout` is never
dropped for a heartbeat timeout, if and only if no overdue tick is taken while
such a packet waits in `recv_rx`. -/
theorem live_peer_spared_iff (decode : DecodeAuth) (conf : InboxConfig) (peerAddr : String)
    (acceptedAt : Nat) (events : List (Nat × InboxEvent)) (last : ConnInbox)
    (hrun : Machine.run (step decode conf) (new peerAddr acceptedAt) events = some last) :
    (∀ past e s s', past ++ [e] <+: events →
      Machine.run (step decode conf) (new peerAddr acceptedAt) past = some s →
      s.step decode conf e = some s' → s.SparesLive conf e s') ↔
    Machine.Meets (step decode conf) (TickAfterPackets conf) (new peerAddr acceptedAt) events := by
  have hinv : ∀ (s : ConnInbox) e s', s.Tracked → s.step decode conf e = some s' → s'.Tracked :=
    fun _ _ _ => step_tracked
  have hiff : ∀ (s : ConnInbox) e s', s.Tracked → s.step decode conf e = some s' →
      (s.SparesLive conf e s' ↔ s.TickAfterPackets conf e) := fun _ _ _ => sparesLive_iff
  exact Machine.forall_steps_iff_meets hinv hiff (new_tracked peerAddr acceptedAt) hrun

/-- An authenticated peer falls silent and is dropped by the tick at 40. -/
def silentRun : List (Nat × InboxEvent) :=
  [(0, .tick), (1, .arrive (authLetter 1 97)), (1, .recv), (2, .other (.authResult true)),
    (2, .other .newSent), (2, .other .authForwarded), (10, .tick), (40, .tick)]

theorem live_peer_spared_iff_silent :
    ∃ s, Machine.run (step decodeLetter ⟨⟨30, 10, 3⟩, 10, 4⟩) (new "10.0.0.7:4001" 0) silentRun = some s ∧
      s.loop.ended = true ∧
      ∀ past e s s', past ++ [e] <+: silentRun →
        Machine.run (step decodeLetter ⟨⟨30, 10, 3⟩, 10, 4⟩) (new "10.0.0.7:4001" 0) past = some s →
        s.step decodeLetter ⟨⟨30, 10, 3⟩, 10, 4⟩ e = some s' → s.SparesLive ⟨⟨30, 10, 3⟩, 10, 4⟩ e s' := by
  have hrun : Machine.run (step decodeLetter ⟨⟨30, 10, 3⟩, 10, 4⟩) (new "10.0.0.7:4001" 0) silentRun =
      some ⟨⟨"10.0.0.7:4001", true, "a@10.0.0.7:4001", 1, ⟨"", "", "a"⟩, .onDisconnect⟩, [], [1], 40, 30⟩ := by
    decide
  have hiff := live_peer_spared_iff decodeLetter ⟨⟨30, 10, 3⟩, 10, 4⟩ "10.0.0.7:4001" 0 silentRun _ hrun
  exact ⟨_, hrun, rfl, hiff.mpr (by decide)⟩

/-- `on_auth` takes from 1 to 100; a heartbeat arrives at 95, but the overdue
tick is taken before it. -/
theorem live_peer_spared_counterexample :
    ¬∀ (decode : DecodeAuth) (conf : InboxConfig) (peerAddr : String) (acceptedAt : Nat)
      (events : List (Nat × InboxEvent)) (e : Nat × InboxEvent) (s s' : ConnInbox),
      Machine.run (step decode conf) (new peerAddr acceptedAt) events = some s →
      s.step decode conf e = some s' → s.SparesLive conf e s' := by
  intro h
  have hspared := h decodeLetter ⟨⟨30, 10, 3⟩, 10, 4⟩ "10.0.0.7:4001" 0
    [(0, .tick), (1, .arrive (authLetter 1 97)), (1, .recv),
      (95, .arrive (.request (newRequest .heartbeat 2 []))), (100, .other (.authResult true)),
      (100, .other .newSent), (100, .other .authForwarded)] (100, .tick)
    ⟨⟨"10.0.0.7:4001", true, "a@10.0.0.7:4001", 1, ⟨"", "", "a"⟩, .select⟩,
      [(.request (newRequest .heartbeat 2 []), 95)], [1, 95], 100, 10⟩
    ⟨⟨"10.0.0.7:4001", true, "a@10.0.0.7:4001", 1, ⟨"", "", "a"⟩, .onDisconnect⟩,
      [(.request (newRequest .heartbeat 2 []), 95)], [1, 95], 100, 20⟩ (by decide) (by decide)
  have hold : 95 + 30 < 100 := hspared ⟨rfl, rfl, rfl⟩ 95 (by decide)
  omega

end ConnInbox

end QuoteLink

import QuoteLink.ControlMessages
import QuoteLink.Machine

open Reader Wire

namespace QuoteLink

/-- What an event asks `on_auth` about: an Auth request that can be decoded. -/
def ConnEvent.credentials (decode : DecodeAuth) : ConnEvent → List (UInt32 × AuthInfo)
  | .recv (.request r) _ =>
    if r.command = .auth then
      ((decode r.body).map fun auth => (r.id, auth.authInfo.getD .default)).toList
    else []
  | _ => []

/-- The heartbeat an event brings. -/
def ConnEvent.pings : ConnEvent → List Request
  | .recv (.request r) _ => if r.command = .heartbeat then [r] else []
  | _ => []

def ConnEffect.onAuth? : ConnEffect → Option (UInt32 × AuthInfo)
  | .onAuth id info => some (id, info)
  | _ => none

def ConnEffect.reply? : ConnEffect → Option Packet
  | .reply packet => some packet
  | _ => none

/-- What the data loop of the client gets out of a heartbeat response. -/
def Packet.pong (heartbeat : Codec Int64) : Packet → Option (UInt32 × Int64)
  | .response r => if r.command = .heartbeat then (heartbeat.decode r.body).map (r.id, ·) else none
  | _ => none

/-- The main process loop with the calls of `on_auth`, the heartbeats it took and the
replies to the peer. -/
structure ConnSession where
  loop : ConnLoop
  onAuths : List (UInt32 × AuthInfo)
  pings : List Request
  replies : List Packet
  deriving DecidableEq, Repr

namespace ConnSession

def new (peerAddr : String) (now : Nat) : ConnSession := ⟨.new peerAddr now, [], [], []⟩

def step (decode : DecodeAuth) (conf : HealthyConfig) (s : ConnSession) (e : ConnEvent) : Option ConnSession :=
  (s.loop.step decode conf e).map fun out =>
    ⟨out.1, s.onAuths ++ out.2.filterMap ConnEffect.onAuth?, s.pings ++ e.pings,
      s.replies ++ out.2.filterMap ConnEffect.reply?⟩

/-- The reply the loop is about to send. -/
def replying (l : ConnLoop) : List Packet :=
  match l.pc with
  | .replying request => [.newHeartbeatResponse request]
  | _ => []

/-- `send_tx` is open when a reply is sent. -/
def SendOpen (_ : ConnSession) (e : ConnEvent) : Prop := e ≠ .replyFailed

instance (s : ConnSession) (e : ConnEvent) : Decidable (s.SendOpen e) :=
  inferInstanceAs (Decidable (e ≠ .replyFailed))

variable {decode : DecodeAuth} {conf : HealthyConfig} {s s' : ConnSession} {e : ConnEvent}

theorem leave_effects (l : ConnLoop) :
    l.leave.2.filterMap ConnEffect.onAuth? = [] ∧ l.leave.2.filterMap ConnEffect.reply? = [] := by
  unfold ConnLoop.leave
  split
  · exact ⟨rfl, rfl⟩
  · exact ⟨rfl, rfl⟩

theorem replying_leave (l : ConnLoop) : replying l.leave.1 = [] := by
  unfold ConnLoop.leave
  split
  · rfl
  · rfl

theorem replying_eq_nil {l : ConnLoop} (h : ∀ r, l.pc ≠ .replying r) : replying l = [] := by
  unfold replying
  split
  next r hr => exact absurd hr (h r)
  next => rfl

theorem pings_of_ne {p : Packet} {now : Nat} (h : ∀ r, p = .request r → r.command ≠ .heartbeat) :
    (ConnEvent.recv p now).pings = [] := by
  cases p with
  | request r => exact if_neg (h r rfl)
  | _ => rfl

theorem credentials_of_ne {p : Packet} {now : Nat} (h : ∀ r, p = .request r → r.command ≠ .auth) :
    (ConnEvent.recv p now).credentials decode = [] := by
  cases p with
  | request r => exact if_neg (h r rfl)
  | _ => rfl

theorem step_onAuths (h : s.step decode conf e = some s') : s'.onAuths = s.onAuths ++ e.credentials decode := by
  obtain ⟨out, hout, rfl⟩ := Option.map_eq_some_iff.mp h
  cases ConnLoop.step_cases hout with
  | tickLeave | exitSignal | recvClosed => exact congrArg (s.onAuths ++ ·) (leave_effects s.loop).1
  | heartbeat r now hpc hr =>
    have hcmd : r.command ≠ .auth := by
      rw [hr]
      decide
    exact congrArg (s.onAuths ++ ·) (if_neg hcmd).symm
  | authInvalid r now hpc hr hdecode =>
    have hnone : (ConnEvent.recv (.request r) now).credentials decode = [] := by
      simp [ConnEvent.credentials, hr, hdecode]
    rw [hnone]
    exact congrArg (s.onAuths ++ ·) (leave_effects { s.loop with lastPingAt := now }).1
  | auth r now hpc hr auth hdecode =>
    have hone : (ConnEvent.recv (.request r) now).credentials decode =
        [(r.id, auth.authInfo.getD .default)] := by
      simp [ConnEvent.credentials, hr, hdecode]
    rw [hone]
    rfl
  | packet p now hpc hp =>
    rw [credentials_of_ne fun r hr => (hp r hr).2]
    rfl
  | _ => rfl

/-- A reply is pending from the heartbeat on until it is sent, or `send_tx` is closed. -/
theorem step_replies (h : s.step decode conf e = some s') :
    Machine.FlowCase (s.replies ++ replying s.loop) (e.pings.map Packet.newHeartbeatResponse)
      (s'.replies ++ replying s'.loop) (s.SendOpen e) := by
  obtain ⟨out, hout, rfl⟩ := Option.map_eq_some_iff.mp h
  have hquiet : ∀ l : ConnLoop, replying s.loop = [] → replying l = [] →
      s.replies ++ [] ++ replying l = s.replies ++ replying s.loop ++ [] := by
    intro l hbefore hafter
    rw [hbefore, hafter, List.append_nil]
  cases ConnLoop.step_cases hout with
  | tickLeave now hpc | exitSignal hpc | recvClosed hpc =>
    have hbefore : replying s.loop = [] := replying_eq_nil fun r hr => nomatch hpc.symm.trans hr
    rw [(leave_effects s.loop).2]
    exact .keeps (hquiet _ hbefore (replying_leave s.loop)) nofun
  | heartbeat r now hpc hr =>
    have hbefore : replying s.loop = [] := replying_eq_nil fun q hq => nomatch hpc.symm.trans hq
    have hping : (ConnEvent.recv (.request r) now).pings = [r] := if_pos hr
    refine .keeps ?_ nofun
    rw [hping, hbefore]
    simp [replying]
  | authInvalid r now hpc hr =>
    have hbefore : replying s.loop = [] := replying_eq_nil fun q hq => nomatch hpc.symm.trans hq
    have hping : (ConnEvent.recv (.request r) now).pings = [] := by simp [ConnEvent.pings, hr]
    rw [(leave_effects { s.loop with lastPingAt := now }).2, hping]
    exact .keeps (hquiet _ hbefore (replying_leave _)) nofun
  | auth r now hpc hr =>
    have hbefore : replying s.loop = [] := replying_eq_nil fun q hq => nomatch hpc.symm.trans hq
    have hping : (ConnEvent.recv (.request r) now).pings = [] := by simp [ConnEvent.pings, hr]
    rw [hping]
    exact .keeps (hquiet _ hbefore rfl) nofun
  | packet p now hpc hp =>
    have hbefore : replying s.loop = [] := replying_eq_nil fun q hq => nomatch hpc.symm.trans hq
    have hafter : replying { s.loop with lastPingAt := now } = [] := hbefore
    rw [pings_of_ne fun r hr => (hp r hr).1]
    exact .keeps (hquiet _ hbefore hafter) nofun
  | replied r hpc =>
    refine .keeps ?_ nofun
    simp [replying, hpc, ConnEffect.reply?, ConnEvent.pings]
  | replyFailed r hpc =>
    have hpending : replying s.loop = [.newHeartbeatResponse r] := by simp [replying, hpc]
    refine .loses s.replies [.newHeartbeatResponse r] [] ?_ ?_ rfl (iff_of_false (fun h => h rfl) nofun)
    · rw [hpending, List.append_nil]
    · simp [replying]
  | tick now hpc | authOk r hpc | authRejected r hpc | newSent r hpc | authForwarded r hpc | disconnected hpc
  | exitSent hpc =>
    have hbefore : replying s.loop = [] := replying_eq_nil fun q hq => nomatch hpc.symm.trans hq
    refine .keeps (hquiet _ hbefore ?_) nofun
    first | exact hbefore | rfl

theorem length_replying_le (l : ConnLoop) : (replying l).length ≤ 1 := by
  unfold replying
  split
  · exact Nat.le_refl _
  · exact Nat.zero_le _

theorem wellFormed_newHeartbeatResponse {r : Request} (h : (Packet.request r).WellFormed) :
    (Packet.newHeartbeatResponse r).WellFormed := by
  have hzero : (0 : UInt8).toNat < 2 ^ 2 := by decide
  exact ⟨hzero, h.2⟩

/-- The credentials that a client was configured with are those `on_auth` is asked
about: every Auth request that reaches the loop and can be decoded leads to one call
with its id and its `auth_info`, whatever else the peer, the handler and the timers do.
For a request of `new_auth` these are what it was built from. -/
theorem credentials_reach_on_auth (prost : Prost) (decode : DecodeAuth) (hreads : decode.Reads prost)
    (conf : HealthyConfig) (peerAddr : String) (acceptedAt : Nat) (events : List ConnEvent) (s : ConnSession)
    (hrun : Machine.run (step decode conf) (new peerAddr acceptedAt) events = some s) :
    s.onAuths = events.flatMap (ConnEvent.credentials decode) ∧
      ∀ id info now, (prost.encodeAuthRequest ⟨some info⟩).length < 2 ^ 64 →
        (ConnEvent.recv (.newAuth prost id info.userName info.password info.clientName) now).credentials decode =
          [(requestIdTrim id, info)] := by
  constructor
  · exact Machine.run_collect (fun _ _ _ hs => step_onAuths hs) hrun
  · intro id info now hlen
    simp only [Packet.newAuth, ConnEvent.credentials, if_true, hreads _ hlen, Option.map_some, Option.getD_some,
      Option.toList_some]

/-- A heartbeat is answered at most once and in order, and always if `send_tx` is open
whenever a reply is sent. The peer reads the answers to well-formed heartbeats from the
stream, and gets its timestamps back. -/
theorem heartbeats_answered (decode : DecodeAuth) (heartbeat : Codec Int64) (hheartbeat : heartbeat.RoundTrips)
    (conf : HealthyConfig) (peerAddr : String) (acceptedAt : Nat) (events : List ConnEvent) (s : ConnSession)
    (hrun : Machine.run (step decode conf) (new peerAddr acceptedAt) events = some s) :
    s.pings = events.flatMap ConnEvent.pings ∧ (replying s.loop).length ≤ 1 ∧
      (s.replies ++ replying s.loop).Sublist (s.pings.map Packet.newHeartbeatResponse) ∧
      ((∀ past t, past <+: events → Machine.run (step decode conf) (new peerAddr acceptedAt) past = some t →
          t.replies ++ replying t.loop = t.pings.map Packet.newHeartbeatResponse) ↔
        Machine.Meets (step decode conf) SendOpen (new peerAddr acceptedAt) events) ∧
      ((∀ r ∈ s.pings, (Packet.request r).WellFormed) →
        Packet.reader.drain (s.replies.flatMap Packet.encoding) = (s.replies, [])) ∧
      ∀ timestamp id r, Packet.newHeartbeat heartbeat timestamp id = .request r → r.body.length < 2 ^ 64 →
        (Packet.newHeartbeatResponse r).pong heartbeat = some (requestIdTrim id, timestamp) := by
  have hpings : ∀ s e s', step decode conf s e = some s' → s'.pings = s.pings ++ e.pings := by
    intro s e s' hs
    obtain ⟨out, _, rfl⟩ := Option.map_eq_some_iff.mp hs
    rfl
  have hlog : ∀ s e s', step decode conf s e = some s' → s'.pings.map Packet.newHeartbeatResponse =
      s.pings.map Packet.newHeartbeatResponse ++ e.pings.map Packet.newHeartbeatResponse := by
    intro s e s' hs
    rw [hpings s e s' hs, List.map_append]
  have hkeep : ∀ s e s', (fun _ : ConnSession => True) s → step decode conf s e = some s' →
      (fun _ : ConnSession => True) s' := fun _ _ _ _ _ => trivial
  obtain ⟨hsub, hiff⟩ :=
    Machine.run_flow hkeep hlog (fun _ _ _ _ hs => step_replies hs) trivial rfl hrun
  refine ⟨Machine.run_collect hpings hrun, length_replying_le s.loop, hsub, hiff, fun hwf => ?_, ?_⟩
  · refine (drain_flatMap_write_iff Packet.reader_progress Packet.reader_inverse s.replies).mpr ?_
    intro p hp
    obtain ⟨r, hr, rfl⟩ := List.mem_map.mp (hsub.subset (List.mem_append_left _ hp))
    exact wellFormed_newHeartbeatResponse (hwf r hr)
  · rintro timestamp id r hr hlen
    cases hr
    simp only [Packet.newHeartbeatResponse, Packet.pong, if_true, hheartbeat timestamp hlen, Option.map_some]

/-- A client logs in, sends a heartbeat, logs in again and sends another one, to which
no answer can be sent any more. -/
def sessionEvents : List ConnEvent :=
  [.recv (.newAuth controlProst 1 "u" "p" "c") 1, .authResult true, .newSent, .authForwarded,
    .recv (.newHeartbeat Heartbeat.message.codec (-7) 2) 2, .replied,
    .recv (.newAuth controlProst 16777217 "u" "q" "c") 3, .authResult false,
    .recv (.newHeartbeat Heartbeat.message.codec 40 3) 4, .replyFailed]

theorem credentials_reach_on_auth_twice :
    ∃ s, Machine.run (step decodeAuthRequest ⟨30, 10, 3⟩) (new "10.0.0.7:4001" 0) sessionEvents = some s ∧
      s.onAuths = [(1, ⟨"u", "p", "c"⟩), (1, ⟨"u", "q", "c"⟩)] := by
  have hsome : (Machine.run (step decodeAuthRequest ⟨30, 10, 3⟩) (new "10.0.0.7:4001" 0) sessionEvents).isSome =
      true := by decide +kernel
  obtain ⟨s, hrun⟩ := Option.isSome_iff_exists.mp hsome
  obtain ⟨hauths, hnew⟩ := credentials_reach_on_auth controlProst decodeAuthRequest decodeAuthRequest_reads
    ⟨30, 10, 3⟩ "10.0.0.7:4001" 0 sessionEvents s hrun
  have hfirst := hnew 1 ⟨"u", "p", "c"⟩ 1 (by decide +kernel)
  have hsecond := hnew 16777217 ⟨"u", "q", "c"⟩ 3 (by decide +kernel)
  refine ⟨s, hrun, ?_⟩
  rw [hauths]
  simp only [sessionEvents, List.flatMap_cons, hfirst, hsecond]
  decide

theorem heartbeats_answered_twice :
    ∃ s, Machine.run (step decodeAuthRequest ⟨30, 10, 3⟩) (new "10.0.0.7:4001" 0) sessionEvents = some s ∧
      s.pings.length = 2 ∧ s.replies.map (Packet.pong Heartbeat.message.codec) = [some (2, -7)] ∧
      (s.replies ++ replying s.loop).Sublist (s.pings.map Packet.newHeartbeatResponse) ∧
      ∀ t, Machine.run (step decodeAuthRequest ⟨30, 10, 3⟩) (new "10.0.0.7:4001" 0) (sessionEvents.take 6) = some t →
        t.replies ++ replying t.loop = t.pings.map Packet.newHeartbeatResponse := by
  have hout : (Machine.run (step decodeAuthRequest ⟨30, 10, 3⟩) (new "10.0.0.7:4001" 0) sessionEvents).map
      (fun s => (s.pings.length, s.replies.map (Packet.pong Heartbeat.message.codec))) = some (2, [some (2, -7)]) := by
    decide +kernel
  obtain ⟨s, hrun, hs⟩ := Option.map_eq_some_iff.mp hout
  obtain ⟨hpings, hreplies⟩ := Prod.mk.inj hs
  obtain ⟨_, _, hsub, _⟩ := heartbeats_answered decodeAuthRequest Heartbeat.message.codec heartbeat_roundTrips
    ⟨30, 10, 3⟩ "10.0.0.7:4001" 0 sessionEvents s hrun
  refine ⟨s, hrun, hpings, hreplies, hsub, fun t ht => ?_⟩
  obtain ⟨_, _, _, hall, _⟩ := heartbeats_answered decodeAuthRequest Heartbeat.message.codec heartbeat_roundTrips
    ⟨30, 10, 3⟩ "10.0.0.7:4001" 0 (sessionEvents.take 6) t ht
  exact hall.mpr (by decide +kernel) (sessionEvents.take 6) t (List.prefix_refl _) ht

end ConnSession

end QuoteLink

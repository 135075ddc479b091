import QuoteLink.AuthOrder

namespace QuoteLink

/-- A packet that a call of the client's user has put on `request_tx`. -/
def Outgoing.isUser : Outgoing → Bool
  | .request (.call _) => true
  | .request _ => false
  | .push _ => true
  | .response _ => true

/-- A packet that the server sends on its own. -/
def Incoming.unsolicited : Incoming → Bool
  | .response _ => false
  | .request _ => true
  | .push _ => true

/-- The current connection as `link_write_loop` sees it: what it has written there, and
whether the receiver of the connection's requests is still there. -/
structure OpenLink where
  written : List Outgoing
  up : Bool
  deriving DecidableEq, Repr

/-- An earlier connection: its `link_write_loop` is a task of its own, which goes on with
what the link task has left to it. -/
structure EndedLink where
  written : List Outgoing
  left : List Outgoing
  deriving DecidableEq, Repr

def EndedLink.carried (l : EndedLink) : List Outgoing := l.written ++ l.left

/-- The client with all packets its user has queued, its connections as their
`link_write_loop` sees them, and the packets the servers have sent on their own. -/
structure ClientTraffic where
  client : Client
  queued : List Outgoing
  earlier : List EndedLink
  link : Option OpenLink
  sent : List Incoming

/-- A step of the client; or the receiver of the current connection's requests goes; or
the `link_write_loop` of an earlier one writes a packet, or goes. -/
inductive TrafficEvent
  | client (e : ClientEvent)
  | leave
  | lateWrite (c : Nat)
  | lateLeave (c : Nat)
  deriving DecidableEq, Repr

/-- A step of the client that takes a new connection or writes on the current one. -/
def ClientEvent.relinks : ClientEvent → Bool
  | .connect | .deliver _ => true
  | _ => false

namespace ClientTraffic

def new : ClientTraffic := ⟨.new, [], [], none, []⟩

def enqueues (s : ClientTraffic) : TrafficEvent → List Outgoing
  | .client (.enqueue k) => (s.client.drawn[k]?).toList.map fun r => .request (.call r)
  | .client (.sendPush p) => [.push p]
  | .client (.sendResponse r) => [.response r]
  | _ => []

def brings (_ : ClientTraffic) : TrafficEvent → List Incoming
  | .client (.serverRequest r) => [.request r]
  | .client (.serverPush p) => [.push p]
  | _ => []

def up (s : ClientTraffic) : Bool := s.link.any fun l => l.up

/-- What is put on the connection needs its receiver; `link_write_loop` is spawned after
the Auth packet was sent to it. -/
def accepts (s : ClientTraffic) : ClientEvent → Bool
  | .handshake | .heartbeatSent | .forwarded true => s.up
  | .sendSubscribe => s.up || s.client.pc = .subscribing [] []
  | .deliver _ => s.up && s.client.conn.auth = none
  | _ => true

/-- What the current `link_write_loop` has yet to write. -/
def pending (s : ClientTraffic) : List Outgoing := if s.up then s.client.conn.inner else []

/-- What is left to it when the link task goes on: before the handshake is done, the
receiver is with the transport, which is aborted. -/
def leftover (s : ClientTraffic) : List Outgoing := if s.client.conn.auth = none then s.pending else []

/-- The connections when the current one has become an earlier one. -/
def retired (s : ClientTraffic) : List EndedLink :=
  s.earlier ++ (s.link.map fun l => EndedLink.mk l.written s.leftover).toList

/-- The connections after a step that leads to `client`. -/
def relink (s : ClientTraffic) (e : ClientEvent) (client : Client) : List EndedLink × Option OpenLink :=
  match client.pc.connected, e with
  | false, _ => (s.retired, none)
  | true, .connect => (s.retired, some ⟨[], true⟩)
  | true, .deliver _ =>
    (s.earlier, s.link.map fun l => { l with written := l.written ++ s.client.conn.inner.take 1 })
  | true, _ => (s.earlier, s.link)

def advance (s : ClientTraffic) (e : ClientEvent) (client : Client) : ClientTraffic :=
  ⟨client, s.queued ++ s.enqueues (.client e), (s.relink e client).1, (s.relink e client).2,
    s.sent ++ s.brings (.client e)⟩

def step (prost : Prost) (conf : LinkClientConfig) (s : ClientTraffic) : TrafficEvent → Option ClientTraffic
  | .client e => if s.accepts e then (s.client.step prost conf e).map (s.advance e) else none
  | .leave =>
    match s.link with
    | some ⟨written, true⟩ => some { s with link := some ⟨written, false⟩ }
    | _ => none
  | .lateWrite c =>
    match s.earlier[c]? with
    | some ⟨written, x :: rest⟩ => some { s with earlier := s.earlier.set c ⟨written ++ [x], rest⟩ }
    | _ => none
  | .lateLeave c =>
    match s.earlier[c]? with
    | some l => some { s with earlier := s.earlier.set c ⟨l.written, []⟩ }
    | none => none

/-- What was written on each connection. -/
def writtenOn (s : ClientTraffic) : List (List Outgoing) :=
  s.earlier.map EndedLink.written ++ s.link.toList.map OpenLink.written

/-- What was written, connection after connection. -/
def written (s : ClientTraffic) : List Outgoing := s.writtenOn.flatten

/-- What was written, and what an earlier `link_write_loop` has yet to write, connection
after connection. -/
def onLinks (s : ClientTraffic) : List Outgoing :=
  s.earlier.flatMap EndedLink.carried ++ s.link.toList.flatMap OpenLink.written

/-- The user's packets that were written, or are on their way to be, connection after
connection. -/
def outbound (s : ClientTraffic) : List Outgoing :=
  (s.onLinks ++ s.pending ++ s.client.pc.forwards.toList ++
    s.client.requestRx.map Queued.packet).filter Outgoing.isUser

/-- The server's packets that were handed to the consumer, or are on their way to it. -/
def inbound (s : ClientTraffic) : List Incoming :=
  (s.client.consumed.map (·.1) ++ s.client.packetProcessRx ++ s.client.conn.replies).filter Incoming.unsolicited

/-- The user's packets that go down with the transport when the link task leaves it. -/
def cut (s : ClientTraffic) : List Outgoing :=
  if s.client.conn.auth = none then [] else s.pending.filter Outgoing.isUser

/-- The server's packets on the connection that the link task has not taken yet. -/
def untaken (replies : List Incoming) : List Incoming := replies.filter Incoming.unsolicited

/-- What the link task takes next is the refusal of its Auth request. -/
def rejected (s : ClientTraffic) : Bool :=
  match s.client.conn.replies with
  | .response a :: _ => a.response.command == .auth && a.response.status != .success
  | _ => false

/-- No packet of the user goes down with a transport whose handshake is not done, with
the receiver of a connection's requests, or with the link task. -/
def KeepsOutbound (s : ClientTraffic) : TrafficEvent → Prop
  | .client (.forwarded ok) => ok = true
  | .client (.receive _) => s.rejected = true → s.cut = []
  | .client .fail => s.cut = []
  | .client .stop => s.cut = [] ∧ s.client.requestRx = []
  | .leave => s.pending.filter Outgoing.isUser = []
  | .lateLeave c => ∀ l ∈ s.earlier[c]?, l.left.filter Outgoing.isUser = []
  | _ => True

/-- No packet of the server goes down with a connection or finds the channel of the
consumer task full. -/
def KeepsInbound (s : ClientTraffic) : TrafficEvent → Prop
  | .client (.receive full) =>
    (full = true → untaken (s.client.conn.replies.take 1) = []) ∧
      (s.rejected = true → untaken s.client.conn.replies = [])
  | .client .fail => untaken s.client.conn.replies = []
  | .client .connect => untaken s.client.conn.replies = []
  | .client .stop => untaken s.client.conn.replies = []
  | _ => True

instance (s : ClientTraffic) (e : TrafficEvent) : Decidable (s.KeepsOutbound e) := by
  unfold KeepsOutbound
  split <;> infer_instance

instance (s : ClientTraffic) (e : TrafficEvent) : Decidable (s.KeepsInbound e) := by
  unfold KeepsInbound
  split <;> infer_instance

variable {prost : Prost} {conf : LinkClientConfig} {s s' : ClientTraffic} {e : ClientEvent}

/-- All that a step of the traffic can be. -/
inductive StepCase (prost : Prost) (conf : LinkClientConfig) (s : ClientTraffic) : TrafficEvent → ClientTraffic → Prop
  | client (e : ClientEvent) (client : Client) (haccepts : s.accepts e = true)
    (hc : s.client.step prost conf e = some client) : StepCase prost conf s (.client e) (s.advance e client)
  | leave (written : List Outgoing) (hlink : s.link = some ⟨written, true⟩) :
    StepCase prost conf s .leave { s with link := some ⟨written, false⟩ }
  | lateWrite (c : Nat) (written : List Outgoing) (x : Outgoing) (rest : List Outgoing)
    (hl : s.earlier[c]? = some ⟨written, x :: rest⟩) :
    StepCase prost conf s (.lateWrite c) { s with earlier := s.earlier.set c ⟨written ++ [x], rest⟩ }
  | lateLeave (c : Nat) (l : EndedLink) (hl : s.earlier[c]? = some l) :
    StepCase prost conf s (.lateLeave c) { s with earlier := s.earlier.set c ⟨l.written, []⟩ }

theorem step_cases {e : TrafficEvent} (h : s.step prost conf e = some s') : StepCase prost conf s e s' := by
  cases e with
  | client e =>
    simp only [step, Option.ite_none_right_eq_some] at h
    obtain ⟨haccepts, hmap⟩ := h
    obtain ⟨client, hc, rfl⟩ := Option.map_eq_some_iff.mp hmap
    exact .client e client haccepts hc
  | leave =>
    simp only [step] at h
    split at h
    next written hlink =>
      cases h
      exact .leave written hlink
    next => cases h
  | lateWrite c =>
    simp only [step] at h
    split at h
    next written x rest hl =>
      cases h
      exact .lateWrite c written x rest hl
    next => cases h
  | lateLeave c =>
    simp only [step] at h
    split at h
    next l hl =>
      cases h
      exact .lateLeave c l hl
    next => cases h

theorem isUser_packet (q : Queued) : q.packet.isUser = true := by
  cases q <;> rfl

theorem filter_packets (qs : List Queued) :
    (qs.map Queued.packet).filter Outgoing.isUser = qs.map Queued.packet := by
  refine List.filter_eq_self.mpr fun x hx => ?_
  obtain ⟨q, _, rfl⟩ := List.mem_map.mp hx
  exact isUser_packet q

theorem forwards_eq_none {pc : LinkPc} (h : Client.canFail pc = true ∨ Client.canStop pc = true) :
    pc.forwards = none := by
  cases pc with
  | forwarding q => rcases h with h | h <;> cases h
  | _ => rfl

/-- What the link task does with a packet of the server. -/
inductive ReceiveCase (c : Client) (full : Bool) : Incoming → Client → Prop
  | refused (a : Answer) (ha : a.response.command = .auth) (hstatus : a.response.status ≠ .success) :
    ReceiveCase c full (.response a) { c with pc := .failed, conn := .closed }
  | accepted (a : Answer) (ha : a.response.command = .auth) (hstatus : a.response.status = .success) :
    ReceiveCase c full (.response a) { c with pc := .authAnswer a }
  | pong (a : Answer) (ha : a.response.command ≠ .auth) : ReceiveCase c full (.response a) c
  | dropped (x : Incoming) (hfull : full = true) (hx : ∀ a, x = .response a → a.response.command ≠ .auth) :
    ReceiveCase c full x c
  | kept (x : Incoming) (hfull : full = false) (hx : ∀ a, x = .response a → a.response.command ≠ .auth) :
    ReceiveCase c full x { c with packetProcessRx := c.packetProcessRx ++ [x] }

theorem receive_cases (c : Client) (x : Incoming) (full : Bool) : ReceiveCase c full x (c.receiveOne x full) := by
  have hkeep : (∀ a, x = .response a → a.response.command ≠ .auth) →
      ReceiveCase c full x (if full then c else { c with packetProcessRx := c.packetProcessRx ++ [x] }) := by
    intro hx
    by_cases hfull : full = true
    · rw [if_pos hfull]
      exact .dropped x hfull hx
    · rw [if_neg hfull]
      exact .kept x (Bool.eq_false_of_not_eq_true hfull) hx
  cases x with
  | request r => exact hkeep (fun a ha => by cases ha)
  | push p => exact hkeep (fun a ha => by cases ha)
  | response a =>
    simp only [Client.receiveOne]
    by_cases hbeat : a.response.command = .heartbeat
    · rw [if_pos hbeat]
      exact .pong a (by rw [hbeat]; decide)
    · rw [if_neg hbeat]
      by_cases hauth : a.response.command = .auth
      · rw [if_pos hauth]
        by_cases hstatus : a.response.status = .success
        · rw [if_pos hstatus]
          exact .accepted a hauth hstatus
        · rw [if_neg hstatus]
          exact .refused a hauth hstatus
      · rw [if_neg hauth]
        refine hkeep ?_
        rintro b hb
        cases hb
        exact hauth

theorem rejected_iff {x : Incoming} {rest : List Incoming} (hx : s.client.conn.replies = x :: rest) :
    s.rejected = true ↔ ∃ a, x = .response a ∧ a.response.command = .auth ∧ a.response.status ≠ .success := by
  rw [rejected, hx]
  cases x with
  | response a => simp
  | request r => simp
  | push p => simp

theorem not_rejected {x : Incoming} {rest : List Incoming} (hx : s.client.conn.replies = x :: rest)
    (hanswer : ∀ a, x = .response a → a.response.command = .auth → a.response.status = .success) :
    ¬s.rejected = true := by
  intro htrue
  obtain ⟨a, ha, hauth, hstatus⟩ := (rejected_iff hx).mp htrue
  exact hstatus (hanswer a ha hauth)

theorem not_rejected_of_ne {x : Incoming} {rest : List Incoming} (hx : s.client.conn.replies = x :: rest)
    (hne : ∀ a, x = .response a → a.response.command ≠ .auth) : ¬s.rejected = true :=
  not_rejected hx fun a ha hauth => absurd hauth (hne a ha)

theorem not_rejected_of_response {a : Answer} {rest : List Incoming} (hx : s.client.conn.replies = .response a :: rest)
    (hanswer : a.response.command = .auth → a.response.status = .success) : ¬s.rejected = true :=
  not_rejected hx fun b hb => by
    cases hb
    exact hanswer

/-- What the transport and the subscriptions put on a connection is none of the user's
packets, and without a connection nothing is on its way to be written. -/
structure Settled (c : Client) : Prop where
  auth : ∀ r, c.conn.auth = some r → Outgoing.isUser (.request r) = false
  packets : ∀ todo packets, c.pc = .subscribing todo packets →
    ∀ r ∈ packets, Outgoing.isUser (.request r) = false
  down : c.pc.connected = false → c.conn.auth = none ∧ c.conn.inner = []

theorem Settled.connected_of_inner {c : Client} (h : Settled c) {x : Outgoing} {rest : List Outgoing}
    (hx : c.conn.inner = x :: rest) : c.pc.connected = true := by
  cases hup : c.pc.connected with
  | true => rfl
  | false =>
    rw [(h.down hup).2] at hx
    cases hx

theorem new_settled : Settled .new where
  auth := fun r hr => by cases hr
  packets := fun todo packets hpc => by cases hpc
  down := fun _ => ⟨rfl, rfl⟩

theorem Settled.same {c c' : Client} (h : Settled c) (hauth : c'.conn.auth = c.conn.auth)
    (hinner : c'.conn.inner = c.conn.inner) (hpc : c'.pc = c.pc) : Settled c' := by
  refine ⟨?_, ?_, ?_⟩
  · rw [hauth]
    exact h.auth
  · rw [hpc]
    exact h.packets
  · rw [hpc, hauth, hinner]
    exact h.down

theorem Settled.connected {c c' : Client} (h : Settled c) (hauth : c'.conn.auth = c.conn.auth)
    (hpc : c'.pc.connected = true) (hpackets : ∀ todo packets, c'.pc = .subscribing todo packets →
      ∀ r ∈ packets, Outgoing.isUser (.request r) = false) : Settled c' := by
  refine ⟨?_, hpackets, ?_⟩
  · rw [hauth]
    exact h.auth
  · intro hdown
    rw [hpc] at hdown
    cases hdown

theorem settled_of_closed {c : Client} (hconn : c.conn = .closed)
    (hpc : ∀ todo packets, c.pc ≠ .subscribing todo packets) :
    Settled c where
  auth := by
    rw [hconn]
    exact fun r hr => by cases hr
  packets := fun todo packets h => absurd h (hpc todo packets)
  down := by
    rw [hconn]
    exact fun _ => ⟨rfl, rfl⟩

theorem step_settled {c c' : Client} (h : Settled c) (hs : c.step prost conf e = some c') : Settled c' := by
  cases Client.step_cases hs with
  | connect hpc =>
    refine ⟨?_, (fun todo packets hpc => by cases hpc), (fun hdown => by cases hdown)⟩
    intro r hr
    cases hr
    rfl
  | handshake r hr =>
    refine ⟨(fun q hq => by cases hq), h.packets, fun hdown => ?_⟩
    have hnone := (h.down hdown).1
    rw [hr] at hnone
    cases hnone
  | heartbeatSent | tick | take | forwarded | forwardFailed | subscribed =>
    exact h.connected rfl rfl (fun todo packets hpc => by cases hpc)
  | register q timedOut hpc =>
    obtain ⟨requests, heq⟩ := Client.registerOne_frame c q timedOut
    rw [heq]
    exact h.connected rfl rfl (fun todo packets hpc => by cases hpc)
  | deliver x rest lost hx =>
    obtain ⟨hauth, hinner, hpc⟩ := ConnWrites.deliverOne_conn c x rest lost
    refine ⟨?_, ?_, ?_⟩
    · rw [hauth]
      exact h.auth
    · rw [hpc]
      exact h.packets
    · intro hdown
      rw [hpc] at hdown
      have hnil := (h.down hdown).2
      rw [hx] at hnil
      cases hnil
  | receive x rest full hpc hx =>
    have hcase := receive_cases { c with conn := { c.conn with replies := rest } } x full
    generalize Client.receiveOne { c with conn := { c.conn with replies := rest } } x full = c' at hcase
    cases hcase with
    | refused a _ _ => exact settled_of_closed rfl (fun todo packets hpc => by cases hpc)
    | accepted a _ _ => exact h.connected rfl rfl (fun todo packets hpc => by cases hpc)
    | pong a _ => exact h.same rfl rfl rfl
    | dropped _ _ _ => exact h.same rfl rfl rfl
    | kept _ _ _ => exact h.same rfl rfl rfl
  | authForwarded a hpc =>
    refine h.connected rfl rfl ?_
    intro todo packets hpc r hr
    cases hpc
    cases hr
  | drawSubscribe sub todo packets hpc =>
    refine h.connected rfl rfl ?_
    intro todo' packets' hpc' r hr
    cases hpc'
    rcases List.mem_append.mp hr with hr | hr
    · exact h.packets _ _ hpc r hr
    · rw [List.mem_singleton.mp hr]
      rfl
  | sendSubscribe r packets hpc =>
    refine h.connected rfl rfl ?_
    intro todo' packets' hpc' q hq
    cases hpc'
    exact h.packets [] (r :: packets) hpc q (List.mem_cons_of_mem r hq)
  | fail | stop => exact settled_of_closed rfl (fun todo packets hpc => by cases hpc)
  | reset hpc =>
    obtain ⟨hauth, hinner⟩ := h.down (by rw [hpc]; rfl)
    exact ⟨h.auth, (fun todo packets hpc => by cases hpc), fun _ => ⟨hauth, hinner⟩⟩
  | consume x rest hx =>
    obtain ⟨requests, consumed, heq⟩ := Client.consumeOne_frame { c with packetProcessRx := rest } x
    rw [heq]
    exact h.same rfl rfl rfl
  | _ => exact h.same rfl rfl rfl

@[simp]
theorem advance_client (s : ClientTraffic) (e : ClientEvent) (client : Client) : (s.advance e client).client = client :=
  rfl

theorem advance_closed {client : Client} (hdown : client.pc.connected = false) :
    (s.advance e client).earlier = s.retired ∧ (s.advance e client).link = none := by
  simp [advance, relink, hdown]

theorem advance_open {client : Client} (hup : client.pc.connected = true) (he : e.relinks = false) :
    (s.advance e client).earlier = s.earlier ∧ (s.advance e client).link = s.link := by
  cases e with
  | connect | deliver lost => cases he
  | _ => simp [advance, relink, hup]

/-- A connection takes along what was not written, unless its `link_write_loop` is there
to go on. -/
theorem retired_carried (s : ClientTraffic) :
    s.retired.flatMap EndedLink.carried = s.onLinks ++ s.leftover := by
  cases hlink : s.link with
  | none => simp [retired, onLinks, leftover, pending, up, hlink]
  | some l => simp [retired, onLinks, hlink, EndedLink.carried]

theorem outbound_same {t : ClientTraffic} (hlinks : (t.onLinks ++ t.pending).filter Outgoing.isUser =
      (s.onLinks ++ s.pending).filter Outgoing.isUser)
    (hforwards : t.client.pc.forwards = s.client.pc.forwards) (hrx : t.client.requestRx = s.client.requestRx) :
    t.outbound = s.outbound := by
  rw [outbound, outbound, List.filter_append, List.filter_append, hlinks, hforwards, hrx,
    ← List.filter_append, ← List.filter_append]

theorem leftover_of_down (h : Settled s.client) (hdown : s.client.pc.connected = false) :
    s.leftover = [] ∧ s.pending = [] := by
  obtain ⟨hauth, hinner⟩ := h.down hdown
  simp [leftover, pending, hinner]

/-- What is put on a connection joins what is under way, if its receiver is there. -/
theorem advance_links {client : Client} {xs : List Outgoing} (h : Settled s.client) (he : e.relinks = false)
    (hpc : s.client.pc.connected = true → client.pc.connected = true)
    (hinner : client.conn.inner = s.client.conn.inner ++ xs) :
    (s.advance e client).onLinks ++ (s.advance e client).pending =
      s.onLinks ++ s.pending ++ if client.pc.connected && s.up then xs else [] := by
  cases hup : client.pc.connected with
  | true =>
    obtain ⟨hearlier, hlink⟩ := advance_open (s := s) hup he
    have hsame : (s.advance e client).up = s.up := by rw [up, hlink, up]
    have hlinks : (s.advance e client).onLinks = s.onLinks := by rw [onLinks, onLinks, hearlier, hlink]
    have hclient : (s.advance e client).client = client := rfl
    rw [pending, hsame, hlinks, hclient, hinner, pending]
    cases s.up <;> simp
  | false =>
    obtain ⟨hearlier, hlink⟩ := advance_closed (s := s) (e := e) hup
    have hdown : s.client.pc.connected = false := by
      cases hs : s.client.pc.connected with
      | true => exact absurd (hpc hs) (by simp [hup])
      | false => rfl
    obtain ⟨hleft, hpending⟩ := leftover_of_down h hdown
    have hlinks : (s.advance e client).onLinks = s.onLinks := by
      rw [onLinks, hearlier, hlink, retired_carried, hleft]
      simp
    have hnone : (s.advance e client).pending = [] := by simp [pending, up, hlink]
    simp [hlinks, hnone, hpending]

theorem advance_links_same (client : Client) (h : Settled s.client) (he : e.relinks = false)
    (hpc : s.client.pc.connected = true → client.pc.connected = true)
    (hinner : client.conn.inner = s.client.conn.inner) :
    (s.advance e client).onLinks ++ (s.advance e client).pending = s.onLinks ++ s.pending := by
  have hlinks := advance_links h he hpc (hinner.trans (List.append_nil _).symm)
  rw [ite_self, List.append_nil] at hlinks
  exact hlinks

/-- A step that puts nothing of the user's on the connection. -/
theorem advance_same {client : Client} {xs : List Outgoing} (h : Settled s.client) (he : e.relinks = false)
    (hadded : s.enqueues (.client e) = []) (hpc : s.client.pc.connected = true → client.pc.connected = true)
    (hinner : client.conn.inner = s.client.conn.inner ++ xs) (hxs : xs.filter Outgoing.isUser = [])
    (hforwards : client.pc.forwards = s.client.pc.forwards) (hrx : client.requestRx = s.client.requestRx) :
    (s.advance e client).outbound = s.outbound ++ s.enqueues (.client e) := by
  rw [hadded, List.append_nil]
  refine outbound_same ?_ hforwards hrx
  rw [advance_links h he hpc hinner, List.filter_append]
  split
  · rw [hxs, List.append_nil]
  · exact List.append_nil _

/-- The link task leaves the connection. -/
theorem advance_left {client : Client} (hdown : client.pc.connected = false) :
    (s.onLinks ++ s.pending).filter Outgoing.isUser =
      ((s.advance e client).onLinks ++ (s.advance e client).pending).filter Outgoing.isUser ++ s.cut := by
  obtain ⟨hearlier, hlink⟩ := advance_closed (s := s) (e := e) hdown
  have hlinks : (s.advance e client).onLinks = s.onLinks ++ s.leftover := by
    rw [onLinks, hearlier, hlink, retired_carried]
    simp
  have hnone : (s.advance e client).pending = [] := by simp [pending, up, hlink]
  rw [hlinks, hnone, leftover, cut]
  split <;> simp

theorem outbound_left {client : Client} (hadded : s.enqueues (.client e) = []) (hdown : client.pc.connected = false)
    (hforwards : s.client.pc.forwards = none) (hforwards' : client.pc.forwards = none)
    (hrx : client.requestRx = s.client.requestRx) {keeps : Prop} (hkeeps : keeps ↔ s.cut = []) :
    Machine.FlowCase s.outbound (s.enqueues (.client e)) (s.advance e client).outbound keeps := by
  have hclient : (s.advance e client).client = client := rfl
  refine .loses (((s.advance e client).onLinks ++ (s.advance e client).pending).filter Outgoing.isUser) s.cut
    ((s.client.requestRx.map Queued.packet).filter Outgoing.isUser) ?_ ?_ hadded hkeeps
  · rw [outbound, hforwards, Option.toList_none, List.append_nil, List.filter_append,
      advance_left (e := e) hdown]
  · rw [outbound, hclient, hforwards', hrx, Option.toList_none, List.append_nil, List.filter_append]

/-- What a change of one of the earlier connections does to what is under way. -/
theorem outbound_set {c : Nat} {l : EndedLink} (l' : EndedLink) (hl : s.earlier[c]? = some l) :
    ∃ front back, s.outbound = front ++ l.carried.filter Outgoing.isUser ++ back ∧
      ({ s with earlier := s.earlier.set c l' } : ClientTraffic).outbound =
        front ++ l'.carried.filter Outgoing.isUser ++ back := by
  obtain ⟨hlt, hget⟩ := List.getElem?_eq_some_iff.mp hl
  obtain ⟨pre, post, hpre, _, hset⟩ := @List.exists_of_set _ c l' s.earlier hlt
  rw [hget] at hpre
  refine ⟨(pre.flatMap EndedLink.carried).filter Outgoing.isUser,
    (post.flatMap EndedLink.carried ++ s.link.toList.flatMap OpenLink.written ++ s.pending ++
      s.client.pc.forwards.toList ++ s.client.requestRx.map Queued.packet).filter Outgoing.isUser, ?_, ?_⟩
  · rw [outbound, onLinks, hpre]
    simp
  · rw [outbound, onLinks, hset]
    simp only [List.flatMap_append, List.flatMap_cons, List.filter_append, List.append_assoc]
    rfl

/-- The user queues a packet. -/
theorem advance_queue {client : Client} (h : Settled s.client) (he : e.relinks = false)
    (hpc : client.pc = s.client.pc) (hconn : client.conn = s.client.conn) {q : Queued}
    (hrx : client.requestRx = s.client.requestRx ++ [q]) (hadded : s.enqueues (.client e) = [q.packet]) :
    (s.advance e client).outbound = s.outbound ++ s.enqueues (.client e) := by
  have hlinks := advance_links_same client h he (fun hup => hpc ▸ hup) (congrArg Connection.inner hconn)
  have hclient : (s.advance e client).client = client := rfl
  rw [outbound, outbound, hlinks, hclient, hpc, hrx, hadded]
  simp [isUser_packet]

/-- Without a connection there is nothing that a new one could take the place of. -/
theorem advance_connect {client : Client} (h : Settled s.client) (hdown : s.client.pc.connected = false)
    (hpc : client.pc = .idle) (hinner : client.conn.inner = []) (hrx : client.requestRx = s.client.requestRx) :
    (s.advance .connect client).outbound = s.outbound := by
  obtain ⟨hleft, hpending⟩ := leftover_of_down h hdown
  have hforwards : s.client.pc.forwards = none := by
    cases hpc : s.client.pc with
    | failed | down | stopped => rfl
    | _ =>
      rw [hpc] at hdown
      cases hdown
  refine outbound_same ?_ ?_ hrx
  · have hlinks : (s.advance .connect client).onLinks = s.onLinks := by
      have hretired := retired_carried s
      rw [hleft, List.append_nil] at hretired
      rw [onLinks, ← hretired]
      simp [advance, relink, hpc, LinkPc.connected]
    have hnone : (s.advance .connect client).pending = [] := by
      simp [pending, advance, hinner]
    rw [hlinks, hnone, hpending]
  · rw [hforwards]
    exact congrArg LinkPc.forwards hpc

theorem link_of_accepts {lost : Bool} (haccepts : s.accepts (.deliver lost) = true) :
    ∃ l, s.link = some l ∧ l.up = true := by
  simp only [accepts, Bool.and_eq_true] at haccepts
  exact (Option.any_eq_true _ _).mp haccepts.1

/-- `link_write_loop` writes the first packet that it was sent. -/
theorem advance_deliver {client : Client} {lost : Bool} {x : Outgoing} {rest : List Outgoing}
    (h : Settled s.client) (haccepts : s.accepts (.deliver lost) = true) (hx : s.client.conn.inner = x :: rest)
    (hpc : client.pc = s.client.pc) (hinner : client.conn.inner = rest) (hrx : client.requestRx = s.client.requestRx) :
    (s.advance (.deliver lost) client).outbound = s.outbound := by
  have hconnected := h.connected_of_inner hx
  obtain ⟨l, hl, hlup⟩ := link_of_accepts haccepts
  refine outbound_same ?_ ?_ hrx
  · simp [onLinks, pending, up, advance, relink, hpc, hconnected, hl, hlup, hx, hinner]
  · exact congrArg LinkPc.forwards hpc

theorem client_outbound {client : Client} (h : Settled s.client) (haccepts : s.accepts e = true)
    (hc : s.client.step prost conf e = some client) :
    Machine.FlowCase s.outbound (s.enqueues (.client e)) (s.advance e client).outbound
      (s.KeepsOutbound (.client e)) := by
  have hnil : s.client.conn.inner = s.client.conn.inner ++ [] := (List.append_nil _).symm
  cases Client.step_cases hc with
  | enqueue k r hk hpc =>
    refine .keeps (advance_queue h rfl rfl rfl rfl ?_) trivial
    rw [enqueues, hk]
    rfl
  | sendPush p hpc => exact .keeps (advance_queue h rfl rfl rfl (q := .push p) rfl rfl) trivial
  | sendResponse r hpc => exact .keeps (advance_queue h rfl rfl rfl (q := .response r) rfl rfl) trivial
  | connect hpc =>
    refine .keeps (Eq.trans (advance_connect h ?_ ?_ ?_ ?_) (List.append_nil _).symm) trivial
    · rw [hpc]
      rfl
    all_goals rfl
  | handshake r hr =>
    refine .keeps (advance_same h rfl rfl id rfl ?_ rfl rfl) trivial
    rw [List.filter_singleton, h.auth r hr]
    rfl
  | heartbeatSent r hbeat hpc =>
    exact .keeps (advance_same h rfl rfl (fun _ => rfl) rfl rfl (by rw [hpc]; rfl) rfl) trivial
  | sendSubscribe r packets hpc =>
    refine .keeps (advance_same h rfl rfl (fun _ => rfl) rfl ?_ (by rw [hpc]; rfl) rfl) trivial
    rw [List.filter_singleton, h.packets [] (r :: packets) hpc r List.mem_cons_self]
    rfl
  | take q rest hpc hrx =>
    refine .keeps ?_ trivial
    have hlinks := advance_links_same (e := .take) { s.client with pc := .forwarding q, requestRx := rest } h rfl
      (fun _ => rfl) rfl
    rw [outbound, outbound, hlinks]
    simp [advance, enqueues, LinkPc.forwards, hpc, hrx]
  | forwarded q hpc =>
    refine .keeps ?_ rfl
    have hup : s.up = true := haccepts
    rw [outbound, outbound, advance_links h rfl (fun _ => rfl) rfl, hup]
    simp [advance, enqueues, LinkPc.connected, LinkPc.forwards, hpc]
  | forwardFailed q hpc =>
    have hlinks := advance_links_same (e := .forwarded false) { s.client with pc := .idle } h rfl (fun _ => rfl) rfl
    refine .loses ((s.onLinks ++ s.pending).filter Outgoing.isUser) [q.packet]
      ((s.client.requestRx.map Queued.packet).filter Outgoing.isUser) ?_ ?_ rfl ?_
    · simp [outbound, LinkPc.forwards, hpc, isUser_packet]
    · rw [outbound, hlinks]
      simp [advance, LinkPc.forwards]
    · simp [KeepsOutbound]
  | register q timedOut hpc =>
    obtain ⟨requests, heq⟩ := Client.registerOne_frame s.client q timedOut
    rw [heq]
    exact .keeps (advance_same h rfl rfl (fun _ => rfl) hnil rfl (by rw [hpc]; rfl) rfl) trivial
  | deliver x rest lost hx =>
    obtain ⟨_, hinner, hpc⟩ := ConnWrites.deliverOne_conn s.client x rest lost
    have hrx : (s.client.deliverOne x rest lost).requestRx = s.client.requestRx := by
      cases x <;> rfl
    exact .keeps ((advance_deliver h haccepts hx hpc hinner hrx).trans (List.append_nil _).symm) trivial
  | receive x rest full hpc hx =>
    have hforwards : s.client.pc.forwards = none := by rw [hpc]; rfl
    have hcase := receive_cases { s.client with conn := { s.client.conn with replies := rest } } x full
    generalize Client.receiveOne { s.client with conn := { s.client.conn with replies := rest } } x full = c at hcase
    cases hcase with
    | refused a ha hstatus =>
      have hrejected := (rejected_iff hx).mpr ⟨a, rfl, ha, hstatus⟩
      refine outbound_left ?_ ?_ hforwards ?_ ?_ ?_
      iterate 4 rfl
      exact ⟨fun hkeeps => hkeeps hrejected, fun hcut _ => hcut⟩
    | accepted a ha hstatus =>
      have hnot := not_rejected_of_response hx fun _ => hstatus
      exact .keeps (advance_same h rfl rfl (fun _ => rfl) hnil rfl (by rw [hpc]; rfl) rfl) fun htrue => absurd htrue hnot
    | pong a ha =>
      have hnot := not_rejected_of_response hx fun hauth => absurd hauth ha
      exact .keeps (advance_same h rfl rfl id hnil rfl rfl rfl) fun htrue => absurd htrue hnot
    | dropped _ hfull hne | kept _ hfull hne =>
      have hnot := not_rejected_of_ne hx hne
      exact .keeps (advance_same h rfl rfl id hnil rfl rfl rfl) fun htrue => absurd htrue hnot
  | authForwarded a hpc | drawSubscribe sub todo packets hpc | subscribed hpc | tick body hpc =>
    exact .keeps (advance_same h rfl rfl (fun _ => rfl) hnil rfl (by rw [hpc]; rfl) rfl) trivial
  | reset hpc =>
    refine .keeps (advance_same h rfl rfl (fun hup => ?_) hnil rfl (by rw [hpc]; rfl) rfl) trivial
    rw [hpc] at hup
    cases hup
  | fail hcan => refine outbound_left ?_ ?_ (forwards_eq_none (Or.inl hcan)) ?_ ?_ Iff.rfl <;> rfl
  | stop hcan =>
    refine .loses ((s.advance .stop { s.client with pc := .stopped, conn := .closed, requestRx := [] }).outbound)
      (s.cut ++ s.client.requestRx.map Queued.packet) [] ?_ ?_ rfl ?_
    · have hleft := advance_left (s := s) (e := .stop)
        (show { s.client with pc := .stopped, conn := .closed, requestRx := [] }.pc.connected = false from rfl)
      rw [outbound, forwards_eq_none (Or.inr hcan), List.filter_append, filter_packets, Option.toList_none,
        List.append_nil, hleft]
      simp [outbound, advance, LinkPc.forwards]
    · exact (List.append_nil _).symm
    · simp [KeepsOutbound]
  | consume x rest hx =>
    obtain ⟨requests, consumed, heq⟩ := Client.consumeOne_frame { s.client with packetProcessRx := rest } x
    rw [heq]
    exact .keeps (advance_same h rfl rfl id hnil rfl rfl rfl) trivial
  | _ => exact .keeps (advance_same h rfl rfl id hnil rfl rfl rfl) trivial

theorem step_outbound {e : TrafficEvent} (hsettled : Settled s.client) (hs : s.step prost conf e = some s') :
    Machine.FlowCase s.outbound (s.enqueues e) s'.outbound (s.KeepsOutbound e) := by
  cases step_cases hs with
  | client e client haccepts hc => exact client_outbound hsettled haccepts hc
  | leave written hlink =>
    refine .loses (s.onLinks.filter Outgoing.isUser) (s.pending.filter Outgoing.isUser)
      ((s.client.pc.forwards.toList ++ s.client.requestRx.map Queued.packet).filter Outgoing.isUser) ?_ ?_ rfl Iff.rfl
    · simp [outbound]
    · simp [outbound, onLinks, pending, up, hlink]
  | lateWrite c written x rest hl =>
    obtain ⟨front, back, hbefore, hafter⟩ := outbound_set ⟨written ++ [x], rest⟩ hl
    refine .keeps ?_ trivial
    rw [hbefore, hafter]
    simp [EndedLink.carried, enqueues]
  | lateLeave c l hl =>
    obtain ⟨front, back, hbefore, hafter⟩ := outbound_set ⟨l.written, []⟩ hl
    refine .loses (front ++ l.written.filter Outgoing.isUser) (l.left.filter Outgoing.isUser) back ?_ ?_ rfl ?_
    · rw [hbefore, EndedLink.carried, List.filter_append, ← List.append_assoc front]
    · rw [hafter, EndedLink.carried, List.append_nil]
    · simp [KeepsOutbound, hl]

theorem inbound_same (htaken : (s'.client.consumed.map (·.1) ++ s'.client.packetProcessRx).filter Incoming.unsolicited =
      (s.client.consumed.map (·.1) ++ s.client.packetProcessRx).filter Incoming.unsolicited)
    (hreplies : s'.client.conn.replies = s.client.conn.replies) : s'.inbound = s.inbound ++ [] := by
  rw [inbound, inbound, List.append_nil, List.filter_append, htaken, hreplies, ← List.filter_append]

/-- The connection goes down and takes along what was not taken. -/
theorem inbound_closed (hconsumed : s'.client.consumed = s.client.consumed)
    (hprocess : s'.client.packetProcessRx = s.client.packetProcessRx) (hreplies : s'.client.conn.replies = [])
    {keeps : Prop} (hkeeps : keeps ↔ untaken s.client.conn.replies = []) :
    Machine.FlowCase s.inbound [] s'.inbound keeps := by
  refine .loses ((s.client.consumed.map (·.1) ++ s.client.packetProcessRx).filter Incoming.unsolicited)
    (untaken s.client.conn.replies) [] ?_ ?_ rfl hkeeps
  · rw [inbound, List.append_nil, List.filter_append, untaken]
  · rw [inbound, hconsumed, hprocess, hreplies, List.append_nil, List.append_nil]

theorem consumeOne_consumed (c : Client) (x : Incoming) :
    (c.consumeOne x).consumed.map (·.1) = c.consumed.map (·.1) ++ [x] ∧
      (c.consumeOne x).packetProcessRx = c.packetProcessRx ∧ (c.consumeOne x).conn = c.conn := by
  unfold Client.consumeOne
  repeat' split
  all_goals exact ⟨List.map_append, rfl, rfl⟩

theorem client_inbound {client : Client} (hc : s.client.step prost conf e = some client) :
    Machine.FlowCase s.inbound (s.brings (.client e)) (s.advance e client).inbound (s.KeepsInbound (.client e)) := by
  cases Client.step_cases hc with
  | serverRequest r =>
    refine .keeps ?_ trivial
    simp [inbound, brings, Incoming.unsolicited]
  | serverPush p =>
    refine .keeps ?_ trivial
    simp [inbound, brings, Incoming.unsolicited]
  | answer k r status body hk =>
    refine .keeps ?_ trivial
    simp [inbound, brings, Incoming.unsolicited]
  | connect | fail | stop => refine inbound_closed ?_ ?_ ?_ Iff.rfl <;> rfl
  | register q timedOut hpc =>
    obtain ⟨requests, heq⟩ := Client.registerOne_frame s.client q timedOut
    rw [heq]
    exact .keeps (inbound_same rfl rfl) trivial
  | deliver x rest lost hx =>
    refine .keeps (inbound_same ?_ ?_) trivial
    · cases x <;> rfl
    · cases x <;> rfl
  | authForwarded a hpc => exact .keeps (inbound_same (by simp [Incoming.unsolicited]) rfl) trivial
  | consume x rest hx =>
    obtain ⟨hconsumed, hprocess, hconn⟩ := consumeOne_consumed { s.client with packetProcessRx := rest } x
    refine .keeps (inbound_same ?_ ?_) trivial
    · rw [advance_client, hconsumed, hprocess, hx, List.append_assoc, List.singleton_append]
    · rw [advance_client, hconn]
  | receive x rest full hpc hx =>
    have hcase := receive_cases { s.client with conn := { s.client.conn with replies := rest } } x full
    generalize Client.receiveOne { s.client with conn := { s.client.conn with replies := rest } } x full = c at hcase
    cases hcase with
    | refused a ha hstatus =>
      have hrejected := (rejected_iff hx).mpr ⟨a, rfl, ha, hstatus⟩
      refine inbound_closed ?_ ?_ ?_ ?_
      · rfl
      · rfl
      · rfl
      · refine ⟨fun h => h.2 hrejected, fun hnil => ⟨fun _ => ?_, fun _ => hnil⟩⟩
        rw [hx]
        rfl
    | accepted a ha hstatus =>
      have hnot := not_rejected_of_response hx fun _ => hstatus
      refine .keeps ?_ ⟨fun _ => by rw [hx]; rfl, fun htrue => absurd htrue hnot⟩
      simp [inbound, brings, hx, Incoming.unsolicited]
    | pong a ha =>
      have hnot := not_rejected_of_response hx fun hauth => absurd hauth ha
      refine .keeps ?_ ⟨fun _ => by rw [hx]; rfl, fun htrue => absurd htrue hnot⟩
      simp [inbound, brings, hx, Incoming.unsolicited]
    | dropped _ hfull hne =>
      have hnot := not_rejected_of_ne hx hne
      refine .loses ((s.client.consumed.map (·.1) ++ s.client.packetProcessRx).filter Incoming.unsolicited)
        (untaken [x]) (untaken rest) ?_ ?_ rfl ?_
      · rw [inbound, hx, untaken, untaken, ← List.filter_append, ← List.filter_append, List.append_cons]
      · rw [inbound, advance_client, List.filter_append, untaken]
      · rw [KeepsInbound, hx, List.take_one, List.head?_cons, Option.toList_some]
        exact ⟨fun h => h.1 hfull, fun hnil => ⟨fun _ => hnil, fun htrue => absurd htrue hnot⟩⟩
    | kept _ hfull hne =>
      have hnot := not_rejected_of_ne hx hne
      refine .keeps ?_ ⟨fun h => ?_, fun htrue => absurd htrue hnot⟩
      · simp [inbound, brings, hx]
      · rw [hfull] at h
        cases h
  | _ => exact .keeps (inbound_same rfl rfl) trivial

theorem step_inbound {e : TrafficEvent} (hs : s.step prost conf e = some s') :
    Machine.FlowCase s.inbound (s.brings e) s'.inbound (s.KeepsInbound e) := by
  cases step_cases hs with
  | client e client haccepts hc => exact client_inbound hc
  | leave | lateWrite | lateLeave => exact .keeps (inbound_same rfl rfl) trivial

theorem step_log {e : TrafficEvent} (hs : s.step prost conf e = some s') :
    s'.queued = s.queued ++ s.enqueues e ∧ s'.sent = s.sent ++ s.brings e := by
  cases step_cases hs with
  | client e client haccepts hc => exact ⟨rfl, rfl⟩
  | leave | lateWrite | lateLeave => exact ⟨(List.append_nil _).symm, (List.append_nil _).symm⟩

theorem traffic_settled {e : TrafficEvent} (h : Settled s.client) (hs : s.step prost conf e = some s') :
    Settled s'.client := by
  cases step_cases hs with
  | client e client haccepts hc => exact step_settled h hc
  | leave | lateWrite | lateLeave => exact h

/-- Connection after connection, what the user of a client queues is written at most once
and in its order. Nothing of it is lost if and only if nothing goes down with a transport
whose handshake is not done, with a receiver, or with the link task. -/
theorem user_packets_in_order (prost : Prost) (conf : LinkClientConfig) (events : List TrafficEvent)
    (s : ClientTraffic) (hrun : Machine.run (step prost conf) new events = some s) :
    s.outbound.Sublist s.queued ∧
      ((∀ past u, past <+: events → Machine.run (step prost conf) new past = some u → u.outbound = u.queued) ↔
        Machine.Meets (step prost conf) KeepsOutbound new events) := by
  have hinv : ∀ (s : ClientTraffic) e s', Settled s.client → step prost conf s e = some s' → Settled s'.client :=
    fun s e s' h hs => traffic_settled h hs
  exact Machine.run_flow hinv (fun _ _ _ hs => (step_log hs).1) (fun _ _ _ => step_outbound)
    new_settled rfl hrun

/-- The first push is left to the `link_write_loop` of a connection that is gone, and is
written after the second, which goes to the next connection. -/
def reconnectingRun : List TrafficEvent :=
  [.connect, .handshake, .deliver false, .serverPush ⟨0, .cmdSubAllType, .depths, 0, []⟩, .receive false,
    .sendPush ⟨0, .cmdSubAllType, .trade, 0, []⟩, .take, .forwarded true, .register false, .fail, .reset,
    .connect, .handshake, .deliver false, .sendPush ⟨0, .cmdSubAllType, .kline, 0, []⟩, .take, .forwarded true,
    .register false, .deliver false].map TrafficEvent.client ++
    [.lateWrite 0, .lateLeave 0, .client (.serverPush ⟨0, .cmdSubAllType, .brokers, 0, []⟩),
      .client (.receive false), .client .consume]

theorem user_packets_in_order_reconnecting :
    ∃ s, Machine.run (step plainProst plainConfig) new reconnectingRun = some s ∧
      s.written.filter Outgoing.isUser =
        [.push ⟨0, .cmdSubAllType, .trade, 0, []⟩, .push ⟨0, .cmdSubAllType, .kline, 0, []⟩] ∧
      s.outbound.Sublist s.queued ∧
      ∀ past u, past <+: reconnectingRun → Machine.run (step plainProst plainConfig) new past = some u →
        u.outbound = u.queued := by
  have hout : (Machine.run (step plainProst plainConfig) new reconnectingRun).map
      (fun s => s.written.filter Outgoing.isUser) =
        some [.push ⟨0, .cmdSubAllType, .trade, 0, []⟩, .push ⟨0, .cmdSubAllType, .kline, 0, []⟩] := by
    decide +kernel
  obtain ⟨s, hrun, hwritten⟩ := Option.map_eq_some_iff.mp hout
  obtain ⟨hsub, hkept⟩ := user_packets_in_order plainProst plainConfig reconnectingRun s hrun
  exact ⟨s, hrun, hwritten, hsub, hkept.mpr (by decide +kernel)⟩

end ClientTraffic

end QuoteLink

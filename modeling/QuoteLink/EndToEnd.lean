import QuoteLink.AuthExchange
import QuoteLink.CallbackDelivery
import QuoteLink.LinkDelivery
import Mathlib.Data.List.Flatten

namespace QuoteLink

def Incoming.toPacket : Incoming → Packet
  | .response a => .response a.response
  | .request r => .request r
  | .push p => .push p

/-- A packet that the callbacks of the server get. -/
def Packet.isData (p : Packet) : Bool := !p.isControl

def Packet.isResponse : Packet → Bool
  | .response _ => true
  | _ => false

/-- The packet that an event brings to the main process loop. -/
def ConnEvent.received : ConnEvent → List Packet
  | .recv p _ => [p]
  | _ => []

/-- The packet that an event of a link brings in. -/
def DeliveryEvent.requested : DeliveryEvent → List Packet
  | .request p => [p]
  | _ => []

/-- A step of the tasks at the ends of a link. -/
def DeliveryEvent.isEnd : DeliveryEvent → Bool
  | .request _ | .consume => true
  | _ => false

/-- A step that the client takes together with one of its links. -/
def TrafficEvent.isLink : TrafficEvent → Bool
  | .client .connect | .client (.deliver _) | .client (.answer _ _ _) | .client (.serverRequest _)
  | .client (.serverPush _) | .lateWrite _ => true
  | _ => false

structure EndConfig where
  prost : Prost
  decode : DecodeAuth
  client : LinkClientConfig
  healthy : HealthyConfig
  up : DeliveryConfig
  down : DeliveryConfig

/-- A connection: the link to the server, whose consumer is the main process loop, what
this loop has handed to the callback task, and the link back, whose consumer is the link
task of the client. -/
structure Pipe where
  up : LinkDelivery
  loop : ConnLoop
  handed : List Packet
  down : LinkDelivery

inductive PipeEvent
  | up (e : DeliveryEvent)
  | take (now : Nat)
  | loop (e : ConnEvent)
  | send (packet : Packet)
  | down (e : DeliveryEvent)
  deriving DecidableEq

namespace Pipe

def new (conf : EndConfig) (peerAddr : String) (now : Nat) : Pipe :=
  ⟨.new conf.up, .new peerAddr now, [], .new conf.down⟩

/-- A step of the main process loop. -/
def process (conf : EndConfig) (x : Pipe) (e : ConnEvent) : Option Pipe :=
  (x.loop.step conf.decode conf.healthy e).map fun out =>
    { x with loop := out.1, handed := x.handed ++ out.2.filterMap ConnEffect.callback? }

def step (conf : EndConfig) (x : Pipe) : PipeEvent → Option Pipe
  | .up e => if e.isEnd then none else (x.up.step conf.up e).map fun up => { x with up := up }
  | .take now =>
    match x.up.response.recv with
    | some (packet, _) =>
      (x.up.step conf.up .consume).bind fun up => process conf { x with up := up } (.recv packet now)
    | none => none
  | .loop (.recv _ _) => none
  | .loop e => x.process conf e
  | .send packet => (x.down.step conf.down (.request packet)).map fun down => { x with down := down }
  | .down e => if e.isEnd then none else (x.down.step conf.down e).map fun down => { x with down := down }

end Pipe

/-- A client with the connections it had, from the calls of its user to the callbacks of
the server and back; the last is the current one, and the earlier ones may still be at
work. -/
structure EndToEnd where
  traffic : ClientTraffic
  pipes : List Pipe

inductive EndEvent
  | connect (peerAddr : String) (now : Nat)
  | client (e : TrafficEvent)
  | write
  | lateWrite (c : Nat)
  | arrive (k : Nat)
  | pipe (c : Nat) (e : PipeEvent)
  deriving DecidableEq

namespace EndToEnd

def new : EndToEnd := ⟨.new, []⟩

/-- What a packet is for the client when it comes out of the link. -/
def arrival (k : Nat) : Packet → ClientEvent
  | .push p => .serverPush p
  | .request r => .serverRequest r
  | .response r => .answer k r.status r.body

/-- A response answers the `k`-th request that has no answer yet. -/
def answers (c : Client) (k : Nat) : Packet → Bool
  | .response r => c.conn.unanswered[k]?.any fun q => decide ((Client.answerTo q r.status r.body).response = r)
  | _ => true

/-- A `link_write_loop` takes a packet, and the client's part of this is `e`. -/
def writeOn (conf : EndConfig) (s : EndToEnd) (c : Nat) (q : Outgoing) (e : TrafficEvent) : Option EndToEnd :=
  (s.pipes[c]?).bind fun x =>
    (x.up.step conf.up (.request q.toPacket)).bind fun up =>
      (s.traffic.step conf.prost conf.client e).map fun traffic => ⟨traffic, s.pipes.set c { x with up := up }⟩

def step (conf : EndConfig) (s : EndToEnd) : EndEvent → Option EndToEnd
  | .connect peerAddr now =>
    (s.traffic.step conf.prost conf.client (.client .connect)).map fun traffic =>
      ⟨traffic, s.pipes ++ [.new conf peerAddr now]⟩
  | .client e =>
    if e.isLink then none
    else (s.traffic.step conf.prost conf.client e).map fun traffic => { s with traffic := traffic }
  | .write =>
    match s.traffic.client.conn.inner with
    | q :: _ => s.writeOn conf s.traffic.earlier.length q (.client (.deliver false))
    | [] => none
  | .lateWrite c =>
    match s.traffic.earlier[c]? with
    | some ⟨_, q :: _⟩ => s.writeOn conf c q (.lateWrite c)
    | _ => none
  | .arrive k =>
    s.pipes.getLast?.bind fun x =>
      match x.down.response.recv with
      | some (packet, _) =>
        if answers s.traffic.client k packet then
          (x.down.step conf.down .consume).bind fun down =>
            (s.traffic.step conf.prost conf.client (.client (arrival k packet))).map fun traffic =>
              ⟨traffic, s.pipes.dropLast ++ [{ x with down := down }]⟩
        else none
      | none => none
  | .pipe c e => (s.pipes[c]?).bind fun x => (x.step conf e).map fun x' => { s with pipes := s.pipes.set c x' }

end EndToEnd

namespace LinkDelivery

variable {conf : DeliveryConfig} {s s' : LinkDelivery} {e : DeliveryEvent}

/-- What an event takes out of the link. -/
def consumes (s : LinkDelivery) : DeliveryEvent → List Packet
  | .consume => s.response.recv.toList.map Prod.fst
  | _ => []

/-- Packets come in and go out at the ends alone. -/
theorem step_ends (hs : s.step conf e = some s') :
    s'.requests = s.requests ++ e.requested ∧ s'.delivered = s.delivered ++ s.consumes e := by
  have hsame : ∀ t : LinkDelivery, t.requests = s.requests → t.delivered = s.delivered →
      t.requests = s.requests ++ [] ∧ t.delivered = s.delivered ++ [] := by
    intro t hrequests hdelivered
    rw [List.append_nil, List.append_nil]
    exact ⟨hrequests, hdelivered⟩
  cases e with
  | request packet =>
    simp only [step] at hs
    split at hs
    next =>
      cases hs
      exact ⟨rfl, (List.append_nil _).symm⟩
    next => cases hs
  | consume =>
    simp only [step] at hs
    split at hs
    next p ch hch =>
      cases hs
      rw [consumes, hch]
      exact ⟨(List.append_nil _).symm, rfl⟩
    next => cases hs
  | writerSend | readerSend =>
    simp only [step] at hs
    split at hs
    next =>
      obtain ⟨ch, _, rfl⟩ := Option.map_eq_some_iff.mp hs
      exact hsame _ rfl rfl
    next => cases hs
  | frameTake | quic e =>
    simp only [step] at hs
    split at hs
    next =>
      obtain ⟨q, _, rfl⟩ := Option.map_eq_some_iff.mp hs
      exact hsame _ rfl rfl
    next => cases hs
  | udpRecv | streamDone | readerTake =>
    simp only [step] at hs
    split at hs
    next =>
      cases hs
      exact hsame _ rfl rfl
    next => cases hs
  | streamRecv n fin =>
    simp only [step] at hs
    split at hs
    next =>
      simp only [Option.ite_none_right_eq_some, Option.some.injEq] at hs
      obtain ⟨_, rfl⟩ := hs
      exact hsame _ rfl rfl
    next => cases hs
  | recvSend =>
    simp only [step] at hs
    split at hs
    next =>
      obtain ⟨ch, _, rfl⟩ := Option.map_eq_some_iff.mp hs
      exact hsame _ rfl rfl
    next =>
      cases hs
      exact hsame _ rfl rfl
    next => cases hs
  | recvLeave =>
    simp only [step] at hs
    split at hs
    next =>
      cases hs
      exact hsame _ rfl rfl
    next =>
      cases hs
      exact hsame _ rfl rfl
    next => cases hs

theorem ends_of_not_isEnd (he : e.isEnd = false) : e.requested = [] ∧ s.consumes e = [] := by
  cases e with
  | request p => cases he
  | consume => cases he
  | _ => exact ⟨rfl, rfl⟩

theorem consumes_of_recv {p : Packet} {ch : Channel Packet} (h : s.response.recv = some (p, ch)) :
    s.consumes .consume = [p] := by
  rw [consumes, h]
  rfl

end LinkDelivery

namespace ConnLoop

variable {decode : DecodeAuth} {conf : HealthyConfig} {l : ConnLoop} {e : ConnEvent}
  {out : ConnLoop × List ConnEffect}

/-- What the loop hands on, apart from Auth requests, is what it receives, apart from
these and heartbeats. -/
theorem handed_data (hl : l.HoldsAuth decode) (h : l.step decode conf e = some out) :
    (out.2.filterMap ConnEffect.callback?).filter Packet.isData = e.received.filter Packet.isData := by
  have hcase := handed_cases hl h
  generalize out.2.filterMap ConnEffect.callback? = packets at hcase
  cases hcase with
  | quiet _ hcontrol =>
    cases e with
    | recv p now => simp [ConnEvent.received, Packet.isData, hcontrol p now rfl]
    | _ => rfl
  | data p now hdata => rfl
  | auth r hr _ => simp [ConnEvent.received, Packet.isData, Packet.isControl, hr]

end ConnLoop

namespace Pipe

variable {conf : EndConfig} {x x' : Pipe} {e : PipeEvent}

/-- Both directions keep what they carry, and the callback task was handed what came out
of the link. -/
structure Sound (conf : EndConfig) (x : Pipe) : Prop where
  up : ∃ chunks lost, LinkDelivery.Conserved conf.up x.up chunks lost
  down : ∃ chunks lost, LinkDelivery.Conserved conf.down x.down chunks lost
  holds : x.loop.HoldsAuth conf.decode
  handed : x.handed.filter Packet.isData = x.up.delivered.filter Packet.isData

theorem new_sound (conf : EndConfig) (peerAddr : String) (now : Nat) : (new conf peerAddr now).Sound conf where
  up := ⟨[], [], LinkDelivery.new_conserved conf.up⟩
  down := ⟨[], [], LinkDelivery.new_conserved conf.down⟩
  holds := ConnLoop.holdsAuth_of_none rfl
  handed := rfl

theorem up_conserved {up : LinkDelivery} {e : DeliveryEvent} (h : x.Sound conf) (hs : x.up.step conf.up e = some up) :
    ∃ chunks lost, LinkDelivery.Conserved conf.up up chunks lost := by
  obtain ⟨chunks, lost, hup⟩ := h.up
  exact LinkDelivery.step_conserved hup hs

theorem down_conserved {down : LinkDelivery} {e : DeliveryEvent} (h : x.Sound conf)
    (hs : x.down.step conf.down e = some down) :
    ∃ chunks lost, LinkDelivery.Conserved conf.down down chunks lost := by
  obtain ⟨chunks, lost, hdown⟩ := h.down
  exact LinkDelivery.step_conserved hdown hs

/-- The loop takes an event, whose packet the link has delivered by then. -/
theorem process_sound {ev : ConnEvent} (hup : ∃ chunks lost, LinkDelivery.Conserved conf.up x.up chunks lost)
    (hdown : ∃ chunks lost, LinkDelivery.Conserved conf.down x.down chunks lost) (hholds : x.loop.HoldsAuth conf.decode)
    (hhanded : x.handed.filter Packet.isData ++ ev.received.filter Packet.isData = x.up.delivered.filter Packet.isData)
    (hs : x.process conf ev = some x') : x'.Sound conf ∧ x'.up = x.up ∧ x'.down = x.down := by
  obtain ⟨out, hout, rfl⟩ := Option.map_eq_some_iff.mp hs
  refine ⟨⟨hup, hdown, ConnLoop.step_holdsAuth hholds hout, ?_⟩, rfl, rfl⟩
  rw [List.filter_append, ConnLoop.handed_data hholds hout]
  exact hhanded

/-- A step of a connection that does not involve the client. -/
theorem step_sound (h : x.Sound conf) (hs : x.step conf e = some x') :
    x'.Sound conf ∧ x'.up.requests = x.up.requests ∧ x'.down.delivered = x.down.delivered := by
  have hquiet : ∀ ev : ConnEvent, ev.received = [] → x.process conf ev = some x' →
      x'.Sound conf ∧ x'.up.requests = x.up.requests ∧ x'.down.delivered = x.down.delivered := by
    intro ev hev hp
    have hhanded : x.handed.filter Packet.isData ++ ev.received.filter Packet.isData =
        x.up.delivered.filter Packet.isData := by
      rw [hev, List.filter_nil, List.append_nil]
      exact h.handed
    obtain ⟨hsound, hup, hdown⟩ := process_sound h.up h.down h.holds hhanded hp
    exact ⟨hsound, congrArg LinkDelivery.requests hup, congrArg LinkDelivery.delivered hdown⟩
  cases e with
  | up e =>
    simp only [step, Option.ite_none_left_eq_some, Bool.not_eq_true] at hs
    obtain ⟨he, hmap⟩ := hs
    obtain ⟨up, hup, rfl⟩ := Option.map_eq_some_iff.mp hmap
    obtain ⟨hrequests, hdelivered⟩ := LinkDelivery.step_ends hup
    obtain ⟨hin, hout⟩ := LinkDelivery.ends_of_not_isEnd (s := x.up) he
    rw [hin, List.append_nil] at hrequests
    rw [hout, List.append_nil] at hdelivered
    refine ⟨⟨up_conserved h hup, h.down, h.holds, ?_⟩, hrequests, rfl⟩
    rw [hdelivered]
    exact h.handed
  | take now =>
    simp only [step] at hs
    split at hs
    next packet ch hrecv =>
      obtain ⟨up, hup, hp⟩ := Option.bind_eq_some_iff.mp hs
      obtain ⟨hrequests, hdelivered⟩ := LinkDelivery.step_ends hup
      rw [LinkDelivery.consumes_of_recv hrecv] at hdelivered
      have hhanded : x.handed.filter Packet.isData ++ (ConnEvent.recv packet now).received.filter Packet.isData =
          up.delivered.filter Packet.isData := by
        rw [hdelivered, List.filter_append, h.handed]
        rfl
      obtain ⟨hsound, hsame, hdown⟩ := process_sound (x := { x with up := up }) (up_conserved h hup) h.down
        h.holds hhanded hp
      refine ⟨hsound, ?_, congrArg LinkDelivery.delivered hdown⟩
      rw [hsame, hrequests]
      exact List.append_nil _
    next => cases hs
  | loop ev =>
    cases ev with
    | recv p now => cases hs
    | _ => exact hquiet _ rfl hs
  | send packet =>
    obtain ⟨down, hdown, rfl⟩ := Option.map_eq_some_iff.mp hs
    refine ⟨⟨h.up, down_conserved h hdown, h.holds, h.handed⟩, rfl, ?_⟩
    rw [(LinkDelivery.step_ends hdown).2]
    exact List.append_nil _
  | down e =>
    simp only [step, Option.ite_none_left_eq_some, Bool.not_eq_true] at hs
    obtain ⟨he, hmap⟩ := hs
    obtain ⟨down, hdown, rfl⟩ := Option.map_eq_some_iff.mp hmap
    obtain ⟨_, hout⟩ := LinkDelivery.ends_of_not_isEnd (s := x.down) he
    refine ⟨⟨h.up, down_conserved h hdown, h.holds, h.handed⟩, rfl, ?_⟩
    rw [(LinkDelivery.step_ends hdown).2, hout, List.append_nil]

end Pipe

end QuoteLink

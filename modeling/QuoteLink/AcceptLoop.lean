import QuoteLink.Channel
import QuoteLink.ServerClients
import Mathlib.Data.List.Perm.Basic

namespace AList

variable {α : Type} {β : α → Type} [DecidableEq α]

/-- The entries that meet `p`. -/
def retain (m : AList β) (p : ∀ a, β a → Bool) : AList β :=
  ⟨m.entries.filter fun entry => p entry.1 entry.2, m.nodupKeys.sublist List.filter_sublist⟩

theorem lookup_retain_eq_some {m : AList β} {p : ∀ a, β a → Bool} {a : α} {b : β a} :
    (m.retain p).lookup a = some b ↔ m.lookup a = some b ∧ p a b = true := by
  have hretain : b ∈ (m.retain p).lookup a ↔ Sigma.mk a b ∈ (m.retain p).entries := mem_lookup_iff
  have hlookup : b ∈ m.lookup a ↔ Sigma.mk a b ∈ m.entries := mem_lookup_iff
  rw [← Option.mem_def, hretain, ← Option.mem_def, hlookup, retain, List.mem_filter]

end AList

namespace QuoteLink

/-- The datagrams of one accepted connection: the channel from the accept loop to its
tasks, what is still to be sent because the channel was full, and what the tasks have
received. `arrived` lists what the accept loop has routed to it, and `closed` is set once
the receiver is gone. -/
structure DatagramChannel where
  peerAddr : String
  arrived : List Bytes
  queue : Channel Bytes
  deferred : List Bytes
  received : List Bytes
  closed : Bool
  deriving DecidableEq, Repr

structure AcceptConfig where
  maxUdpReadSize : Nat
  recvChanSize : Nat
  deriving DecidableEq, Repr

/-- `listen_at`: the connections accepted so far, `client_socket_data_tx_map` with the
number of the connection that an address leads to, the connections that spawned tasks
have yet to put on `accept_tx` (one that finds the receiver gone never does) and those
they have, the datagrams read from the socket, and those nobody gets. -/
structure AcceptLoop where
  channels : List DatagramChannel
  routes : AList fun _ : String => Nat
  announcing : List Nat
  accepted : List Nat
  arrivals : List (String × Bytes)
  dropped : List (String × Bytes)
  stopped : Bool

inductive AcceptEvent
  | tick
  | recvFrom (peer : String) (data : Bytes)
  | recvFailed
  | sendDeferred (c i : Nat)
  | recv (c : Nat)
  | close (c : Nat)
  | announced (i : Nat)
  deriving DecidableEq, Repr

/-- The datagram an event reads from the socket, as far as the buffer holds it. -/
def AcceptEvent.datagram (conf : AcceptConfig) : AcceptEvent → List (String × Bytes)
  | .recvFrom peer data => [(peer, data.take conf.maxUdpReadSize)]
  | _ => []

namespace DatagramChannel

/-- `try_send`, and a spawned `send` if the channel is full. -/
def push (ch : DatagramChannel) (data : Bytes) : DatagramChannel :=
  match ch.queue.send data with
  | some queue => { ch with arrived := ch.arrived ++ [data], queue := queue }
  | none => { ch with arrived := ch.arrived ++ [data], deferred := ch.deferred ++ [data] }

/-- A spawned `send` goes through, or fails because the receiver is gone. -/
def sendDeferred (ch : DatagramChannel) (i : Nat) : Option DatagramChannel :=
  match ch.deferred[i]? with
  | some data =>
    if ch.closed then some { ch with deferred := ch.deferred.eraseIdx i }
    else (ch.queue.send data).map fun queue =>
      { ch with queue := queue, deferred := ch.deferred.eraseIdx i }
  | none => none

def recv (ch : DatagramChannel) : Option DatagramChannel :=
  match ch.closed, ch.queue.recv with
  | false, some (data, queue) => some { ch with queue := queue, received := ch.received ++ [data] }
  | _, _ => none

def close (ch : DatagramChannel) : Option DatagramChannel :=
  if ch.closed then none else some { ch with closed := true }

/-- What the tasks of a connection and the spawned sends leave as it is. -/
structure Kept (ch ch' : DatagramChannel) : Prop where
  peerAddr : ch'.peerAddr = ch.peerAddr
  arrived : ch'.arrived = ch.arrived
  closed : ch.closed = true → ch'.closed = true

/-- The datagrams of a connection: each is received, queued or still to be sent, as long
as the channel is open, and the one that opened the connection is received first. -/
structure Sound (ch : DatagramChannel) : Prop where
  conserved : ∃ lost, (ch.received ++ ch.queue.items ++ ch.deferred ++ lost).Perm ch.arrived ∧
    (ch.closed = false → lost = [])
  first : ∃ data, ch.arrived.head? = some data ∧ (ch.received ++ ch.queue.items).head? = some data

/-- No send was deferred, and nothing overtook. -/
def InOrder (ch : DatagramChannel) : Prop := ch.deferred = [] ∧ ch.received ++ ch.queue.items = ch.arrived

section Steps

variable {ch ch' : DatagramChannel} {data : Bytes} {i : Nat}

theorem head?_append_of_some {xs ys : List Bytes} (h : xs.head? = some data) :
    (xs ++ ys).head? = some data := by
  cases xs with
  | nil => cases h
  | cons x xs => exact h

theorem new_sound {peer : String} {queue : Channel Bytes} (hqueue : queue.items = [data]) :
    Sound ⟨peer, [data], queue, [], [], false⟩ where
  conserved := by
    refine ⟨[], ?_, fun _ => rfl⟩
    rw [hqueue]
    exact List.Perm.refl _
  first := by
    refine ⟨data, rfl, ?_⟩
    rw [hqueue]
    rfl

theorem Sound.push (h : ch.Sound) (hopen : ch.closed = false) (data : Bytes) : (ch.push data).Sound := by
  obtain ⟨lost, hperm, hlost⟩ := h.conserved
  obtain ⟨first, harrived, hreceived⟩ := h.first
  rw [hlost hopen, List.append_nil] at hperm
  unfold DatagramChannel.push
  split
  next queue hqueue =>
    have hitems := Channel.items_of_send hqueue
    refine ⟨⟨[], ?_, fun _ => rfl⟩, first, head?_append_of_some harrived, ?_⟩
    · show (ch.received ++ queue.items ++ ch.deferred ++ []).Perm (ch.arrived ++ [data])
      rw [hitems, List.append_nil, ← List.append_assoc, List.append_assoc]
      refine List.Perm.trans ?_ (hperm.append_right [data])
      rw [List.append_assoc _ ch.deferred]
      exact List.perm_append_comm.append_left _
    · show (ch.received ++ queue.items).head? = some first
      rw [hitems, ← List.append_assoc]
      exact head?_append_of_some hreceived
  next =>
    refine ⟨⟨[], ?_, fun _ => rfl⟩, first, head?_append_of_some harrived, hreceived⟩
    show (ch.received ++ ch.queue.items ++ (ch.deferred ++ [data]) ++ []).Perm (ch.arrived ++ [data])
    rw [List.append_nil, ← List.append_assoc]
    exact hperm.append_right [data]

theorem Sound.sendDeferred (h : ch.Sound) (hs : ch.sendDeferred i = some ch') : ch'.Sound ∧ ch.Kept ch' := by
  obtain ⟨lost, hperm, hlost⟩ := h.conserved
  obtain ⟨first, harrived, hreceived⟩ := h.first
  unfold DatagramChannel.sendDeferred at hs
  split at hs
  next data hdata =>
    obtain ⟨hi, hget⟩ := List.getElem?_eq_some_iff.mp hdata
    have hcut : (data :: ch.deferred.eraseIdx i).Perm ch.deferred := hget ▸ List.getElem_cons_eraseIdx_perm hi
    split at hs
    next hclosed =>
      cases hs
      refine ⟨⟨⟨data :: lost, ?_, fun hopen => ?_⟩, first, harrived, hreceived⟩, rfl, rfl, id⟩
      · show (ch.received ++ ch.queue.items ++ ch.deferred.eraseIdx i ++ (data :: lost)).Perm ch.arrived
        refine List.Perm.trans ?_ hperm
        rw [List.append_assoc, List.append_assoc _ ch.deferred]
        refine List.Perm.append_left _ ?_
        exact List.perm_middle.trans (hcut.append_right lost)
      · rw [hopen] at hclosed
        cases hclosed
    next =>
      obtain ⟨queue, hqueue, rfl⟩ := Option.map_eq_some_iff.mp hs
      have hitems := Channel.items_of_send hqueue
      refine ⟨⟨⟨lost, ?_, hlost⟩, first, harrived, ?_⟩, rfl, rfl, id⟩
      · show (ch.received ++ queue.items ++ ch.deferred.eraseIdx i ++ lost).Perm ch.arrived
        refine List.Perm.trans ?_ hperm
        rw [hitems, ← List.append_assoc, List.append_assoc _ [data]]
        exact (hcut.append_left _).append_right lost
      · show (ch.received ++ queue.items).head? = some first
        rw [hitems, ← List.append_assoc]
        exact head?_append_of_some hreceived
  next => cases hs

theorem Sound.recv (h : ch.Sound) (hs : ch.recv = some ch') : ch'.Sound ∧ ch.Kept ch' := by
  obtain ⟨lost, hperm, hlost⟩ := h.conserved
  obtain ⟨first, harrived, hreceived⟩ := h.first
  unfold DatagramChannel.recv at hs
  split at hs
  next data queue hopen hrecv =>
    cases hs
    have hitems := Channel.items_of_recv hrecv
    have hmove : ch.received ++ [data] ++ queue.items = ch.received ++ ch.queue.items := by
      rw [hitems, List.append_assoc, List.singleton_append]
    refine ⟨⟨⟨lost, ?_, hlost⟩, first, harrived, ?_⟩, rfl, rfl, id⟩
    · show (ch.received ++ [data] ++ queue.items ++ ch.deferred ++ lost).Perm ch.arrived
      rw [hmove]
      exact hperm
    · show (ch.received ++ [data] ++ queue.items).head? = some first
      rw [hmove]
      exact hreceived
  next => cases hs

theorem Sound.close (h : ch.Sound) (hs : ch.close = some ch') : ch'.Sound ∧ ch.Kept ch' := by
  obtain ⟨lost, hperm, _⟩ := h.conserved
  unfold DatagramChannel.close at hs
  split at hs
  next => cases hs
  next =>
    cases hs
    exact ⟨⟨⟨lost, hperm, fun hopen => Bool.noConfusion hopen⟩, h.first⟩, rfl, rfl, fun _ => rfl⟩

/-- What has been received of what arrived. -/
theorem Sound.received (h : ch.Sound) : (∃ rest, (ch.received ++ rest).Perm ch.arrived) ∧
    (ch.received = [] ∨ ch.received.head? = ch.arrived.head?) := by
  obtain ⟨⟨lost, hperm, _⟩, data, harrived, hfirst⟩ := h
  refine ⟨⟨ch.queue.items ++ ch.deferred ++ lost, ?_⟩, ?_⟩
  · rw [← List.append_assoc, ← List.append_assoc]
    exact hperm
  · cases hreceived : ch.received with
    | nil => exact Or.inl rfl
    | cons b bs =>
      rw [hreceived] at hfirst
      exact Or.inr (Eq.trans hfirst harrived.symm)

theorem peerAddr_push (ch : DatagramChannel) (data : Bytes) : (ch.push data).peerAddr = ch.peerAddr := by
  unfold push
  split
  · rfl
  · rfl

theorem closed_push (ch : DatagramChannel) (data : Bytes) : (ch.push data).closed = ch.closed := by
  unfold push
  split
  · rfl
  · rfl

theorem arrived_push (ch : DatagramChannel) (data : Bytes) : (ch.push data).arrived = ch.arrived ++ [data] := by
  unfold push
  split
  · rfl
  · rfl

theorem received_push (ch : DatagramChannel) (data : Bytes) : (ch.push data).received = ch.received := by
  unfold push
  split
  · rfl
  · rfl

theorem InOrder.push (h : ch.InOrder) (hroom : ¬ch.queue.Full) (data : Bytes) : (ch.push data).InOrder := by
  unfold DatagramChannel.push
  split
  next queue hqueue =>
    refine ⟨h.1, ?_⟩
    show ch.received ++ queue.items = ch.arrived ++ [data]
    rw [Channel.items_of_send hqueue, ← List.append_assoc, h.2]
  next hfull => exact absurd ((Channel.send_eq_none_iff _ _).mp hfull) hroom

theorem InOrder.sendDeferred_eq_none (h : ch.InOrder) (i : Nat) : ch.sendDeferred i = none := by
  rw [DatagramChannel.sendDeferred, h.1, List.getElem?_nil]

theorem InOrder.recv (h : ch.InOrder) (hs : ch.recv = some ch') : ch'.InOrder := by
  unfold DatagramChannel.recv at hs
  split at hs
  next data queue _ hrecv =>
    cases hs
    refine ⟨h.1, ?_⟩
    show ch.received ++ [data] ++ queue.items = ch.arrived
    rw [← h.2, Channel.items_of_recv hrecv, List.append_assoc, List.singleton_append]
  next => cases hs

theorem InOrder.close (h : ch.InOrder) (hs : ch.close = some ch') : ch'.InOrder := by
  unfold DatagramChannel.close at hs
  split at hs
  next => cases hs
  next =>
    cases hs
    exact h

theorem closed_of_sendDeferred (hs : ch.sendDeferred i = some ch') : ch'.closed = ch.closed := by
  unfold DatagramChannel.sendDeferred at hs
  split at hs
  next =>
    split at hs
    next =>
      cases hs
      rfl
    next =>
      obtain ⟨_, _, rfl⟩ := Option.map_eq_some_iff.mp hs
      rfl
  next => cases hs

theorem received_of_sendDeferred (hs : ch.sendDeferred i = some ch') : ch'.received = ch.received := by
  unfold DatagramChannel.sendDeferred at hs
  split at hs
  next =>
    split at hs
    next =>
      cases hs
      rfl
    next =>
      obtain ⟨_, _, rfl⟩ := Option.map_eq_some_iff.mp hs
      rfl
  next => cases hs

theorem closed_of_recv (hs : ch.recv = some ch') : ch'.closed = ch.closed := by
  unfold DatagramChannel.recv at hs
  split at hs
  next =>
    cases hs
    rfl
  next => cases hs

theorem closed_of_close (hs : ch.close = some ch') : ch'.closed = true := by
  unfold DatagramChannel.close at hs
  split at hs
  next => cases hs
  next =>
    cases hs
    rfl

theorem received_of_close (hs : ch.close = some ch') : ch'.received = ch.received := by
  unfold DatagramChannel.close at hs
  split at hs
  next => cases hs
  next =>
    cases hs
    rfl

end Steps

end DatagramChannel

namespace AcceptLoop

def new : AcceptLoop := ⟨[], ∅, [], [], [], [], false⟩

def isOpen (s : AcceptLoop) (c : Nat) : Bool := (s.channels[c]?).any fun ch => !ch.closed

/-- The entries whose channel is closed are cleared. -/
def sweep (s : AcceptLoop) : AList fun _ : String => Nat := s.routes.retain fun _ c => s.isOpen c

/-- A datagram from an unknown address opens a connection and is the first in its channel. -/
def acceptNew (conf : AcceptConfig) (s : AcceptLoop) (peer : String) (data : Bytes) : AcceptLoop :=
  match (Channel.empty conf.recvChanSize).send data with
  | none => { s with arrivals := s.arrivals ++ [(peer, data)], dropped := s.dropped ++ [(peer, data)] }
  | some queue =>
    { s with
      channels := s.channels ++ [⟨peer, [data], queue, [], [], false⟩]
      routes := s.sweep.insert peer s.channels.length
      announcing := s.announcing ++ [s.channels.length]
      arrivals := s.arrivals ++ [(peer, data)] }

/-- A datagram from a known address; it is skipped if the channel is closed. -/
def forward (s : AcceptLoop) (peer : String) (data : Bytes) (c : Nat) : Option AcceptLoop :=
  (s.channels[c]?).map fun ch =>
    if ch.closed then
      { s with arrivals := s.arrivals ++ [(peer, data)], dropped := s.dropped ++ [(peer, data)] }
    else
      { s with channels := s.channels.set c (ch.push data), arrivals := s.arrivals ++ [(peer, data)] }

/-- A step of the tasks at the other end of a channel. -/
def onChannel (s : AcceptLoop) (c : Nat) (f : DatagramChannel → Option DatagramChannel) : Option AcceptLoop :=
  (s.channels[c]?).bind fun ch => (f ch).map fun ch => { s with channels := s.channels.set c ch }

/-- One turn of the loop, or one step of a task it spawned. -/
def step (conf : AcceptConfig) (s : AcceptLoop) : AcceptEvent → Option AcceptLoop
  | .tick => if s.stopped then none else some { s with routes := s.sweep }
  | .recvFrom peer data =>
    if s.stopped then none
    else
      match s.routes.lookup peer with
      | none => some (s.acceptNew conf peer (data.take conf.maxUdpReadSize))
      | some c => s.forward peer (data.take conf.maxUdpReadSize) c
  | .recvFailed => if s.stopped then none else some { s with routes := ∅, stopped := true }
  | .sendDeferred c i => s.onChannel c (·.sendDeferred i)
  | .recv c => s.onChannel c DatagramChannel.recv
  | .close c => s.onChannel c DatagramChannel.close
  | .announced i =>
    (s.announcing[i]?).map fun c =>
      { s with announcing := s.announcing.eraseIdx i, accepted := s.accepted ++ [c] }

/-- All that a step can be. -/
inductive StepCase (conf : AcceptConfig) (s : AcceptLoop) : AcceptEvent → AcceptLoop → Prop
  | tick (hup : s.stopped = false) : StepCase conf s .tick { s with routes := s.sweep }
  | opened (peer : String) (data : Bytes) (queue : Channel Bytes) (hup : s.stopped = false)
    (hnew : s.routes.lookup peer = none)
    (hqueue : (Channel.empty conf.recvChanSize).send (data.take conf.maxUdpReadSize) = some queue) :
    StepCase conf s (.recvFrom peer data)
      { s with
        channels := s.channels ++ [⟨peer, [data.take conf.maxUdpReadSize], queue, [], [], false⟩]
        routes := s.sweep.insert peer s.channels.length
        announcing := s.announcing ++ [s.channels.length]
        arrivals := s.arrivals ++ [(peer, data.take conf.maxUdpReadSize)] }
  | refused (peer : String) (data : Bytes) (hsize : conf.recvChanSize = 0) :
    StepCase conf s (.recvFrom peer data)
      { s with
        arrivals := s.arrivals ++ [(peer, data.take conf.maxUdpReadSize)]
        dropped := s.dropped ++ [(peer, data.take conf.maxUdpReadSize)] }
  | skipped (peer : String) (data : Bytes) (c : Nat) (ch : DatagramChannel)
    (hroute : s.routes.lookup peer = some c) (hch : s.channels[c]? = some ch) (hclosed : ch.closed = true) :
    StepCase conf s (.recvFrom peer data)
      { s with
        arrivals := s.arrivals ++ [(peer, data.take conf.maxUdpReadSize)]
        dropped := s.dropped ++ [(peer, data.take conf.maxUdpReadSize)] }
  | pushed (peer : String) (data : Bytes) (c : Nat) (ch : DatagramChannel)
    (hroute : s.routes.lookup peer = some c) (hch : s.channels[c]? = some ch) (hopen : ch.closed = false) :
    StepCase conf s (.recvFrom peer data)
      { s with
        channels := s.channels.set c (ch.push (data.take conf.maxUdpReadSize))
        arrivals := s.arrivals ++ [(peer, data.take conf.maxUdpReadSize)] }
  | recvFailed : StepCase conf s .recvFailed { s with routes := ∅, stopped := true }
  | sendDeferred (c i : Nat) (ch ch' : DatagramChannel) (hch : s.channels[c]? = some ch)
    (h : ch.sendDeferred i = some ch') :
    StepCase conf s (.sendDeferred c i) { s with channels := s.channels.set c ch' }
  | recv (c : Nat) (ch ch' : DatagramChannel) (hch : s.channels[c]? = some ch) (h : ch.recv = some ch') :
    StepCase conf s (.recv c) { s with channels := s.channels.set c ch' }
  | close (c : Nat) (ch ch' : DatagramChannel) (hch : s.channels[c]? = some ch) (h : ch.close = some ch') :
    StepCase conf s (.close c) { s with channels := s.channels.set c ch' }
  | announced (i c : Nat) (hc : s.announcing[i]? = some c) :
    StepCase conf s (.announced i)
      { s with announcing := s.announcing.eraseIdx i, accepted := s.accepted ++ [c] }

theorem onChannel_eq_some {s s' : AcceptLoop} {c : Nat} {f : DatagramChannel → Option DatagramChannel}
    (h : s.onChannel c f = some s') :
    ∃ ch ch', s.channels[c]? = some ch ∧ f ch = some ch' ∧ s' = { s with channels := s.channels.set c ch' } := by
  obtain ⟨ch, hch, h⟩ := Option.bind_eq_some_iff.mp h
  obtain ⟨ch', hf, rfl⟩ := Option.map_eq_some_iff.mp h
  exact ⟨ch, ch', hch, hf, rfl⟩

theorem step_cases {conf : AcceptConfig} {s s' : AcceptLoop} {e : AcceptEvent}
    (h : s.step conf e = some s') : StepCase conf s e s' := by
  cases e with
  | tick =>
    simp only [step, Option.ite_none_left_eq_some, Option.some.injEq, Bool.not_eq_true] at h
    obtain ⟨hup, rfl⟩ := h
    exact .tick hup
  | recvFrom peer data =>
    simp only [step, Option.ite_none_left_eq_some, Bool.not_eq_true] at h
    obtain ⟨hup, h⟩ := h
    split at h
    next hnew =>
      cases h
      cases hqueue : (Channel.empty conf.recvChanSize).send (data.take conf.maxUdpReadSize) with
      | none =>
        have hfull : 0 = conf.recvChanSize := (Channel.send_eq_none_iff _ _).mp hqueue
        simp only [acceptNew, hqueue]
        exact .refused peer data hfull.symm
      | some queue =>
        simp only [acceptNew, hqueue]
        exact .opened peer data queue hup hnew hqueue
    next c hroute =>
      obtain ⟨ch, hch, rfl⟩ := Option.map_eq_some_iff.mp h
      by_cases hclosed : ch.closed = true
      · rw [if_pos hclosed]
        exact .skipped peer data c ch hroute hch hclosed
      · rw [if_neg hclosed]
        exact .pushed peer data c ch hroute hch (Bool.eq_false_iff.mpr hclosed)
  | recvFailed =>
    simp only [step, Option.ite_none_left_eq_some, Option.some.injEq] at h
    obtain ⟨_, rfl⟩ := h
    exact .recvFailed
  | sendDeferred c i =>
    obtain ⟨ch, ch', hch, hf, rfl⟩ := onChannel_eq_some h
    exact .sendDeferred c i ch ch' hch hf
  | recv c =>
    obtain ⟨ch, ch', hch, hf, rfl⟩ := onChannel_eq_some h
    exact .recv c ch ch' hch hf
  | close c =>
    obtain ⟨ch, ch', hch, hf, rfl⟩ := onChannel_eq_some h
    exact .close c ch ch' hch hf
  | announced i =>
    obtain ⟨c, hc, rfl⟩ := Option.map_eq_some_iff.mp h
    exact .announced i c hc

/-- The routing table: an entry leads to a connection of its address, while the loop
runs the open connections have one, and of the connections of an address all but the
last are closed. -/
structure Sound (s : AcceptLoop) : Prop where
  channels : ∀ ch ∈ s.channels, ch.Sound
  routes : ∀ peer c, s.routes.lookup peer = some c → ∃ ch, s.channels[c]? = some ch ∧ ch.peerAddr = peer
  routed : s.stopped = false → ∀ (c : Nat) (ch : DatagramChannel), s.channels[c]? = some ch →
    ch.closed = false → s.routes.lookup ch.peerAddr = some c
  single : ∀ (c d : Nat) (ch ch' : DatagramChannel), c < d → s.channels[c]? = some ch →
    s.channels[d]? = some ch' → ch.peerAddr = ch'.peerAddr → ch.closed = true
  announced : (s.accepted ++ s.announcing).Perm (List.range s.channels.length)

section Table

variable {conf : AcceptConfig} {s s' : AcceptLoop} {e : AcceptEvent}

theorem getElem?_set_cases {α : Type} {l : List α} {c d : Nat} {x y : α} (h : (l.set c x)[d]? = some y) :
    d = c ∧ y = x ∨ l[d]? = some y := by
  by_cases heq : c = d
  · subst heq
    obtain ⟨_, hget⟩ := List.getElem?_eq_some_iff.mp h
    rw [List.getElem_set_self] at hget
    exact Or.inl ⟨rfl, hget.symm⟩
  · rw [List.getElem?_set_ne heq] at h
    exact Or.inr h

theorem isOpen_of {c : Nat} {ch : DatagramChannel} (hch : s.channels[c]? = some ch) (hopen : ch.closed = false) :
    s.isOpen c = true := by
  rw [isOpen, hch, Option.any_some, hopen]
  rfl

theorem new_sound : new.Sound where
  channels := by
    intro ch hch
    cases hch
  routes := by
    intro peer c h
    cases h
  routed := by
    intro _ c ch h
    cases h
  single := by
    intro c d ch ch' _ h
    cases h
  announced := List.Perm.refl _

/-- A channel moves on: its address stays, and it does not open again. -/
theorem Sound.set (h : s.Sound) {c : Nat} {ch ch' : DatagramChannel} (hch : s.channels[c]? = some ch)
    (hsound : ch'.Sound) (haddr : ch'.peerAddr = ch.peerAddr)
    (hclosed : ch.closed = true → ch'.closed = true) (arrivals : List (String × Bytes)) :
    Sound { s with channels := s.channels.set c ch', arrivals := arrivals } := by
  have hold : ∀ (d : Nat) (x : DatagramChannel), (s.channels.set c ch')[d]? = some x →
      ∃ y, s.channels[d]? = some y ∧ x.peerAddr = y.peerAddr ∧ (y.closed = true → x.closed = true) := by
    intro d x hx
    rcases getElem?_set_cases hx with ⟨rfl, rfl⟩ | hx
    · exact ⟨ch, hch, haddr, hclosed⟩
    · exact ⟨x, hx, rfl, id⟩
  have hopen : ∀ x y : DatagramChannel, (y.closed = true → x.closed = true) → x.closed = false →
      y.closed = false := by
    intro x y hmono hx
    by_contra hy
    rw [hmono (Bool.eq_true_of_not_eq_false hy)] at hx
    cases hx
  refine ⟨?_, ?_, ?_, ?_, ?_⟩
  · intro x hx
    rcases List.mem_or_eq_of_mem_set hx with hx | rfl
    · exact h.channels x hx
    · exact hsound
  · intro peer d hroute
    obtain ⟨x, hx, hpeer⟩ := h.routes peer d hroute
    by_cases heq : c = d
    · subst heq
      cases hch.symm.trans hx
      have hlt := (List.getElem?_eq_some_iff.mp hch).1
      exact ⟨ch', List.getElem?_set_self hlt, haddr.trans hpeer⟩
    · exact ⟨x, (List.getElem?_set_ne heq).trans hx, hpeer⟩
  · intro hup d x hx hxopen
    obtain ⟨y, hy, hsame, hmono⟩ := hold d x hx
    rw [hsame]
    exact h.routed hup d y hy (hopen x y hmono hxopen)
  · intro d d' x x' hlt hx hx' hpeer
    obtain ⟨y, hy, hsame, hmono⟩ := hold d x hx
    obtain ⟨y', hy', hsame', _⟩ := hold d' x' hx'
    exact hmono (h.single d d' y y' hlt hy hy' (hsame.symm.trans (hpeer.trans hsame')))
  · show (s.accepted ++ s.announcing).Perm (List.range (s.channels.set c ch').length)
    rw [List.length_set]
    exact h.announced

theorem lookup_sweep_eq_some {peer : String} {c : Nat} :
    s.sweep.lookup peer = some c ↔ s.routes.lookup peer = some c ∧ s.isOpen c = true :=
  AList.lookup_retain_eq_some

theorem Sound.opened (h : s.Sound) {peer : String} {data : Bytes} {queue : Channel Bytes}
    (hup : s.stopped = false) (hnew : s.routes.lookup peer = none) (hqueue : queue.items = [data])
    (arrivals : List (String × Bytes)) :
    Sound { s with
      channels := s.channels ++ [⟨peer, [data], queue, [], [], false⟩]
      routes := s.sweep.insert peer s.channels.length
      announcing := s.announcing ++ [s.channels.length]
      arrivals := arrivals } := by
  -- the open connections are routed, so none of them has this address
  have hfresh : ∀ (c : Nat) (ch : DatagramChannel), s.channels[c]? = some ch → ch.closed = false →
      ch.peerAddr ≠ peer := by
    intro c ch hch hopen heq
    have hroute := h.routed hup c ch hch hopen
    rw [heq, hnew] at hroute
    cases hroute
  refine ⟨?_, ?_, ?_, ?_, ?_⟩
  · intro ch hch
    rcases List.mem_append.mp hch with hch | hch
    · exact h.channels ch hch
    · rw [List.mem_singleton.mp hch]
      exact DatagramChannel.new_sound hqueue
  · intro k c hk
    rcases Server.lookup_insert_eq_some hk with ⟨rfl, rfl⟩ | hk
    · exact ⟨_, List.getElem?_concat_length, rfl⟩
    · obtain ⟨ch, hch, hpeer⟩ := h.routes k c (lookup_sweep_eq_some.mp hk).1
      have hlt := (List.getElem?_eq_some_iff.mp hch).1
      exact ⟨ch, (List.getElem?_append_left hlt).trans hch, hpeer⟩
  · intro _ c ch hch hopen
    rcases getElem?_snoc_cases hch with hch | ⟨rfl, rfl⟩
    · have hne := hfresh c ch hch hopen
      show (s.sweep.insert peer s.channels.length).lookup ch.peerAddr = some c
      rw [AList.lookup_insert_ne hne]
      exact lookup_sweep_eq_some.mpr ⟨h.routed hup c ch hch hopen, isOpen_of hch hopen⟩
    · exact AList.lookup_insert _
  · intro c d ch ch' hlt hch hch' hpeer
    rcases getElem?_snoc_cases hch' with hch' | ⟨rfl, rfl⟩
    · have hd := (List.getElem?_eq_some_iff.mp hch').1
      have hold : s.channels[c]? = some ch := (List.getElem?_append_left (by omega)).symm.trans hch
      exact h.single c d ch ch' hlt hold hch' hpeer
    · have hold : s.channels[c]? = some ch := (List.getElem?_append_left hlt).symm.trans hch
      by_contra hopen
      exact hfresh c ch hold (Bool.eq_false_of_not_eq_true hopen) hpeer
  · show (s.accepted ++ (s.announcing ++ [s.channels.length])).Perm (List.range (s.channels ++ [_]).length)
    rw [List.length_append, List.length_singleton, List.range_succ, ← List.append_assoc]
    exact h.announced.append_right _

theorem step_sound (h : s.Sound) (hs : s.step conf e = some s') : s'.Sound := by
  cases step_cases hs with
  | tick hup =>
    refine ⟨h.channels, ?_, ?_, h.single, h.announced⟩
    · intro peer c hroute
      exact h.routes peer c (lookup_sweep_eq_some.mp hroute).1
    · intro _ c ch hch hopen
      exact lookup_sweep_eq_some.mpr ⟨h.routed hup c ch hch hopen, isOpen_of hch hopen⟩
  | opened peer data queue hup hnew hqueue => exact h.opened hup hnew (Channel.items_of_send hqueue) _
  | refused peer data _ => exact ⟨h.channels, h.routes, h.routed, h.single, h.announced⟩
  | skipped peer data c ch _ _ _ => exact ⟨h.channels, h.routes, h.routed, h.single, h.announced⟩
  | pushed peer data c ch _ hch hopen =>
    have hsound := (h.channels ch (List.mem_of_getElem? hch)).push hopen (data.take conf.maxUdpReadSize)
    exact h.set hch hsound (ch.peerAddr_push _) (fun hclosed => (ch.closed_push _).trans hclosed) _
  | recvFailed =>
    refine ⟨h.channels, ?_, fun hup => Bool.noConfusion hup, h.single, h.announced⟩
    intro peer c hroute
    cases hroute
  | sendDeferred c i ch ch' hch hmove =>
    obtain ⟨hsound, hkept⟩ := (h.channels ch (List.mem_of_getElem? hch)).sendDeferred hmove
    exact h.set hch hsound hkept.peerAddr hkept.closed _
  | recv c ch ch' hch hmove =>
    obtain ⟨hsound, hkept⟩ := (h.channels ch (List.mem_of_getElem? hch)).recv hmove
    exact h.set hch hsound hkept.peerAddr hkept.closed _
  | close c ch ch' hch hmove =>
    obtain ⟨hsound, hkept⟩ := (h.channels ch (List.mem_of_getElem? hch)).close hmove
    exact h.set hch hsound hkept.peerAddr hkept.closed _
  | announced i c hc =>
    refine ⟨h.channels, h.routes, h.routed, h.single, ?_⟩
    obtain ⟨hi, hget⟩ := List.getElem?_eq_some_iff.mp hc
    have hcut : (c :: s.announcing.eraseIdx i).Perm s.announcing := hget ▸ List.getElem_cons_eraseIdx_perm hi
    show (s.accepted ++ [c] ++ s.announcing.eraseIdx i).Perm _
    rw [List.append_assoc, List.singleton_append]
    exact (hcut.append_left s.accepted).trans h.announced

end Table

end AcceptLoop

end QuoteLink

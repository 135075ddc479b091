import QuoteLink.UdpTasks

namespace QuoteLink

def defaultMaxUdpPacketSize : Nat := 2 ^ 16 - 1

structure ClientUdpConfig where
  maxUdpReadSize : Nat
  maxRecvUdpPayloadSize : Option Nat
  recvChanSize : Nat
  sendChanSize : Nat
  deriving DecidableEq, Repr

/-- The buffer of `udp_read_loop`; `quic_handshake` has one of `maxUdpReadSize`. -/
def ClientUdpConfig.readBufferSize (conf : ClientUdpConfig) : Nat :=
  max conf.maxUdpReadSize (conf.maxRecvUdpPayloadSize.getD defaultMaxUdpPacketSize)

/-- Where `quic_handshake` stands: at the top of its loop, sending a datagram, waiting for
one, or giving one to `conn.recv`; or `connect` is past it, or has failed in it. -/
inductive HandshakePc
  | checking
  | writing (b : Bytes)
  | waiting
  | feeding (b : Bytes)
  | established
  | failed
  deriving DecidableEq, Repr

inductive UdpReadPc
  | reading
  | sending (b : Bytes)
  | exited
  deriving DecidableEq, Repr

/-- The socket of `connect`: `quic_handshake`, and after it `udp_read_loop` with the channel
to the task that drives the connection. The handshake's datagrams are those that
`conn.send` made, what the socket got of them, and what `conn.recv` got. -/
structure ClientDatagrams where
  pc : HandshakePc
  handshakeMade : List Bytes
  handshakeSent : List Bytes
  handshakeFed : List Bytes
  read : List Bytes
  reader : UdpReadPc
  udpDataRecv : Channel Bytes
  tasks : UdpTasks

inductive ClientUdpEvent
  | isEstablished
  | connSend (b : Option Bytes)
  | connSendFailed
  | socketSend (n : Option Nat)
  | socketRecv (b : Option Bytes)
  | connRecv (n : Option Nat)
  | read (b : Option Bytes)
  | readerSend
  | taskRecv
  | task (e : UdpEvent)
  deriving DecidableEq, Repr

/-- The datagram an event reads from the socket, as far as the buffer holds it. -/
def ClientUdpEvent.datagram (conf : ClientUdpConfig) : ClientUdpEvent → List Bytes
  | .socketRecv (some b) => [b.take conf.maxUdpReadSize]
  | .read (some b) => [b.take conf.readBufferSize]
  | _ => []

namespace ClientDatagrams

def new (conf : ClientUdpConfig) : ClientDatagrams :=
  ⟨.checking, [], [], [], [], .reading, .empty conf.recvChanSize, .connected conf.sendChanSize⟩

def step (conf : ClientUdpConfig) (s : ClientDatagrams) : ClientUdpEvent → Option ClientDatagrams
  | .isEstablished => if s.pc = .checking then some { s with pc := .established } else none
  | .connSend b =>
    if s.pc = .checking then
      match b with
      | some b => some { s with pc := .writing b, handshakeMade := s.handshakeMade ++ [b] }
      | none => some { s with pc := .waiting }
    else none
  | .connSendFailed => if s.pc = .checking then some { s with pc := .failed } else none
  | .socketSend n =>
    match s.pc, n with
    | .writing b, some n =>
      if n ≤ b.length then some { s with pc := .waiting, handshakeSent := s.handshakeSent ++ [b.take n] } else none
    | .writing _, none => some { s with pc := .failed }
    | _, _ => none
  -- `timeout` and an error of the socket both end the handshake
  | .socketRecv b =>
    if s.pc = .waiting then
      match b with
      | some b =>
        some { s with pc := .feeding (b.take conf.maxUdpReadSize), read := s.read ++ [b.take conf.maxUdpReadSize] }
      | none => some { s with pc := .failed }
    else none
  -- one call for a datagram, whatever `conn.recv` takes of it
  | .connRecv n =>
    match s.pc, n with
    | .feeding b, some n =>
      if n ≤ b.length then some { s with pc := .checking, handshakeFed := s.handshakeFed ++ [b.take n] } else none
    | .feeding _, none => some { s with pc := .failed }
    | _, _ => none
  | .read b =>
    if s.pc = .established ∧ s.reader = .reading then
      match b with
      | some b =>
        some { s with
          reader := .sending (b.take conf.readBufferSize)
          read := s.read ++ [b.take conf.readBufferSize] }
      | none => some { s with reader := .exited }
    else none
  | .readerSend =>
    match s.pc, s.reader with
    | .established, .sending b =>
      if s.tasks.pc = .exited then some { s with reader := .exited }
      else (s.udpDataRecv.send b).map fun ch => { s with reader := .reading, udpDataRecv := ch }
    | _, _ => none
  | .taskRecv =>
    if s.pc = .established then
      match s.udpDataRecv.recv with
      | some (b, ch) => (s.tasks.step (.recv b)).map fun t => { s with udpDataRecv := ch, tasks := t }
      | none => none
    else none
  | .task e =>
    if s.pc = .established ∧ e.received = [] then (s.tasks.step e).map fun t => { s with tasks := t } else none

/-- All that a step can be. -/
inductive StepCase (conf : ClientUdpConfig) (s : ClientDatagrams) : ClientUdpEvent → ClientDatagrams → Prop
  | isEstablished (hpc : s.pc = .checking) : StepCase conf s .isEstablished { s with pc := .established }
  | connSend (b : Bytes) (hpc : s.pc = .checking) :
    StepCase conf s (.connSend (some b)) { s with pc := .writing b, handshakeMade := s.handshakeMade ++ [b] }
  | connSendDone (hpc : s.pc = .checking) : StepCase conf s (.connSend none) { s with pc := .waiting }
  | failed (e : ClientUdpEvent) (hearly : s.pc ≠ .established) (hup : s.pc ≠ .failed)
    (hnone : e.datagram conf = []) : StepCase conf s e { s with pc := .failed }
  | socketSend (b : Bytes) (n : Nat) (hpc : s.pc = .writing b) :
    StepCase conf s (.socketSend (some n)) { s with pc := .waiting, handshakeSent := s.handshakeSent ++ [b.take n] }
  | socketRecv (b : Bytes) (hpc : s.pc = .waiting) :
    StepCase conf s (.socketRecv (some b))
      { s with pc := .feeding (b.take conf.maxUdpReadSize), read := s.read ++ [b.take conf.maxUdpReadSize] }
  | connRecv (b : Bytes) (n : Nat) (hpc : s.pc = .feeding b) :
    StepCase conf s (.connRecv (some n)) { s with pc := .checking, handshakeFed := s.handshakeFed ++ [b.take n] }
  | read (b : Bytes) (hpc : s.pc = .established) (hreader : s.reader = .reading) :
    StepCase conf s (.read (some b))
      { s with
        reader := .sending (b.take conf.readBufferSize)
        read := s.read ++ [b.take conf.readBufferSize] }
  | readFailed (hpc : s.pc = .established) (hreader : s.reader = .reading) :
    StepCase conf s (.read none) { s with reader := .exited }
  | readerSend (b : Bytes) (ch : Channel Bytes) (hpc : s.pc = .established) (hreader : s.reader = .sending b)
    (hch : s.udpDataRecv.send b = some ch) :
    StepCase conf s .readerSend { s with reader := .reading, udpDataRecv := ch }
  | readerSendFailed (b : Bytes) (hpc : s.pc = .established) (hreader : s.reader = .sending b)
    (hgone : s.tasks.pc = .exited) :
    StepCase conf s .readerSend { s with reader := .exited }
  | taskRecv (b : Bytes) (ch : Channel Bytes) (t : UdpTasks) (hpc : s.pc = .established)
    (hch : s.udpDataRecv.recv = some (b, ch)) (ht : s.tasks.step (.recv b) = some t) :
    StepCase conf s .taskRecv { s with udpDataRecv := ch, tasks := t }
  | task (e : UdpEvent) (t : UdpTasks) (hpc : s.pc = .established) (hnone : e.received = [])
    (ht : s.tasks.step e = some t) : StepCase conf s (.task e) { s with tasks := t }

theorem step_cases {conf : ClientUdpConfig} {s s' : ClientDatagrams} {e : ClientUdpEvent}
    (hs : s.step conf e = some s') : StepCase conf s e s' := by
  cases e with
  | isEstablished =>
    simp only [step, Option.ite_none_right_eq_some, Option.some.injEq] at hs
    obtain ⟨hpc, rfl⟩ := hs
    exact .isEstablished hpc
  | connSend b =>
    simp only [step, Option.ite_none_right_eq_some] at hs
    obtain ⟨hpc, hs⟩ := hs
    cases b with
    | some b =>
      cases hs
      exact .connSend b hpc
    | none =>
      cases hs
      exact .connSendDone hpc
  | connSendFailed =>
    simp only [step, Option.ite_none_right_eq_some, Option.some.injEq] at hs
    obtain ⟨hpc, rfl⟩ := hs
    exact .failed _ (by simp [hpc]) (by simp [hpc]) rfl
  | socketSend n =>
    simp only [step] at hs
    split at hs
    next b n hpc =>
      simp only [Option.ite_none_right_eq_some, Option.some.injEq] at hs
      obtain ⟨_, rfl⟩ := hs
      exact .socketSend b n hpc
    next b hpc =>
      cases hs
      exact .failed _ (by simp [hpc]) (by simp [hpc]) rfl
    next => cases hs
  | socketRecv b =>
    simp only [step, Option.ite_none_right_eq_some] at hs
    obtain ⟨hpc, hs⟩ := hs
    cases b with
    | some b =>
      cases hs
      exact .socketRecv b hpc
    | none =>
      cases hs
      exact .failed _ (by simp [hpc]) (by simp [hpc]) rfl
  | connRecv n =>
    simp only [step] at hs
    split at hs
    next b n hpc =>
      simp only [Option.ite_none_right_eq_some, Option.some.injEq] at hs
      obtain ⟨_, rfl⟩ := hs
      exact .connRecv b n hpc
    next b hpc =>
      cases hs
      exact .failed _ (by simp [hpc]) (by simp [hpc]) rfl
    next => cases hs
  | read b =>
    simp only [step, Option.ite_none_right_eq_some] at hs
    obtain ⟨⟨hpc, hreader⟩, hs⟩ := hs
    cases b with
    | some b =>
      cases hs
      exact .read b hpc hreader
    | none =>
      cases hs
      exact .readFailed hpc hreader
  | readerSend =>
    simp only [step] at hs
    split at hs
    next b hpc hreader =>
      split at hs
      next hgone =>
        cases hs
        exact .readerSendFailed b hpc hreader hgone
      next =>
        obtain ⟨ch, hch, rfl⟩ := Option.map_eq_some_iff.mp hs
        exact .readerSend b ch hpc hreader hch
    next => cases hs
  | taskRecv =>
    simp only [step, Option.ite_none_right_eq_some] at hs
    obtain ⟨hpc, hs⟩ := hs
    split at hs
    next b ch hch =>
      obtain ⟨t, ht, rfl⟩ := Option.map_eq_some_iff.mp hs
      exact .taskRecv b ch t hpc hch ht
    next => cases hs
  | task e =>
    simp only [step, Option.ite_none_right_eq_some] at hs
    obtain ⟨⟨hpc, hnone⟩, hs⟩ := hs
    obtain ⟨t, ht, rfl⟩ := Option.map_eq_some_iff.mp hs
    exact .task e t hpc hnone ht

/-- The datagram that the handshake has yet to give to the socket. -/
def toSend (s : ClientDatagrams) : List Bytes :=
  match s.pc with
  | .writing b => [b]
  | _ => []

/-- The datagram that was read and is not in the channel yet. -/
def inHand (s : ClientDatagrams) : List Bytes :=
  match s.pc, s.reader with
  | .feeding b, _ => [b]
  | .established, .sending b => [b]
  | _, _ => []

/-- The socket and `conn.recv` take the datagrams they are given whole. -/
def TakesWhole (s : ClientDatagrams) : ClientUdpEvent → Prop
  | .socketSend (some n) => ∀ b ∈ s.toSend, n = b.length
  | .connRecv (some n) => ∀ b ∈ s.inHand, n = b.length
  | .task e => s.tasks.TakesWhole e
  | _ => True

instance (s : ClientDatagrams) : ∀ e, Decidable (s.TakesWhole e)
  | .socketSend (some _) | .connRecv (some _) => inferInstanceAs (Decidable (∀ _ ∈ _, _))
  | .task e => inferInstanceAs (Decidable (s.tasks.TakesWhole e))
  | .socketSend none | .connRecv none | .isEstablished | .connSend _ | .connSendFailed | .socketRecv _ | .read _
  | .readerSend | .taskRecv => isTrue trivial

/-- Where the datagrams are. `lost` and `unsent` are those in hand when the handshake failed,
or when the task was gone. -/
structure Conserved (conf : ClientUdpConfig) (s : ClientDatagrams) (lost unsent : List Bytes) : Prop where
  read : s.handshakeFed ++ s.tasks.feed.taken ++ s.udpDataRecv.items ++ s.inHand ++ lost = s.read
  sent : s.handshakeSent ++ s.toSend ++ unsent = s.handshakeMade
  early : s.pc ≠ .established →
    s.tasks = .connected conf.sendChanSize ∧ s.reader = .reading ∧ s.udpDataRecv.items = []
  unsent_eq : s.pc ≠ .failed → unsent = []
  lost_eq : s.pc ≠ .failed → s.reader ≠ .exited ∨ s.tasks.pc ≠ .exited → lost = []
  tasks : ∃ l, s.tasks.Conserved l
  whole : s.tasks.feed.Whole ∧ s.tasks.wire.Whole
  capacity : s.udpDataRecv.capacity = conf.recvChanSize

/-- How many datagrams the handshake may have made more than it has got. -/
def ahead : HandshakePc → Nat
  | .checking => 0
  | .established => 0
  | _ => 1

def Paced (s : ClientDatagrams) : Prop := s.handshakeMade.length ≤ s.handshakeFed.length + ahead s.pc

section Steps

variable {conf : ClientUdpConfig} {s s' : ClientDatagrams} {lost unsent lost' unsent' : List Bytes}

theorem new_conserved (conf : ClientUdpConfig) : Conserved conf (new conf) [] [] where
  read := rfl
  sent := rfl
  early := fun _ => ⟨rfl, rfl, rfl⟩
  unsent_eq := fun _ => rfl
  lost_eq := fun _ _ => rfl
  tasks := ⟨[], UdpTasks.connected_conserved _⟩
  whole := ⟨Pump.new_whole, Pump.new_whole⟩
  capacity := rfl

/-- As long as the handshake goes on nothing is lost. -/
theorem Conserved.handshake (h : Conserved conf s lost unsent) (hearly : s.pc ≠ .established)
    (hup : s.pc ≠ .failed) :
    s.handshakeFed ++ s.inHand = s.read ∧ s.handshakeSent ++ s.toSend = s.handshakeMade := by
  obtain ⟨hconnected, hreading, hempty⟩ := h.early hearly
  have hread := h.read
  have hsent := h.sent
  rw [h.unsent_eq hup, List.append_nil] at hsent
  rw [h.lost_eq hup (Or.inl (by simp [hreading])), hempty, hconnected, List.append_nil, List.append_nil] at hread
  exact ⟨by rw [← hread]; simp [UdpTasks.connected, Pump.new], hsent⟩

/-- A turn of the handshake; the tasks have not been spawned. -/
theorem Conserved.turn (h : Conserved conf s lost unsent) (hearly : s.pc ≠ .established) (hup : s.pc ≠ .failed)
    (htasks : s'.tasks = s.tasks) (hreader : s'.reader = s.reader) (hqueue : s'.udpDataRecv = s.udpDataRecv)
    (hread : s.handshakeFed ++ s.inHand = s.read → s'.handshakeFed ++ s'.inHand ++ lost' = s'.read)
    (hsent : s.handshakeSent ++ s.toSend = s.handshakeMade →
      s'.handshakeSent ++ s'.toSend ++ unsent' = s'.handshakeMade)
    (hdone : s'.pc ≠ .failed → lost' = [] ∧ unsent' = []) : Conserved conf s' lost' unsent' := by
  obtain ⟨hconnected, hreading, hempty⟩ := h.early hearly
  obtain ⟨hread₀, hsent₀⟩ := h.handshake hearly hup
  refine ⟨?_, hsent hsent₀, fun _ => ?_, fun hup => (hdone hup).2, fun hup _ => (hdone hup).1, htasks ▸ h.tasks,
    htasks ▸ h.whole, hqueue ▸ h.capacity⟩
  · rw [htasks, hqueue, hempty, hconnected, ← hread hread₀]
    simp [UdpTasks.connected, Pump.new]
  · exact ⟨htasks.trans hconnected, hreader.trans hreading, hqueue ▸ hempty⟩

/-- A step of the task, which takes the datagrams of its event. -/
theorem Conserved.task (h : Conserved conf s lost unsent) (hpc : s.pc = .established) {e : UdpEvent} {t : UdpTasks}
    {ch : Channel Bytes} (ht : s.tasks.step e = some t) (hwhole : s.tasks.TakesWhole e)
    (hch : s.udpDataRecv.items = e.received ++ ch.items) (hcapacity : ch.capacity = s.udpDataRecv.capacity) :
    Conserved conf { s with udpDataRecv := ch, tasks := t } lost unsent := by
  obtain ⟨l, hl⟩ := h.tasks
  refine ⟨?_, h.sent, fun hne => absurd hpc hne, h.unsent_eq, fun hup hgone => h.lost_eq hup ?_,
    UdpTasks.step_conserved hl ht, UdpTasks.step_whole h.whole hwhole ht, hcapacity.trans h.capacity⟩
  · rw [← h.read]
    show s.handshakeFed ++ t.feed.taken ++ ch.items ++ s.inHand ++ lost = _
    rw [UdpTasks.step_taken ht, hch, ← List.append_assoc, ← List.append_assoc]
  · exact hgone.imp_right fun hne hexited => hne (UdpTasks.step_exited hexited ht)

theorem step_conserved {e : ClientUdpEvent} (h : Conserved conf s lost unsent) (hwhole : s.TakesWhole e)
    (hs : s.step conf e = some s') : ∃ lost' unsent', Conserved conf s' lost' unsent' := by
  cases step_cases hs with
  | isEstablished hpc =>
    have hreading : s.reader = .reading := (h.early (by simp [hpc])).2.1
    refine ⟨[], [], h.turn (by simp [hpc]) (by simp [hpc]) rfl rfl rfl ?_ ?_ fun _ => ⟨rfl, rfl⟩⟩
    · simp [inHand, hpc, hreading]
    · simp [toSend, hpc]
  | connSend b hpc =>
    refine ⟨[], [], h.turn (by simp [hpc]) (by simp [hpc]) rfl rfl rfl ?_ ?_ fun _ => ⟨rfl, rfl⟩⟩
    · simp [inHand, hpc]
    · simp [toSend, hpc]
  | connSendDone hpc =>
    refine ⟨[], [], h.turn (by simp [hpc]) (by simp [hpc]) rfl rfl rfl ?_ ?_ fun _ => ⟨rfl, rfl⟩⟩
    · simp [inHand, hpc]
    · simp [toSend, hpc]
  | failed e hearly hup _ =>
    refine ⟨s.inHand, s.toSend, h.turn hearly hup rfl rfl rfl ?_ ?_ fun hne => absurd rfl hne⟩
    · exact fun hread => (congrArg (· ++ s.inHand) (List.append_nil _)).trans hread
    · exact fun hsent => (congrArg (· ++ s.toSend) (List.append_nil _)).trans hsent
  | socketSend b n hpc =>
    have hall : n = b.length := hwhole b (by simp [toSend, hpc])
    refine ⟨[], [], h.turn (by simp [hpc]) (by simp [hpc]) rfl rfl rfl ?_ ?_ fun _ => ⟨rfl, rfl⟩⟩
    · simp [inHand, hpc]
    · simp [toSend, hpc, hall]
  | socketRecv b hpc =>
    refine ⟨[], [], h.turn (by simp [hpc]) (by simp [hpc]) rfl rfl rfl ?_ ?_ fun _ => ⟨rfl, rfl⟩⟩
    · simp [inHand, hpc]
    · simp [toSend, hpc]
  | connRecv b n hpc =>
    have hall : n = b.length := hwhole b (by simp [inHand, hpc])
    refine ⟨[], [], h.turn (by simp [hpc]) (by simp [hpc]) rfl rfl rfl ?_ ?_ fun _ => ⟨rfl, rfl⟩⟩
    · simp [inHand, hpc, hall]
    · simp [toSend, hpc]
  | read b hpc hreader =>
    have hlost := h.lost_eq (by simp [hpc]) (Or.inl (by simp [hreader]))
    have hread := h.read
    simp only [inHand, hpc, hreader, hlost, List.append_nil] at hread
    refine ⟨[], unsent, ?_, h.sent, fun hne => absurd hpc hne, h.unsent_eq, fun _ _ => rfl, h.tasks, h.whole,
      h.capacity⟩
    simp only [inHand, hpc, List.append_nil, hread]
  | readFailed hpc hreader =>
    have hlost := h.lost_eq (by simp [hpc]) (Or.inl (by simp [hreader]))
    have hread := h.read
    simp only [inHand, hpc, hreader, hlost, List.append_nil] at hread
    refine ⟨[], unsent, ?_, h.sent, fun hne => absurd hpc hne, h.unsent_eq, fun _ _ => rfl, h.tasks, h.whole,
      h.capacity⟩
    simp only [inHand, hpc, List.append_nil, hread]
  | readerSend b ch hpc hreader hch =>
    have hlost := h.lost_eq (by simp [hpc]) (Or.inl (by simp [hreader]))
    have hread := h.read
    simp only [inHand, hpc, hreader, hlost, List.append_nil] at hread
    refine ⟨[], unsent, ?_, h.sent, fun hne => absurd hpc hne, h.unsent_eq, fun _ _ => rfl, h.tasks, h.whole,
      (Channel.capacity_of_send hch).trans h.capacity⟩
    simp only [inHand, hpc, List.append_nil, Channel.items_of_send hch, ← List.append_assoc, hread]
  | readerSendFailed b hpc hreader hgone =>
    have hlost := h.lost_eq (by simp [hpc]) (Or.inl (by simp [hreader]))
    have hread := h.read
    simp only [inHand, hpc, hreader, hlost, List.append_nil] at hread
    refine ⟨[b], unsent, ?_, h.sent, fun hne => absurd hpc hne, h.unsent_eq, fun _ hup => ?_, h.tasks, h.whole,
      h.capacity⟩
    · simp only [inHand, hpc, List.append_nil, hread]
    · exact absurd hgone (hup.resolve_left fun hne => hne rfl)
  | taskRecv b ch t hpc hch ht =>
    exact ⟨lost, unsent, h.task hpc ht trivial (Channel.items_of_recv hch) (Channel.capacity_of_recv hch)⟩
  | task e t hpc hnone ht =>
    exact ⟨lost, unsent, h.task hpc ht hwhole (by rw [hnone, List.nil_append]) rfl⟩

theorem ahead_le (pc : HandshakePc) : ahead pc ≤ 1 := by
  cases pc <;> simp [ahead]

theorem length_inHand_le (s : ClientDatagrams) : s.inHand.length ≤ 1 := by
  unfold inHand
  split <;> simp

/-- What the tasks have of the datagrams that were read. -/
theorem Conserved.fed_front (h : Conserved conf s lost unsent) :
    Pump.nonempty s.handshakeFed ++ s.tasks.feed.pieces <+: Pump.nonempty s.read := by
  have hfed : s.handshakeFed ++ s.tasks.feed.taken <+: s.read := by
    rw [← h.read, List.append_assoc _ s.udpDataRecv.items, List.append_assoc _ _ lost]
    exact List.prefix_append _ _
  refine List.IsPrefix.trans ?_ (hfed.filter _)
  rw [List.filter_append]
  exact (List.prefix_append_right_inj _).mpr h.whole.1.pieces_front

/-- The tasks send nothing before the handshake has sent all of its own. -/
theorem Conserved.sent_front (h : Conserved conf s lost unsent) :
    Pump.nonempty s.handshakeSent ++ s.tasks.wire.pieces <+: Pump.nonempty (s.handshakeMade ++ s.tasks.made) := by
  rw [Pump.nonempty_append]
  by_cases hpc : s.pc = .established
  · have hall : s.handshakeSent = s.handshakeMade := by
      rw [← h.sent, h.unsent_eq (by simp [hpc])]
      simp [toSend, hpc]
    obtain ⟨l, hl⟩ := h.tasks
    have hmade : s.tasks.wire.taken <+: s.tasks.made := by
      rw [← hl.made, List.append_assoc, List.append_assoc]
      exact List.prefix_append _ _
    rw [hall]
    exact (List.prefix_append_right_inj _).mpr (h.whole.2.pieces_front.trans (hmade.filter _))
  · obtain ⟨hconnected, _, _⟩ := h.early hpc
    have hsent : s.handshakeSent <+: s.handshakeMade := by
      rw [← h.sent, List.append_assoc]
      exact List.prefix_append _ _
    rw [hconnected]
    simpa [UdpTasks.connected, Pump.new, Pump.nonempty] using hsent.filter _

/-- The handshake makes a datagram, at most, before it waits for one. -/
theorem step_paced {e : ClientUdpEvent} (h : s.Paced) (hs : s.step conf e = some s') : s'.Paced := by
  cases step_cases hs with
  | isEstablished hpc | connSendDone hpc =>
    simp only [Paced, hpc, ahead] at h ⊢
    omega
  | connSend b hpc =>
    simp only [Paced, hpc, ahead, List.length_append, List.length_singleton] at h ⊢
    omega
  | failed e hearly hup _ =>
    exact Nat.le_trans h (Nat.add_le_add_left (ahead_le s.pc) _)
  | socketSend b n hpc | socketRecv b hpc =>
    simp only [Paced, hpc, ahead] at h ⊢
    exact h
  | connRecv b n hpc =>
    simp only [Paced, hpc, ahead, List.length_append, List.length_singleton] at h ⊢
    exact h
  | _ => exact h

theorem step_read {e : ClientUdpEvent} (hs : s.step conf e = some s') : s'.read = s.read ++ e.datagram conf := by
  cases step_cases hs with
  | failed e _ _ hnone => rw [hnone, List.append_nil]
  | socketRecv | read => rfl
  | _ => exact (List.append_nil _).symm

end Steps

/-- The datagrams of a client's connection both ways, through the handshake and after it.
As long as the socket and `conn.recv` take them whole, `conn.recv` gets those that were
read from the socket in their order, and while the tasks are up none is missing: the
others are in the channel or in hand, never more than the channel has room for and one.
The socket gets those that `conn.send` made, the handshake's before all others; the
handshake makes one at most for each it has got, and one more; and before it is done
no task runs. -/
theorem datagrams_handed_over (conf : ClientUdpConfig) (events : List ClientUdpEvent) (s : ClientDatagrams)
    (hwhole : Machine.Meets (step conf) TakesWhole (new conf) events)
    (hrun : Machine.run (step conf) (new conf) events = some s) :
    (Pump.nonempty s.handshakeFed ++ s.tasks.feed.pieces <+:
        Pump.nonempty (events.flatMap fun e => e.datagram conf) ∧
      (s.pc ≠ .failed → s.tasks.pc ≠ .exited →
        s.handshakeFed ++ s.tasks.feed.taken ++ s.udpDataRecv.items ++ s.inHand =
          events.flatMap (fun e => e.datagram conf) ∧
        (s.udpDataRecv.items ++ s.inHand).length ≤ conf.recvChanSize + 1)) ∧
    Pump.nonempty s.handshakeSent ++ s.tasks.wire.pieces <+: Pump.nonempty (s.handshakeMade ++ s.tasks.made) ∧
    s.handshakeMade.length ≤ s.handshakeFed.length + 1 ∧
    (s.pc ≠ .established → s.tasks = .connected conf.sendChanSize) := by
  have hstep : ∀ s e s', (∃ lost unsent, Conserved conf s lost unsent) → s.TakesWhole e → s.step conf e = some s' →
      ∃ lost unsent, Conserved conf s' lost unsent := by
    rintro s e s' ⟨lost, unsent, h⟩ hwhole hs
    exact step_conserved h hwhole hs
  obtain ⟨lost, unsent, h⟩ := Machine.run_invariant_of_meets hstep ⟨[], [], new_conserved conf⟩ hwhole hrun
  have hread : s.read = events.flatMap fun e => e.datagram conf :=
    Machine.run_collect (fun _ _ _ hs => step_read hs) hrun
  have hnew : (new conf).Paced := Nat.le_refl 0
  have hpaced : s.Paced := Machine.run_invariant (fun _ _ _ h hs => step_paced h hs) hnew hrun
  refine ⟨⟨hread ▸ h.fed_front, fun hup hlive => ⟨?_, ?_⟩⟩, h.sent_front, ?_, fun hpc => (h.early hpc).1⟩
  · rw [← hread, ← h.read, h.lost_eq hup (Or.inr hlive), List.append_nil]
  · have hqueue := s.udpDataRecv.length_le
    have hhand := s.length_inHand_le
    rw [h.capacity] at hqueue
    rw [List.length_append]
    omega
  · exact hpaced.trans (Nat.add_le_add_left (ahead_le _) _)

/-- A handshake of one datagram each way; of the datagrams after it one is fed, one is in
the channel, and one waits for room there. -/
def handshakeEvents : List ClientUdpEvent :=
  [.connSend (some [1, 2]), .socketSend (some 2), .socketRecv (some [3]), .connRecv (some 1), .isEstablished,
    .read (some [4, 5]), .readerSend, .taskRecv, .read (some [6]), .readerSend, .task (.connRecv (some 2)),
    .read (some [7])]

theorem datagrams_handed_over_backlog :
    ∃ s, Machine.run (step ⟨1500, none, 1, 1⟩) (new ⟨1500, none, 1, 1⟩) handshakeEvents = some s ∧
      s.handshakeFed ++ s.tasks.feed.pieces = [[3], [4, 5]] ∧
      s.handshakeFed ++ s.tasks.feed.taken ++ s.udpDataRecv.items ++ s.inHand = [[3], [4, 5], [6], [7]] := by
  have hend : (Machine.run (step ⟨1500, none, 1, 1⟩) (new ⟨1500, none, 1, 1⟩) handshakeEvents).any
      (fun s => decide (s.handshakeFed ++ s.tasks.feed.pieces = [[3], [4, 5]] ∧ s.pc ≠ .failed ∧
        s.tasks.pc ≠ .exited)) = true := by decide +kernel
  obtain ⟨s, hrun, h⟩ := (Option.any_eq_true _ _).mp hend
  obtain ⟨hfed, hup, hlive⟩ := of_decide_eq_true h
  obtain ⟨⟨_, hall⟩, _⟩ :=
    datagrams_handed_over ⟨1500, none, 1, 1⟩ handshakeEvents s (by decide +kernel) hrun
  exact ⟨s, hrun, hfed, (hall hup hlive).1⟩

end ClientDatagrams

end QuoteLink

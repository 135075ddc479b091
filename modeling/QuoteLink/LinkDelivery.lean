import QuoteLink.Channel
import QuoteLink.LinkStream
import QuoteLink.LinkWrite

open Reader

namespace QuoteLink

/-- Where the receiving `quic_process_loop` stands: in `select!`, in its
`'stream_read` loop, there with a chunk to hand on and the stream's `fin`, or gone. -/
inductive StreamRecvPc
  | select
  | reading
  | sending (b : Bytes) (fin : Bool)
  | exited
  deriving DecidableEq, Repr

structure DeliveryConfig where
  streamSendBufferSize : Nat
  streamReadBufferSize : Nat
  quicDataSend : Nat
  quicDataRecv : Nat
  response : Nat
  /-- after how many packets the receiver of `response_tx` is dropped -/
  closedAfter : Option Nat
  deriving DecidableEq, Repr

/-- One direction of a link: the sender's `link_write_loop` and `quic_process_loop`,
QUIC stream 0, the receiver's `quic_process_loop` and `link_read_loop`, and the
channels between them. `requests` are the packets taken from `request_rx` so far,
`streamRecv` counts the bytes that `stream_recv` has returned, `parsed` lists what
`parse_packet_buf` has yet to put on `response_tx`, and `delivered` what was taken
from there. -/
structure LinkDelivery where
  requests : List Packet
  writer : Option Bytes
  quicDataSend : Channel Bytes
  sender : QuicSend
  streamRecv : Nat
  receiver : StreamRecvPc
  quicDataRecv : Channel Bytes
  reader : LinkRead
  parsed : List Packet
  response : Channel Packet
  delivered : List Packet
  deriving DecidableEq, Repr

inductive DeliveryEvent
  | request (packet : Packet)
  | writerSend
  | frameTake
  | quic (e : QuicEvent)
  | udpRecv
  | streamRecv (n : Nat) (fin : Bool)
  | streamDone
  | recvSend
  | recvLeave
  | readerTake
  | readerSend
  | consume
  deriving DecidableEq, Repr

namespace LinkDelivery

def new (conf : DeliveryConfig) : LinkDelivery where
  requests := []
  writer := none
  quicDataSend := .empty conf.quicDataSend
  sender := .new conf.streamSendBufferSize
  streamRecv := 0
  receiver := .select
  quicDataRecv := .empty conf.quicDataRecv
  reader := .new conf.streamReadBufferSize conf.closedAfter
  parsed := []
  response := .empty conf.response
  delivered := []

/-- One step of one of the four loops, of the network, or of the consumer. QUIC
hands the bytes of a stream over in order, at most a buffer at a time. -/
def step (conf : DeliveryConfig) (s : LinkDelivery) : DeliveryEvent → Option LinkDelivery
  | .request packet =>
    match s.writer, packet.toBytes with
    | none, .ok data => some { s with requests := s.requests ++ [packet], writer := some data }
    | _, _ => none
  | .writerSend =>
    match s.writer, s.sender.running with
    | some data, true =>
      (s.quicDataSend.send data).map fun ch => { s with writer := none, quicDataSend := ch }
    | _, _ => none
  | .frameTake =>
    match s.quicDataSend.recv with
    | some (b, ch) => (s.sender.step (.recv b)).map fun q => { s with quicDataSend := ch, sender := q }
    | none => none
  | .quic e =>
    match e.received with
    | [] => (s.sender.step e).map fun q => { s with sender := q }
    | _ => none
  | .udpRecv =>
    match s.receiver with
    | .select => some { s with receiver := .reading }
    | _ => none
  | .streamRecv n fin =>
    match s.receiver with
    | .reading =>
      if n ≤ conf.streamReadBufferSize ∧ s.streamRecv + n ≤ s.sender.conn.written.length then
        some { s with
          streamRecv := s.streamRecv + n
          receiver := .sending ((s.sender.conn.written.drop s.streamRecv).take n) fin }
      else none
    | _ => none
  | .streamDone =>
    match s.receiver with
    | .reading => some { s with receiver := .select }
    | _ => none
  | .recvSend =>
    match s.receiver, s.reader.exit with
    | .sending b fin, none =>
      (s.quicDataRecv.send b).map fun ch =>
        { s with receiver := if fin then .exited else .reading, quicDataRecv := ch }
    -- `quic_data_recv_rx` went with the reader
    | .sending _ _, some _ => some { s with receiver := .exited }
    | _, _ => none
  | .recvLeave =>
    match s.receiver with
    | .select | .reading => some { s with receiver := .exited }
    | _ => none
  | .readerTake =>
    match s.parsed, s.reader.exit, s.quicDataRecv.recv with
    | [], none, some (b, ch) =>
      some { s with
        reader := s.reader.step b
        parsed := (s.reader.step b).responseTx.sent.drop s.reader.responseTx.sent.length
        quicDataRecv := ch }
    | _, _, _ => none
  | .readerSend =>
    match s.parsed with
    | p :: todo => (s.response.send p).map fun ch => { s with parsed := todo, response := ch }
    | [] => none
  | .consume =>
    match s.response.recv with
    | some (p, ch) => some { s with response := ch, delivered := s.delivered ++ [p] }
    | none => none

/-- The chunk the receiving loop is about to hand on. -/
def inHand (s : LinkDelivery) : Bytes :=
  match s.receiver with
  | .sending b _ => b
  | _ => []

/-- Where the packets, the frames and the bytes are: `chunks` is what the reader has
taken so far, and `lost` what the receiving loop dropped when it left. -/
structure Conserved (conf : DeliveryConfig) (s : LinkDelivery) (chunks : List Bytes) (lost : Bytes) : Prop where
  integrity : s.sender.Integrity
  decided : s.sender.frames.map (·.1) <+: s.requests.map Packet.encoding
  inFlight : s.sender.running = true →
    s.sender.taken ++ s.quicDataSend.items ++ s.writer.toList = s.requests.map Packet.encoding
  reader : s.reader = LinkRead.run conf.streamReadBufferSize conf.closedAfter chunks
  streamRecv_le : s.streamRecv ≤ s.sender.conn.written.length
  bytes : chunks.flatten ++ s.quicDataRecv.items.flatten ++ s.inHand ++ lost =
    s.sender.conn.written.take s.streamRecv
  lost_eq : s.receiver ≠ .exited → lost = []
  packets : s.delivered ++ s.response.items ++ s.parsed = s.reader.responseTx.sent

section Steps

variable {conf : DeliveryConfig} {s s' : LinkDelivery} {chunks : List Bytes} {lost : Bytes}

theorem new_conserved (conf : DeliveryConfig) : Conserved conf (new conf) [] [] where
  integrity := QuicSend.new_integrity conf.streamSendBufferSize
  decided := List.nil_prefix
  inFlight := fun _ => rfl
  reader := rfl
  streamRecv_le := Nat.zero_le _
  bytes := rfl
  lost_eq := fun _ => rfl
  packets := rfl

/-- A step of the sending `quic_process_loop` takes the frames of its event from the
channel; what is on the stream stays there. -/
theorem Conserved.quic (h : Conserved conf s chunks lost) {e : QuicEvent} {q : QuicSend} {ch : Channel Bytes}
    (hq : s.sender.step e = some q) (hch : e.received ++ ch.items = s.quicDataSend.items) :
    Conserved conf { s with quicDataSend := ch, sender := q } chunks lost := by
  have hflight := h.inFlight (QuicSend.running_of_step hq)
  obtain ⟨more, hmore⟩ := QuicSend.step_written hq
  refine ⟨QuicSend.step_integrity h.integrity hq, ?_, ?_, h.reader, ?_, ?_, h.lost_eq, h.packets⟩
  · refine (QuicSend.step_frames hq).trans ?_
    rw [← hflight, List.append_assoc]
    exact List.prefix_append _ _
  · intro hr
    have htaken := (QuicSend.step_taken hq hr).2
    show q.taken ++ ch.items ++ s.writer.toList = _
    rw [htaken, List.append_assoc s.sender.taken, hch]
    exact hflight
  · show s.streamRecv ≤ q.conn.written.length
    rw [← hmore, List.length_append]
    have hle := h.streamRecv_le
    omega
  · show _ = q.conn.written.take s.streamRecv
    rw [← hmore, List.take_append_of_le_length h.streamRecv_le]
    exact h.bytes

/-- A turn of the reader takes a chunk and parses the packets it completes. -/
theorem Conserved.readerTake (h : Conserved conf s chunks lost) {b : Bytes} {ch : Channel Bytes}
    (hparsed : s.parsed = []) (hch : s.quicDataRecv.items = b :: ch.items) :
    Conserved conf { s with
      reader := s.reader.step b
      parsed := (s.reader.step b).responseTx.sent.drop s.reader.responseTx.sent.length
      quicDataRecv := ch } (chunks ++ [b]) lost := by
  obtain ⟨got, hgot, _⟩ := LinkRead.step_sent conf.streamReadBufferSize conf.closedAfter chunks b
  rw [← h.reader] at hgot
  have hpackets := h.packets
  rw [hparsed, List.append_nil] at hpackets
  have hbytes := h.bytes
  rw [hch, List.flatten_cons] at hbytes
  refine ⟨h.integrity, h.decided, h.inFlight, ?_, h.streamRecv_le, ?_, h.lost_eq, ?_⟩
  · show s.reader.step b = _
    rw [LinkRead.run_append, h.reader]
  · show (chunks ++ [b]).flatten ++ ch.items.flatten ++ s.inHand ++ lost = _
    rw [List.flatten_append, List.flatten_singleton, List.append_assoc chunks.flatten, hbytes]
  · show s.delivered ++ s.response.items ++ (s.reader.step b).responseTx.sent.drop _ = _
    rw [hgot, List.drop_left, hpackets]

theorem step_conserved {e : DeliveryEvent} (h : Conserved conf s chunks lost) (hs : s.step conf e = some s') :
    ∃ chunks' lost', Conserved conf s' chunks' lost' := by
  cases e with
  | request packet =>
    simp only [step] at hs
    split at hs
    next data hwriter hbytes =>
      cases hs
      have hdata : data = packet.encoding := Except.ok.inj (hbytes.symm.trans packet.toBytes_eq)
      refine ⟨chunks, lost, h.integrity, ?_, ?_, h.reader, h.streamRecv_le, h.bytes, h.lost_eq, h.packets⟩
      · show _ <+: (s.requests ++ [packet]).map Packet.encoding
        rw [List.map_append]
        exact h.decided.trans (List.prefix_append _ _)
      · intro hr
        have hflight := h.inFlight hr
        rw [hwriter, Option.toList_none, List.append_nil] at hflight
        show s.sender.taken ++ s.quicDataSend.items ++ [data] = (s.requests ++ [packet]).map Packet.encoding
        rw [hflight, List.map_append, hdata]
        rfl
    next => cases hs
  | writerSend =>
    simp only [step] at hs
    split at hs
    next data hwriter hr =>
      obtain ⟨ch, hch, rfl⟩ := Option.map_eq_some_iff.mp hs
      have hitems := Channel.items_of_send hch
      refine ⟨chunks, lost, h.integrity, h.decided, ?_, h.reader, h.streamRecv_le, h.bytes, h.lost_eq, h.packets⟩
      intro hr
      have hflight := h.inFlight hr
      rw [hwriter] at hflight
      show s.sender.taken ++ ch.items ++ [] = _
      rw [hitems, List.append_nil, ← List.append_assoc]
      exact hflight
    next => cases hs
  | frameTake =>
    simp only [step] at hs
    split at hs
    next b ch hch =>
      obtain ⟨q, hq, rfl⟩ := Option.map_eq_some_iff.mp hs
      exact ⟨chunks, lost, h.quic hq (Channel.items_of_recv hch).symm⟩
    next => cases hs
  | quic e =>
    simp only [step] at hs
    split at hs
    next hnone =>
      obtain ⟨q, hq, rfl⟩ := Option.map_eq_some_iff.mp hs
      have hsame : e.received ++ s.quicDataSend.items = s.quicDataSend.items := by rw [hnone, List.nil_append]
      exact ⟨chunks, lost, h.quic hq hsame⟩
    next => cases hs
  | udpRecv =>
    simp only [step] at hs
    split at hs
    next hpc =>
      cases hs
      have hbytes := h.bytes
      have hlost := h.lost_eq
      simp only [inHand, hpc] at hbytes
      rw [hpc] at hlost
      exact ⟨chunks, lost, h.integrity, h.decided, h.inFlight, h.reader, h.streamRecv_le, hbytes,
        fun _ => hlost StreamRecvPc.noConfusion, h.packets⟩
    next => cases hs
  | streamRecv n fin =>
    simp only [step] at hs
    split at hs
    next hpc =>
      simp only [Option.ite_none_right_eq_some, Option.some.injEq] at hs
      obtain ⟨⟨_, hn⟩, rfl⟩ := hs
      have hlost : lost = [] := h.lost_eq (by rw [hpc]; exact StreamRecvPc.noConfusion)
      have hbytes := h.bytes
      simp only [inHand, hpc, hlost, List.append_nil] at hbytes
      refine ⟨chunks, [], h.integrity, h.decided, h.inFlight, h.reader, hn, ?_, fun _ => rfl, h.packets⟩
      show _ ++ _ ++ (s.sender.conn.written.drop s.streamRecv).take n ++ [] = _
      rw [hbytes, List.append_nil, ← List.take_add]
    next => cases hs
  | streamDone =>
    simp only [step] at hs
    split at hs
    next hpc =>
      cases hs
      have hbytes := h.bytes
      have hlost := h.lost_eq
      simp only [inHand, hpc] at hbytes
      rw [hpc] at hlost
      exact ⟨chunks, lost, h.integrity, h.decided, h.inFlight, h.reader, h.streamRecv_le, hbytes,
        fun _ => hlost StreamRecvPc.noConfusion, h.packets⟩
    next => cases hs
  | recvSend =>
    have hbytes := h.bytes
    have hlost := h.lost_eq
    simp only [step] at hs
    split at hs
    next b fin hpc _ =>
      obtain ⟨ch, hch, rfl⟩ := Option.map_eq_some_iff.mp hs
      have hitems := Channel.items_of_send hch
      rw [hpc] at hlost
      simp only [inHand, hpc, hlost StreamRecvPc.noConfusion, List.append_nil] at hbytes
      refine ⟨chunks, [], h.integrity, h.decided, h.inFlight, h.reader, h.streamRecv_le, ?_, fun _ => rfl, h.packets⟩
      have hhand : inHand { s with receiver := if fin then .exited else .reading, quicDataRecv := ch } = [] := by
        cases fin <;> rfl
      show chunks.flatten ++ ch.items.flatten ++ inHand _ ++ [] = _
      rw [hhand, hitems, List.flatten_append, List.flatten_singleton, List.append_nil, List.append_nil,
        ← List.append_assoc]
      exact hbytes
    next b fin e hpc _ =>
      cases hs
      rw [hpc] at hlost
      simp only [inHand, hpc, hlost StreamRecvPc.noConfusion, List.append_nil] at hbytes
      refine ⟨chunks, b, h.integrity, h.decided, h.inFlight, h.reader, h.streamRecv_le, ?_,
        fun hne => absurd rfl hne, h.packets⟩
      show chunks.flatten ++ s.quicDataRecv.items.flatten ++ [] ++ b = _
      rw [List.append_nil]
      exact hbytes
    next => cases hs
  | recvLeave =>
    have hbytes := h.bytes
    simp only [step] at hs
    split at hs
    next hpc =>
      cases hs
      simp only [inHand, hpc] at hbytes
      exact ⟨chunks, lost, h.integrity, h.decided, h.inFlight, h.reader, h.streamRecv_le, hbytes,
        fun hne => absurd rfl hne, h.packets⟩
    next hpc =>
      cases hs
      simp only [inHand, hpc] at hbytes
      exact ⟨chunks, lost, h.integrity, h.decided, h.inFlight, h.reader, h.streamRecv_le, hbytes,
        fun hne => absurd rfl hne, h.packets⟩
    next => cases hs
  | readerTake =>
    simp only [step] at hs
    split at hs
    next b ch hparsed _ hch =>
      cases hs
      exact ⟨chunks ++ [b], lost, h.readerTake hparsed (Channel.items_of_recv hch)⟩
    next => cases hs
  | readerSend =>
    simp only [step] at hs
    split at hs
    next p todo hparsed =>
      obtain ⟨ch, hch, rfl⟩ := Option.map_eq_some_iff.mp hs
      have hitems := Channel.items_of_send hch
      have hpackets := h.packets
      rw [hparsed] at hpackets
      refine ⟨chunks, lost, h.integrity, h.decided, h.inFlight, h.reader, h.streamRecv_le, h.bytes, h.lost_eq, ?_⟩
      show s.delivered ++ ch.items ++ todo = _
      rw [hitems, ← hpackets]
      simp only [List.append_assoc, List.singleton_append]
    next => cases hs
  | consume =>
    simp only [step] at hs
    split at hs
    next p ch hch =>
      cases hs
      have hpackets := h.packets
      rw [Channel.items_of_recv hch] at hpackets
      refine ⟨chunks, lost, h.integrity, h.decided, h.inFlight, h.reader, h.streamRecv_le, h.bytes, h.lost_eq, ?_⟩
      show s.delivered ++ [p] ++ ch.items ++ s.parsed = _
      rw [← hpackets]
      simp only [List.append_assoc, List.singleton_append]
    next => cases hs

theorem run_conserved {events : List DeliveryEvent} (hrun : Machine.run (step conf) (new conf) events = some s) :
    ∃ chunks lost, Conserved conf s chunks lost := by
  have hstep : ∀ s e s', (∃ chunks lost, Conserved conf s chunks lost) → s.step conf e = some s' →
      ∃ chunks lost, Conserved conf s' chunks lost := by
    rintro s e s' ⟨chunks, lost, h⟩ hs
    exact step_conserved h hs
  exact Machine.run_invariant hstep ⟨[], [], new_conserved conf⟩ hrun

theorem stream_kept {packets : List Packet} (hkept : s.sender.kept = packets.map Packet.encoding) :
    s.sender.kept.flatten = packets.flatMap Packet.encoding := by
  rw [hkept, List.flatMap_def]

/-- The frames that were kept are those of some of the packets, in their order. -/
theorem Conserved.exists_kept (h : Conserved conf s chunks lost) :
    ∃ packets : List Packet, packets.Sublist s.requests ∧ s.sender.kept = packets.map Packet.encoding := by
  have hdecided : s.sender.kept.Sublist (s.sender.frames.map (·.1)) :=
    List.Sublist.map Prod.fst List.filter_sublist
  exact List.sublist_map_iff.mp (hdecided.trans h.decided.sublist)

/-- The reader has taken a front of the stream of the kept packets. -/
theorem Conserved.chunks_prefix (h : Conserved conf s chunks lost) {packets : List Packet}
    (hkept : s.sender.kept = packets.map Packet.encoding) : chunks.flatten <+: packets.flatMap Packet.encoding := by
  have hstream := h.integrity.written_prefix
  rw [stream_kept hkept] at hstream
  have htake := h.bytes
  rw [List.append_assoc, List.append_assoc] at htake
  exact ((List.prefix_append _ _).trans (htake ▸ List.take_prefix _ _)).trans hstream

theorem Conserved.delivered_prefix (h : Conserved conf s chunks lost) {packets : List Packet}
    (hwf : ∀ p ∈ packets, p.WellFormed) (hkept : s.sender.kept = packets.map Packet.encoding) :
    s.delivered <+: packets := by
  have hread : Packet.reader.drain (packets.flatMap Packet.encoding) = (packets, []) :=
    (drain_flatMap_write_iff Packet.reader_progress Packet.reader_inverse packets).mpr hwf
  have hsent := LinkRead.run_sent_prefix conf.streamReadBufferSize conf.closedAfter chunks
  rw [← h.reader, ← h.packets, List.append_assoc] at hsent
  have hfront := drain_mono Packet.reader_progress (h.chunks_prefix hkept)
  rw [hread] at hfront
  exact (List.prefix_append _ _).trans (hsent.trans hfront)

/-- Nothing is on its way any more: both ends are up, and every queue, buffer and
branch in between is empty. -/
structure AtRest (s : LinkDelivery) : Prop where
  writer : s.writer = none
  quicDataSend : s.quicDataSend.items = []
  sender : s.sender.pc = .select
  streamSendBuffer : s.sender.streamSendBuffer.isEmpty = true
  streamRecv : s.streamRecv = s.sender.conn.written.length
  receiver : s.receiver = .select
  quicDataRecv : s.quicDataRecv.items = []
  reader : s.reader.exit = none
  parsed : s.parsed = []
  response : s.response.items = []

instance (s : LinkDelivery) : Decidable s.AtRest :=
  decidable_of_iff
    (s.writer = none ∧ s.quicDataSend.items = [] ∧ s.sender.pc = .select ∧
      s.sender.streamSendBuffer.isEmpty = true ∧ s.streamRecv = s.sender.conn.written.length ∧
      s.receiver = .select ∧ s.quicDataRecv.items = [] ∧ s.reader.exit = none ∧ s.parsed = [] ∧
      s.response.items = [])
    ⟨fun ⟨h1, h2, h3, h4, h5, h6, h7, h8, h9, h10⟩ => ⟨h1, h2, h3, h4, h5, h6, h7, h8, h9, h10⟩,
      fun ⟨h1, h2, h3, h4, h5, h6, h7, h8, h9, h10⟩ => ⟨h1, h2, h3, h4, h5, h6, h7, h8, h9, h10⟩⟩

theorem Conserved.delivered_eq (h : Conserved conf s chunks lost) (hrest : s.AtRest) {packets : List Packet}
    (hwf : ∀ p ∈ packets, p.WellFormed) (hkept : s.sender.kept = packets.map Packet.encoding) :
    s.delivered = packets := by
  have hread : Packet.reader.drain (packets.flatMap Packet.encoding) = (packets, []) :=
    (drain_flatMap_write_iff Packet.reader_progress Packet.reader_inverse packets).mpr hwf
  have hplaced : s.sender.Placed [] := by simpa only [QuicSend.Integrity, hrest.sender] using h.integrity
  have hstream := hplaced.bytes
  rw [hplaced.valid.isEmpty_iff.mp hrest.streamSendBuffer, List.append_nil, List.append_nil,
    stream_kept hkept] at hstream
  have hlost : lost = [] := h.lost_eq (by rw [hrest.receiver]; exact StreamRecvPc.noConfusion)
  have hchunks := h.bytes
  simp only [inHand, hrest.receiver, hlost, hrest.quicDataRecv, hrest.streamRecv, List.flatten_nil,
    List.append_nil, List.take_length] at hchunks
  have halive : (LinkRead.run conf.streamReadBufferSize conf.closedAfter chunks).exit = none := by
    rw [← h.reader]
    exact hrest.reader
  have hsent := (LinkRead.run_alive halive).sent
  have hpackets := h.packets
  rw [hrest.response, hrest.parsed, List.append_nil, List.append_nil, h.reader, hsent, hchunks, hstream,
    hread] at hpackets
  exact hpackets

/-- Without a drop, and with nothing on its way, the kept frames are all of them. -/
theorem Conserved.kept_eq (h : Conserved conf s chunks lost) (hrest : s.AtRest)
    (hnodrop : ∀ f ∈ s.sender.frames, f.2 = true) : s.sender.kept = s.requests.map Packet.encoding := by
  have hrunning : s.sender.running = true := by rw [QuicSend.running, hrest.sender]
  have hflight := h.inFlight hrunning
  rw [hrest.quicDataSend, hrest.writer, Option.toList_none, List.append_nil, List.append_nil,
    QuicSend.taken, QuicSend.undecided, hrest.sender, List.append_nil] at hflight
  rw [QuicSend.kept, List.filter_eq_self.mpr hnodrop]
  exact hflight

end Steps

/-- What the consumer has got, in every state of every run and however the loops
ended, are the first of the packets whose frames were kept, whole and in order;
the kept ones are the packets written less those whose frames were dropped. -/
theorem delivered_in_order (conf : DeliveryConfig) (events : List DeliveryEvent) (s : LinkDelivery)
    (hrun : Machine.run (step conf) (new conf) events = some s) (hwf : ∀ p ∈ s.requests, p.WellFormed) :
    ∃ kept : List Packet, kept.Sublist s.requests ∧ s.sender.kept = kept.map Packet.encoding ∧
      s.delivered <+: kept := by
  obtain ⟨chunks, lost, h⟩ := run_conserved hrun
  obtain ⟨kept, hsub, hkept⟩ := h.exists_kept
  exact ⟨kept, hsub, hkept, h.delivered_prefix (fun p hp => hwf p (hsub.subset hp)) hkept⟩

/-- With both ends up and nothing on its way the consumer has got every packet whose
frame was kept, and every packet written if no frame was dropped. -/
theorem delivered_at_rest (conf : DeliveryConfig) (events : List DeliveryEvent) (s : LinkDelivery)
    (hrun : Machine.run (step conf) (new conf) events = some s) (hwf : ∀ p ∈ s.requests, p.WellFormed)
    (hrest : s.AtRest) :
    s.delivered.map Packet.encoding = s.sender.kept ∧
      ((∀ f ∈ s.sender.frames, f.2 = true) → s.delivered = s.requests) := by
  obtain ⟨chunks, lost, h⟩ := run_conserved hrun
  constructor
  · obtain ⟨kept, hsub, hkept⟩ := h.exists_kept
    rw [h.delivered_eq hrest (fun p hp => hwf p (hsub.subset hp)) hkept, hkept]
  · exact fun hnodrop => h.delivered_eq hrest hwf (h.kept_eq hrest hnodrop)

/-- A heartbeat is sent in part and its tail flushed by the next tick; a request too
long for the send buffer is dropped; the heartbeat arrives in two chunks. -/
def deliveryEvents : List DeliveryEvent :=
  [.request (.request ⟨0, .heartbeat, 1, 5, 2, [8, 7]⟩), .writerSend, .frameTake, .quic .loopEnd,
    .quic (.streamSend (.ok 3) true), .quic (.streamSend .done true),
    .request (.request ⟨0, .cmdSubDepth, 2, 5, 9, [1, 2, 3, 4, 5, 6, 7, 8, 9]⟩), .writerSend, .udpRecv,
    .streamRecv 3 false, .recvSend, .streamDone, .quic (.otherBranch false), .quic .tick,
    .quic (.streamSend (.ok 7) true), .quic .loopEnd, .quic (.tickEnd none false false), .frameTake,
    .quic .loopEnd, .readerTake, .udpRecv, .streamRecv 7 false, .recvSend, .streamDone, .readerTake,
    .readerSend, .consume]

theorem delivered_in_order_dropped :
    ∃ s, Machine.run (step ⟨16, 16, 1, 1, 1, none⟩) (new ⟨16, 16, 1, 1, 1, none⟩) deliveryEvents = some s ∧
      ∃ kept : List Packet, kept.Sublist s.requests ∧ s.sender.kept = kept.map Packet.encoding ∧
        s.delivered <+: kept := by
  have hend : (Machine.run (step ⟨16, 16, 1, 1, 1, none⟩) (new ⟨16, 16, 1, 1, 1, none⟩) deliveryEvents).any
      (fun s => decide (∀ p ∈ s.requests, p.WellFormed)) = true := by decide +kernel
  obtain ⟨s, hrun, hwf⟩ := (Option.any_eq_true _ _).mp hend
  exact ⟨s, hrun, delivered_in_order ⟨16, 16, 1, 1, 1, none⟩ deliveryEvents s hrun (of_decide_eq_true hwf)⟩

theorem delivered_at_rest_dropped :
    ∃ s, Machine.run (step ⟨16, 16, 1, 1, 1, none⟩) (new ⟨16, 16, 1, 1, 1, none⟩) deliveryEvents = some s ∧
      s.delivered.map Packet.encoding = s.sender.kept ∧
      s.delivered = [.request ⟨0, .heartbeat, 1, 5, 2, [8, 7]⟩] := by
  have hend : (Machine.run (step ⟨16, 16, 1, 1, 1, none⟩) (new ⟨16, 16, 1, 1, 1, none⟩) deliveryEvents).any
      (fun s => decide ((∀ p ∈ s.requests, p.WellFormed) ∧ s.AtRest ∧
        s.delivered = [.request ⟨0, .heartbeat, 1, 5, 2, [8, 7]⟩])) = true := by decide +kernel
  obtain ⟨s, hrun, h⟩ := (Option.any_eq_true _ _).mp hend
  obtain ⟨hwf, hrest, hgot⟩ := of_decide_eq_true h
  exact ⟨s, hrun, (delivered_at_rest ⟨16, 16, 1, 1, 1, none⟩ deliveryEvents s hrun hwf hrest).1, hgot⟩

end LinkDelivery

end QuoteLink

import QuoteLink.Channel
import QuoteLink.ClientLink
import QuoteLink.LinkRead

namespace QuoteLink

/-- `quic_process_loop` as far as it feeds `quic_data_recv_tx`: in `select!`, in
its `'stream_read` loop, or there with a chunk to hand on. -/
inductive StreamReadPc
  | select
  | reading
  | sending (b : Bytes)
  deriving DecidableEq, Repr

/-- The four tasks of a client connection and the channels between them. `data`
lists what the link data loop has yet to put on `inner_request_tx` in the branch
it is in, and `parsed` what `parse_packet_buf` has yet to put on `response_tx`;
with nothing to send these two are in their `select!`. -/
structure Pipeline where
  requestRx : List Packet
  data : List Packet
  innerRequest : Channel Packet
  writer : Option Bytes
  quicDataSend : Channel Bytes
  quic : StreamReadPc
  quicDataRecv : Channel Bytes
  reader : LinkRead
  parsed : List Packet
  innerResponse : Channel Packet

inductive PipelineEvent
  | userSend (p : Packet)
  | tick (id : UInt32) (body : Bytes)
  | takeRequest
  | takeResponse (ids : List UInt32)
  | dataSend
  | writerTake
  | writerSend
  | udpRecv
  | streamRecv (b : Bytes)
  | streamDone
  | recvSend
  | frameTake
  | readerTake
  | readerSend
  deriving DecidableEq, Repr

namespace Pipeline

/-- The capacities of the four channels. -/
structure Capacities where
  innerRequest : Nat
  quicDataSend : Nat
  quicDataRecv : Nat
  innerResponse : Nat
  deriving DecidableEq, Repr

def new (cap : Capacities) (maxStreamReadSize : Nat) : Pipeline where
  requestRx := []
  data := []
  innerRequest := .empty cap.innerRequest
  writer := none
  quicDataSend := .empty cap.quicDataSend
  quic := .select
  quicDataRecv := .empty cap.quicDataRecv
  reader := .new maxStreamReadSize none
  parsed := []
  innerResponse := .empty cap.innerResponse

/-- What the data loop sends in answer to a packet: after a successful Auth the
subscriptions, under the ids drawn for them. A failed Auth ends the connection. -/
def onResponse (prost : Prost) (conf : LinkClientConfig) (ids : List UInt32) :
    Packet → Option (List Packet)
  | .response r =>
    if r.command = .auth then
      if r.status = .success ∧ ids.length = conf.subscribes.length then
        some (List.zipWith
          (fun sub id => Packet.newSubscribe prost sub.cmd id sub.subAll sub.spanIndex)
          conf.subscribes ids)
      else none
    else some []
  | _ => some []

/-- One step of one of the four tasks, of the users, or of the network. A branch
body runs to its end before the task is back in its `select!`. -/
def step (prost : Prost) (conf : LinkClientConfig) (maxStreamReadSize : Nat) (s : Pipeline) :
    PipelineEvent → Option Pipeline
  | .userSend p => some { s with requestRx := s.requestRx ++ [p] }
  | .tick id body =>
    match s.data with
    | [] => some { s with data := [.request (newRequest .heartbeat id body)] }
    | _ => none
  | .takeRequest =>
    match s.data, s.requestRx with
    | [], p :: rest => some { s with data := [p], requestRx := rest }
    | _, _ => none
  | .takeResponse ids =>
    match s.data, s.innerResponse.recv with
    | [], some (p, ch) =>
      (onResponse prost conf ids p).map fun todo => { s with data := todo, innerResponse := ch }
    | _, _ => none
  | .dataSend =>
    match s.data with
    | p :: todo => (s.innerRequest.send p).map fun ch => { s with data := todo, innerRequest := ch }
    | [] => none
  | .writerTake =>
    match s.writer, s.innerRequest.recv with
    | none, some (p, ch) =>
      match p.toBytes with
      | .ok data => some { s with writer := some data, innerRequest := ch }
      | .error _ => none
    | _, _ => none
  | .writerSend =>
    match s.writer with
    | some data =>
      (s.quicDataSend.send data).map fun ch => { s with writer := none, quicDataSend := ch }
    | none => none
  | .udpRecv =>
    match s.quic with
    | .select => some { s with quic := .reading }
    | _ => none
  | .streamRecv b =>
    match s.quic with
    | .reading => if b.length ≤ maxStreamReadSize then some { s with quic := .sending b } else none
    | _ => none
  | .streamDone =>
    match s.quic with
    | .reading => some { s with quic := .select }
    | _ => none
  | .recvSend =>
    match s.quic with
    | .sending b =>
      (s.quicDataRecv.send b).map fun ch => { s with quic := .reading, quicDataRecv := ch }
    | _ => none
  | .frameTake =>
    match s.quic, s.quicDataSend.recv with
    | .select, some (_, ch) => some { s with quicDataSend := ch }
    | _, _ => none
  | .readerTake =>
    match s.parsed, s.reader.exit, s.quicDataRecv.recv with
    | [], none, some (b, ch) =>
      some { s with
        reader := s.reader.step b
        parsed := (s.reader.step b).responseTx.sent.drop s.reader.responseTx.sent.length
        quicDataRecv := ch }
    | _, _, _ => none
  | .readerSend =>
    match s.parsed with
    | p :: todo =>
      (s.innerResponse.send p).map fun ch => { s with parsed := todo, innerResponse := ch }
    | [] => none

def quicWaits (s : Pipeline) : Bool :=
  match s.quic with
  | .sending _ => true
  | _ => false

/-- All four tasks wait in a `send` on a full channel. -/
structure Deadlocked (s : Pipeline) : Prop where
  data : s.data ≠ []
  innerRequest : s.innerRequest.Full
  writer : s.writer ≠ none
  quicDataSend : s.quicDataSend.Full
  quic : s.quicWaits = true
  quicDataRecv : s.quicDataRecv.Full
  parsed : s.parsed ≠ []
  innerResponse : s.innerResponse.Full

instance (s : Pipeline) : Decidable s.Deadlocked :=
  decidable_of_iff
    (s.data ≠ [] ∧ s.innerRequest.Full ∧ s.writer ≠ none ∧ s.quicDataSend.Full ∧
      s.quicWaits = true ∧ s.quicDataRecv.Full ∧ s.parsed ≠ [] ∧ s.innerResponse.Full)
    ⟨fun ⟨h1, h2, h3, h4, h5, h6, h7, h8⟩ => ⟨h1, h2, h3, h4, h5, h6, h7, h8⟩,
      fun ⟨h1, h2, h3, h4, h5, h6, h7, h8⟩ => ⟨h1, h2, h3, h4, h5, h6, h7, h8⟩⟩

/-- No reachable state is a deadlock. -/
def DeadlockFree (prost : Prost) (conf : LinkClientConfig) (cap : Capacities)
    (maxStreamReadSize : Nat) : Prop :=
  ∀ events s, Machine.run (step prost conf maxStreamReadSize) (new cap maxStreamReadSize) events =
    some s → ¬s.Deadlocked

end Pipeline

end QuoteLink

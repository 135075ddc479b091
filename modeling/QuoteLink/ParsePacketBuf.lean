import QuoteLink.PacketHeader

open Bits Reader

namespace QuoteLink

/-- `response_tx` as its sender sees it: the packets handed over so far, and
after how many of them the receiver is dropped. -/
structure ResponseTx where
  sent : List Packet
  closedAfter : Option Nat
  deriving DecidableEq, Repr

def ResponseTx.isClosed (tx : ResponseTx) : Bool :=
  match tx.closedAfter with
  | some n => n ≤ tx.sent.length
  | none => false

def ResponseTx.send (tx : ResponseTx) (packet : Packet) : Option ResponseTx :=
  if tx.isClosed then none else some { tx with sent := tx.sent ++ [packet] }

inductive ParseError
  | header
  | packet
  | responseTx
  | fuel
  deriving DecidableEq, Repr

/-- The loop of `parse_packet_buf`, one unit of fuel a turn. -/
def parseLoop : Nat → ResponseTx → Bytes → Nat → Nat → Nat → Nat →
    ResponseTx × Except ParseError (Nat × Nat)
  | 0, tx, _, _, _, _, _ => (tx, .error .fuel)
  | fuel + 1, tx, packetBuffer, cursor, consumedBytes, occupiedBytes, needSize =>
    match PacketHeader.fromBytes (packetBuffer, cursor) with
    | .error .incomplete => (tx, .ok (consumedBytes, needSize))
    | .error .invalid => (tx, .error .header)
    | .ok (_, header) =>
      let needSize := header.needBytes
      if occupiedBytes < needSize then (tx, .ok (consumedBytes, needSize))
      else
        match Packet.fromBytes (packetBuffer, cursor) with
        | .error .incomplete => (tx, .ok (consumedBytes, minPacketHeaderSize))
        | .error .invalid => (tx, .error .packet)
        | .ok ((rest, i), packet) =>
          let packetSize := packet.totalBytes
          match tx.send packet with
          | none => (tx, .error .responseTx)
          | some tx =>
            parseLoop fuel tx rest i (consumedBytes + packetSize) (occupiedBytes - packetSize)
              minPacketHeaderSize

/-- Every turn that goes on consumes a packet, so one turn for each byte and
one to stop are enough. -/
def parsePacketBuf (tx : ResponseTx) (packetBuffer : Bytes) :
    ResponseTx × Except ParseError (Nat × Nat) :=
  parseLoop (packetBuffer.length + 1) tx packetBuffer 0 0 packetBuffer.length minPacketHeaderSize

/-- The size a remainder waits for: that of the packet at its front, or of the
shortest header while no header is complete. -/
def frontNeed (rest : Bytes) : Nat :=
  match PacketHeader.fromBytes (rest, 0) with
  | .ok (_, header) => header.needBytes
  | .error _ => minPacketHeaderSize

theorem ResponseTx.send_eq_some {tx tx' : ResponseTx} {packet : Packet}
    (h : tx.send packet = some tx') : tx' = { tx with sent := tx.sent ++ [packet] } := by
  unfold ResponseTx.send at h
  split at h
  next => cases h
  next => exact (Option.some.inj h).symm

/-- What `parse_packet_buf` returns for a remainder it stops at. -/
def parseResult (consumed : Nat) (rest : Bytes) : Except ParseError (Nat × Nat) :=
  match Packet.reader.run rest with
  | .error .invalid => .error .header
  | _ => .ok (consumed, frontNeed rest)

theorem parseResult_incomplete {consumed : Nat} {rest : Bytes}
    (h : Packet.reader.run rest = .error .incomplete) :
    parseResult consumed rest = .ok (consumed, frontNeed rest) := by
  simp [parseResult, h]

/-- Unless the receiver is gone, the loop sends what one packet after the other
can be read from the slice, and consumes exactly these packets. -/
theorem parseLoop_spec (fuel : Nat) (tx : ResponseTx) (buf : Bytes) (consumed : Nat)
    (hfuel : buf.length < fuel) :
    (parseLoop fuel tx buf 0 consumed buf.length minPacketHeaderSize).2 = .error .responseTx ∨
      parseLoop fuel tx buf 0 consumed buf.length minPacketHeaderSize =
        ({ tx with sent := tx.sent ++ (Packet.reader.drain buf).1 },
          parseResult (consumed + (buf.length - (Packet.reader.drain buf).2.length))
            (Packet.reader.drain buf).2) := by
  induction fuel generalizing tx buf consumed with
  | zero => omega
  | succ fuel ih =>
    rw [parseLoop]
    cases hh : PacketHeader.fromBytes (buf, 0) with
    | error e =>
      have hr := Packet.reader_of_header_error hh
      right
      rw [drain_error hr]
      cases e with
      | incomplete => simp [parseResult_incomplete hr, frontNeed, hh]
      | invalid => simp [parseResult, hr]
    | ok out =>
      obtain ⟨left, header⟩ := out
      by_cases hshort : buf.length < header.needBytes
      · have hr := Packet.reader_of_short_header hh hshort
        right
        rw [drain_error hr]
        simp [parseResult_incomplete hr, frontNeed, hh, hshort]
      · obtain ⟨p, rest, hr, hhead, hlen⟩ := Packet.reader_of_header hh (Nat.not_lt.mp hshort)
        have hsize : p.totalBytes = header.needBytes := by rw [p.totalBytes_eq_needBytes, hhead]
        have hmin := p.minPacketHeaderSize_le_totalBytes
        simp only [minPacketHeaderSize] at hmin
        simp only [if_neg hshort, Packet.reader_eq_ok.mp hr]
        cases hsend : tx.send p with
        | none => left; rfl
        | some tx' =>
          have hocc : buf.length - p.totalBytes = rest.length := by omega
          have htx := ResponseTx.send_eq_some hsend
          subst htx
          simp only [hocc]
          rcases ih { tx with sent := tx.sent ++ [p] } rest (consumed + p.totalBytes) (by omega)
            with h | h
          · left; exact h
          · right
            have hle := drain_length_le Packet.reader_progress rest
            have hsum : consumed + p.totalBytes + (rest.length - (Packet.reader.drain rest).2.length) =
                consumed + (buf.length - (Packet.reader.drain rest).2.length) := by omega
            rw [h, drain_ok Packet.reader_progress hr, hsum, List.append_assoc]
            rfl

theorem parsePacketBuf_spec (tx : ResponseTx) (buf : Bytes) :
    (parsePacketBuf tx buf).2 = .error .responseTx ∨
      parsePacketBuf tx buf =
        ({ tx with sent := tx.sent ++ (Packet.reader.drain buf).1 },
          parseResult (buf.length - (Packet.reader.drain buf).2.length)
            (Packet.reader.drain buf).2) := by
  have h := parseLoop_spec (buf.length + 1) tx buf 0 (Nat.lt_succ_self _)
  rw [Nat.zero_add] at h
  exact h

/-- However a remainder goes on, no packet can be complete at its front before
it has reached the size it waits for. -/
theorem not_complete_below_frontNeed {rest more : Bytes}
    (h : (rest ++ more).length < frontNeed rest) :
    ∃ e, Packet.reader.run (rest ++ more) = .error e := by
  cases hr : Packet.reader.run (rest ++ more) with
  | error e => exact ⟨e, rfl⟩
  | ok out =>
    obtain ⟨p, tail⟩ := out
    obtain ⟨hwf, hsplit⟩ := (Packet.reader_inverse _ _ _).mp hr
    have hmin := p.minPacketHeaderSize_le_totalBytes
    have htotal : p.totalBytes ≤ (rest ++ more).length := by
      rw [hsplit, List.length_append, Packet.length_encoding hwf]
      omega
    unfold frontNeed at h
    split at h
    next out header hh =>
      obtain ⟨left, hhead⟩ := PacketHeader.fromBytes_append hh more
      exact absurd (hr.symm.trans (Packet.reader_of_short_header hhead h)) (by simp)
    next => omega

end QuoteLink

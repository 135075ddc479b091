import QuoteLink.LinkDelivery
import QuoteLink.Progress
import QuoteLink.QuicSendSpace
import Mathlib.Data.Prod.Lex

open Reader

namespace QuoteLink

namespace SimpleBuf

/-- All that is buffered can be freed at once. -/
theorem Valid.exists_free_all {s : SimpleBuf} (h : s.Valid) :
    ∃ buf, s.free s.len = (buf, .ok ()) ∧ buf.isEmpty = true := by
  have hok : (s.free s.len).2 = .ok () := h.free_ok_iff.mpr (Nat.le_refl s.len)
  obtain ⟨hv, hocc⟩ := h.free hok
  refine ⟨(s.free s.len).1, Prod.ext rfl hok, ?_⟩
  rw [hv.isEmpty_iff, hocc, ← h.length_occupiedSlice, List.drop_length]

end SimpleBuf

namespace QuicSend

/-- A bound for the steps until the loop is in `select!` with an empty buffer, if it
takes no frame and the stream takes what it is offered. -/
def stepsLeft (s : QuicSend) : Nat :=
  match s.pc with
  | .exited _ => 0
  | .select => if s.streamSendBuffer.isEmpty then 0 else if s.conn.blocked then 6 else 5
  | .tickTail => if s.streamSendBuffer.isEmpty then 1 else 7
  | .tickFlush => if s.streamSendBuffer.isEmpty then 2 else if s.conn.blocked then 8 else 4
  | .offer b sent => if b.length ≤ sent ∨ s.conn.blocked = true then 9 else 10
  | .frameFlush _ => if s.streamSendBuffer.isEmpty = true ∨ s.conn.blocked = true then 11 else 12

/-- The loop was left for want of space in its buffer. -/
def ShortageExit (s : QuicSend) : Prop := ∃ exit, s.pc = .exited exit ∧ exit.isShortage = true

section Steps

variable {s : QuicSend} {b : Bytes}

theorem stepsLeft_le (s : QuicSend) : s.stepsLeft ≤ 12 := by
  unfold stepsLeft
  repeat' split
  all_goals omega

theorem stepsLeft_select (h : s.pc = .select) : s.stepsLeft ≤ 6 := by
  simp only [stepsLeft, h]
  repeat' split
  all_goals omega

theorem stepsLeft_eq_zero (hr : s.running = true) (h : s.stepsLeft = 0) :
    s.pc = .select ∧ s.streamSendBuffer.isEmpty = true := by
  unfold stepsLeft at h
  cases hpc : s.pc with
  | exited e => simp [running, hpc] at hr
  | select =>
    simp only [hpc] at h
    refine ⟨rfl, ?_⟩
    by_contra hne
    rw [if_neg hne] at h
    split at h
    next => omega
    next => omega
  | _ =>
    simp only [hpc] at h
    repeat' split at h
    all_goals omega

theorem takeOrDrop_pc (s : QuicSend) (b : Bytes) :
    (s.takeOrDrop b).pc = .select ∨ (s.takeOrDrop b).pc = .offer b 0 := by
  unfold takeOrDrop
  dsimp only
  split
  · split
    · exact Or.inl rfl
    · exact Or.inr rfl
  · exact Or.inr rfl

theorem pushRest_pc (s : QuicSend) (buf : SimpleBuf) (rest : Bytes) :
    (s.pushRest buf rest).pc = .select ∨ (s.pushRest buf rest).ShortageExit := by
  unfold pushRest
  split
  next => exact Or.inl rfl
  next => exact Or.inr ⟨_, rfl, rfl⟩

theorem keepRest_pc (s : QuicSend) (b : Bytes) (sent : Nat) :
    (s.keepRest b sent).pc = .select ∨ (s.keepRest b sent).ShortageExit := by
  unfold keepRest
  dsimp only
  split
  · exact Or.inl rfl
  · split
    · split
      · exact Or.inr ⟨_, rfl, rfl⟩
      · exact s.pushRest_pc _ _
    · exact s.pushRest_pc _ _

/-- An unblocked connection may take all that is buffered. -/
theorem exists_flush_all (next : QuicSend → QuicSend) (hv : s.streamSendBuffer.Valid)
    (hne : ¬s.streamSendBuffer.isEmpty = true) (hfree : s.conn.blocked = false) :
    ∃ s', s.flush next (.ok s.streamSendBuffer.len) true = some s' ∧ s'.pc = s.pc ∧
      s'.streamSendBuffer.isEmpty = true := by
  obtain ⟨buf, hbuf, hempty⟩ := hv.exists_free_all
  have hpos : 1 ≤ s.streamSendBuffer.len := by
    simp only [SimpleBuf.isEmpty, beq_iff_eq] at hne
    omega
  obtain ⟨conn, htake⟩ : ∃ conn, s.conn.streamSend s.streamSendBuffer.occupiedSlice
      (.ok s.streamSendBuffer.len) = some conn :=
    ⟨_, if_pos ⟨hfree, hpos, Nat.le_of_eq hv.length_occupiedSlice.symm⟩⟩
  have hflush : s.flush next (.ok s.streamSendBuffer.len) true =
      some (connSendLoop { s with conn := conn, streamSendBuffer := buf } true) := by
    simp only [flush, if_neg hne, htake, Option.map_some, hbuf]
  exact ⟨_, hflush, rfl, hempty⟩

theorem flush_done (next : QuicSend → QuicSend) (hne : ¬s.streamSendBuffer.isEmpty = true) :
    s.flush next .done true = some (next { s with conn := { s.conn with blocked := true } }) := by
  rw [flush, if_neg hne]
  rfl

/-- An unblocked connection may take the rest of the frame. -/
theorem exists_offer_all {sent : Nat} (hlt : sent < b.length) (hfree : s.conn.blocked = false) :
    ∃ s', s.offer b sent (.ok (b.length - sent)) true = some s' ∧ s'.pc = .offer b b.length := by
  obtain ⟨conn, htake⟩ : ∃ conn, s.conn.streamSend (b.drop sent) (.ok (b.length - sent)) = some conn :=
    ⟨_, if_pos ⟨hfree, by omega, Nat.le_of_eq List.length_drop.symm⟩⟩
  have hoffer : s.offer b sent (.ok (b.length - sent)) true =
      some (connSendLoop { s with conn := conn, pc := .offer b (sent + (b.length - sent)) } true) := by
    simp only [offer, if_neg (Nat.not_le.mpr hlt), htake, Option.map_some]
  refine ⟨_, hoffer, ?_⟩
  show QuicPc.offer b (sent + (b.length - sent)) = _
  rw [Nat.add_sub_cancel' (Nat.le_of_lt hlt)]

/-- The loop gets on with `e`, which takes no frame, or leaves it for want of space. -/
def Advances (s : QuicSend) (e : QuicEvent) : Prop :=
  e.received = [] ∧ ∃ s', s.step e = some s' ∧
    (s'.ShortageExit ∨ s'.running = true ∧ s'.stepsLeft < s.stepsLeft)

theorem advances_select (hpc : s.pc = .select) (hne : ¬s.streamSendBuffer.isEmpty = true) :
    ∃ e, s.Advances e := by
  cases hblocked : s.conn.blocked with
  | true =>
    refine ⟨.otherBranch false, rfl, _, if_pos hpc, Or.inr ⟨rfl, ?_⟩⟩
    simp [stepsLeft, hpc, hne, hblocked, Conn.call]
  | false =>
    refine ⟨.tick, rfl, _, if_pos hpc, Or.inr ⟨rfl, ?_⟩⟩
    simp [stepsLeft, hpc, hne, hblocked]

theorem advances_tickFlush (hv : s.streamSendBuffer.Valid) (hpc : s.pc = .tickFlush) : ∃ e, s.Advances e := by
  by_cases hempty : s.streamSendBuffer.isEmpty = true
  · have hstep : s.step .loopEnd = some s.toTickTail := by simp only [step, hpc, if_pos hempty]
    refine ⟨.loopEnd, rfl, _, hstep, Or.inr ⟨rfl, ?_⟩⟩
    simp [stepsLeft, toTickTail, hpc, hempty]
  · cases hblocked : s.conn.blocked with
    | true =>
      have hstep : s.step (.streamSend .done true) =
          some (toTickTail { s with conn := { s.conn with blocked := true } }) := by
        simp only [step, hpc]
        exact flush_done toTickTail hempty
      refine ⟨_, rfl, _, hstep, Or.inr ⟨rfl, ?_⟩⟩
      simp [stepsLeft, toTickTail, hpc, hempty, hblocked]
    | false =>
      obtain ⟨s', hflush, hpc', hempty'⟩ := exists_flush_all toTickTail hv hempty hblocked
      have hstep : s.step (.streamSend (.ok s.streamSendBuffer.len) true) = some s' := by
        simp only [step, hpc]
        exact hflush
      refine ⟨_, rfl, s', hstep, Or.inr ⟨?_, ?_⟩⟩
      · simp [running, hpc', hpc]
      · simp [stepsLeft, hpc', hpc, hempty, hempty', hblocked]

/-- After the leftovers the loop turns to the frame, or back to `select!`. -/
theorem advances_takeOrDrop {e : QuicEvent} {t : QuicSend} (hnone : e.received = [])
    (hpc : s.pc = .frameFlush b) (hstep : s.step e = some (t.takeOrDrop b)) : s.Advances e := by
  have hleft : 11 ≤ s.stepsLeft := by
    simp only [stepsLeft, hpc]
    split
    · exact Nat.le_refl _
    · omega
  refine ⟨hnone, _, hstep, Or.inr ?_⟩
  rcases t.takeOrDrop_pc b with hselect | hoffer
  · have hle := stepsLeft_select hselect
    exact ⟨by rw [running, hselect], by omega⟩
  · have hle : (t.takeOrDrop b).stepsLeft ≤ 10 := by
      simp only [stepsLeft, hoffer]
      split
      · omega
      · exact Nat.le_refl _
    exact ⟨by rw [running, hoffer], by omega⟩

theorem advances_frameFlush (hv : s.streamSendBuffer.Valid) (hpc : s.pc = .frameFlush b) : ∃ e, s.Advances e := by
  by_cases hempty : s.streamSendBuffer.isEmpty = true
  · have hstep : s.step .loopEnd = some (s.takeOrDrop b) := by simp only [step, hpc, if_pos hempty]
    exact ⟨.loopEnd, advances_takeOrDrop rfl hpc hstep⟩
  · cases hblocked : s.conn.blocked with
    | true =>
      have hstep : s.step (.streamSend .done true) =
          some (takeOrDrop b { s with conn := { s.conn with blocked := true } }) := by
        simp only [step, hpc]
        exact flush_done (takeOrDrop b) hempty
      exact ⟨_, advances_takeOrDrop rfl hpc hstep⟩
    | false =>
      obtain ⟨s', hflush, hpc', hempty'⟩ := exists_flush_all (takeOrDrop b) hv hempty hblocked
      have hstep : s.step (.streamSend (.ok s.streamSendBuffer.len) true) = some s' := by
        simp only [step, hpc]
        exact hflush
      refine ⟨_, rfl, s', hstep, Or.inr ⟨?_, ?_⟩⟩
      · simp [running, hpc', hpc]
      · simp [stepsLeft, hpc', hpc, hempty, hempty', hblocked]

/-- After the frame's own bytes the loop is back in `select!`, or left. -/
theorem advances_keepRest {e : QuicEvent} {t : QuicSend} {sent : Nat} (hnone : e.received = [])
    (hleft : 9 ≤ s.stepsLeft) (hstep : s.step e = some (t.keepRest b sent)) : s.Advances e := by
  refine ⟨hnone, _, hstep, ?_⟩
  rcases t.keepRest_pc b sent with hselect | hshort
  · have hle := stepsLeft_select hselect
    exact Or.inr ⟨by rw [running, hselect], by omega⟩
  · exact Or.inl hshort

theorem advances_offer {sent : Nat} (hpc : s.pc = .offer b sent) : ∃ e, s.Advances e := by
  have hleft : 9 ≤ s.stepsLeft := by
    simp only [stepsLeft, hpc]
    split
    · exact Nat.le_refl _
    · omega
  by_cases hall : b.length ≤ sent
  · have hstep : s.step .loopEnd = some (s.keepRest b sent) := by simp only [step, hpc, if_pos hall]
    exact ⟨.loopEnd, advances_keepRest rfl hleft hstep⟩
  · cases hblocked : s.conn.blocked with
    | true =>
      have hstep : s.step (.streamSend .done true) =
          some (keepRest { s with conn := { s.conn with blocked := true } } b sent) := by
        simp only [step, hpc, offer, if_neg hall]
        rfl
      exact ⟨_, advances_keepRest rfl hleft hstep⟩
    | false =>
      obtain ⟨s', hoffer, hpc'⟩ := exists_offer_all (Nat.not_le.mp hall) hblocked
      have hstep : s.step (.streamSend (.ok (b.length - sent)) true) = some s' := by
        simp only [step, hpc]
        exact hoffer
      refine ⟨_, rfl, s', hstep, Or.inr ⟨by rw [running, hpc'], ?_⟩⟩
      simp [stepsLeft, hpc', hpc, hall, hblocked]

/-- The loop never hangs: as long as it is busy, some event takes it on. -/
theorem exists_advances (hi : s.Integrity) (hbusy : 0 < s.stepsLeft) : ∃ e, s.Advances e := by
  cases hpc : s.pc with
  | exited exit => simp [stepsLeft, hpc] at hbusy
  | select =>
    refine advances_select hpc ?_
    intro hempty
    simp [stepsLeft, hpc, hempty] at hbusy
  | tickFlush =>
    have hp : s.Placed [] := by simpa only [Integrity, hpc] using hi
    exact advances_tickFlush hp.valid hpc
  | tickTail =>
    refine ⟨.tickEnd none false false, rfl, s.tickEnd none false false, if_pos hpc, Or.inr ⟨rfl, ?_⟩⟩
    have hselect := stepsLeft_select (s := s.tickEnd none false false) rfl
    by_cases hempty : s.streamSendBuffer.isEmpty = true
    · simp [stepsLeft, tickEnd, hpc, hempty]
    · have hleft : s.stepsLeft = 7 := by simp only [stepsLeft, hpc, if_neg hempty]
      omega
  | frameFlush b =>
    have hp : s.Placed [] := by simpa only [Integrity, hpc] using hi
    exact advances_frameFlush hp.valid hpc
  | offer b sent => exact advances_offer hpc

end Steps

end QuicSend

namespace LinkRead

/-- A stream of whole packets is never rejected. -/
theorem not_rejected {s : LinkRead} {stream : Bytes} {packets : List Packet}
    (hwf : ∀ p ∈ packets, p.WellFormed) (hcut : stream <+: packets.flatMap Packet.encoding) :
    ¬s.Rejected stream := by
  intro hrej
  obtain ⟨more, hmore⟩ := hcut
  have hread : Packet.reader.drain (packets.flatMap Packet.encoding) = (packets, []) :=
    (drain_flatMap_write_iff Packet.reader_progress Packet.reader_inverse packets).mpr hwf
  have hdrain := drain_invalid_append Packet.reader_progress hrej.invalid more
  rw [hmore, hread] at hdrain
  have hrest : (Packet.reader.drain stream).2 = [] :=
    (List.append_eq_nil_iff.mp (Prod.mk.inj hdrain).2.symm).1
  have hinvalid := hrej.invalid
  rw [hrest] at hinvalid
  -- nothing was read of an empty slice, so nothing in it is wrong
  exact absurd hinvalid (by decide)

end LinkRead

/-- The loop is up, and not about to leave. -/
def StreamRecvPc.staying : StreamRecvPc → Bool
  | .select => true
  | .reading => true
  | .sending _ fin => !fin
  | .exited => false

/-- Every channel and the receive buffer have room for something. -/
structure DeliveryConfig.Usable (conf : DeliveryConfig) : Prop where
  streamReadBufferSize : 0 < conf.streamReadBufferSize
  quicDataSend : 0 < conf.quicDataSend
  quicDataRecv : 0 < conf.quicDataRecv
  response : 0 < conf.response

namespace LinkDelivery

/-- None of the loops is gone. -/
structure Up (s : LinkDelivery) : Prop where
  sender : s.sender.running = true
  receiver : s.receiver.staying = true
  reader : s.reader.exit = none

instance (s : LinkDelivery) : Decidable s.Up :=
  decidable_of_iff (s.sender.running = true ∧ s.receiver.staying = true ∧ s.reader.exit = none)
    ⟨fun ⟨h1, h2, h3⟩ => ⟨h1, h2, h3⟩, fun ⟨h1, h2, h3⟩ => ⟨h1, h2, h3⟩⟩

/-- A loop was left for want of space in its buffer, or without a consumer. -/
def GaveUp (s : LinkDelivery) : Prop := s.sender.ShortageExit ∨ s.reader.Refused ∨ s.reader.Dead

def capacities (s : LinkDelivery) : Nat × Nat × Nat :=
  (s.quicDataSend.capacity, s.quicDataRecv.capacity, s.response.capacity)

/-- What the sending side has left to do, to be measured before all that it causes. -/
def sendWork (s : LinkDelivery) : Nat :=
  13 * (2 * s.writer.toList.length + s.quicDataSend.items.length) + s.sender.stepsLeft

def unread (s : LinkDelivery) : Nat := s.sender.conn.written.length - s.streamRecv

def recvWork (s : LinkDelivery) : Nat :=
  3 * s.unread +
    match s.receiver with
    | .select => if s.unread = 0 then 0 else 1
    | .reading => if s.unread = 0 then 1 else 0
    | .sending _ _ => 2
    | .exited => 0

/-- The work left, that of the earlier loops first. -/
def rank (s : LinkDelivery) : ℕ ×ₗ ℕ ×ₗ ℕ ×ₗ ℕ :=
  toLex (s.sendWork, toLex (s.recvWork,
    toLex (s.quicDataRecv.items.length, 2 * s.parsed.length + s.response.items.length)))

/-- The event takes the link on, or a loop leaves at it. -/
def Advances (conf : DeliveryConfig) (s : LinkDelivery) (e : DeliveryEvent) : Prop :=
  ∃ t, s.step conf e = some t ∧ t.requests = s.requests ∧ (t.GaveUp ∨ t.Up ∧ t.rank < s.rank)

section Steps

variable {conf : DeliveryConfig} {s s' : LinkDelivery}

theorem rank_lt (h : s'.sendWork < s.sendWork ∨ s'.sendWork = s.sendWork ∧
    (s'.recvWork < s.recvWork ∨ s'.recvWork = s.recvWork ∧
      (s'.quicDataRecv.items.length < s.quicDataRecv.items.length ∨
        s'.quicDataRecv.items.length = s.quicDataRecv.items.length ∧
          2 * s'.parsed.length + s'.response.items.length < 2 * s.parsed.length + s.response.items.length))) :
    s'.rank < s.rank := by
  simpa only [rank, Prod.Lex.toLex_lt_toLex] using h

theorem step_capacities {e : DeliveryEvent} (hs : s.step conf e = some s') : s'.capacities = s.capacities := by
  cases e with
  | request packet =>
    simp only [step] at hs
    split at hs
    next => cases hs; rfl
    next => cases hs
  | writerSend =>
    simp only [step] at hs
    split at hs
    next =>
      obtain ⟨ch, hch, rfl⟩ := Option.map_eq_some_iff.mp hs
      simp only [capacities, Channel.capacity_of_send hch]
    next => cases hs
  | frameTake =>
    simp only [step] at hs
    split at hs
    next b ch hch =>
      obtain ⟨q, _, rfl⟩ := Option.map_eq_some_iff.mp hs
      simp only [capacities, Channel.capacity_of_recv hch]
    next => cases hs
  | quic e =>
    simp only [step] at hs
    split at hs
    next =>
      obtain ⟨q, _, rfl⟩ := Option.map_eq_some_iff.mp hs
      rfl
    next => cases hs
  | streamRecv n fin =>
    simp only [step] at hs
    split at hs
    next =>
      simp only [Option.ite_none_right_eq_some, Option.some.injEq] at hs
      obtain ⟨_, rfl⟩ := hs
      rfl
    next => cases hs
  | recvSend =>
    simp only [step] at hs
    split at hs
    next =>
      obtain ⟨ch, hch, rfl⟩ := Option.map_eq_some_iff.mp hs
      simp only [capacities, Channel.capacity_of_send hch]
    next => cases hs; rfl
    next => cases hs
  | readerTake =>
    simp only [step] at hs
    split at hs
    next b ch _ _ hch =>
      cases hs
      simp only [capacities, Channel.capacity_of_recv hch]
    next => cases hs
  | readerSend =>
    simp only [step] at hs
    split at hs
    next =>
      obtain ⟨ch, hch, rfl⟩ := Option.map_eq_some_iff.mp hs
      simp only [capacities, Channel.capacity_of_send hch]
    next => cases hs
  | consume =>
    simp only [step] at hs
    split at hs
    next p ch hch =>
      cases hs
      simp only [capacities, Channel.capacity_of_recv hch]
    next => cases hs
  | _ =>
    simp only [step] at hs
    split at hs
    all_goals first
      | (cases hs; rfl)
      | cases hs

theorem advances_consume (hup : s.Up) (h : s.response.items ≠ []) : s.Advances conf .consume := by
  obtain ⟨p, ch, hch⟩ := Channel.exists_recv h
  have hitems := Channel.items_of_recv hch
  have hstep : s.step conf .consume = some { s with response := ch, delivered := s.delivered ++ [p] } := by
    simp only [step, hch]
  refine ⟨_, hstep, rfl, Or.inr ⟨⟨hup.sender, hup.receiver, hup.reader⟩, rank_lt ?_⟩⟩
  refine Or.inr ⟨rfl, Or.inr ⟨rfl, Or.inr ⟨rfl, ?_⟩⟩⟩
  show 2 * s.parsed.length + ch.items.length < _
  rw [hitems, List.length_cons]
  omega

theorem advances_readerSend (hup : s.Up) (h : s.parsed ≠ []) (hroom : s.response.items.length < s.response.capacity) :
    s.Advances conf .readerSend := by
  obtain ⟨p, todo, hparsed⟩ := List.exists_cons_of_ne_nil h
  obtain ⟨ch, hch⟩ := Channel.exists_send p hroom
  have hitems := Channel.items_of_send hch
  have hstep : s.step conf .readerSend = some { s with parsed := todo, response := ch } := by
    simp only [step, hparsed, hch, Option.map_some]
  refine ⟨_, hstep, rfl, Or.inr ⟨⟨hup.sender, hup.receiver, hup.reader⟩, rank_lt ?_⟩⟩
  refine Or.inr ⟨rfl, Or.inr ⟨rfl, Or.inr ⟨rfl, ?_⟩⟩⟩
  show 2 * todo.length + ch.items.length < _
  rw [hitems, hparsed, List.length_append, List.length_singleton, List.length_cons]
  omega

/-- On a valid stream the reader takes the next chunk and goes on, or it has no room
for it or no consumer. -/
theorem advances_readerTake {chunks : List Bytes} {lost : Bytes} (hc : Conserved conf s chunks lost)
    (hwf : ∀ p ∈ s.requests, p.WellFormed) (hup : s.Up) (hparsed : s.parsed = [])
    (h : s.quicDataRecv.items ≠ []) : s.Advances conf .readerTake := by
  obtain ⟨b, ch, hch⟩ := Channel.exists_recv h
  have hitems := Channel.items_of_recv hch
  have hnext := hc.readerTake hparsed hitems
  have hstep : s.step conf .readerTake = some { s with
      reader := s.reader.step b
      parsed := (s.reader.step b).responseTx.sent.drop s.reader.responseTx.sent.length
      quicDataRecv := ch } := by
    simp only [step, hparsed, hup.reader, hch]
  refine ⟨_, hstep, rfl, ?_⟩
  have hreader : s.reader.step b =
      LinkRead.run conf.streamReadBufferSize conf.closedAfter (chunks ++ [b]) := hnext.reader
  rcases LinkRead.run_spec conf.streamReadBufferSize conf.closedAfter (chunks ++ [b]) with
    hrefused | hdead | ⟨hexit, _⟩ | hrej
  · exact Or.inl (Or.inr (Or.inl (hreader ▸ hrefused)))
  · exact Or.inl (Or.inr (Or.inr (hreader ▸ hdead)))
  · refine Or.inr ⟨⟨hup.sender, hup.receiver, hreader ▸ hexit⟩, rank_lt ?_⟩
    refine Or.inr ⟨rfl, Or.inr ⟨rfl, Or.inl ?_⟩⟩
    show ch.items.length < s.quicDataRecv.items.length
    rw [hitems, List.length_cons]
    omega
  · obtain ⟨kept, hsub, hkept⟩ := hnext.exists_kept
    have hvalid : ∀ p ∈ kept, p.WellFormed := fun p hp => hwf p (hsub.subset hp)
    exact absurd hrej (LinkRead.not_rejected hvalid (hnext.chunks_prefix hkept))

theorem advances_recvSend (hup : s.Up) {b : Bytes} {fin : Bool} (hpc : s.receiver = .sending b fin)
    (hroom : s.quicDataRecv.items.length < s.quicDataRecv.capacity) : s.Advances conf .recvSend := by
  obtain ⟨ch, hch⟩ := Channel.exists_send b hroom
  have hstays := hup.receiver
  rw [hpc] at hstays
  have hfin : fin = false := by simpa [StreamRecvPc.staying] using hstays
  have hstep : s.step conf .recvSend = some { s with receiver := .reading, quicDataRecv := ch } := by
    simp [step, hpc, hup.reader, hch, hfin]
  refine ⟨_, hstep, rfl, Or.inr ⟨⟨hup.sender, rfl, hup.reader⟩, rank_lt (Or.inr ⟨rfl, Or.inl ?_⟩)⟩⟩
  have hwork : s.recvWork = 3 * s.unread + 2 := by simp only [recvWork, hpc]
  have hsame : unread { s with receiver := .reading, quicDataRecv := ch } = s.unread := rfl
  rw [hwork, recvWork, hsame]
  by_cases hu : s.unread = 0
  · simp only [if_pos hu]
    omega
  · simp only [if_neg hu]
    omega

theorem advances_udpRecv (hup : s.Up) (hpc : s.receiver = .select) (h : s.unread ≠ 0) :
    s.Advances conf .udpRecv := by
  have hstep : s.step conf .udpRecv = some { s with receiver := .reading } := by simp only [step, hpc]
  refine ⟨_, hstep, rfl, Or.inr ⟨⟨hup.sender, rfl, hup.reader⟩, rank_lt (Or.inr ⟨rfl, Or.inl ?_⟩)⟩⟩
  have hwork : s.recvWork = 3 * s.unread + 1 := by simp only [recvWork, hpc, if_neg h]
  have hsame : unread { s with receiver := .reading } = s.unread := rfl
  rw [hwork, recvWork, hsame]
  simp only [if_neg h]
  omega

/-- The receiving loop reads a full buffer, or what is left of the stream. -/
theorem advances_streamRecv (hconf : 0 < conf.streamReadBufferSize) (hup : s.Up) (hpc : s.receiver = .reading)
    (h : s.unread ≠ 0) : s.Advances conf (.streamRecv (min conf.streamReadBufferSize s.unread) false) := by
  have hmin : 0 < min conf.streamReadBufferSize s.unread := Nat.lt_min.mpr ⟨hconf, Nat.pos_of_ne_zero h⟩
  have hle : min conf.streamReadBufferSize s.unread ≤ s.unread := Nat.min_le_right _ _
  have hfits : s.streamRecv + min conf.streamReadBufferSize s.unread ≤ s.sender.conn.written.length := by
    unfold unread at *
    omega
  have hstep : s.step conf (.streamRecv (min conf.streamReadBufferSize s.unread) false) = some { s with
      streamRecv := s.streamRecv + min conf.streamReadBufferSize s.unread
      receiver := .sending
        ((s.sender.conn.written.drop s.streamRecv).take (min conf.streamReadBufferSize s.unread)) false } := by
    simp only [step, hpc, if_pos (And.intro (Nat.min_le_left _ _) hfits)]
  refine ⟨_, hstep, rfl, Or.inr ⟨⟨hup.sender, rfl, hup.reader⟩, rank_lt (Or.inr ⟨rfl, Or.inl ?_⟩)⟩⟩
  have hwork : s.recvWork = 3 * s.unread := by simp only [recvWork, hpc, if_neg h, Nat.add_zero]
  rw [hwork]
  show 3 * (s.sender.conn.written.length - (s.streamRecv + min conf.streamReadBufferSize s.unread)) + 2 < _
  rw [← Nat.sub_sub]
  show 3 * (s.unread - _) + 2 < _
  omega

theorem advances_streamDone (hup : s.Up) (hpc : s.receiver = .reading) (h : s.unread = 0) :
    s.Advances conf .streamDone := by
  have hstep : s.step conf .streamDone = some { s with receiver := .select } := by simp only [step, hpc]
  refine ⟨_, hstep, rfl, Or.inr ⟨⟨hup.sender, rfl, hup.reader⟩, rank_lt (Or.inr ⟨rfl, Or.inl ?_⟩)⟩⟩
  have hwork : s.recvWork = 1 := by simp only [recvWork, hpc, h, if_true]
  have hsame : unread { s with receiver := .select } = s.unread := rfl
  rw [hwork, recvWork, hsame]
  simp only [h, if_true]
  omega

theorem advances_quic (hi : s.sender.Integrity) (hup : s.Up) (h : 0 < s.sender.stepsLeft) :
    ∃ e, s.Advances conf e := by
  obtain ⟨e, hnone, q, hq, hnext⟩ := QuicSend.exists_advances hi h
  have hstep : s.step conf (.quic e) = some { s with sender := q } := by
    simp only [step, hnone, hq, Option.map_some]
  refine ⟨.quic e, _, hstep, rfl, ?_⟩
  rcases hnext with hshort | ⟨hr, hlt⟩
  · exact Or.inl (Or.inl hshort)
  · exact Or.inr ⟨⟨hr, hup.receiver, hup.reader⟩, rank_lt (Or.inl (Nat.add_lt_add_left hlt _))⟩

theorem advances_frameTake (hup : s.Up) (hidle : s.sender.stepsLeft = 0) (h : s.quicDataSend.items ≠ []) :
    s.Advances conf .frameTake := by
  obtain ⟨b, ch, hch⟩ := Channel.exists_recv h
  have hitems := Channel.items_of_recv hch
  have hpc := (QuicSend.stepsLeft_eq_zero hup.sender hidle).1
  have hstep : s.step conf .frameTake =
      some { s with quicDataSend := ch, sender := { s.sender with pc := .frameFlush b } } := by
    simp only [step, hch, QuicSend.step, if_pos hpc, Option.map_some]
  refine ⟨_, hstep, rfl, Or.inr ⟨⟨rfl, hup.receiver, hup.reader⟩, rank_lt (Or.inl ?_)⟩⟩
  have hle := QuicSend.stepsLeft_le { s.sender with pc := .frameFlush b }
  show 13 * (2 * s.writer.toList.length + ch.items.length) +
    QuicSend.stepsLeft { s.sender with pc := .frameFlush b } < _
  rw [sendWork, hitems, List.length_cons]
  omega

theorem advances_writerSend (hup : s.Up) {data : Bytes} (h : s.writer = some data)
    (hroom : s.quicDataSend.items.length < s.quicDataSend.capacity) : s.Advances conf .writerSend := by
  obtain ⟨ch, hch⟩ := Channel.exists_send data hroom
  have hitems := Channel.items_of_send hch
  have hstep : s.step conf .writerSend = some { s with writer := none, quicDataSend := ch } := by
    simp only [step, h, hup.sender, hch, Option.map_some]
  refine ⟨_, hstep, rfl, Or.inr ⟨⟨hup.sender, hup.receiver, hup.reader⟩, rank_lt (Or.inl ?_)⟩⟩
  show 13 * (2 * 0 + ch.items.length) + s.sender.stepsLeft < _
  rw [sendWork, hitems, h, List.length_append, Option.toList_some, List.length_singleton]
  omega

/-- The receiving side takes itself on until nothing is left to read. -/
theorem advances_receiving {chunks : List Bytes} {lost : Bytes} (hc : Conserved conf s chunks lost)
    (hconf : conf.Usable) (hcap : s.capacities = (conf.quicDataSend, conf.quicDataRecv, conf.response))
    (hwf : ∀ p ∈ s.requests, p.WellFormed) (hup : s.Up) :
    (∃ e, s.Advances conf e) ∨
      s.receiver = .select ∧ s.unread = 0 ∧ s.quicDataRecv.items = [] ∧ s.parsed = [] ∧ s.response.items = [] := by
  obtain ⟨_, hrecv, hresponse⟩ : _ ∧ s.quicDataRecv.capacity = conf.quicDataRecv ∧
      s.response.capacity = conf.response := by
    simpa only [capacities, Prod.mk.injEq] using hcap
  by_cases hr : s.response.items = []
  · by_cases hp : s.parsed = []
    · by_cases hq : s.quicDataRecv.items = []
      · have hroom : s.quicDataRecv.items.length < s.quicDataRecv.capacity := by
          rw [hq, hrecv]
          exact hconf.quicDataRecv
        cases hpc : s.receiver with
        | exited =>
          have hstays := hup.receiver
          rw [hpc] at hstays
          cases hstays
        | sending b fin => exact Or.inl ⟨_, advances_recvSend hup hpc hroom⟩
        | reading =>
          by_cases hu : s.unread = 0
          · exact Or.inl ⟨_, advances_streamDone hup hpc hu⟩
          · exact Or.inl ⟨_, advances_streamRecv hconf.streamReadBufferSize hup hpc hu⟩
        | select =>
          by_cases hu : s.unread = 0
          · exact Or.inr ⟨rfl, hu, hq, hp, hr⟩
          · exact Or.inl ⟨_, advances_udpRecv hup hpc hu⟩
      · exact Or.inl ⟨_, advances_readerTake hc hwf hup hp hq⟩
    · have hroom : s.response.items.length < s.response.capacity := by
        rw [hr, hresponse]
        exact hconf.response
      exact Or.inl ⟨_, advances_readerSend hup hp hroom⟩
  · exact Or.inl ⟨_, advances_consume hup hr⟩

/-- Whatever keeps a link in which all loops are up from its rest, some event takes it on. -/
theorem exists_advances {chunks : List Bytes} {lost : Bytes} (hc : Conserved conf s chunks lost)
    (hconf : conf.Usable) (hcap : s.capacities = (conf.quicDataSend, conf.quicDataRecv, conf.response))
    (hwf : ∀ p ∈ s.requests, p.WellFormed) (hup : s.Up) : s.AtRest ∨ ∃ e, s.Advances conf e := by
  rcases advances_receiving hc hconf hcap hwf hup with he | ⟨hselect, hunread, hrecv, hparsed, hresponse⟩
  · exact Or.inr he
  · by_cases hidle : s.sender.stepsLeft = 0
    · obtain ⟨hpc, hempty⟩ := QuicSend.stepsLeft_eq_zero hup.sender hidle
      by_cases hsend : s.quicDataSend.items = []
      · cases hwriter : s.writer with
        | none =>
          have hread : s.streamRecv = s.sender.conn.written.length := by
            have hle := hc.streamRecv_le
            unfold unread at hunread
            omega
          exact Or.inl ⟨hwriter, hsend, hpc, hempty, hread, hselect, hrecv, hup.reader, hparsed, hresponse⟩
        | some data =>
          have hroom : s.quicDataSend.items.length < s.quicDataSend.capacity := by
            have hsame : s.quicDataSend.capacity = conf.quicDataSend := congrArg Prod.fst hcap
            rw [hsend, hsame]
            exact hconf.quicDataSend
          exact Or.inr ⟨_, advances_writerSend hup hwriter hroom⟩
      · exact Or.inr ⟨_, advances_frameTake hup hidle hsend⟩
    · exact Or.inr (advances_quic hc.integrity hup (Nat.pos_of_ne_zero hidle))

/-- What a link keeps whose loops are all up, whichever event takes it on. -/
structure Live (conf : DeliveryConfig) (requests : List Packet) (s : LinkDelivery) : Prop where
  conserved : ∃ chunks lost, Conserved conf s chunks lost
  capacities_eq : s.capacities = (conf.quicDataSend, conf.quicDataRecv, conf.response)
  requests_eq : s.requests = requests
  up : s.Up

def Ended (requests : List Packet) (s : LinkDelivery) : Prop := s.requests = requests ∧ (s.AtRest ∨ s.GaveUp)

theorem Live.advances {requests : List Packet} (h : Live conf requests s) (hconf : conf.Usable)
    (hwf : ∀ p ∈ requests, p.WellFormed) : s.Ended requests ∨
      ∃ e t, s.step conf e = some t ∧ (t.Ended requests ∨ Live conf requests t ∧ t.rank < s.rank) := by
  obtain ⟨chunks, lost, hc⟩ := h.conserved
  have hvalid : ∀ p ∈ s.requests, p.WellFormed := by rwa [h.requests_eq]
  rcases exists_advances hc hconf h.capacities_eq hvalid h.up with hrest | ⟨e, t, ht, hsame, hnext⟩
  · exact Or.inl ⟨h.requests_eq, Or.inl hrest⟩
  · have hreq : t.requests = requests := hsame.trans h.requests_eq
    refine Or.inr ⟨e, t, ht, ?_⟩
    rcases hnext with hgave | ⟨hup, hlt⟩
    · exact Or.inl ⟨hreq, Or.inr hgave⟩
    · exact Or.inr ⟨⟨step_conserved hc ht, (step_capacities ht).trans h.capacities_eq, hreq, hup⟩, hlt⟩

end Steps

end LinkDelivery

end QuoteLink

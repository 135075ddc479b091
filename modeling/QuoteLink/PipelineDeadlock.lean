import QuoteLink.ClientPipeline

open Reader

namespace QuoteLink

/-- A push without a body, and its five bytes on the wire. -/
def emptyPush : Packet := .push ⟨0, .cmdSubDepth, .depths, 0, []⟩
def emptyPushBytes : Bytes := emptyPush.encoding

theorem length_emptyPushBytes : emptyPushBytes.length = 5 := by decide

theorem parse_emptyPush (sent : List Packet) :
    parsePacketBuf ⟨sent, none⟩ emptyPushBytes = (⟨sent ++ [emptyPush], none⟩, .ok (5, 5)) := by
  rfl

namespace LinkRead

/-- The loop between two packets, with nothing left in its buffer. -/
structure Waiting (s : LinkRead) (cap : Nat) (sent : List Packet) : Prop where
  valid : s.packetBuffer.Valid
  capacity : s.packetBuffer.capacity = cap
  occupied : s.packetBuffer.occupiedSlice = []
  needSize : s.needSize = minPacketHeaderSize
  responseTx : s.responseTx = ⟨sent, none⟩
  exit : s.exit = none

theorem new_waiting (cap : Nat) : (new cap none).Waiting cap [] :=
  ⟨SimpleBuf.new_valid cap, rfl, SimpleBuf.occupiedSlice_new cap, rfl, rfl, rfl⟩

theorem step_emptyPush {s : LinkRead} {cap : Nat} {sent : List Packet} (h : s.Waiting cap sent)
    (hcap : 5 ≤ cap) : (s.step emptyPushBytes).Waiting cap (sent ++ [emptyPush]) := by
  have hlen : s.packetBuffer.len = 0 := by
    rw [← h.valid.length_occupiedSlice, h.occupied]
    rfl
  have hmax : s.packetBuffer.maxLen = cap := by
    have hsum := h.valid.len_add_maxLen
    rw [hlen, h.capacity] at hsum
    omega
  have hroom : makeRoom s.packetBuffer emptyPushBytes = some s.packetBuffer.reuse := by
    unfold makeRoom
    rw [hlen, hmax, length_emptyPushBytes, if_pos (by omega), if_neg (by omega)]
  obtain ⟨hv, hocc, hreuse⟩ := h.valid.reuse
  rw [h.occupied] at hocc
  have hok : (s.packetBuffer.reuse.pushSlice emptyPushBytes).2 = .ok () := by
    rw [hv.pushSlice_ok_iff, length_emptyPushBytes, SimpleBuf.capacity_reuse, h.capacity]
    show 5 ≤ cap - s.packetBuffer.len
    omega
  obtain ⟨hvpush, hoccpush⟩ := hv.pushSlice hok
  rw [hocc, List.nil_append] at hoccpush
  obtain ⟨buf, hbuf⟩ : ∃ buf, s.packetBuffer.reuse.pushSlice emptyPushBytes = (buf, .ok ()) :=
    ⟨_, Prod.ext rfl hok⟩
  have hcapacity : buf.capacity = cap := by
    have hpush := SimpleBuf.capacity_pushSlice s.packetBuffer.reuse emptyPushBytes
    rw [hbuf, SimpleBuf.capacity_reuse, h.capacity] at hpush
    exact hpush
  rw [hbuf] at hvpush hoccpush
  have hfull : buf.len = 5 := by
    rw [← hvpush.length_occupiedSlice, hoccpush, length_emptyPushBytes]
  have hfree : (buf.free 5).2 = .ok () := hvpush.free_ok_iff.mpr hfull.ge
  obtain ⟨hvfree, hoccfree⟩ := hvpush.free hfree
  obtain ⟨left, hleft⟩ : ∃ left, buf.free 5 = (left, .ok ()) := ⟨_, Prod.ext rfl hfree⟩
  have hstep : s.step emptyPushBytes =
      { s with packetBuffer := left.reuseIf.1, needSize := 5, responseTx := ⟨sent ++ [emptyPush], none⟩ } := by
    have hneed : minPacketHeaderSize ≤ 5 := by decide
    rw [step_running h.exit, readOnce, hroom]
    simp only [hbuf, process, h.needSize, hfull, hneed, if_true, hoccpush, h.responseTx,
      parse_emptyPush, hleft]
  rw [hleft] at hvfree hoccfree
  have hempty : left.occupiedSlice = [] := by
    rw [hoccfree, hoccpush]
    exact List.drop_of_length_le (by rw [length_emptyPushBytes])
  rw [hstep]
  refine ⟨hvfree.reuseIf.1, ?_, ?_, rfl, rfl, h.exit⟩
  · show left.reuseIf.1.capacity = cap
    rw [SimpleBuf.capacity_reuseIf, ← hcapacity, ← buf.capacity_free 5, hleft]
  · show left.reuseIf.1.occupiedSlice = []
    rw [hvfree.reuseIf.2, hempty]

end LinkRead

namespace Pipeline

section Phases

variable {prost : Prost} {conf : LinkClientConfig} {n : Nat}

/-- A push arrives and is parsed, up to the send on `response_tx`. -/
theorem push_arrives {ir ds : Channel _} {dr : Nat} {rs : Channel Packet} {r : LinkRead}
    {sent : List Packet} (hdr : 1 ≤ dr) (hr : r.Waiting n sent) (hn : 5 ≤ n) :
    Machine.Reaches (step prost conf n)
      ⟨[], [], ir, none, ds, .reading, .empty dr, r, [], rs⟩
      ⟨[], [], ir, none, ds, .reading, .empty dr, r.step emptyPushBytes, [emptyPush], rs⟩ := by
  have hsend : (Channel.empty dr).send emptyPushBytes = some (.copies dr 1 emptyPushBytes hdr) :=
    Channel.send_copies emptyPushBytes hdr
  have hrecv := Channel.recv_copies_one emptyPushBytes hdr
  have hparsed : (r.step emptyPushBytes).responseTx.sent.drop r.responseTx.sent.length = [emptyPush] := by
    rw [(LinkRead.step_emptyPush hr hn).responseTx, hr.responseTx]
    exact List.drop_left
  have hlen : emptyPushBytes.length ≤ n := by
    rw [length_emptyPushBytes]
    exact hn
  apply Machine.Reaches.cons (.streamRecv emptyPushBytes) (if_pos hlen)
  apply Machine.Reaches.cons .recvSend (congrArg (Option.map _) hsend)
  have htake : step prost conf n
      ⟨[], [], ir, none, ds, .reading, .copies dr 1 emptyPushBytes hdr, r, [], rs⟩ .readerTake =
      some ⟨[], [], ir, none, ds, .reading, .empty dr, r.step emptyPushBytes, [emptyPush], rs⟩ := by
    simp only [step, hr.exit, hrecv, hparsed]
  exact Machine.Reaches.cons .readerTake htake (.refl _)

/-- While the data loop is busy elsewhere, pushes fill `response_tx`. -/
theorem responses_fill {ir ds : Channel _} {dr d : Nat} {r : LinkRead} (hdr : 1 ≤ dr)
    (hr : r.Waiting n []) (hn : 5 ≤ n) (k : Nat) (hk : k ≤ d) :
    ∃ r' sent, r'.Waiting n sent ∧ Machine.Reaches (step prost conf n)
      ⟨[], [], ir, none, ds, .reading, .empty dr, r, [], .empty d⟩
      ⟨[], [], ir, none, ds, .reading, .empty dr, r', [], .copies d k emptyPush hk⟩ := by
  induction k with
  | zero => exact ⟨r, [], hr, .refl _⟩
  | succ k ih =>
    obtain ⟨r', sent, hr', hreach⟩ := ih (Nat.le_of_succ_le hk)
    refine ⟨r'.step emptyPushBytes, _, LinkRead.step_emptyPush hr' hn, ?_⟩
    refine hreach.trans ((push_arrives hdr hr' hn).trans ?_)
    have hsend := Channel.send_copies emptyPush hk
    apply Machine.Reaches.cons .readerSend (congrArg (Option.map _) hsend)
    exact Machine.Reaches.refl _

/-- While `link_read_loop` waits, chunks fill `quic_data_recv_tx`. -/
theorem chunks_fill {ir ds : Channel _} {dr : Nat} {rs : Channel Packet} {r : LinkRead}
    {parsed : List Packet} (hn : 5 ≤ n) (k : Nat) (hk : k ≤ dr) :
    Machine.Reaches (step prost conf n)
      ⟨[], [], ir, none, ds, .reading, .empty dr, r, parsed, rs⟩
      ⟨[], [], ir, none, ds, .reading, .copies dr k emptyPushBytes hk, r, parsed, rs⟩ := by
  have hlen : emptyPushBytes.length ≤ n := by
    rw [length_emptyPushBytes]
    exact hn
  induction k with
  | zero => exact Machine.Reaches.refl _
  | succ k ih =>
    refine (ih (Nat.le_of_succ_le hk)).trans ?_
    apply Machine.Reaches.cons (.streamRecv emptyPushBytes) (if_pos hlen)
    have hsend := Channel.send_copies emptyPushBytes hk
    apply Machine.Reaches.cons .recvSend (congrArg (Option.map _) hsend)
    exact Machine.Reaches.refl _

theorem quic_blocks {ir ds dr : Channel _} {rs : Channel Packet} {r : LinkRead}
    {parsed : List Packet} (hn : 5 ≤ n) : Machine.Reaches (step prost conf n)
      ⟨[], [], ir, none, ds, .reading, dr, r, parsed, rs⟩
      ⟨[], [], ir, none, ds, .sending emptyPushBytes, dr, r, parsed, rs⟩ := by
  have hlen : emptyPushBytes.length ≤ n := by
    rw [length_emptyPushBytes]
    exact hn
  apply Machine.Reaches.cons (.streamRecv emptyPushBytes) (if_pos hlen)
  exact Machine.Reaches.refl _

/-- A user's packet gets as far as the writer's send on `quic_data_send_tx`. -/
theorem request_written {a : Nat} {ds : Channel _} {q : StreamReadPc} {dr : Channel _}
    {r : LinkRead} {parsed : List Packet} {rs : Channel Packet} (ha : 1 ≤ a) :
    Machine.Reaches (step prost conf n)
      ⟨[], [], .empty a, none, ds, q, dr, r, parsed, rs⟩
      ⟨[], [], .empty a, some emptyPushBytes, ds, q, dr, r, parsed, rs⟩ := by
  have hsend : (Channel.empty a).send emptyPush = some (.copies a 1 emptyPush ha) :=
    Channel.send_copies emptyPush ha
  have hrecv := Channel.recv_copies_one emptyPush ha
  have hbytes : emptyPush.toBytes = .ok emptyPushBytes := emptyPush.toBytes_eq
  apply Machine.Reaches.cons (.userSend emptyPush) rfl
  apply Machine.Reaches.cons .takeRequest rfl
  apply Machine.Reaches.cons .dataSend (congrArg (Option.map _) hsend)
  have htake : step prost conf n
      ⟨[], [], .copies a 1 emptyPush ha, none, ds, q, dr, r, parsed, rs⟩ .writerTake =
      some ⟨[], [], .empty a, some emptyPushBytes, ds, q, dr, r, parsed, rs⟩ := by
    simp only [step, hrecv, hbytes]
  exact Machine.Reaches.cons .writerTake htake (.refl _)

/-- While `quic_process_loop` waits, frames fill `quic_data_send_tx`. -/
theorem frames_fill {a b : Nat} {q : StreamReadPc} {dr : Channel _} {r : LinkRead}
    {parsed : List Packet} {rs : Channel Packet} (ha : 1 ≤ a) (k : Nat) (hk : k ≤ b) :
    Machine.Reaches (step prost conf n)
      ⟨[], [], .empty a, none, .empty b, q, dr, r, parsed, rs⟩
      ⟨[], [], .empty a, none, .copies b k emptyPushBytes hk, q, dr, r, parsed, rs⟩ := by
  induction k with
  | zero => exact Machine.Reaches.refl _
  | succ k ih =>
    refine (ih (Nat.le_of_succ_le hk)).trans ((request_written ha).trans ?_)
    have hsend := Channel.send_copies emptyPushBytes hk
    apply Machine.Reaches.cons .writerSend (congrArg (Option.map _) hsend)
    exact Machine.Reaches.refl _

/-- While `link_write_loop` waits, requests fill `inner_request_tx`. -/
theorem requests_fill {a : Nat} {w : Option Bytes} {ds : Channel _} {q : StreamReadPc}
    {dr : Channel _} {r : LinkRead} {parsed : List Packet} {rs : Channel Packet} (k : Nat)
    (hk : k ≤ a) : Machine.Reaches (step prost conf n)
      ⟨[], [], .empty a, w, ds, q, dr, r, parsed, rs⟩
      ⟨[], [], .copies a k emptyPush hk, w, ds, q, dr, r, parsed, rs⟩ := by
  induction k with
  | zero => exact Machine.Reaches.refl _
  | succ k ih =>
    refine (ih (Nat.le_of_succ_le hk)).trans ?_
    apply Machine.Reaches.cons (.userSend emptyPush) rfl
    apply Machine.Reaches.cons .takeRequest rfl
    have hsend := Channel.send_copies emptyPush hk
    apply Machine.Reaches.cons .dataSend (congrArg (Option.map _) hsend)
    exact Machine.Reaches.refl _

theorem data_blocks {ir : Channel _} {w : Option Bytes} {ds : Channel _} {q : StreamReadPc}
    {dr : Channel _} {r : LinkRead} {parsed : List Packet} {rs : Channel Packet} :
    Machine.Reaches (step prost conf n)
      ⟨[], [], ir, w, ds, q, dr, r, parsed, rs⟩
      ⟨[], [emptyPush], ir, w, ds, q, dr, r, parsed, rs⟩ := by
  apply Machine.Reaches.cons (.userSend emptyPush) rfl
  apply Machine.Reaches.cons .takeRequest rfl
  exact Machine.Reaches.refl _

end Phases

/-- In a deadlock no task moves again: only users can still queue requests. -/
theorem deadlocked_step {prost : Prost} {conf : LinkClientConfig} {n : Nat} {s s' : Pipeline}
    {e : PipelineEvent} (h : s.Deadlocked) (hs : step prost conf n s e = some s') :
    s'.Deadlocked ∧ ∃ p, e = .userSend p := by
  obtain ⟨p, todo, hdata⟩ := List.exists_cons_of_ne_nil h.data
  obtain ⟨q, parsed, hparsed⟩ := List.exists_cons_of_ne_nil h.parsed
  obtain ⟨f, hwriter⟩ := Option.ne_none_iff_exists'.mp h.writer
  obtain ⟨b, hquic⟩ : ∃ b, s.quic = .sending b := by
    have hq := h.quic
    unfold quicWaits at hq
    split at hq
    next b hb => exact ⟨b, hb⟩
    next => cases hq
  have hinner := (s.innerRequest.send_eq_none_iff p).mpr h.innerRequest
  have hframe := (s.quicDataSend.send_eq_none_iff f).mpr h.quicDataSend
  have hchunk := (s.quicDataRecv.send_eq_none_iff b).mpr h.quicDataRecv
  have hresponse := (s.innerResponse.send_eq_none_iff q).mpr h.innerResponse
  cases e with
  | userSend p =>
    cases hs
    exact ⟨⟨h.data, h.innerRequest, h.writer, h.quicDataSend, h.quic, h.quicDataRecv, h.parsed,
      h.innerResponse⟩, p, rfl⟩
  | _ => simp [step, hdata, hparsed, hwriter, hquic, hinner, hframe, hchunk, hresponse] at hs

theorem reaches_deadlock (prost : Prost) (conf : LinkClientConfig) (cap : Capacities) (n : Nat)
    (hinner : 1 ≤ cap.innerRequest) (hrecv : 1 ≤ cap.quicDataRecv) (hn : 5 ≤ n) :
    ∃ s, Machine.Reaches (step prost conf n) (new cap n) s ∧ s.Deadlocked := by
  have hopen : Machine.Reaches (step prost conf n) (new cap n)
      ⟨[], [], .empty cap.innerRequest, none, .empty cap.quicDataSend, .reading,
        .empty cap.quicDataRecv, .new n none, [], .empty cap.innerResponse⟩ :=
    Machine.Reaches.cons .udpRecv rfl (.refl _)
  obtain ⟨r, sent, hr, hresponses⟩ : ∃ (r : LinkRead) (sent : List Packet), r.Waiting n sent ∧
      Machine.Reaches (step prost conf n)
      ⟨[], [], .empty cap.innerRequest, none, .empty cap.quicDataSend, .reading,
        .empty cap.quicDataRecv, .new n none, [], .empty cap.innerResponse⟩ _ :=
    responses_fill hrecv (LinkRead.new_waiting n) hn cap.innerResponse (Nat.le_refl _)
  have hread := hresponses.trans ((push_arrives hrecv hr hn).trans
    ((chunks_fill hn cap.quicDataRecv (Nat.le_refl _)).trans (quic_blocks hn)))
  have hwrite := hread.trans ((frames_fill hinner cap.quicDataSend (Nat.le_refl _)).trans
    ((request_written hinner).trans
      ((requests_fill cap.innerRequest (Nat.le_refl _)).trans data_blocks)))
  refine ⟨_, hopen.trans hwrite, ?_⟩
  exact {
    data := List.cons_ne_nil _ _
    innerRequest := Channel.full_copies _ _
    writer := Option.some_ne_none _
    quicDataSend := Channel.full_copies _ _
    quic := rfl
    quicDataRecv := Channel.full_copies _ _
    parsed := List.cons_ne_nil _ _
    innerResponse := Channel.full_copies _ _ }

/-- Whatever the capacities, the four tasks can end up waiting for each other,
as long as the read buffer holds the smallest packet. -/
theorem pipeline_not_deadlock_free (prost : Prost) (conf : LinkClientConfig) (cap : Capacities)
    (n : Nat) (hinner : 0 < cap.innerRequest) (hrecv : 0 < cap.quicDataRecv) (hn : 5 ≤ n) :
    ¬DeadlockFree prost conf cap n := by
  intro hfree
  obtain ⟨s, ⟨events, hrun⟩, hdead⟩ := reaches_deadlock prost conf cap n hinner hrecv hn
  exact hfree events s hrun hdead

theorem pipeline_not_deadlock_free_two :
    ¬DeadlockFree plainProst plainConfig ⟨2, 2, 2, 2⟩ 16 :=
  pipeline_not_deadlock_free plainProst plainConfig ⟨2, 2, 2, 2⟩ 16 (by decide) (by decide)
    (by decide)

/-- Four pushes arrive and four user packets are sent, with room for one item
in each channel. -/
def wedgeRun : List PipelineEvent :=
  [.udpRecv, .streamRecv emptyPushBytes, .recvSend, .readerTake, .readerSend,
    .streamRecv emptyPushBytes, .recvSend, .readerTake, .streamRecv emptyPushBytes, .recvSend,
    .streamRecv emptyPushBytes, .userSend emptyPush, .takeRequest, .dataSend, .writerTake,
    .writerSend, .userSend emptyPush, .takeRequest, .dataSend, .writerTake, .userSend emptyPush,
    .takeRequest, .dataSend, .userSend emptyPush, .takeRequest]

theorem pipeline_not_deadlock_free_counterexample :
    ∃ s, Machine.run (step plainProst plainConfig 16) (new ⟨1, 1, 1, 1⟩ 16) wedgeRun = some s ∧
      s.Deadlocked := by
  have hwedged : (Machine.run (step plainProst plainConfig 16) (new ⟨1, 1, 1, 1⟩ 16) wedgeRun).any
      (fun s => decide s.Deadlocked) = true := by
    decide +kernel
  obtain ⟨s, hrun, hdead⟩ := (Option.any_eq_true _ _).mp hwedged
  exact ⟨s, hrun, of_decide_eq_true hdead⟩

end Pipeline

end QuoteLink

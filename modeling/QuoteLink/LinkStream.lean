import QuoteLink.LinkReadSpace
import QuoteLink.QuicSendIntegrity

open Reader

namespace QuoteLink

section Parse

/-- Whatever stops the loop, it has sent packets that can be read one after the
other from the start of the slice. -/
theorem parseLoop_sent (fuel : Nat) (tx : ResponseTx) (buf : Bytes) (consumed : Nat) :
    ∃ got, (parseLoop fuel tx buf 0 consumed buf.length minPacketHeaderSize).1.sent = tx.sent ++ got ∧
      got <+: (Packet.reader.drain buf).1 := by
  have hstop : ∃ got, tx.sent = tx.sent ++ got ∧ got <+: (Packet.reader.drain buf).1 :=
    ⟨[], (List.append_nil _).symm, List.nil_prefix⟩
  induction fuel generalizing tx buf consumed with
  | zero => exact hstop
  | succ fuel ih =>
    rw [parseLoop]
    cases hh : PacketHeader.fromBytes (buf, 0) with
    | error e =>
      cases e with
      | incomplete => exact hstop
      | invalid => exact hstop
    | ok out =>
      obtain ⟨left, header⟩ := out
      by_cases hshort : buf.length < header.needBytes
      · simp only [if_pos hshort]
        exact hstop
      · obtain ⟨p, rest, hr, hhead, hlen⟩ := Packet.reader_of_header hh (Nat.not_lt.mp hshort)
        have hsize : p.totalBytes = header.needBytes := by rw [p.totalBytes_eq_needBytes, hhead]
        simp only [if_neg hshort, Packet.reader_eq_ok.mp hr]
        cases hsend : tx.send p with
        | none => exact hstop
        | some tx' =>
          have hocc : buf.length - p.totalBytes = rest.length := by omega
          have htx := ResponseTx.send_eq_some hsend
          subst htx
          simp only [hocc]
          obtain ⟨got, hgot, hfront⟩ := ih { tx with sent := tx.sent ++ [p] } rest (consumed + p.totalBytes)
            ⟨[], (List.append_nil _).symm, List.nil_prefix⟩
          refine ⟨p :: got, ?_, ?_⟩
          · rw [hgot, List.append_assoc]
            rfl
          · rw [drain_ok Packet.reader_progress hr]
            exact (List.prefix_cons_inj p).mpr hfront

end Parse

namespace LinkRead

theorem process_sent (s : LinkRead) (buf : SimpleBuf) :
    ∃ got, (s.process buf).responseTx.sent = s.responseTx.sent ++ got ∧
      got <+: (Packet.reader.drain buf.occupiedSlice).1 := by
  unfold process
  by_cases hneed : s.needSize ≤ buf.len
  · have hsent := parseLoop_sent (buf.occupiedSlice.length + 1) s.responseTx buf.occupiedSlice 0
    rw [if_pos hneed]
    simp only [parsePacketBuf]
    split
    next tx c n hp =>
      rw [hp] at hsent
      split
      next => exact hsent
      next => exact hsent
    next tx e hp =>
      rw [hp] at hsent
      exact hsent
  · rw [if_neg hneed]
    exact ⟨[], (List.append_nil _).symm, List.nil_prefix⟩

/-- A turn sends packets that come next in the stream. -/
theorem step_sent (cap : Nat) (closed : Option Nat) (chunks : List Bytes) (b : Bytes) :
    ∃ got, ((run cap closed chunks).step b).responseTx.sent = (run cap closed chunks).responseTx.sent ++ got ∧
      ((run cap closed chunks).exit = none →
        (run cap closed chunks).responseTx.sent ++ got <+:
          (Packet.reader.drain (chunks ++ [b]).flatten).1) := by
  cases he : (run cap closed chunks).exit with
  | some e =>
    rw [step_exit he]
    exact ⟨[], (List.append_nil _).symm, fun h => absurd h (Option.some_ne_none e)⟩
  | none =>
    have halive := run_alive he
    have hdrain := drain_append Packet.reader_progress chunks.flatten b
    rw [← halive.sent, ← halive.occupied] at hdrain
    rw [step_running he, List.flatten_append, List.flatten_singleton, hdrain]
    rcases readOnce_cases (run cap closed chunks) b with
      ⟨_, hr⟩ | ⟨_, _, _, _, _, hr⟩ | ⟨buf, buf', hroom, hpush, hr⟩
    · rw [hr]
      refine ⟨[], (List.append_nil _).symm, fun _ => ?_⟩
      rw [List.append_nil]
      exact List.prefix_append _ _
    · rw [hr]
      refine ⟨[], (List.append_nil _).symm, fun _ => ?_⟩
      rw [List.append_nil]
      exact List.prefix_append _ _
    · obtain ⟨hv, hocc⟩ := makeRoom_valid halive.valid hroom
      have hpushed := hv.pushSlice (by rw [hpush])
      rw [hpush, hocc] at hpushed
      obtain ⟨got, hgot, hfront⟩ := process_sent (run cap closed chunks) buf'
      rw [hr]
      refine ⟨got, hgot, fun _ => ?_⟩
      rw [hpushed.2] at hfront
      exact (List.prefix_append_right_inj _).mpr hfront

/-- However the loop ended, its consumer got the first packets of the stream. -/
theorem run_sent_prefix (cap : Nat) (closed : Option Nat) (chunks : List Bytes) :
    (run cap closed chunks).responseTx.sent <+: (Packet.reader.drain chunks.flatten).1 := by
  induction chunks using List.reverseRecOn with
  | nil => exact List.nil_prefix
  | append_singleton chunks b ih =>
    have hmore : chunks.flatten <+: (chunks ++ [b]).flatten := by
      rw [List.flatten_append]
      exact List.prefix_append _ _
    obtain ⟨got, hgot, hfront⟩ := step_sent cap closed chunks b
    rw [run_append]
    cases he : (run cap closed chunks).exit with
    | some e =>
      rw [step_exit he]
      exact ih.trans (drain_mono Packet.reader_progress hmore)
    | none =>
      rw [hgot]
      exact hfront he

end LinkRead

namespace QuicSend

variable {s s' : QuicSend}

/-- What `stream_send` took stays taken. -/
theorem written_of_flush {next : QuicSend → QuicSend} {r : StreamSend} {k : Bool}
    (hnext : ∀ t : QuicSend, (next t).conn = t.conn) (h : s.flush next r k = some s') :
    s.conn.written <+: s'.conn.written := by
  unfold flush at h
  split at h
  next => cases h
  next =>
    obtain ⟨c, hc, rfl⟩ := Option.map_eq_some_iff.mp h
    rcases Conn.streamSend_cases hc with ⟨n, rfl, _, _, _, rfl⟩ | ⟨rfl, rfl⟩ | ⟨rfl, rfl⟩
    · rcases hfree : s.streamSendBuffer.free n with ⟨buf, e | ⟨⟩⟩
      · simp only [hfree]
        exact List.prefix_append _ _
      · simp only [hfree]
        cases k with
        | true => exact List.prefix_append _ _
        | false => exact List.prefix_append _ _
    · simp only [hnext]
      exact List.prefix_refl _
    · exact List.prefix_refl _

theorem conn_toTickTail (s : QuicSend) : s.toTickTail.conn = s.conn := rfl

theorem conn_takeOrDrop (b : Bytes) (s : QuicSend) : (s.takeOrDrop b).conn = s.conn := by
  unfold takeOrDrop
  dsimp only
  split
  · split <;> rfl
  · rfl

theorem conn_pushRest (s : QuicSend) (buf : SimpleBuf) (rest : Bytes) : (s.pushRest buf rest).conn = s.conn := by
  unfold pushRest
  split <;> rfl

theorem conn_keepRest (s : QuicSend) (b : Bytes) (sent : Nat) : (s.keepRest b sent).conn = s.conn := by
  unfold keepRest
  dsimp only
  split
  · rfl
  · split
    · split
      · rfl
      · exact conn_pushRest s _ _
    · exact conn_pushRest s _ _

theorem written_of_same (h : s'.conn.written = s.conn.written) : s.conn.written <+: s'.conn.written :=
  h ▸ List.prefix_refl _

theorem step_written {e : QuicEvent} (h : s.step e = some s') : s.conn.written <+: s'.conn.written := by
  cases step_cases h with
  | tickFlush r k _ hflush => exact written_of_flush conn_toTickTail hflush
  | frameFlush b r k _ hflush => exact written_of_flush (conn_takeOrDrop b) hflush
  | frameEmpty b _ _ => exact written_of_same (congrArg Conn.written (conn_takeOrDrop b s))
  | offer b sent r k _ hoffer =>
    rcases (offer_cases hoffer).2 with ⟨n, _, _, _, _, rfl⟩ | ⟨_, rfl⟩ | ⟨_, rfl⟩
    · cases k with
      | true => exact List.prefix_append _ _
      | false => exact List.prefix_append _ _
    · have hkept := congrArg Conn.written (conn_keepRest { s with conn := { s.conn with blocked := true } } b sent)
      exact written_of_same hkept
    · exact List.prefix_refl _
  | offerEnd b sent _ _ => exact written_of_same (congrArg Conn.written (conn_keepRest s b sent))
  | tickEnd onTimeout timedOut closed _ =>
    have hconn : (s.tickEnd onTimeout timedOut closed).conn =
        if onTimeout.isSome then s.conn.call else s.conn := by
      unfold tickEnd
      dsimp only
      repeat' split
      all_goals rfl
    rw [hconn]
    split
    · exact List.prefix_refl _
    · exact List.prefix_refl _
  | _ => exact List.prefix_refl _

theorem frames_prefix_taken (s : QuicSend) : s.frames.map (·.1) <+: s.taken := List.prefix_append _ _

theorem frames_of_flush {next : QuicSend → QuicSend} {r : StreamSend} {k : Bool}
    (h : s.flush next r k = some s') :
    s'.frames = s.frames ∨ ∃ t : QuicSend, t.frames = s.frames ∧ s' = next t := by
  unfold flush at h
  split at h
  next => cases h
  next =>
    obtain ⟨c, hc, rfl⟩ := Option.map_eq_some_iff.mp h
    cases r with
    | ok n =>
      rcases hfree : s.streamSendBuffer.free n with ⟨buf, e | ⟨⟩⟩
      · simp only [hfree, true_or]
      · have hloop := connSendLoop_frames { s with conn := c, streamSendBuffer := buf } k
        simp only [hfree, hloop.1, true_or]
    | done => exact Or.inr ⟨{ s with conn := c }, rfl, rfl⟩
    | err => exact Or.inl rfl

/-- Only a frame that was taken is decided on. -/
theorem step_frames {e : QuicEvent} (h : s.step e = some s') : s'.frames.map (·.1) <+: s.taken := by
  have hsame : ∀ t : QuicSend, t.frames = s.frames → t.frames.map (·.1) <+: s.taken :=
    fun t ht => ht ▸ s.frames_prefix_taken
  cases step_cases h with
  | tickFlush r k hpc hflush =>
    rcases frames_of_flush hflush with hframes | ⟨t, ht, rfl⟩
    · exact hsame s' hframes
    · exact hsame t.toTickTail ht
  | frameFlush b r k hpc hflush =>
    rcases frames_of_flush hflush with hframes | ⟨t, ht, rfl⟩
    · exact hsame s' hframes
    · have htaken : (t.takeOrDrop b).taken = s.taken := by
        rw [taken_takeOrDrop, ht, taken, undecided, hpc]
      exact htaken ▸ (t.takeOrDrop b).frames_prefix_taken
  | frameEmpty b hpc _ =>
    have htaken : (s.takeOrDrop b).taken = s.taken := by rw [taken_takeOrDrop, taken, undecided, hpc]
    exact htaken ▸ (s.takeOrDrop b).frames_prefix_taken
  | offer b sent r k hpc hoffer =>
    have hle := s'.frames_prefix_taken
    rw [taken_offer hoffer] at hle
    exact hle.trans s.frames_prefix_taken
  | offerEnd b sent hpc _ =>
    have hle := (s.keepRest b sent).frames_prefix_taken
    rw [taken_keepRest] at hle
    exact hle.trans s.frames_prefix_taken
  | tickEnd onTimeout timedOut closed hpc =>
    have hle := (s.tickEnd onTimeout timedOut closed).frames_prefix_taken
    rw [taken_tickEnd] at hle
    exact hle.trans s.frames_prefix_taken
  | _ => exact hsame _ rfl

/-- In every state the stream is a front of the frames that were kept. -/
theorem Integrity.written_prefix (h : s.Integrity) : s.conn.written <+: s.kept.flatten := by
  cases hpc : s.pc with
  | exited e => simpa only [Integrity, hpc] using h
  | offer b sent =>
    have ho : s.Offering b sent := by simpa only [Integrity, hpc] using h
    exact ho.placed.written_le
  | select =>
    have hp : s.Placed [] := by simpa only [Integrity, hpc] using h
    exact hp.written_le
  | tickFlush =>
    have hp : s.Placed [] := by simpa only [Integrity, hpc] using h
    exact hp.written_le
  | tickTail =>
    have hp : s.Placed [] := by simpa only [Integrity, hpc] using h
    exact hp.written_le
  | frameFlush b =>
    have hp : s.Placed [] := by simpa only [Integrity, hpc] using h
    exact hp.written_le

end QuicSend

end QuoteLink

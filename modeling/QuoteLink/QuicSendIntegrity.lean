import QuoteLink.QuicSend

namespace QuoteLink

namespace QuicSend

/-- The stream, then the buffer, then `rest` are the kept frames, byte for byte. -/
structure Placed (s : QuicSend) (rest : Bytes) : Prop where
  valid : s.streamSendBuffer.Valid
  bytes : s.conn.written ++ s.streamSendBuffer.occupiedSlice ++ rest = s.kept.flatten

/-- While a frame is offered it is the last of the kept ones, and nothing is
written past buffered bytes: there are none, or the connection is blocked. -/
structure Offering (s : QuicSend) (b : Bytes) (sent : Nat) : Prop where
  placed : s.Placed (b.drop sent)
  sent_le : sent ≤ b.length
  last : ∃ before, s.kept = before ++ [b]
  behind : s.streamSendBuffer.occupiedSlice = [] ∨ s.conn.blocked = true ∧ sent = 0

def Integrity (s : QuicSend) : Prop :=
  match s.pc with
  | .exited _ => s.conn.written <+: s.kept.flatten
  | .offer b sent => s.Offering b sent
  | _ => s.Placed []

theorem kept_dropped (l : List (Bytes × Bool)) (b : Bytes) :
    ((l ++ [(b, false)]).filter (·.2)).map (·.1) = (l.filter (·.2)).map (·.1) := by
  simp

theorem kept_accepted (l : List (Bytes × Bool)) (b : Bytes) :
    ((l ++ [(b, true)]).filter (·.2)).map (·.1) = (l.filter (·.2)).map (·.1) ++ [b] := by
  simp

section Steps

variable {s s' : QuicSend} {b : Bytes} {rest : Bytes}

theorem Placed.written_le (h : s.Placed rest) : s.conn.written <+: s.kept.flatten := by
  rw [← h.bytes, List.append_assoc]
  exact List.prefix_append _ _

theorem connSendLoop_integrity (ok : Bool) (hlive : { s with conn := s.conn.call }.Integrity)
    (hp : s.Placed rest) : (s.connSendLoop ok).Integrity := by
  cases ok with
  | true => exact hlive
  | false => exact hp.written_le

theorem takeOrDrop_integrity (b : Bytes) (hp : s.Placed [])
    (hfront : s.streamSendBuffer.occupiedSlice = [] ∨ s.conn.blocked = true) :
    (s.takeOrDrop b).Integrity := by
  obtain ⟨hv, hocc⟩ := hp.valid.reuseIf
  have hbytes := hp.bytes
  rw [List.append_nil] at hbytes
  -- the frame is offered from a buffer with the same content
  have hoffer : ∀ buf : SimpleBuf, buf.Valid →
      buf.occupiedSlice = s.streamSendBuffer.occupiedSlice →
      Offering { s with streamSendBuffer := buf, pc := .offer b 0, frames := s.frames ++ [(b, true)] }
        b 0 := by
    intro buf hbuf hsame
    refine ⟨⟨hbuf, ?_⟩, Nat.zero_le _, ⟨s.kept, kept_accepted _ _⟩, ?_⟩
    · have hkept := kept_accepted s.frames b
      simp only [kept, hkept, hsame, List.flatten_append, List.flatten_singleton, List.drop_zero]
      rw [hbytes]
      rfl
    · show buf.occupiedSlice = [] ∨ _
      rw [hsame]
      exact hfront.imp id fun hb => ⟨hb, rfl⟩
  unfold takeOrDrop
  by_cases hlen : s.streamSendBuffer.reuseIf.1.len < b.length
  · by_cases hmax : s.streamSendBuffer.reuseIf.1.maxLen < b.length
    · have hdrop : Placed { s with
          streamSendBuffer := s.streamSendBuffer.reuseIf.1, pc := .select,
          frames := s.frames ++ [(b, false)] } [] := by
        refine ⟨hv, ?_⟩
        have hkept := kept_dropped s.frames b
        simp only [kept, hkept, hocc, List.append_nil]
        exact hbytes
      simp only [hlen, hmax, if_true]
      exact hdrop
    · have hroom := hoffer s.streamSendBuffer.reuseIf.1.reuse hv.reuse.1 (hv.reuse.2.1.trans hocc)
      simp only [hlen, hmax, if_true, if_false]
      exact hroom
  · have hroom := hoffer s.streamSendBuffer.reuseIf.1 hv hocc
    simp only [hlen, if_false]
    exact hroom

/-- A pass over the leftovers: the stream takes some of them, blocks, or fails. -/
theorem flush_cases {next : QuicSend → QuicSend} {r : StreamSend} {k : Bool}
    (hv : s.streamSendBuffer.Valid) (h : s.flush next r k = some s') :
    (∃ n buf, r = .ok n ∧ 1 ≤ n ∧ n ≤ s.streamSendBuffer.len ∧ buf.Valid ∧
      buf.occupiedSlice = s.streamSendBuffer.occupiedSlice.drop n ∧
      s' = connSendLoop { s with
        conn := { s.conn with written := s.conn.written ++ s.streamSendBuffer.occupiedSlice.take n }
        streamSendBuffer := buf } k) ∨
    (r = .done ∧ s' = next { s with conn := { s.conn with blocked := true } }) ∨
    (r = .err ∧ s' = { s with pc := .exited .streamSend }) := by
  unfold flush at h
  split at h
  next => cases h
  next =>
    obtain ⟨c, hc, rfl⟩ := Option.map_eq_some_iff.mp h
    rcases Conn.streamSend_cases hc with ⟨n, rfl, _, hpos, hn, rfl⟩ | ⟨rfl, rfl⟩ | ⟨rfl, rfl⟩
    · rw [hv.length_occupiedSlice] at hn
      have hok := hv.free_ok_iff.mpr hn
      obtain ⟨hbuf, hocc⟩ := hv.free hok
      obtain ⟨buf, hfree⟩ : ∃ buf, s.streamSendBuffer.free n = (buf, .ok ()) :=
        ⟨_, Prod.ext rfl hok⟩
      rw [hfree] at hbuf hocc
      exact Or.inl ⟨n, buf, rfl, hpos, hn, hbuf, hocc, by simp only [hfree]⟩
    · exact Or.inr (Or.inl ⟨rfl, rfl⟩)
    · exact Or.inr (Or.inr ⟨rfl, rfl⟩)

theorem flush_integrity {next : QuicSend → QuicSend} {r : StreamSend} {k : Bool}
    (hp : s.Placed []) (hpc : ∀ t : QuicSend, t.pc = s.pc → t.Placed [] → t.Integrity)
    (hnext : ∀ t : QuicSend, t.Placed [] → t.conn.blocked = true → (next t).Integrity)
    (h : s.flush next r k = some s') : s'.Integrity := by
  rcases flush_cases hp.valid h with ⟨n, buf, _, _, _, hv, hocc, rfl⟩ | ⟨_, rfl⟩ | ⟨_, rfl⟩
  · have hmoved : Placed { s with
        conn := { s.conn with written := s.conn.written ++ s.streamSendBuffer.occupiedSlice.take n }
        streamSendBuffer := buf } [] := by
      refine ⟨hv, ?_⟩
      show _ ++ _ ++ buf.occupiedSlice ++ [] = _
      rw [hocc, List.append_assoc s.conn.written, List.take_append_drop]
      exact hp.bytes
    exact connSendLoop_integrity k (hpc _ rfl ⟨hmoved.valid, hmoved.bytes⟩) hmoved
  · exact hnext _ ⟨hp.valid, hp.bytes⟩ rfl
  · exact hp.written_le

theorem pushRest_integrity {buf : SimpleBuf} (hp : s.Placed rest) (hv : buf.Valid)
    (hocc : buf.occupiedSlice = s.streamSendBuffer.occupiedSlice) :
    (s.pushRest buf rest).Integrity := by
  unfold pushRest
  split
  next buf' hpush =>
    have hpushed := hv.pushSlice (by rw [hpush])
    rw [hpush, hocc] at hpushed
    have hplaced : Placed { s with streamSendBuffer := buf', pc := .select } [] := by
      refine ⟨hpushed.1, ?_⟩
      show s.conn.written ++ buf'.occupiedSlice ++ [] = s.kept.flatten
      rw [hpushed.2, List.append_nil, ← List.append_assoc]
      exact hp.bytes
    exact hplaced
  next => exact hp.written_le

theorem keepRest_integrity {sent : Nat} (h : s.Offering b sent) : (s.keepRest b sent).Integrity := by
  unfold keepRest
  by_cases hall : sent = b.length
  · have hplaced := h.placed
    rw [hall, List.drop_length] at hplaced
    rw [if_pos hall]
    exact ⟨hplaced.valid, hplaced.bytes⟩
  · rw [if_neg hall]
    by_cases hlen : s.streamSendBuffer.len < b.length
    · rw [if_pos hlen]
      by_cases hmax : s.streamSendBuffer.maxLen < b.length
      · rw [if_pos hmax]
        exact h.placed.written_le
      · rw [if_neg hmax]
        have hreuse := h.placed.valid.reuse
        exact pushRest_integrity h.placed hreuse.1 hreuse.2.1
    · rw [if_neg hlen]
      exact pushRest_integrity h.placed h.placed.valid rfl

/-- A pass over the frame's own bytes: the stream takes some of them, blocks, or fails. -/
theorem offer_cases {sent : Nat} {r : StreamSend} {k : Bool} (h : s.offer b sent r k = some s') :
    sent < b.length ∧
    ((∃ n, r = .ok n ∧ s.conn.blocked = false ∧ 1 ≤ n ∧ n ≤ b.length - sent ∧
      s' = connSendLoop { s with
        conn := { s.conn with written := s.conn.written ++ (b.drop sent).take n }
        pc := .offer b (sent + n) } k) ∨
    (r = .done ∧ s' = keepRest { s with conn := { s.conn with blocked := true } } b sent) ∨
    (r = .err ∧ s' = { s with pc := .exited .streamSend })) := by
  unfold offer at h
  split at h
  next => cases h
  next hlt =>
    refine ⟨Nat.not_le.mp hlt, ?_⟩
    obtain ⟨c, hc, rfl⟩ := Option.map_eq_some_iff.mp h
    rcases Conn.streamSend_cases hc with ⟨n, rfl, hfree, hpos, hn, rfl⟩ | ⟨rfl, rfl⟩ | ⟨rfl, rfl⟩
    · rw [List.length_drop] at hn
      exact Or.inl ⟨n, rfl, hfree, hpos, hn, rfl⟩
    · exact Or.inr (Or.inl ⟨rfl, rfl⟩)
    · exact Or.inr (Or.inr ⟨rfl, rfl⟩)

/-- The bytes written go to the stream behind everything before them: an `Ok`
means the connection is not blocked, hence the buffer is empty. -/
theorem offer_integrity {sent : Nat} {r : StreamSend} {k : Bool} (h : s.Offering b sent)
    (hs : s.offer b sent r k = some s') : s'.Integrity := by
  obtain ⟨hlt, ⟨n, _, hfree, _, hn, rfl⟩ | ⟨_, rfl⟩ | ⟨_, rfl⟩⟩ := offer_cases hs
  · have hempty : s.streamSendBuffer.occupiedSlice = [] := by
      rcases h.behind with hnil | ⟨hblocked, _⟩
      · exact hnil
      · rw [hfree] at hblocked
        cases hblocked
    have hbytes := h.placed.bytes
    rw [hempty, List.append_nil] at hbytes
    have hmoved : Placed { s with
        conn := { s.conn with written := s.conn.written ++ (b.drop sent).take n }
        pc := .offer b (sent + n) } (b.drop (sent + n)) := by
      refine ⟨h.placed.valid, ?_⟩
      show _ ++ _ ++ s.streamSendBuffer.occupiedSlice ++ _ = s.kept.flatten
      rw [hempty, List.append_nil, List.append_assoc, ← List.drop_drop, List.take_append_drop]
      exact hbytes
    have hoffering : Offering { s with
        conn := Conn.call { s.conn with written := s.conn.written ++ (b.drop sent).take n }
        pc := .offer b (sent + n) } b (sent + n) :=
      ⟨⟨hmoved.valid, hmoved.bytes⟩, by omega, h.last, Or.inl hempty⟩
    exact connSendLoop_integrity k hoffering hmoved
  · refine keepRest_integrity (s := { s with conn := _ }) ⟨⟨h.placed.valid, h.placed.bytes⟩, h.sent_le, h.last, ?_⟩
    exact h.behind.imp id fun hb => ⟨rfl, hb.2⟩
  · exact h.placed.written_le

theorem tickEnd_integrity (hp : s.Placed []) (onTimeout : Option Bool) (timedOut closed : Bool) :
    (s.tickEnd onTimeout timedOut closed).Integrity := by
  have hconn : (if onTimeout.isSome then s.conn.call else s.conn).written = s.conn.written := by
    split <;> rfl
  have hleft : (if onTimeout.isSome then s.conn.call else s.conn).written <+: s.kept.flatten := by
    rw [hconn]
    exact hp.written_le
  unfold tickEnd
  by_cases hout : onTimeout = some false
  · rw [if_pos hout]
    exact hleft
  · rw [if_neg hout]
    by_cases htimed : timedOut = true
    · rw [if_pos htimed]
      exact hleft
    · rw [if_neg htimed]
      by_cases hclosed : closed = true
      · rw [if_pos hclosed]
        exact hleft
      · rw [if_neg hclosed]
        refine ⟨hp.valid, ?_⟩
        show (if onTimeout.isSome then s.conn.call else s.conn).written ++ _ ++ [] = _
        rw [hconn]
        exact hp.bytes

theorem step_integrity {e : QuicEvent} (h : s.Integrity) (hs : s.step e = some s') :
    s'.Integrity := by
  cases step_cases hs with
  | otherBranch leave hpc =>
    have hp : s.Placed [] := by simpa only [Integrity, hpc] using h
    cases leave with
    | true => exact hp.written_le
    | false => exact Placed.mk hp.valid hp.bytes
  | tick hpc =>
    have hp : s.Placed [] := by simpa only [Integrity, hpc] using h
    exact Placed.mk hp.valid hp.bytes
  | recv b hpc =>
    have hp : s.Placed [] := by simpa only [Integrity, hpc] using h
    exact Placed.mk hp.valid hp.bytes
  | tickFlush r k hpc hflush =>
    have hp : s.Placed [] := by simpa only [Integrity, hpc] using h
    refine flush_integrity hp ?_ ?_ hflush
    · intro t ht hp
      simpa only [Integrity, ht, hpc] using hp
    · intro t hp _
      exact Placed.mk hp.valid hp.bytes
  | tickEmpty hpc _ =>
    have hp : s.Placed [] := by simpa only [Integrity, hpc] using h
    exact Placed.mk hp.valid hp.bytes
  | frameFlush b r k hpc hflush =>
    have hp : s.Placed [] := by simpa only [Integrity, hpc] using h
    refine flush_integrity hp ?_ ?_ hflush
    · intro t ht hp
      simpa only [Integrity, ht, hpc] using hp
    · intro t hp hblocked
      exact takeOrDrop_integrity b hp (Or.inr hblocked)
  | frameEmpty b hpc hempty =>
    have hp : s.Placed [] := by simpa only [Integrity, hpc] using h
    exact takeOrDrop_integrity b hp (Or.inl (hp.valid.isEmpty_iff.mp hempty))
  | offer b sent r k hpc hoffer =>
    have ho : s.Offering b sent := by simpa only [Integrity, hpc] using h
    exact offer_integrity ho hoffer
  | offerEnd b sent hpc _ =>
    have ho : s.Offering b sent := by simpa only [Integrity, hpc] using h
    exact keepRest_integrity ho
  | tickEnd onTimeout timedOut closed hpc =>
    have hp : s.Placed [] := by simpa only [Integrity, hpc] using h
    exact tickEnd_integrity hp onTimeout timedOut closed

theorem new_integrity (cap : Nat) : (new cap).Integrity := by
  have hp : (new cap).Placed [] := by
    refine ⟨SimpleBuf.new_valid cap, ?_⟩
    show [] ++ (SimpleBuf.new cap).occupiedSlice ++ [] = _
    rw [SimpleBuf.occupiedSlice_new]
    rfl
  exact hp

end Steps

section Frames

variable {s s' : QuicSend}

/-- The frames taken from `quic_data_send_rx`, decided on or not. -/
def taken (s : QuicSend) : List Bytes := s.frames.map (·.1) ++ s.undecided

theorem connSendLoop_frames (s : QuicSend) (ok : Bool) :
    (s.connSendLoop ok).frames = s.frames ∧
      ((s.connSendLoop ok).running = true → (s.connSendLoop ok).pc = s.pc) := by
  cases ok with
  | true => exact ⟨rfl, fun _ => rfl⟩
  | false => exact ⟨rfl, fun h => by cases h⟩

theorem flush_frames {next : QuicSend → QuicSend} {r : StreamSend} {k : Bool}
    (h : s.flush next r k = some s') (hr : s'.running = true) :
    (s'.pc = s.pc ∧ s'.frames = s.frames) ∨ ∃ t : QuicSend, t.frames = s.frames ∧ s' = next t := by
  unfold flush at h
  split at h
  next => cases h
  next =>
    obtain ⟨c, hc, rfl⟩ := Option.map_eq_some_iff.mp h
    cases r with
    | ok n =>
      rcases hfree : s.streamSendBuffer.free n with ⟨buf, e | ⟨⟩⟩
      · simp only [hfree] at hr
        cases hr
      · simp only [hfree] at hr ⊢
        have hloop := connSendLoop_frames { s with conn := c, streamSendBuffer := buf } k
        exact Or.inl ⟨hloop.2 hr, hloop.1⟩
    | done => exact Or.inr ⟨{ s with conn := c }, rfl, rfl⟩
    | err => cases hr

theorem taken_of_same (hpc : s'.pc = s.pc) (hframes : s'.frames = s.frames) : s'.taken = s.taken := by
  simp only [taken, undecided, hpc, hframes]

theorem taken_takeOrDrop {b : Bytes} (s : QuicSend) :
    (s.takeOrDrop b).taken = s.frames.map (·.1) ++ [b] := by
  unfold takeOrDrop
  dsimp only
  split
  · split <;> simp [taken, undecided]
  · simp [taken, undecided]

theorem taken_pushRest (s : QuicSend) (buf : SimpleBuf) (rest : Bytes) :
    (s.pushRest buf rest).taken = s.frames.map (·.1) := by
  unfold pushRest
  split <;> simp [taken, undecided]

theorem taken_keepRest (s : QuicSend) (b : Bytes) (sent : Nat) :
    (s.keepRest b sent).taken = s.frames.map (·.1) := by
  unfold keepRest
  dsimp only
  split
  · simp [taken, undecided]
  · split
    · split
      · simp [taken, undecided]
      · exact taken_pushRest s _ _
    · exact taken_pushRest s _ _

theorem taken_offer {b : Bytes} {sent : Nat} {r : StreamSend} {k : Bool}
    (h : s.offer b sent r k = some s') : s'.taken = s.frames.map (·.1) := by
  unfold offer at h
  split at h
  next => cases h
  next =>
    obtain ⟨c, _, rfl⟩ := Option.map_eq_some_iff.mp h
    cases r with
    | ok n => cases k <;> simp [connSendLoop, taken, undecided]
    | done => exact taken_keepRest _ b sent
    | err => simp [taken, undecided]

theorem taken_tickEnd (s : QuicSend) (onTimeout : Option Bool) (timedOut closed : Bool) :
    (s.tickEnd onTimeout timedOut closed).taken = s.frames.map (·.1) := by
  unfold tickEnd
  dsimp only
  repeat' split
  all_goals simp [taken, undecided]

theorem running_of_step {e : QuicEvent} (hs : s.step e = some s') : s.running = true := by
  cases step_cases hs <;> simp only [running, *]

/-- The frames that events take are those the loop has decided on or has in hand. -/
theorem step_taken {e : QuicEvent} (hs : s.step e = some s') (hr : s'.running = true) :
    s.running = true ∧ s'.taken = s.taken ++ e.received := by
  refine ⟨running_of_step hs, ?_⟩
  cases step_cases hs with
  | otherBranch leave hpc => cases leave <;> simp [taken, undecided, hpc, QuicEvent.received]
  | tick hpc => simp [taken, undecided, hpc, QuicEvent.received]
  | recv b hpc => simp [taken, undecided, hpc, QuicEvent.received]
  | tickFlush r k hpc hflush =>
    rcases flush_frames hflush hr with ⟨hsame, hframes⟩ | ⟨t, ht, rfl⟩
    · simp [taken_of_same hsame hframes, QuicEvent.received]
    · simp [toTickTail, taken, undecided, hpc, ht, QuicEvent.received]
  | tickEmpty hpc _ => simp [toTickTail, taken, undecided, hpc, QuicEvent.received]
  | frameFlush b r k hpc hflush =>
    rcases flush_frames hflush hr with ⟨hsame, hframes⟩ | ⟨t, ht, rfl⟩
    · simp [taken_of_same hsame hframes, QuicEvent.received]
    · rw [taken_takeOrDrop, ht]
      simp [taken, undecided, hpc, QuicEvent.received]
  | frameEmpty b hpc _ =>
    rw [taken_takeOrDrop]
    simp [taken, undecided, hpc, QuicEvent.received]
  | offer b sent r k hpc hoffer =>
    rw [taken_offer hoffer]
    simp [taken, undecided, hpc, QuicEvent.received]
  | offerEnd b sent hpc _ =>
    rw [taken_keepRest]
    simp [taken, undecided, hpc, QuicEvent.received]
  | tickEnd onTimeout timedOut closed hpc =>
    rw [taken_tickEnd]
    simp [taken, undecided, hpc, QuicEvent.received]

end Frames

/-- Frame integrity of the send path, at every moment of every run: what the
stream and the buffer hold are the frames that were not dropped, whole and in
order, except that the frame being offered has got as far as its `sent` bytes. -/
theorem send_path_frame_integrity (cap : Nat) (events : List QuicEvent) (s : QuicSend)
    (h : Machine.run step (new cap) events = some s) (hr : s.running = true) :
    events.flatMap QuicEvent.received = s.frames.map (·.1) ++ s.undecided ∧
      match s.pc with
      | .offer b sent => ∃ before, s.kept = before ++ [b] ∧
          s.conn.written ++ s.streamSendBuffer.occupiedSlice = before.flatten ++ b.take sent
      | _ => s.conn.written ++ s.streamSendBuffer.occupiedSlice = s.kept.flatten := by
  have hlog := Machine.run_log (fun _ _ _ hs hl => step_taken hs hl) h hr
  have hint := Machine.run_invariant (fun _ _ _ hi hs => step_integrity hi hs) (new_integrity cap) h
  refine ⟨hlog.2.symm, ?_⟩
  have hsame : s.Placed [] → s.conn.written ++ s.streamSendBuffer.occupiedSlice = s.kept.flatten := by
    intro hp
    rw [← hp.bytes, List.append_nil]
  cases hpc : s.pc with
  | exited e => simp [running, hpc] at hr
  | offer b sent =>
    have ho : s.Offering b sent := by simpa only [Integrity, hpc] using hint
    obtain ⟨before, hlast⟩ := ho.last
    refine ⟨before, hlast, ?_⟩
    have hbytes := ho.placed.bytes
    rw [hlast, List.flatten_append, List.flatten_singleton] at hbytes
    conv_rhs at hbytes => rw [← List.take_append_drop sent b, ← List.append_assoc]
    exact List.append_cancel_right hbytes
  | select => exact hsame (by simpa only [Integrity, hpc] using hint)
  | tickFlush => exact hsame (by simpa only [Integrity, hpc] using hint)
  | tickTail => exact hsame (by simpa only [Integrity, hpc] using hint)
  | frameFlush b => exact hsame (by simpa only [Integrity, hpc] using hint)

/-- A frame is sent in part, its tail is buffered and flushed by the next tick;
a frame too long for the buffer is dropped in between. -/
theorem send_path_frame_integrity_ticked : ∃ s, Machine.run step (new 4)
      [.recv [1, 2, 3], .loopEnd, .streamSend (.ok 1) true, .streamSend .done true,
        .recv [9, 9, 9, 9, 9], .streamSend .done true, .otherBranch false, .tick,
        .streamSend (.ok 1) true] = some s ∧
      s.kept = [[1, 2, 3]] ∧
      s.conn.written ++ s.streamSendBuffer.occupiedSlice = s.kept.flatten := by
  have hrun : Machine.run step (new 4)
      [.recv [1, 2, 3], .loopEnd, .streamSend (.ok 1) true, .streamSend .done true,
        .recv [9, 9, 9, 9, 9], .streamSend .done true, .otherBranch false, .tick,
        .streamSend (.ok 1) true] =
      some ⟨⟨[1, 2], false⟩, ⟨[2, 3, 0, 0], 4, 2, 1⟩, .tickFlush,
        [([1, 2, 3], true), ([9, 9, 9, 9, 9], false)]⟩ := by decide
  exact ⟨_, hrun, by decide, (send_path_frame_integrity 4 _ _ hrun (by decide)).2⟩

end QuicSend

end QuoteLink

import QuoteLink.LinkReadChunking

open Reader

namespace QuoteLink

/-- The bytes of an incomplete packet among the first `received` bytes of a
stream of packets of the given sizes. -/
def pendingBytes : List Nat → Nat → Nat
  | [], received => received
  | size :: sizes, received =>
    if size ≤ received then pendingBytes sizes (received - size) else received

/-- Whether a chunk of `len` bytes that is longer than the incomplete packet
before it still fits behind it. -/
def ChunkFits (cap : Nat) (sizes : List Nat) (received len : Nat) : Prop :=
  pendingBytes sizes received < len → pendingBytes sizes received + len ≤ cap

instance (cap : Nat) (sizes : List Nat) (received len : Nat) :
    Decidable (ChunkFits cap sizes received len) := inferInstanceAs (Decidable (_ → _))

/-- A prefix of a valid stream is read up to its last packet border. -/
theorem length_drain_front {packets : List Packet} {front : Bytes}
    (hwf : ∀ p ∈ packets, p.WellFormed) (h : front <+: packets.flatMap Packet.encoding) :
    (Packet.reader.drain front).2.length =
      pendingBytes (packets.map Packet.totalBytes) front.length := by
  induction packets generalizing front with
  | nil =>
    have empty : front = [] := List.prefix_nil.mp h
    subst front
    rw [drain_nil Packet.reader_progress]
    rfl
  | cons p packets ih =>
    have hp := hwf p List.mem_cons_self
    have hlen := Packet.length_encoding hp
    rw [List.flatMap_cons] at h
    simp only [List.map_cons, pendingBytes]
    by_cases hle : p.totalBytes ≤ front.length
    · obtain ⟨rest, rfl⟩ : p.encoding <+: front :=
        List.prefix_of_prefix_length_le (List.prefix_append _ _) h (by omega)
      have hrest := (List.prefix_append_right_inj _).mp h
      rw [drain_ok Packet.reader_progress ((Packet.reader_inverse _ _ _).mpr ⟨hp, rfl⟩),
        ih (fun q hq => hwf q (List.mem_cons_of_mem p hq)) hrest, if_pos hle, List.length_append, hlen,
        Nat.add_sub_cancel_left]
    · obtain ⟨cut, hcut⟩ : front <+: p.encoding :=
        List.prefix_of_prefix_length_le h (List.prefix_append _ _) (by omega)
      have hne : cut ≠ [] := by
        rintro rfl
        rw [List.append_nil] at hcut
        rw [hcut] at hle
        omega
      have hread : Packet.reader.run (front ++ cut) = .ok (p, []) :=
        (Packet.reader_inverse _ _ _).mpr ⟨hp, by rw [hcut, List.append_nil]⟩
      rw [drain_error (incomplete_of_cut hread hne), if_neg hle]

namespace LinkRead

theorem makeRoom_eq_none {buf : SimpleBuf} {b : Bytes} :
    makeRoom buf b = none ↔ buf.len < b.length ∧ buf.maxLen < b.length := by
  unfold makeRoom
  by_cases h : buf.len < b.length <;> by_cases h' : buf.maxLen < b.length <;> simp [h, h']

@[simp] theorem capacity_makeRoom {buf buf' : SimpleBuf} {b : Bytes} (h : makeRoom buf b = some buf') :
    buf'.capacity = buf.capacity := by
  unfold makeRoom at h
  split at h
  next =>
    split at h
    next => cases h
    next => cases h; rfl
  next => cases h; rfl

theorem capacity_process (s : LinkRead) (buf : SimpleBuf) :
    (s.process buf).packetBuffer.capacity = buf.capacity := by
  unfold process
  split
  next =>
    split
    next c n _ =>
      split
      next buf' h =>
        rw [SimpleBuf.capacity_reuseIf, ← buf.capacity_free c, h]
      next buf' e h => rw [← buf.capacity_free c, h]
    next => rfl
  next => exact SimpleBuf.capacity_reuseIf buf

theorem capacity_step (s : LinkRead) (b : Bytes) :
    (s.step b).packetBuffer.capacity = s.packetBuffer.capacity := by
  cases he : s.exit with
  | some e => rw [step_exit he]
  | none =>
    rw [step_running he]
    rcases readOnce_cases s b with ⟨_, hr⟩ | ⟨buf, buf', _, hroom, hpush, hr⟩ | ⟨buf, buf', hroom, hpush, hr⟩
    · rw [hr]
    · rw [hr, ← capacity_makeRoom hroom, ← buf.capacity_pushSlice b, hpush]
    · rw [hr, capacity_process, ← capacity_makeRoom hroom, ← buf.capacity_pushSlice b, hpush]

theorem capacity_run (cap : Nat) (closed : Option Nat) (chunks : List Bytes) :
    (run cap closed chunks).packetBuffer.capacity = cap := by
  induction chunks using List.reverseRecOn with
  | nil => rfl
  | append_singleton chunks b ih => rw [run_append, capacity_step, ih]

/-- The loop was left at the `max_len` check. -/
def MaxLenExit (s : LinkRead) : Prop := ∃ m n, s.exit = some (.maxLen m n)

/-- Once the chunk is in the buffer, no exit refuses it. -/
theorem process_not_refusal {s : LinkRead} (he : s.exit = none) (buf : SimpleBuf) {e : ReadExit}
    (h : (s.process buf).exit = some e) : e.isRefusal = false := by
  unfold process at h
  split at h
  next =>
    split at h
    next =>
      split at h
      next => exact absurd (he.symm.trans h) (Option.some_ne_none e).symm
      next =>
        cases h
        rfl
    next =>
      cases h
      rfl
  next => exact absurd (he.symm.trans h) (Option.some_ne_none e).symm

theorem readOnce_maxLen_iff {s : LinkRead} (b : Bytes) (he : s.exit = none) :
    (s.readOnce b).MaxLenExit ↔ makeRoom s.packetBuffer b = none := by
  rcases readOnce_cases s b with ⟨hn, hr⟩ | ⟨buf, _, _, hs, _, hr⟩ | ⟨buf, buf', hs, _, hr⟩
  · rw [hr]
    exact iff_of_true ⟨_, _, rfl⟩ hn
  · rw [hr]
    refine iff_of_false ?_ (by simp [hs])
    rintro ⟨m, n, h⟩
    cases h
  · rw [hr]
    refine iff_of_false ?_ (by simp [hs])
    rintro ⟨m, n, h⟩
    cases process_not_refusal he buf' h

theorem run_alive {cap : Nat} {closed : Option Nat} {chunks : List Bytes}
    (he : (run cap closed chunks).exit = none) : (run cap closed chunks).Alive chunks.flatten := by
  rcases run_spec cap closed chunks with h | h | ⟨_, h⟩ | h
  · simp [Refused, he] at h
  · exact absurd (h.symm.trans he) (by simp)
  · exact h
  · exact absurd (h.exit.symm.trans he) (by simp)

/-- A chunk of a valid stream takes a living loop to the `max_len` exit exactly
if it does not fit. -/
theorem step_maxLen_iff {cap : Nat} {closed : Option Nat} {packets : List Packet}
    {done : List Bytes} {b : Bytes} (hwf : ∀ p ∈ packets, p.WellFormed)
    (hcut : done.flatten <+: packets.flatMap Packet.encoding)
    (he : (run cap closed done).exit = none) :
    (run cap closed (done ++ [b])).MaxLenExit ↔
      ¬ChunkFits cap (packets.map Packet.totalBytes) done.flatten.length b.length := by
  have h := run_alive he
  have hlen : (run cap closed done).packetBuffer.len =
      pendingBytes (packets.map Packet.totalBytes) done.flatten.length := by
    rw [← h.valid.length_occupiedSlice, h.occupied, length_drain_front hwf hcut]
  have hmax := h.valid.len_add_maxLen
  rw [capacity_run, hlen] at hmax
  rw [run_append, step_running he, readOnce_maxLen_iff b he, makeRoom_eq_none, hlen, ChunkFits]
  omega

/-- An exit that no living loop takes is never taken. -/
theorem run_never {cap : Nat} {closed : Option Nat} {chunks : List Bytes} {p : LinkRead → Prop}
    (hnew : ¬p (run cap closed []))
    (hstep : ∀ done b, done ++ [b] <+: chunks → (run cap closed done).exit = none →
      ¬p (run cap closed (done ++ [b])))
    (done : List Bytes) (hdone : done <+: chunks) : ¬p (run cap closed done) := by
  induction done using List.reverseRecOn with
  | nil => exact hnew
  | append_singleton done b ih =>
    have hfront : done <+: chunks := (List.prefix_append _ _).trans hdone
    cases he : (run cap closed done).exit with
    | some e =>
      rw [run_append, step_exit he]
      exact ih hfront
    | none => exact hstep done b hdone he

theorem flatten_isPrefix_stream {stream : Bytes} {chunks done : List Bytes} (hcut : chunks.flatten <+: stream)
    (hdone : done <+: chunks) : done.flatten <+: stream := by
  obtain ⟨more, rfl⟩ := hdone
  exact (List.prefix_append _ _).trans (List.flatten_append ▸ hcut)

/-- A run whose chunks all fit never takes the `max_len` exit. -/
theorem run_not_maxLen {cap : Nat} {closed : Option Nat} {packets : List Packet}
    {chunks : List Bytes} (hwf : ∀ p ∈ packets, p.WellFormed)
    (hcut : chunks.flatten <+: packets.flatMap Packet.encoding)
    (hfit : ∀ done b, done ++ [b] <+: chunks → (run cap closed done).exit = none →
      ChunkFits cap (packets.map Packet.totalBytes) done.flatten.length b.length)
    (done : List Bytes) (hdone : done <+: chunks) : ¬(run cap closed done).MaxLenExit := by
  refine run_never ?_ ?_ done hdone
  · rintro ⟨m, n, hexit⟩
    cases hexit
  · intro front b hb he hexit
    have hfront : front <+: chunks := (List.prefix_append _ _).trans hb
    have hcutFront := flatten_isPrefix_stream hcut hfront
    exact (step_maxLen_iff hwf hcutFront he).mp hexit (hfit front b hb he)

end LinkRead

open LinkRead

/-- On a valid stream the `max_len` exit is never taken if and only if every
chunk that reaches the loop and is longer than the incomplete packet in front
of it fits into the buffer behind that packet. -/
theorem link_read_max_len_iff (cap : Nat) (closed : Option Nat) (packets : List Packet)
    (chunks : List Bytes) (hwf : ∀ p ∈ packets, p.WellFormed)
    (hcut : chunks.flatten <+: packets.flatMap Packet.encoding) :
    (∀ done, done <+: chunks → ¬(run cap closed done).MaxLenExit) ↔
      ∀ done b, done ++ [b] <+: chunks → (run cap closed done).exit = none →
        ChunkFits cap (packets.map Packet.totalBytes) done.flatten.length b.length := by
  constructor
  · intro h done b hb he
    have hdone : done <+: chunks := (List.prefix_append _ _).trans hb
    by_contra hfit
    exact h _ hb ((step_maxLen_iff hwf (flatten_isPrefix_stream hcut hdone) he).mpr hfit)
  · exact run_not_maxLen hwf hcut

/-- Two empty requests through a buffer of eight bytes, cut after seven. -/
theorem link_read_max_len_iff_two_requests :
    (∀ done, done <+: [[0, 0, 0, 1, 5, 0, 0], [0]] → ¬(run 8 none done).MaxLenExit) ↔
      ∀ done b, done ++ [b] <+: [[0, 0, 0, 1, 5, 0, 0], [0]] → (run 8 none done).exit = none →
        ChunkFits 8 [8, 8] done.flatten.length b.length :=
  link_read_max_len_iff 8 none
    [.request ⟨0, .auth, 1, 5, 0, []⟩, .request ⟨0, .auth, 1, 5, 0, []⟩]
    [[0, 0, 0, 1, 5, 0, 0], [0]] (by decide) (by decide)

/-- The chunk buffer and the packet buffer have one size, so seven bytes of a
packet of eight and a full chunk do not fit together. -/
theorem link_read_max_len_counterexample :
    ¬∀ (cap : Nat) (packets : List Packet) (chunks : List Bytes), 8 ≤ cap →
      (∀ p ∈ packets, p.WellFormed ∧ p.totalBytes ≤ cap) →
      chunks.flatten <+: packets.flatMap Packet.encoding →
      (∀ b ∈ chunks, 1 ≤ b.length ∧ b.length ≤ cap) →
      ∀ done, done <+: chunks → ¬(run cap none done).MaxLenExit := by
  intro h
  refine h 8 [.request ⟨0, .auth, 1, 5, 0, []⟩, .request ⟨0, .auth, 1, 5, 0, []⟩]
    [[0, 0, 0, 1, 5, 0, 0], [0, 0, 0, 0, 1, 5, 0, 0]] le_rfl (by decide) (by decide) (by decide)
    _ (List.prefix_refl _) ⟨1, 8, ?_⟩
  decide +kernel

theorem pendingBytes_lt {sizes : List Nat} {received bound : Nat} (hpos : 0 < bound)
    (hsizes : ∀ size ∈ sizes, size ≤ bound) (hrecv : received ≤ sizes.sum) :
    pendingBytes sizes received < bound := by
  induction sizes generalizing received with
  | nil =>
    simp only [List.sum_nil, Nat.le_zero] at hrecv
    simpa [pendingBytes, hrecv] using hpos
  | cons size sizes ih =>
    have hsize := hsizes size List.mem_cons_self
    rw [List.sum_cons] at hrecv
    simp only [pendingBytes]
    split
    next h => exact ih (fun x hx => hsizes x (List.mem_cons_of_mem size hx)) (by omega)
    next h => omega

/-- The sizing rule: a buffer with room for one packet less a byte and one
chunk is never too small. -/
theorem link_read_never_max_len (cap : Nat) (closed : Option Nat) (packets : List Packet)
    (chunks : List Bytes) (packetSize chunkSize : Nat) (hwf : ∀ p ∈ packets, p.WellFormed)
    (hcut : chunks.flatten <+: packets.flatMap Packet.encoding) (hpos : 0 < packetSize)
    (hpacket : ∀ p ∈ packets, p.totalBytes ≤ packetSize) (hchunk : ∀ b ∈ chunks, b.length ≤ chunkSize)
    (hcap : packetSize - 1 + chunkSize ≤ cap) (done : List Bytes) (hdone : done <+: chunks) :
    ¬(run cap closed done).MaxLenExit := by
  refine run_not_maxLen hwf hcut ?_ done hdone
  intro front b hb _ _
  have hsum : (packets.flatMap Packet.encoding).length = (packets.map Packet.totalBytes).sum := by
    rw [List.length_flatMap]
    exact congrArg List.sum (List.map_congr_left fun p hp => Packet.length_encoding (hwf p hp))
  have hrecv : front.flatten.length ≤ (packets.map Packet.totalBytes).sum := by
    rw [← hsum]
    exact (flatten_isPrefix_stream hcut ((List.prefix_append front [b]).trans hb)).length_le
  have hpending := pendingBytes_lt hpos (List.forall_mem_map.mpr hpacket) hrecv
  have hlen := hchunk b (hb.subset (by simp))
  omega

namespace LinkRead

/-- The loop was left at `push_slice`. -/
def PushSliceExit (s : LinkRead) : Prop := ∃ e, s.exit = some (.pushSlice e)

/-- The vacant tail behind the guard: all that is free if it compacted. -/
theorem makeRoom_tail {buf room : SimpleBuf} {b : Bytes} (hv : buf.Valid)
    (h : makeRoom buf b = some room) : b.length ≤ room.capacity - room.vacantIdx ↔ buf.TailFits b.length := by
  have hocc := hv.occupied_le
  have hvac := hv.vacant_le
  have hmax := hv.len_add_maxLen
  unfold makeRoom at h
  unfold SimpleBuf.TailFits
  by_cases hlen : buf.len < b.length
  · by_cases hfull : buf.maxLen < b.length
    · simp [hlen, hfull] at h
    · simp only [hlen, hfull, if_true, if_false, Option.some.injEq] at h
      subst h
      have hroom : buf.reuse.vacantIdx = buf.len := rfl
      have hcap : buf.reuse.capacity = buf.capacity := rfl
      rw [hroom, hcap]
      omega
  · simp only [hlen, if_false, Option.some.injEq] at h
    subst h
    omega

theorem readOnce_pushSlice_iff {s : LinkRead} (b : Bytes) (he : s.exit = none)
    (hv : s.packetBuffer.Valid) : (s.readOnce b).PushSliceExit ↔ ¬s.packetBuffer.TailFits b.length := by
  rcases readOnce_cases s b with ⟨hn, hr⟩ | ⟨buf, buf', e, hs, hpush, hr⟩ | ⟨buf, buf', hs, hpush, hr⟩
  · have hlen := (makeRoom_eq_none.mp hn).1
    have hfits : s.packetBuffer.TailFits b.length := Or.inl hlen
    rw [hr]
    refine iff_of_false ?_ (not_not.mpr hfits)
    rintro ⟨e, h⟩
    cases h
  · have hfail : ¬(buf.pushSlice b).2 = .ok () := by simp [hpush]
    rw [(makeRoom_valid hv hs).1.pushSlice_ok_iff, makeRoom_tail hv hs] at hfail
    rw [hr]
    exact iff_of_true ⟨e, rfl⟩ hfail
  · have hok : (buf.pushSlice b).2 = .ok () := by rw [hpush]
    rw [(makeRoom_valid hv hs).1.pushSlice_ok_iff, makeRoom_tail hv hs] at hok
    rw [hr]
    refine iff_of_false ?_ (not_not.mpr hok)
    rintro ⟨e, h⟩
    cases process_not_refusal he buf' h

theorem step_pushSlice_iff {cap : Nat} {closed : Option Nat} {done : List Bytes} {b : Bytes}
    (he : (run cap closed done).exit = none) :
    (run cap closed (done ++ [b])).PushSliceExit ↔
      ¬(run cap closed done).packetBuffer.TailFits b.length := by
  rw [run_append, step_running he]
  exact readOnce_pushSlice_iff b he (run_alive he).valid

/-- A run all of whose chunks fit the tail never takes the `push_slice` exit. -/
theorem run_not_pushSlice {cap : Nat} {closed : Option Nat} {chunks : List Bytes}
    (hfit : ∀ done b, done ++ [b] <+: chunks → (run cap closed done).exit = none →
      (run cap closed done).packetBuffer.TailFits b.length)
    (done : List Bytes) (hdone : done <+: chunks) : ¬(run cap closed done).PushSliceExit := by
  refine run_never ?_ ?_ done hdone
  · rintro ⟨e, hexit⟩
    cases hexit
  · intro front b hb he hexit
    exact (step_pushSlice_iff he).mp hexit (hfit front b hb he)

end LinkRead

/-- The `push_slice` exit is never taken if and only if every chunk that reaches
the loop is longer than what is buffered or fits the vacant tail as it is; and
it is never taken with room for the chunk if and only if this holds of the
chunks there is room for. -/
theorem link_read_push_slice_iff (cap : Nat) (closed : Option Nat) (chunks : List Bytes) :
    ((∀ done, done <+: chunks → ¬(run cap closed done).PushSliceExit) ↔
      ∀ done b, done ++ [b] <+: chunks → (run cap closed done).exit = none →
        (run cap closed done).packetBuffer.TailFits b.length) ∧
    ((∀ done b, done ++ [b] <+: chunks → (run cap closed done).exit = none →
        b.length ≤ (run cap closed done).packetBuffer.maxLen →
        ¬(run cap closed (done ++ [b])).PushSliceExit) ↔
      ∀ done b, done ++ [b] <+: chunks → (run cap closed done).exit = none →
        b.length ≤ (run cap closed done).packetBuffer.maxLen →
        (run cap closed done).packetBuffer.TailFits b.length) := by
  refine ⟨⟨?_, run_not_pushSlice⟩, ⟨?_, ?_⟩⟩
  · intro h done b hb he
    by_contra hfit
    exact h _ hb ((step_pushSlice_iff he).mpr hfit)
  · intro h done b hb he hmax
    by_contra hfit
    exact h done b hb he hmax ((step_pushSlice_iff he).mpr hfit)
  · intro h done b hb he hmax hexit
    exact (step_pushSlice_iff he).mp hexit (h done b hb he hmax)

/-- A packet of eight bytes and six of the next fill fourteen of sixteen bytes;
ten are free then, but a chunk of three does not fit the tail of two. -/
theorem link_read_push_slice_counterexample :
    ¬∀ (cap : Nat) (chunks done : List Bytes) (b : Bytes), (∀ b ∈ chunks, 1 ≤ b.length ∧ b.length ≤ cap) →
      done ++ [b] <+: chunks → (run cap none done).exit = none →
      b.length ≤ (run cap none done).packetBuffer.maxLen →
      ¬(run cap none (done ++ [b])).PushSliceExit := by
  intro h
  refine h 16 [[0, 0, 0, 1, 5, 0, 0, 0, 0, 0, 0, 2, 5, 0], [0, 0, 0]]
    [[0, 0, 0, 1, 5, 0, 0, 0, 0, 0, 0, 2, 5, 0]] [0, 0, 0] (by decide) (List.prefix_refl _) ?_ ?_
    ⟨.vacantSlice 2 3, ?_⟩
  · decide +kernel
  · decide +kernel
  · decide +kernel

end QuoteLink

import QuoteLink.ParsePacketBuf

open Bits Reader

namespace QuoteLink

section Agreement

variable {input : Bytes} {out : Bytes × Nat} {h : PacketHeader}

/-- A header that was read, and the bytes it announces: the packet. -/
theorem Packet.fromBytes_of_header (hh : PacketHeader.fromBytes (input, 0) = .ok (out, h))
    (hlen : h.needBytes ≤ input.length) :
    ∃ p, Packet.fromBytes (input, 0) = .ok ((input.drop h.needBytes, 0), p) ∧ p.header = h ∧
      p.totalBytes = h.needBytes := by
  obtain ⟨p, rest, hr, hhead, hcount⟩ := Packet.reader_of_header hh hlen
  obtain ⟨used, hsplit, hsum, _⟩ := ok_used hr
  have hused : used.length = h.needBytes := by omega
  have hrest : input.drop h.needBytes = rest := by rw [hsplit, ← hused, List.drop_left]
  refine ⟨p, ?_, hhead, ?_⟩
  · rw [hrest]
    exact Packet.reader_eq_ok.mp hr
  · rw [p.totalBytes_eq_needBytes, hhead]

/-- A cut of what a header announces is incomplete, also where it cuts the header. -/
theorem Packet.fromBytes_of_cut (hh : PacketHeader.fromBytes (input, 0) = .ok (out, h))
    {slice : Bytes} (hslice : slice <+: input) (hlen : slice.length < h.needBytes) :
    Packet.fromBytes (slice, 0) = .error .incomplete := by
  obtain ⟨left, hlong⟩ := PacketHeader.fromBytes_append hh (List.replicate h.needBytes 0)
  have hroom : h.needBytes ≤ (input ++ List.replicate h.needBytes 0).length := by
    rw [List.length_append, List.length_replicate]
    omega
  obtain ⟨p, rest, hr, _, hcount⟩ := Packet.reader_of_header hlong hroom
  obtain ⟨used, hsplit, hsum, hused⟩ := ok_used hr
  have hcountUsed : used.length = h.needBytes := by omega
  have hfront : slice <+: used :=
    List.prefix_of_prefix_length_le (hslice.trans (List.prefix_append _ _)) ⟨rest, hsplit.symm⟩ (by omega)
  obtain ⟨cut, rfl⟩ := hfront
  have hne : cut ≠ [] := by
    rintro rfl
    rw [List.append_nil] at hcountUsed
    omega
  have hwhole := hused []
  rw [List.append_nil] at hwhole
  exact Packet.reader_eq_error.mp (incomplete_of_cut hwhole hne)

/-- The header check and the full parse reject the same inputs. -/
theorem Packet.fromBytes_invalid_iff :
    PacketHeader.fromBytes (input, 0) = .error .invalid ↔ Packet.fromBytes (input, 0) = .error .invalid := by
  constructor
  · intro hh
    exact Packet.reader_eq_error.mp (Packet.reader_of_header_error hh)
  · intro hp
    cases hh : PacketHeader.fromBytes (input, 0) with
    | error e =>
      have hsame := Packet.reader_eq_error.mp (Packet.reader_of_header_error hh)
      rw [hp] at hsame
      cases hsame
      rfl
    | ok res =>
      obtain ⟨out, h⟩ := res
      by_cases hlen : h.needBytes ≤ input.length
      · obtain ⟨p, hok, _⟩ := Packet.fromBytes_of_header hh hlen
        rw [hp] at hok
        cases hok
      · have hcut := Packet.fromBytes_of_cut hh (List.prefix_refl input) (Nat.not_le.mp hlen)
        rw [hp] at hcut
        cases hcut

/-- An incomplete header is longer than the bytes there, whatever it will be. -/
theorem PacketHeader.lt_size_of_incomplete {rest more : Bytes}
    (hrest : PacketHeader.fromBytes (rest, 0) = .error .incomplete)
    (hh : PacketHeader.fromBytes (rest ++ more, 0) = .ok (out, h)) : rest.length < h.size := by
  by_contra hge
  obtain ⟨left, hr, hlen⟩ := PacketHeader.reader_of_fromBytes hh
  obtain ⟨used, hsplit, hsum, hused⟩ := ok_used hr
  have hcount : used.length = h.size := by omega
  have hfront : used <+: rest :=
    List.prefix_of_prefix_length_le ⟨left, hsplit.symm⟩ (List.prefix_append rest more) (by omega)
  obtain ⟨tail, rfl⟩ := hfront
  have hread := PacketHeader.reader_eq_ok.mp (hused tail)
  rw [hrest] at hread
  cases hread

end Agreement

/-- The locals of the loop of `parse_packet_buf` at the start of a turn. -/
structure ParseLocals where
  tx : ResponseTx
  packetBuffer : Bytes
  cursor : Nat
  consumedBytes : Nat
  occupiedBytes : Nat
  needSize : Nat
  deriving DecidableEq, Repr

namespace ParseLocals

def start (tx : ResponseTx) (packetBuffer : Bytes) : ParseLocals :=
  ⟨tx, packetBuffer, 0, 0, packetBuffer.length, minPacketHeaderSize⟩

/-- One turn of the loop that goes on. -/
def next (s : ParseLocals) : Option ParseLocals :=
  match PacketHeader.fromBytes (s.packetBuffer, s.cursor) with
  | .error _ => none
  | .ok (_, header) =>
    if s.occupiedBytes < header.needBytes then none
    else
      match Packet.fromBytes (s.packetBuffer, s.cursor) with
      | .error _ => none
      | .ok ((rest, i), packet) =>
        (s.tx.send packet).map fun tx =>
          ⟨tx, rest, i, s.consumedBytes + packet.totalBytes, s.occupiedBytes - packet.totalBytes,
            minPacketHeaderSize⟩

/-- The loop from these locals on. -/
def loop (fuel : Nat) (s : ParseLocals) : ResponseTx × Except ParseError (Nat × Nat) :=
  parseLoop fuel s.tx s.packetBuffer s.cursor s.consumedBytes s.occupiedBytes s.needSize

/-- A turn that goes on has found a header and the whole packet, and has sent it. -/
theorem next_eq_some {s s' : ParseLocals} (h : s.next = some s') :
    ∃ left header rest i packet tx,
      PacketHeader.fromBytes (s.packetBuffer, s.cursor) = .ok (left, header) ∧
      header.needBytes ≤ s.occupiedBytes ∧
      Packet.fromBytes (s.packetBuffer, s.cursor) = .ok ((rest, i), packet) ∧
      s.tx.send packet = some tx ∧
      s' = ⟨tx, rest, i, s.consumedBytes + packet.totalBytes, s.occupiedBytes - packet.totalBytes,
        minPacketHeaderSize⟩ := by
  unfold next at h
  split at h
  next => cases h
  next left header hh =>
    split at h
    next => cases h
    next hlen =>
      split at h
      next => cases h
      next rest i packet hp =>
        obtain ⟨tx, hsend, rfl⟩ := Option.map_eq_some_iff.mp h
        exact ⟨left, header, rest, i, packet, tx, hh, Nat.not_lt.mp hlen, hp, hsend, rfl⟩

/-- A turn that goes on is one turn of the loop. -/
theorem loop_next {s s' : ParseLocals} (h : s.next = some s') (fuel : Nat) :
    s.loop (fuel + 1) = s'.loop fuel := by
  obtain ⟨left, header, rest, i, packet, tx, hh, hlen, hp, hsend, rfl⟩ := next_eq_some h
  rw [loop, parseLoop]
  simp only [hh, if_neg (Nat.not_lt.mpr hlen), hp, hsend]
  rfl

/-- The states the loop passes through. -/
inductive Turns (first : ParseLocals) : ParseLocals → Prop
  | start : Turns first first
  | next {s s' : ParseLocals} (before : Turns first s) (h : s.next = some s') : Turns first s'

/-- What every turn starts with: it stands on a byte border, and the counter of
bytes is the length of the slice. -/
structure InStep (s : ParseLocals) : Prop where
  cursor : s.cursor = 0
  occupied : s.occupiedBytes = s.packetBuffer.length
  need : s.needSize = minPacketHeaderSize

theorem start_inStep (tx : ResponseTx) (buf : Bytes) : (start tx buf).InStep := ⟨rfl, rfl, rfl⟩

theorem next_inStep {s s' : ParseLocals} (hs : s.InStep) (h : s.next = some s') :
    s'.InStep ∧ s'.packetBuffer.length < s.packetBuffer.length := by
  obtain ⟨left, header, rest, i, packet, tx, hh, hlen, hp, _, rfl⟩ := next_eq_some h
  rw [hs.cursor] at hh hp
  rw [hs.occupied] at hlen
  obtain ⟨p, hp', _, htotal⟩ := Packet.fromBytes_of_header hh hlen
  cases hp.symm.trans hp'
  have hmin := packet.minPacketHeaderSize_le_totalBytes
  simp only [minPacketHeaderSize] at hmin
  refine ⟨⟨rfl, ?_, rfl⟩, ?_⟩
  · show s.occupiedBytes - packet.totalBytes = (s.packetBuffer.drop header.needBytes).length
    rw [List.length_drop, hs.occupied, htotal]
  · show (s.packetBuffer.drop header.needBytes).length < s.packetBuffer.length
    rw [List.length_drop]
    omega

/-- From every state passed through, the loop goes on to what `parse_packet_buf` returns. -/
theorem turns_loop {tx : ResponseTx} {buf : Bytes} {s : ParseLocals} (h : Turns (start tx buf) s) :
    s.InStep ∧ ∃ fuel, s.packetBuffer.length < fuel ∧ s.loop fuel = parsePacketBuf tx buf := by
  induction h with
  | start => exact ⟨start_inStep tx buf, buf.length + 1, Nat.lt_succ_self _, rfl⟩
  | next _ h ih =>
    obtain ⟨hs, fuel, hfuel, hloop⟩ := ih
    obtain ⟨hs', hlt⟩ := next_inStep hs h
    obtain ⟨fuel, rfl⟩ : ∃ k, fuel = k + 1 := ⟨fuel - 1, by omega⟩
    rw [loop_next h] at hloop
    exact ⟨hs', fuel, by omega, hloop⟩

/-- In this turn the subtraction does not underflow, and the branch for an
incomplete packet behind the header check is not taken. -/
structure Safe (s : ParseLocals) : Prop where
  noUnderflow : ∀ rest i p, Packet.fromBytes (s.packetBuffer, s.cursor) = .ok ((rest, i), p) →
    p.totalBytes ≤ s.occupiedBytes
  complete : ∀ out h, PacketHeader.fromBytes (s.packetBuffer, s.cursor) = .ok (out, h) →
    h.needBytes ≤ s.occupiedBytes →
    Packet.fromBytes (s.packetBuffer, s.cursor) ≠ .error .incomplete

theorem InStep.safe {s : ParseLocals} (hs : s.InStep) : s.Safe := by
  refine ⟨?_, ?_⟩
  · intro rest i p hp
    rw [hs.cursor] at hp
    obtain rfl := Packet.fromBytes_offset hp
    obtain ⟨hwf, hsplit⟩ := (Packet.reader_inverse _ _ _).mp (Packet.reader_eq_ok.mpr hp)
    rw [hs.occupied, hsplit, List.length_append, Packet.length_encoding hwf]
    omega
  · intro out h hh hlen hp
    rw [hs.cursor] at hh hp
    rw [hs.occupied] at hlen
    obtain ⟨p, hok, _⟩ := Packet.fromBytes_of_header hh hlen
    rw [hp] at hok
    cases hok

end ParseLocals

/-- What `Ok((c, n))` means: `c` bytes of packets were sent, and the remainder
waits for the packet at its front, or for a header. -/
structure ParseOk (tx : ResponseTx) (buf : Bytes) (tx' : ResponseTx) (c n : Nat) : Prop where
  sent : ∃ packets : List Packet, tx'.sent = tx.sent ++ packets ∧ c = (packets.map Packet.totalBytes).sum
  le : c ≤ buf.length
  front : (∃ out h, PacketHeader.fromBytes (buf.drop c, 0) = .ok (out, h) ∧ n = h.needBytes ∧
      (buf.drop c).length < n) ∨
    (n = minPacketHeaderSize ∧ PacketHeader.fromBytes (buf.drop c, 0) = .error .incomplete ∧
      ∀ more out h, PacketHeader.fromBytes (buf.drop c ++ more, 0) = .ok (out, h) →
        (buf.drop c).length < h.size)

theorem parsePacketBuf_ok {tx : ResponseTx} {buf : Bytes} {c n : Nat}
    (h : (parsePacketBuf tx buf).2 = .ok (c, n)) : ParseOk tx buf (parsePacketBuf tx buf).1 c n := by
  rcases parsePacketBuf_spec tx buf with hclosed | hspec
  · rw [hclosed] at h
    cases h
  · obtain ⟨hvalid, hsplit⟩ := drain_valid Packet.reader_progress Packet.reader_inverse buf
    obtain ⟨e, hstop⟩ := drain_rest_error Packet.reader_progress buf
    have hdrop := drop_drain Packet.reader_progress buf
    have hle := drain_length_le Packet.reader_progress buf
    have hsum : buf.length = ((Packet.reader.drain buf).1.map Packet.totalBytes).sum +
        (Packet.reader.drain buf).2.length := by
      conv_lhs => rw [hsplit]
      rw [List.length_append, List.length_flatMap]
      congr 2
      exact List.map_congr_left fun p hp => Packet.length_encoding (hvalid p hp)
    rw [hspec] at h ⊢
    cases e with
    | invalid =>
      simp only [parseResult, hstop] at h
      cases h
    | incomplete =>
      rw [parseResult_incomplete hstop] at h
      obtain ⟨rfl, rfl⟩ := Prod.mk.inj (Except.ok.inj h)
      refine ⟨⟨(Packet.reader.drain buf).1, rfl, by omega⟩, Nat.sub_le _ _, ?_⟩
      rw [hdrop]
      cases hh : PacketHeader.fromBytes ((Packet.reader.drain buf).2, 0) with
      | ok res =>
        obtain ⟨out, header⟩ := res
        left
        refine ⟨out, header, rfl, by simp only [frontNeed, hh], ?_⟩
        by_contra hge
        have hneed : frontNeed (Packet.reader.drain buf).2 = header.needBytes := by
          simp only [frontNeed, hh]
        rw [hneed] at hge
        obtain ⟨p, hok, _⟩ := Packet.fromBytes_of_header hh (Nat.not_lt.mp hge)
        rw [Packet.reader_eq_error.mp hstop] at hok
        cases hok
      | error e =>
        right
        have hsame := Packet.reader_of_header_error hh
        rw [hstop] at hsame
        cases hsame
        refine ⟨by simp only [frontNeed, hh], rfl, ?_⟩
        intro more out header hlong
        exact PacketHeader.lt_size_of_incomplete hh hlong

theorem parsePacketBuf_ends (tx : ResponseTx) (buf : Bytes) : (parsePacketBuf tx buf).2 ≠ .error .fuel := by
  rcases parsePacketBuf_spec tx buf with hclosed | hspec
  · rw [hclosed]
    nofun
  · rw [hspec]
    show parseResult _ _ ≠ _
    unfold parseResult
    split <;> nofun

/-- The header check and the full parse describe one format, so the loop of
`parse_packet_buf` ends, no turn underflows or finds an incomplete packet behind
the check, and what it returns tells how far it got and what it waits for. -/
theorem header_check_agrees :
    (∀ (input slice : Bytes) (out : Bytes × Nat) (h : PacketHeader),
      PacketHeader.fromBytes (input, 0) = .ok (out, h) →
      (input <+: slice → h.needBytes ≤ slice.length →
        ∃ p, Packet.fromBytes (slice, 0) = .ok ((slice.drop h.needBytes, 0), p) ∧ p.header = h ∧
          p.totalBytes = h.needBytes) ∧
      (input <+: slice ∨ slice <+: input → slice.length < h.needBytes →
        Packet.fromBytes (slice, 0) = .error .incomplete)) ∧
    (∀ input : Bytes, PacketHeader.fromBytes (input, 0) = .error .invalid ↔
      Packet.fromBytes (input, 0) = .error .invalid) ∧
    ∀ (tx : ResponseTx) (buf : Bytes),
      (parsePacketBuf tx buf).2 ≠ .error .fuel ∧
      (∀ s, ParseLocals.Turns (.start tx buf) s →
        s.Safe ∧ ∃ fuel, s.loop fuel = parsePacketBuf tx buf) ∧
      ∀ c n, (parsePacketBuf tx buf).2 = .ok (c, n) → ParseOk tx buf (parsePacketBuf tx buf).1 c n := by
  refine ⟨?_, fun _ => Packet.fromBytes_invalid_iff, ?_⟩
  · intro input slice out h hh
    constructor
    · rintro ⟨more, rfl⟩ hlen
      obtain ⟨rest, hlong⟩ := PacketHeader.fromBytes_append hh more
      exact Packet.fromBytes_of_header hlong hlen
    · rintro (⟨more, rfl⟩ | hfront) hlen
      · obtain ⟨rest, hlong⟩ := PacketHeader.fromBytes_append hh more
        exact Packet.fromBytes_of_cut hlong (List.prefix_refl _) hlen
      · exact Packet.fromBytes_of_cut hh hfront hlen
  · intro tx buf
    refine ⟨parsePacketBuf_ends tx buf, ?_, fun c n => parsePacketBuf_ok⟩
    intro s hs
    obtain ⟨hstep, fuel, _, hloop⟩ := ParseLocals.turns_loop hs
    exact ⟨hstep.safe, fuel, hloop⟩

/-- A push of two bytes, whole and without its last byte. -/
theorem header_check_agrees_push :
    (∃ p, Packet.fromBytes ([132, 2, 0, 0, 2, 7, 8], 0) = .ok (([], 0), p) ∧ p.totalBytes = 7) ∧
    Packet.fromBytes ([132, 2, 0, 0, 2, 7], 0) = .error .incomplete ∧
    ParseOk ⟨[], none⟩ [132, 2, 0, 0, 2, 7] (parsePacketBuf ⟨[], none⟩ [132, 2, 0, 0, 2, 7]).1 0 7 := by
  have hread : PacketHeader.fromBytes ([132, 2, 0, 0, 2, 7, 8], 0) =
      .ok (([7, 8], 0), .push ⟨0, .cmdSubAllType, .trade, 2⟩) := by rfl
  obtain ⟨hcheck, _, hparse⟩ := header_check_agrees
  obtain ⟨p, hp, _, hbytes⟩ := (hcheck _ [132, 2, 0, 0, 2, 7, 8] _ _ hread).1 (List.prefix_refl _) (by decide)
  refine ⟨⟨p, hp, hbytes⟩, (hcheck _ [132, 2, 0, 0, 2, 7] _ _ hread).2 (Or.inr (by decide)) (by decide), ?_⟩
  exact (hparse ⟨[], none⟩ [132, 2, 0, 0, 2, 7]).2.2 0 7 (by decide +kernel)

end QuoteLink

import QuoteLink.LinkRead

open Reader

namespace QuoteLink

namespace LinkRead

theorem Alive.no_packet_in_front {s : LinkRead} {stream : Bytes} (h : s.Alive stream)
    (p : Packet) (rest : Bytes) (i : Nat) :
    Packet.fromBytes (s.packetBuffer.occupiedSlice, 0) ≠ .ok ((rest, i), p) := by
  intro hp
  have hi := Packet.fromBytes_offset hp
  subst i
  obtain ⟨e, he⟩ := drain_rest_error Packet.reader_progress stream
  rw [← h.occupied] at he
  exact absurd ((Packet.reader_eq_ok.mpr hp).symm.trans he) (by simp)

theorem run_sent {cap : Nat} {closed : Option Nat} {chunks : List Bytes}
    (hroom : ¬(run cap closed chunks).Refused) (hconsumer : ¬(run cap closed chunks).Dead) :
    (run cap closed chunks).responseTx.sent = (Packet.reader.drain chunks.flatten).1 := by
  rcases run_spec cap closed chunks with h | h | ⟨_, h⟩ | h
  · exact absurd h hroom
  · exact absurd h hconsumer
  · exact h.sent
  · exact h.sent

end LinkRead

open LinkRead

/-- What the consumer gets depends on the received stream alone, not on how it
was cut: the packets `from_bytes` reads one after the other from its start. -/
theorem link_read_chunking_invariant (cap : Nat) (closed : Option Nat) (chunks : List Bytes)
    (hroom : ¬(run cap closed chunks).Refused) (hconsumer : ¬(run cap closed chunks).Dead) :
    (run cap closed chunks).responseTx.sent = (Packet.reader.drain chunks.flatten).1 ∧
    ((run cap closed chunks).exit = none →
      (run cap closed chunks).packetBuffer.occupiedSlice = (Packet.reader.drain chunks.flatten).2 ∧
      ∀ p rest i, Packet.fromBytes ((run cap closed chunks).packetBuffer.occupiedSlice, 0) ≠
        .ok ((rest, i), p)) ∧
    ((run cap closed chunks).exit ≠ none →
      Packet.fromBytes ((Packet.reader.drain chunks.flatten).2, 0) = .error .invalid) ∧
    ∀ (cap' : Nat) (closed' : Option Nat) (chunks' : List Bytes),
      chunks'.flatten = chunks.flatten → ¬(run cap' closed' chunks').Refused →
      ¬(run cap' closed' chunks').Dead →
      (run cap' closed' chunks').responseTx.sent = (run cap closed chunks).responseTx.sent := by
  have hsent := run_sent hroom hconsumer
  refine ⟨hsent, ?_, ?_, ?_⟩
  · intro he
    rcases run_spec cap closed chunks with h | h | ⟨_, h⟩ | h
    · exact absurd h hroom
    · exact absurd h hconsumer
    · exact ⟨h.occupied, h.no_packet_in_front⟩
    · exact absurd (h.exit.symm.trans he) (by simp)
  · intro he
    rcases run_spec cap closed chunks with h | h | ⟨hnone, _⟩ | h
    · exact absurd h hroom
    · exact absurd h hconsumer
    · exact absurd hnone he
    · exact Packet.reader_eq_error.mp h.invalid
  · intro cap' closed' chunks' hsame hroom' hconsumer'
    rw [run_sent hroom' hconsumer', hsent, hsame]

/-- A heartbeat cut inside its header and inside its body. -/
theorem link_read_chunking_invariant_heartbeat :
    (run 16 none [[1, 0, 0], [1, 2, 0, 0, 3, 0], [1, 2]]).responseTx.sent =
      (Packet.reader.drain ([[1, 0, 0], [1, 2, 0, 0, 3, 0], [1, 2]] : List Bytes).flatten).1 :=
  (link_read_chunking_invariant 16 none [[1, 0, 0], [1, 2, 0, 0, 3, 0], [1, 2]]
    (by decide +kernel) (by decide +kernel)).1

end QuoteLink

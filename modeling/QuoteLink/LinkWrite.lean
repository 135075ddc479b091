import QuoteLink.PacketBuild

open Reader

namespace QuoteLink

/-- `link_write_loop` on the packets it receives: the frames it hands to
`quic_data_send_tx`, up to the first packet that cannot be encoded. -/
def linkWriteLoop : List Packet → List Bytes × Option WriteError
  | [] => ([], none)
  | packet :: packets =>
    match packet.toBytes with
    | .ok data => (data :: (linkWriteLoop packets).1, (linkWriteLoop packets).2)
    | .error e => ([], some e)

/-- If every packet was encoded, the peer reads exactly these packets from the
stream and nothing else; and no packet fit for the wire fails to be encoded. -/
def InSync (packets : List Packet) : Prop :=
  ((linkWriteLoop packets).2 = none →
    Packet.reader.drain (linkWriteLoop packets).1.flatten = (packets, [])) ∧
  ∀ packet ∈ packets, packet.WellFormed → ∃ data, packet.toBytes = .ok data

theorem linkWriteLoop_eq (packets : List Packet) :
    linkWriteLoop packets = (packets.map Packet.encoding, none) := by
  induction packets with
  | nil => rfl
  | cons packet packets ih =>
    have hp := packet.toBytes_eq
    simp only [linkWriteLoop, hp, ih, List.map_cons]

theorem inSync_iff (packets : List Packet) : InSync packets ↔ ∀ packet ∈ packets, packet.WellFormed := by
  have hencode : ∀ packet ∈ packets, packet.WellFormed → ∃ data, packet.toBytes = .ok data :=
    fun packet _ _ => ⟨packet.encoding, packet.toBytes_eq⟩
  have hread := drain_flatMap_write_iff Packet.reader_progress Packet.reader_inverse packets
  rw [List.flatMap_def] at hread
  rw [InSync, linkWriteLoop_eq, hread]
  exact ⟨fun h => h.1 rfl, fun h => ⟨fun _ => h, hencode⟩⟩

/-- Packets built by the crate's constructors keep the peer in step if and only
if every call got an id and a body that fit the 24-bit fields. -/
theorem built_packets_in_sync_iff (prost : Prost) (calls : List BuildCall) :
    InSync (calls.map (BuildCall.build prost)) ↔ ∀ call ∈ calls, call.Fits prost := by
  rw [inSync_iff, List.forall_mem_map]
  exact forall₂_congr fun call _ => call.build_wellFormed_iff prost

/-- A body of 2^24 bytes, and an untrimmed id of 2^24. -/
theorem built_packets_in_sync_counterexample :
    ¬InSync [Packet.newRequest .cmdSubDepth 1 (List.replicate (2 ^ 24) 0)] ∧
    ¬InSync [Packet.response (Response.new .cmdSubDepth 16777216 .success [])] := by
  constructor
  · intro h
    have hwf := (inSync_iff _).mp h _ (List.mem_singleton_self _)
    obtain ⟨_, _, hlt, hlen⟩ := hwf
    have hfit := (lenU32_fits_iff _).mp ⟨hlt, hlen⟩
    rw [List.length_replicate] at hfit
    exact absurd hfit (lt_irrefl _)
  · intro h
    have hwf := (inSync_iff _).mp h _ (List.mem_singleton_self _)
    exact absurd hwf.2.1 (by decide)

end QuoteLink

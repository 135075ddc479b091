import QuoteLink.Packets

open Bits Reader

namespace QuoteLink

theorem Command.fromId_eq_some {v : Nat} {c : Command} : Command.fromId v = some c ↔ v = c.id := by
  constructor
  · intro h
    unfold Command.fromId at h
    split at h <;> cases h <;> rfl
  · rintro rfl
    cases c <;> rfl

theorem MsgType.fromId_eq_some {v : Nat} {m : MsgType} : MsgType.fromId v = some m ↔ v = m.id := by
  constructor
  · intro h
    unfold MsgType.fromId at h
    split at h <;> cases h <;> rfl
  · rintro rfl
    cases m <;> rfl

theorem ResponseStatus.fromId_eq_some {v : Nat} {s : ResponseStatus} :
    ResponseStatus.fromId v = some s ↔ v = s.id := by
  constructor
  · intro h
    unfold ResponseStatus.fromId at h
    split at h <;> cases h <;> rfl
  · rintro rfl
    cases s <;> rfl

theorem Command.read_eq_ok {c : Command} {input rest : List Bool} :
    Command.read.run input = .ok (c, rest) ↔ input = field 4 c.id ++ rest :=
  enum_eq_ok (fun _ _ => Command.fromId_eq_some) (fun c => by cases c <;> decide)

theorem MsgType.read_eq_ok {m : MsgType} {input rest : List Bool} :
    MsgType.read.run input = .ok (m, rest) ↔ input = field 8 m.id ++ rest :=
  enum_eq_ok (fun _ _ => MsgType.fromId_eq_some) (fun m => by cases m <;> decide)

theorem ResponseStatus.read_eq_ok {s : ResponseStatus} {input rest : List Bool} :
    ResponseStatus.read.run input = .ok (s, rest) ↔ input = field 8 s.id ++ rest :=
  enum_eq_ok (fun _ _ => ResponseStatus.fromId_eq_some) (fun s => by cases s <;> decide)

/-- The fields fit their bits and the length field is the length of the body. -/
def Request.WellFormed (r : Request) : Prop :=
  r.reserved.toNat < 2 ^ 2 ∧ r.id.toNat < 2 ^ 24 ∧ r.bodyLen.toNat < 2 ^ 24 ∧
    r.body.length = r.bodyLen.toNat

def Response.WellFormed (r : Response) : Prop :=
  r.reserved.toNat < 2 ^ 2 ∧ r.id.toNat < 2 ^ 24 ∧ r.bodyLen.toNat < 2 ^ 24 ∧
    r.body.length = r.bodyLen.toNat

def Push.WellFormed (p : Push) : Prop :=
  p.reserved.toNat < 2 ^ 2 ∧ p.bodyLen.toNat < 2 ^ 24 ∧ p.body.length = p.bodyLen.toNat

def Packet.WellFormed : Packet → Prop
  | .request r => r.WellFormed
  | .response r => r.WellFormed
  | .push p => p.WellFormed

instance : DecidablePred Packet.WellFormed
  | .request _ => inferInstanceAs (Decidable (_ ∧ _ ∧ _ ∧ _))
  | .response _ => inferInstanceAs (Decidable (_ ∧ _ ∧ _ ∧ _))
  | .push _ => inferInstanceAs (Decidable (_ ∧ _ ∧ _))

def Request.layout (r : Request) : List Bool :=
  field 2 r.reserved.toNat ++ field 4 r.command.id ++ field 24 r.id.toNat ++
    field 8 r.timeout.toNat ++ field 24 r.bodyLen.toNat ++ unpack r.body

def Response.layout (r : Response) : List Bool :=
  field 2 r.reserved.toNat ++ field 4 r.command.id ++ field 24 r.id.toNat ++
    field 8 r.status.id ++ field 24 r.bodyLen.toNat ++ unpack r.body

def Push.layout (p : Push) : List Bool :=
  field 2 p.reserved.toNat ++ field 4 p.command.id ++ field 8 p.msgType.id ++
    field 24 p.bodyLen.toNat ++ unpack p.body

def Packet.layout : Packet → List Bool
  | .request r => field 2 0b00 ++ r.layout
  | .response r => field 2 0b01 ++ r.layout
  | .push p => field 2 0b10 ++ p.layout

theorem Packet.write_eq (p : Packet) : p.write = .ok p.layout := by
  cases p <;> rfl

theorem Request.read_inverse : Request.read.Inverse Request.layout Request.WellFormed := by
  intro input r rest
  simp only [Request.read, bind_eq_ok, u8_eq_ok (by decide : 2 ≤ 8), Command.read_eq_ok,
    u32_eq_ok (by decide : 24 ≤ 32), u8_eq_ok (le_refl 8), byteCount_eq_ok, run_pure,
    Except.ok.injEq, Prod.mk.injEq]
  constructor
  · rintro ⟨reserved, _, ⟨hres, rfl⟩, command, _, rfl, id, _, ⟨hid, rfl⟩, timeout, _, ⟨_, rfl⟩,
      bodyLen, _, ⟨hlen, rfl⟩, body, _, ⟨hbody, rfl⟩, rfl, rfl⟩
    exact ⟨⟨hres, hid, hlen, hbody⟩, by simp [Request.layout]⟩
  · rintro ⟨⟨hres, hid, hlen, hbody⟩, rfl⟩
    refine ⟨r.reserved, _, ⟨hres, ?_⟩, r.command, _, rfl, r.id, _, ⟨hid, rfl⟩, r.timeout, _,
      ⟨UInt8.toNat_lt _, rfl⟩, r.bodyLen, _, ⟨hlen, rfl⟩, r.body, rest, ⟨hbody, rfl⟩, rfl, rfl⟩
    simp [Request.layout]

theorem Response.read_inverse : Response.read.Inverse Response.layout Response.WellFormed := by
  intro input r rest
  simp only [Response.read, bind_eq_ok, u8_eq_ok (by decide : 2 ≤ 8), Command.read_eq_ok,
    u32_eq_ok (by decide : 24 ≤ 32), ResponseStatus.read_eq_ok, byteCount_eq_ok, run_pure,
    Except.ok.injEq, Prod.mk.injEq]
  constructor
  · rintro ⟨reserved, _, ⟨hres, rfl⟩, command, _, rfl, id, _, ⟨hid, rfl⟩, status, _, rfl,
      bodyLen, _, ⟨hlen, rfl⟩, body, _, ⟨hbody, rfl⟩, rfl, rfl⟩
    exact ⟨⟨hres, hid, hlen, hbody⟩, by simp [Response.layout]⟩
  · rintro ⟨⟨hres, hid, hlen, hbody⟩, rfl⟩
    refine ⟨r.reserved, _, ⟨hres, ?_⟩, r.command, _, rfl, r.id, _, ⟨hid, rfl⟩, r.status, _, rfl,
      r.bodyLen, _, ⟨hlen, rfl⟩, r.body, rest, ⟨hbody, rfl⟩, rfl, rfl⟩
    simp [Response.layout]

theorem Push.read_inverse : Push.read.Inverse Push.layout Push.WellFormed := by
  intro input p rest
  simp only [Push.read, bind_eq_ok, u8_eq_ok (by decide : 2 ≤ 8), Command.read_eq_ok,
    u32_eq_ok (by decide : 24 ≤ 32), MsgType.read_eq_ok, byteCount_eq_ok, run_pure,
    Except.ok.injEq, Prod.mk.injEq]
  constructor
  · rintro ⟨reserved, _, ⟨hres, rfl⟩, command, _, rfl, msgType, _, rfl,
      bodyLen, _, ⟨hlen, rfl⟩, body, _, ⟨hbody, rfl⟩, rfl, rfl⟩
    exact ⟨⟨hres, hlen, hbody⟩, by simp [Push.layout]⟩
  · rintro ⟨⟨hres, hlen, hbody⟩, rfl⟩
    refine ⟨p.reserved, _, ⟨hres, ?_⟩, p.command, _, rfl, p.msgType, _, rfl,
      p.bodyLen, _, ⟨hlen, rfl⟩, p.body, rest, ⟨hbody, rfl⟩, rfl, rfl⟩
    simp [Push.layout]

theorem Packet.read_inverse : Packet.read.Inverse Packet.layout Packet.WellFormed := by
  intro input p rest
  simp only [Packet.read, bind_eq_ok, bits_eq_ok]
  constructor
  · rintro ⟨tag, mid, ⟨htag, rfl⟩, h⟩
    obtain rfl | rfl | rfl | rfl : tag = 0 ∨ tag = 1 ∨ tag = 2 ∨ tag = 3 := by omega
    · obtain ⟨r, mid', hr, hp⟩ := bind_eq_ok.mp h
      obtain ⟨hwf, rfl⟩ := (Request.read_inverse _ _ _).mp hr
      obtain ⟨rfl, rfl⟩ := Prod.mk.inj (Except.ok.inj hp)
      exact ⟨hwf, (List.append_assoc _ _ _).symm⟩
    · obtain ⟨r, mid', hr, hp⟩ := bind_eq_ok.mp h
      obtain ⟨hwf, rfl⟩ := (Response.read_inverse _ _ _).mp hr
      obtain ⟨rfl, rfl⟩ := Prod.mk.inj (Except.ok.inj hp)
      exact ⟨hwf, (List.append_assoc _ _ _).symm⟩
    · obtain ⟨r, mid', hr, hp⟩ := bind_eq_ok.mp h
      obtain ⟨hwf, rfl⟩ := (Push.read_inverse _ _ _).mp hr
      obtain ⟨rfl, rfl⟩ := Prod.mk.inj (Except.ok.inj hp)
      exact ⟨hwf, (List.append_assoc _ _ _).symm⟩
    · cases h
  · rintro ⟨hwf, rfl⟩
    cases p with
    | request r =>
      refine ⟨0, r.layout ++ rest, ⟨by decide, List.append_assoc _ _ _⟩, ?_⟩
      exact bind_eq_ok.mpr ⟨r, rest, (Request.read_inverse _ _ _).mpr ⟨hwf, rfl⟩, rfl⟩
    | response r =>
      refine ⟨1, r.layout ++ rest, ⟨by decide, List.append_assoc _ _ _⟩, ?_⟩
      exact bind_eq_ok.mpr ⟨r, rest, (Response.read_inverse _ _ _).mpr ⟨hwf, rfl⟩, rfl⟩
    | push p =>
      refine ⟨2, p.layout ++ rest, ⟨by decide, List.append_assoc _ _ _⟩, ?_⟩
      exact bind_eq_ok.mpr ⟨p, rest, (Push.read_inverse _ _ _).mpr ⟨hwf, rfl⟩, rfl⟩

theorem Packet.length_layout {p : Packet} (h : p.WellFormed) :
    p.layout.length = 8 * p.totalBytes := by
  cases p with
  | request r =>
    obtain ⟨_, _, _, hbody⟩ := h
    simp only [Packet.layout, Request.layout, List.length_append, length_field, length_unpack,
      Packet.totalBytes, requestHeaderSize, hbody]
    omega
  | response r =>
    obtain ⟨_, _, _, hbody⟩ := h
    simp only [Packet.layout, Response.layout, List.length_append, length_field, length_unpack,
      Packet.totalBytes, responseHeaderSize, hbody]
    omega
  | push p =>
    obtain ⟨_, _, hbody⟩ := h
    simp only [Packet.layout, Push.layout, List.length_append, length_field, length_unpack,
      Packet.totalBytes, pushHeaderSize, hbody]
    omega

theorem Packet.read_aligned : Packet.read.Aligned := by
  intro input p rest h
  obtain ⟨hwf, rfl⟩ := (Packet.read_inverse _ _ _).mp h
  exact ⟨p.totalBytes, by rw [List.length_append, Packet.length_layout hwf]; omega⟩

/-- The bytes of a packet, for packets of any fields. -/
def Packet.encoding (p : Packet) : Bytes := pack p.layout

theorem Packet.toBytes_eq (p : Packet) : p.toBytes = .ok p.encoding := by
  simp only [Packet.toBytes, Packet.write_eq]
  rfl

theorem Packet.unpack_encoding {p : Packet} (h : p.WellFormed) : unpack p.encoding = p.layout :=
  unpack_pack (Packet.length_layout h)

theorem Packet.length_encoding {p : Packet} (h : p.WellFormed) : p.encoding.length = p.totalBytes :=
  length_pack (Packet.length_layout h)

/-- `Packet::from_bytes` at bit offset 0, as a reader of byte strings. -/
def Packet.reader : Reader UInt8 Packet := Packet.read.bytes Packet.read_aligned

theorem Packet.reader_eq_ok {input rest : Bytes} {p : Packet} :
    Packet.reader.run input = .ok (p, rest) ↔ Packet.fromBytes (input, 0) = .ok ((rest, 0), p) :=
  bytes_eq_ok

theorem Packet.reader_eq_error {input : Bytes} {e : ReadError} :
    Packet.reader.run input = .error e ↔ Packet.fromBytes (input, 0) = .error e :=
  bytes_eq_error

theorem Packet.fromBytes_offset {input rest : Bytes} {i : Nat} {p : Packet}
    (h : Packet.fromBytes (input, 0) = .ok ((rest, i), p)) : i = 0 :=
  ((fromBytes_zero_eq_ok Packet.read_aligned).mp h).1

theorem Packet.reader_inverse : Packet.reader.Inverse Packet.encoding Packet.WellFormed := by
  intro input p rest
  rw [Packet.reader_eq_ok, Packet.fromBytes, fromBytes_zero_eq_ok Packet.read_aligned,
    Packet.read_inverse]
  constructor
  · rintro ⟨_, hwf, h⟩
    refine ⟨hwf, ?_⟩
    rw [← pack_unpack input, h, ← Packet.unpack_encoding hwf, ← unpack_append, pack_unpack]
  · rintro ⟨hwf, rfl⟩
    exact ⟨rfl, hwf, by rw [unpack_append, Packet.unpack_encoding hwf]⟩

theorem Packet.minPacketHeaderSize_le_totalBytes (p : Packet) : minPacketHeaderSize ≤ p.totalBytes := by
  cases p <;>
    simp only [Packet.totalBytes, minPacketHeaderSize, requestHeaderSize, responseHeaderSize,
      pushHeaderSize] <;> omega

theorem Packet.reader_progress : Packet.reader.Progress := by
  intro input p rest h
  obtain ⟨hwf, rfl⟩ := (Packet.reader_inverse _ _ _).mp h
  have hpos := p.minPacketHeaderSize_le_totalBytes
  rw [List.length_append, Packet.length_encoding hwf]
  simp only [minPacketHeaderSize] at hpos
  omega

/-- The packet codec is a bijection between well-formed packets and the byte
strings it accepts, and its encodings are prefix free. -/
theorem packet_codec_bijection :
    (∀ (p : Packet) (rest : Bytes), p.WellFormed →
      ∃ data, p.toBytes = .ok data ∧ Packet.fromBytes (data ++ rest, 0) = .ok ((rest, 0), p)) ∧
    (∀ (input rest : Bytes) (i : Nat) (p : Packet), Packet.fromBytes (input, 0) = .ok ((rest, i), p) →
      p.WellFormed ∧ i = 0 ∧
        ∃ data, p.toBytes = .ok data ∧ data ++ rest = input ∧ data.length = p.totalBytes) ∧
    (∀ (p q : Packet) (data more : Bytes), p.WellFormed → q.WellFormed → p.toBytes = .ok data →
      q.toBytes = .ok (data ++ more) → p = q ∧ more = []) := by
  refine ⟨?_, ?_, ?_⟩
  · intro p rest hwf
    exact ⟨p.encoding, p.toBytes_eq,
      Packet.reader_eq_ok.mp ((Packet.reader_inverse _ _ _).mpr ⟨hwf, rfl⟩)⟩
  · intro input rest i p h
    have hi := Packet.fromBytes_offset h
    subst i
    obtain ⟨hwf, rfl⟩ := (Packet.reader_inverse _ _ _).mp (Packet.reader_eq_ok.mpr h)
    exact ⟨hwf, rfl, p.encoding, p.toBytes_eq, rfl, Packet.length_encoding hwf⟩
  · intro p q data more hp hq hpd hqd
    have hd := Except.ok.inj (p.toBytes_eq.symm.trans hpd)
    have hm := Except.ok.inj (q.toBytes_eq.symm.trans hqd)
    subst hd
    exact Packet.reader_inverse.prefix_free hp hq hm

/-- A push of two bytes before one more byte. -/
theorem packet_codec_bijection_push :
    (∃ data, (Packet.push ⟨0, .cmdSubAllType, .trade, 2, [7, 8]⟩).toBytes = .ok data ∧
      Packet.fromBytes (data ++ [9], 0) = .ok (([9], 0), .push ⟨0, .cmdSubAllType, .trade, 2, [7, 8]⟩)) ∧
    ∃ (p : Packet) (data : Bytes), Packet.fromBytes ([132, 2, 0, 0, 2, 7, 8, 9], 0) = .ok (([9], 0), p) ∧
      p.toBytes = .ok data ∧ data ++ [9] = [132, 2, 0, 0, 2, 7, 8, 9] ∧
      ∀ more, p.toBytes = .ok (data ++ more) → more = [] := by
  have hread : Packet.fromBytes ([132, 2, 0, 0, 2, 7, 8, 9], 0) =
      .ok (([9], 0), .push ⟨0, .cmdSubAllType, .trade, 2, [7, 8]⟩) := by rfl
  obtain ⟨hwrites, hreads, hfree⟩ := packet_codec_bijection
  obtain ⟨hwf, _, data, hdata, happend, _⟩ := hreads [132, 2, 0, 0, 2, 7, 8, 9] [9] 0 _ hread
  exact ⟨hwrites _ [9] hwf, _, data, hread, hdata, happend, fun more hmore => (hfree _ _ _ _ hwf hwf hdata hmore).2⟩

end QuoteLink

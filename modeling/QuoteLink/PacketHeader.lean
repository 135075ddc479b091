import QuoteLink.PacketCodec

open Bits Reader

namespace QuoteLink

structure RequestHeader where
  reserved : UInt8
  command : Command
  id : UInt32
  timeout : UInt8
  bodyLen : UInt32
  deriving DecidableEq, Repr

structure ResponseHeader where
  reserved : UInt8
  command : Command
  id : UInt32
  status : ResponseStatus
  bodyLen : UInt32
  deriving DecidableEq, Repr

structure PushHeader where
  reserved : UInt8
  command : Command
  msgType : MsgType
  bodyLen : UInt32
  deriving DecidableEq, Repr

inductive PacketHeader
  | request (r : RequestHeader)
  | response (r : ResponseHeader)
  | push (p : PushHeader)
  deriving DecidableEq, Repr

def PacketHeader.needBytes : PacketHeader → Nat
  | .request r => r.bodyLen.toNat + requestHeaderSize
  | .response r => r.bodyLen.toNat + responseHeaderSize
  | .push p => p.bodyLen.toNat + pushHeaderSize

def RequestHeader.read : Reader Bool RequestHeader := do
  let reserved ← u8 2
  let command ← Command.read
  let id ← u32 24
  let timeout ← u8 8
  let bodyLen ← u32 24
  pure ⟨reserved, command, id, timeout, bodyLen⟩

def ResponseHeader.read : Reader Bool ResponseHeader := do
  let reserved ← u8 2
  let command ← Command.read
  let id ← u32 24
  let status ← ResponseStatus.read
  let bodyLen ← u32 24
  pure ⟨reserved, command, id, status, bodyLen⟩

def PushHeader.read : Reader Bool PushHeader := do
  let reserved ← u8 2
  let command ← Command.read
  let msgType ← MsgType.read
  let bodyLen ← u32 24
  pure ⟨reserved, command, msgType, bodyLen⟩

def PacketHeader.read : Reader Bool PacketHeader := do
  let tag ← bits 2
  match tag with
  | 0b00 => do
    let r ← RequestHeader.read
    pure (.request r)
  | 0b01 => do
    let r ← ResponseHeader.read
    pure (.response r)
  | 0b10 => do
    let p ← PushHeader.read
    pure (.push p)
  | _ => reject

/-- `PacketHeader::from_bytes` -/
def PacketHeader.fromBytes (input : Bytes × Nat) : Except ReadError ((Bytes × Nat) × PacketHeader) :=
  PacketHeader.read.fromBytes input

def PacketHeader.bodyLen : PacketHeader → UInt32
  | .request r => r.bodyLen
  | .response r => r.bodyLen
  | .push p => p.bodyLen

def PacketHeader.size : PacketHeader → Nat
  | .request _ => requestHeaderSize
  | .response _ => responseHeaderSize
  | .push _ => pushHeaderSize

/-- The packet with this header and body. -/
def PacketHeader.withBody : PacketHeader → Bytes → Packet
  | .request r, body => .request ⟨r.reserved, r.command, r.id, r.timeout, r.bodyLen, body⟩
  | .response r, body => .response ⟨r.reserved, r.command, r.id, r.status, r.bodyLen, body⟩
  | .push p, body => .push ⟨p.reserved, p.command, p.msgType, p.bodyLen, body⟩

def Packet.header : Packet → PacketHeader
  | .request r => .request ⟨r.reserved, r.command, r.id, r.timeout, r.bodyLen⟩
  | .response r => .response ⟨r.reserved, r.command, r.id, r.status, r.bodyLen⟩
  | .push p => .push ⟨p.reserved, p.command, p.msgType, p.bodyLen⟩

@[simp] theorem PacketHeader.header_withBody (h : PacketHeader) (body : Bytes) :
    (h.withBody body).header = h := by cases h <;> rfl

theorem Packet.totalBytes_eq_needBytes (p : Packet) : p.totalBytes = p.header.needBytes := by
  cases p <;> rfl

theorem PacketHeader.needBytes_eq (h : PacketHeader) :
    h.needBytes = h.bodyLen.toNat + h.size := by cases h <;> rfl

/-- A packet is its header followed by the body the header announces. -/
theorem Packet.read_eq_header_body : Packet.read = (do
    let h ← PacketHeader.read
    let body ← byteCount h.bodyLen.toNat
    pure (h.withBody body)) := by
  simp only [Packet.read, PacketHeader.read, bind_assoc]
  congr
  funext tag
  split <;>
    simp only [Request.read, RequestHeader.read, Response.read, ResponseHeader.read, Push.read,
      PushHeader.read, bind_assoc, pure_bind, reject_bind] <;> rfl

theorem PacketHeader.read_length {h : PacketHeader} {input mid : List Bool}
    (hr : PacketHeader.read.run input = .ok (h, mid)) : input.length = mid.length + 8 * h.size := by
  simp only [PacketHeader.read, bind_eq_ok, bits_eq_ok] at hr
  obtain ⟨tag, rest, ⟨htag, rfl⟩, hr⟩ := hr
  obtain rfl | rfl | rfl | rfl : tag = 0 ∨ tag = 1 ∨ tag = 2 ∨ tag = 3 := by omega
  · simp only [RequestHeader.read, bind_eq_ok, u8_eq_ok (by decide : 2 ≤ 8), Command.read_eq_ok,
      u32_eq_ok (by decide : 24 ≤ 32), u8_eq_ok (le_refl 8), run_pure, Except.ok.injEq,
      Prod.mk.injEq] at hr
    obtain ⟨_, _, ⟨_, _, ⟨_, rfl⟩, _, _, rfl, _, _, ⟨_, rfl⟩, _, _, ⟨_, rfl⟩, _, _, ⟨_, rfl⟩,
      rfl, rfl⟩, rfl, rfl⟩ := hr
    simp only [List.length_append, length_field, PacketHeader.size, requestHeaderSize]
    omega
  · simp only [ResponseHeader.read, bind_eq_ok, u8_eq_ok (by decide : 2 ≤ 8), Command.read_eq_ok,
      u32_eq_ok (by decide : 24 ≤ 32), ResponseStatus.read_eq_ok, run_pure, Except.ok.injEq,
      Prod.mk.injEq] at hr
    obtain ⟨_, _, ⟨_, _, ⟨_, rfl⟩, _, _, rfl, _, _, ⟨_, rfl⟩, _, _, rfl, _, _, ⟨_, rfl⟩,
      rfl, rfl⟩, rfl, rfl⟩ := hr
    simp only [List.length_append, length_field, PacketHeader.size, responseHeaderSize]
    omega
  · simp only [PushHeader.read, bind_eq_ok, u8_eq_ok (by decide : 2 ≤ 8), Command.read_eq_ok,
      u32_eq_ok (by decide : 24 ≤ 32), MsgType.read_eq_ok, run_pure, Except.ok.injEq,
      Prod.mk.injEq] at hr
    obtain ⟨_, _, ⟨_, _, ⟨_, rfl⟩, _, _, rfl, _, _, rfl, _, _, ⟨_, rfl⟩, rfl, rfl⟩, rfl, rfl⟩ := hr
    simp only [List.length_append, length_field, PacketHeader.size, pushHeaderSize]
    omega
  · cases hr

theorem PacketHeader.fromBytes_eq_ok {input : Bytes} {out : Bytes × Nat} {h : PacketHeader}
    (hh : PacketHeader.fromBytes (input, 0) = .ok (out, h)) :
    ∃ mid, PacketHeader.read.run (unpack input) = .ok (h, mid) := by
  unfold PacketHeader.fromBytes Reader.fromBytes at hh
  rw [List.drop_zero] at hh
  cases hr : PacketHeader.read.run (unpack input) with
  | error e => simp [hr] at hh
  | ok res =>
    obtain ⟨h', mid⟩ := res
    simp only [hr, Except.ok.injEq, Prod.mk.injEq] at hh
    exact ⟨mid, by rw [hh.2]⟩

/-- The header alone already decides which inputs are rejected. -/
theorem Packet.reader_of_header_error {input : Bytes} {e : ReadError}
    (hh : PacketHeader.fromBytes (input, 0) = .error e) : Packet.reader.run input = .error e := by
  rw [Packet.reader_eq_error, Packet.fromBytes, fromBytes_zero_eq_error, Packet.read_eq_header_body]
  exact bind_eq_error.mpr (Or.inl (fromBytes_zero_eq_error.mp hh))

theorem Packet.reader_of_short_header {input : Bytes} {out : Bytes × Nat} {h : PacketHeader}
    (hh : PacketHeader.fromBytes (input, 0) = .ok (out, h)) (hlen : input.length < h.needBytes) :
    Packet.reader.run input = .error .incomplete := by
  obtain ⟨mid, hr⟩ := PacketHeader.fromBytes_eq_ok hh
  have hmid := PacketHeader.read_length hr
  rw [length_unpack] at hmid
  rw [PacketHeader.needBytes_eq] at hlen
  rw [Packet.reader_eq_error, Packet.fromBytes, fromBytes_zero_eq_error, Packet.read_eq_header_body]
  refine bind_eq_error.mpr (Or.inr ⟨h, mid, hr, bind_eq_error.mpr (Or.inl ?_)⟩)
  exact byteCount_eq_error.mpr ⟨rfl, by omega⟩

theorem Packet.reader_of_header {input : Bytes} {out : Bytes × Nat} {h : PacketHeader}
    (hh : PacketHeader.fromBytes (input, 0) = .ok (out, h)) (hlen : h.needBytes ≤ input.length) :
    ∃ p rest, Packet.reader.run input = .ok (p, rest) ∧ p.header = h ∧
      input.length = rest.length + h.needBytes := by
  obtain ⟨mid, hr⟩ := PacketHeader.fromBytes_eq_ok hh
  have hmid := PacketHeader.read_length hr
  rw [length_unpack] at hmid
  rw [PacketHeader.needBytes_eq] at hlen
  obtain ⟨body, bits, hbody, hbits⟩ := byteCount_exists (by omega : 8 * h.bodyLen.toNat ≤ mid.length)
  have hp : Packet.read.run (unpack input) = .ok (h.withBody body, bits) := by
    rw [Packet.read_eq_header_body]
    exact bind_eq_ok.mpr ⟨h, mid, hr, bind_eq_ok.mpr ⟨body, bits, hbody, rfl⟩⟩
  obtain ⟨k, hk, rfl, _⟩ := Packet.read_aligned.split hp
  refine ⟨h.withBody body, input.drop k, ?_, h.header_withBody body, ?_⟩
  · exact Packet.reader_eq_ok.mpr ((fromBytes_zero_eq_ok Packet.read_aligned).mpr ⟨rfl, hp⟩)
  · rw [length_unpack] at hbits
    rw [PacketHeader.needBytes_eq]
    omega

theorem PacketHeader.read_aligned : PacketHeader.read.Aligned :=
  fun _ h _ hr => ⟨h.size, PacketHeader.read_length hr⟩

/-- `PacketHeader::from_bytes` at bit offset 0, as a reader of byte strings. -/
def PacketHeader.reader : Reader UInt8 PacketHeader := PacketHeader.read.bytes PacketHeader.read_aligned

theorem PacketHeader.reader_eq_ok {input rest : Bytes} {h : PacketHeader} :
    PacketHeader.reader.run input = .ok (h, rest) ↔
      PacketHeader.fromBytes (input, 0) = .ok ((rest, 0), h) :=
  bytes_eq_ok

theorem PacketHeader.reader_of_fromBytes {input : Bytes} {out : Bytes × Nat} {h : PacketHeader}
    (hh : PacketHeader.fromBytes (input, 0) = .ok (out, h)) :
    ∃ rest, PacketHeader.reader.run input = .ok (h, rest) ∧ input.length = rest.length + h.size := by
  obtain ⟨rest, i⟩ := out
  obtain ⟨rfl, hr⟩ := (fromBytes_zero_eq_ok PacketHeader.read_aligned).mp hh
  have hlen := PacketHeader.read_length hr
  rw [length_unpack, length_unpack] at hlen
  exact ⟨rest, PacketHeader.reader_eq_ok.mpr hh, by omega⟩

/-- A header that was read is read from any longer input too. -/
theorem PacketHeader.fromBytes_append {input : Bytes} {out : Bytes × Nat} {h : PacketHeader}
    (hh : PacketHeader.fromBytes (input, 0) = .ok (out, h)) (more : Bytes) :
    ∃ rest, PacketHeader.fromBytes (input ++ more, 0) = .ok ((rest, 0), h) := by
  obtain ⟨rest, hr, _⟩ := PacketHeader.reader_of_fromBytes hh
  exact ⟨rest ++ more, PacketHeader.reader_eq_ok.mp (ok_append hr more)⟩

end QuoteLink

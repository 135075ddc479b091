import QuoteLink.PacketCodec

open Bits Reader

namespace QuoteLink

structure AuthInfo where
  userName : String
  password : String
  clientName : String
  deriving DecidableEq, Repr

structure AuthRequest where
  authInfo : Option AuthInfo
  deriving DecidableEq, Repr

structure SubscribeRequest where
  all : Bool
  counterIds : List String
  spanIndex : Int
  deriving DecidableEq, Repr

/-- The generated `encode_to_vec` of the control messages that packets carry. -/
structure Prost where
  encodeAuthRequest : AuthRequest → Bytes
  encodeSubscribeRequest : SubscribeRequest → Bytes

/-- `body.len() as u32` -/
def lenU32 (body : Bytes) : UInt32 := UInt32.ofNat body.length

/-- The request inside the packets that `new_request`, `new_auth`,
`new_subscribe` and `new_heartbeat` build. -/
def newRequest (cmd : Command) (id : UInt32) (body : Bytes) : Request :=
  ⟨0, cmd, requestIdTrim id, defaultRequestTimeout, lenU32 body, body⟩

def Packet.newRequest (cmd : Command) (id : UInt32) (body : Bytes) : Packet :=
  .request ⟨0, cmd, requestIdTrim id, defaultRequestTimeout, lenU32 body, body⟩

def Packet.newResponseFrom (req : Request) (status : ResponseStatus) (body : Bytes) : Packet :=
  .response ⟨0, req.command, req.id, status, lenU32 body, body⟩

def Packet.newAuth (prost : Prost) (id : UInt32) (username password clientName : String) : Packet :=
  let auth := prost.encodeAuthRequest ⟨some ⟨username, password, clientName⟩⟩
  .request ⟨0, .auth, requestIdTrim id, defaultRequestTimeout, lenU32 auth, auth⟩

def Packet.newSubscribe (prost : Prost) (cmd : Command) (id : UInt32) (subAll : Bool)
    (spanIdx : Int) : Packet :=
  let sub := prost.encodeSubscribeRequest ⟨subAll, [], spanIdx⟩
  .request ⟨0, cmd, requestIdTrim id, defaultRequestTimeout, lenU32 sub, sub⟩

def Packet.newHeartbeatResponse (req : Request) : Packet :=
  .response ⟨0, .heartbeat, req.id, .success, req.bodyLen, req.body⟩

def Response.new (cmd : Command) (id : UInt32) (status : ResponseStatus) (body : Bytes) : Response :=
  ⟨0, cmd, id, status, lenU32 body, body⟩

/-- The packet `Server::send_quotation` hands to `send_packet`. -/
def sendQuotation (rawData : Bytes) (cmd : Command) (msgType : MsgType) : Packet :=
  .push ⟨0, cmd, msgType, lenU32 rawData, rawData⟩

/-- A call of one of the constructors that compute `body_len` themselves. -/
inductive BuildCall
  | newRequest (cmd : Command) (id : UInt32) (body : Bytes)
  | newResponseFrom (req : Request) (status : ResponseStatus) (body : Bytes)
  | newAuth (id : UInt32) (username password clientName : String)
  | newSubscribe (cmd : Command) (id : UInt32) (subAll : Bool) (spanIdx : Int)
  | responseNew (cmd : Command) (id : UInt32) (status : ResponseStatus) (body : Bytes)
  | sendQuotation (rawData : Bytes) (cmd : Command) (msgType : MsgType)

def BuildCall.build (prost : Prost) : BuildCall → Packet
  | .newRequest cmd id body => .newRequest cmd id body
  | .newResponseFrom req status body => .newResponseFrom req status body
  | .newAuth id username password clientName => .newAuth prost id username password clientName
  | .newSubscribe cmd id subAll spanIdx => .newSubscribe prost cmd id subAll spanIdx
  | .responseNew cmd id status body => .response (.new cmd id status body)
  | .sendQuotation rawData cmd msgType => QuoteLink.sendQuotation rawData cmd msgType

/-- The arguments fit the wire: a body below 2^24 bytes and, where the id is
not trimmed, an id below 2^24. -/
def BuildCall.Fits (prost : Prost) : BuildCall → Prop
  | .newRequest _ _ body => body.length < 2 ^ 24
  | .newResponseFrom req _ body => req.id.toNat < 2 ^ 24 ∧ body.length < 2 ^ 24
  | .newAuth _ username password clientName =>
    (prost.encodeAuthRequest ⟨some ⟨username, password, clientName⟩⟩).length < 2 ^ 24
  | .newSubscribe _ _ subAll spanIdx =>
    (prost.encodeSubscribeRequest ⟨subAll, [], spanIdx⟩).length < 2 ^ 24
  | .responseNew _ id _ body => id.toNat < 2 ^ 24 ∧ body.length < 2 ^ 24
  | .sendQuotation rawData _ _ => rawData.length < 2 ^ 24

theorem requestIdTrim_lt (id : UInt32) : (requestIdTrim id).toNat < 2 ^ 24 := by
  have hmask : (0x00ffffff : UInt32).toNat = 2 ^ 24 - 1 := by decide
  rw [requestIdTrim, UInt32.toNat_and, hmask, Nat.and_two_pow_sub_one_eq_mod]
  exact Nat.mod_lt _ (by decide)

theorem requestIdTrim_of_lt {id : UInt32} (h : id.toNat < 2 ^ 24) : requestIdTrim id = id := by
  have hmask : (0x00ffffff : UInt32).toNat = 2 ^ 24 - 1 := rfl
  apply UInt32.toNat_inj.mp
  rw [requestIdTrim, UInt32.toNat_and, hmask, Nat.and_two_pow_sub_one_eq_mod, Nat.mod_eq_of_lt h]

/-- The length field of a body is right exactly for bodies that have one. -/
theorem lenU32_fits_iff (body : Bytes) :
    ((lenU32 body).toNat < 2 ^ 24 ∧ body.length = (lenU32 body).toNat) ↔ body.length < 2 ^ 24 := by
  have hlen : (lenU32 body).toNat = body.length % 2 ^ 32 := UInt32.toNat_ofNat'
  rw [hlen]
  omega

theorem lt_two_pow_64 {n : Nat} (h : n < 2 ^ 24) : n < 2 ^ 64 := by
  have hle : (2 : Nat) ^ 24 ≤ 2 ^ 64 := Nat.pow_le_pow_right (by decide) (by decide)
  omega

/-- A well-formed packet comes out of the stream whole. -/
theorem Packet.drain_encoding {p : Packet} (h : p.WellFormed) : Packet.reader.drain p.encoding = ([p], []) := by
  have hwf : ∀ q ∈ [p], q.WellFormed := List.forall_mem_singleton.mpr h
  have hread := (drain_flatMap_write_iff Packet.reader_progress Packet.reader_inverse [p]).mpr hwf
  rwa [List.flatMap_singleton] at hread

theorem BuildCall.build_wellFormed_iff (prost : Prost) (call : BuildCall) :
    (call.build prost).WellFormed ↔ call.Fits prost := by
  have hzero : (0 : UInt8).toNat < 2 ^ 2 := by decide
  cases call with
  | newRequest cmd id body =>
    have htrim := requestIdTrim_lt id
    have hbody := lenU32_fits_iff body
    simp only [build, Packet.newRequest, Packet.WellFormed, Request.WellFormed, Fits, hzero, htrim,
      hbody, true_and]
  | newResponseFrom req status body =>
    have hbody := lenU32_fits_iff body
    simp only [build, Packet.newResponseFrom, Packet.WellFormed, Response.WellFormed, Fits, hzero,
      hbody, true_and]
  | newAuth id username password clientName =>
    have htrim := requestIdTrim_lt id
    have hbody := lenU32_fits_iff (prost.encodeAuthRequest ⟨some ⟨username, password, clientName⟩⟩)
    simp only [build, Packet.newAuth, Packet.WellFormed, Request.WellFormed, Fits, hzero, htrim,
      hbody, true_and]
  | newSubscribe cmd id subAll spanIdx =>
    have htrim := requestIdTrim_lt id
    have hbody := lenU32_fits_iff (prost.encodeSubscribeRequest ⟨subAll, [], spanIdx⟩)
    simp only [build, Packet.newSubscribe, Packet.WellFormed, Request.WellFormed, Fits, hzero, htrim,
      hbody, true_and]
  | responseNew cmd id status body =>
    have hbody := lenU32_fits_iff body
    simp only [build, Response.new, Packet.WellFormed, Response.WellFormed, Fits, hzero, hbody,
      true_and]
  | sendQuotation rawData cmd msgType =>
    have hbody := lenU32_fits_iff rawData
    simp only [build, QuoteLink.sendQuotation, Packet.WellFormed, Push.WellFormed, Fits, hzero,
      hbody, true_and]

theorem sendQuotation_wellFormed (cmd : Command) (msgType : MsgType) {rawData : Bytes}
    (h : rawData.length < 2 ^ 24) : (sendQuotation rawData cmd msgType).WellFormed := by
  have hfits := (lenU32_fits_iff rawData).mpr h
  have hzero : (0 : UInt8).toNat < 2 ^ 2 := by decide
  exact ⟨hzero, hfits.1, hfits.2⟩

end QuoteLink

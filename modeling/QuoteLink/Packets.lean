import QuoteLink.FieldReader

open Bits Reader

namespace QuoteLink

abbrev Bytes := List UInt8

def defaultRequestTimeout : UInt8 := 5
def requestHeaderSize : Nat := 8
def responseHeaderSize : Nat := 8
def pushHeaderSize : Nat := 5
def minPacketHeaderSize : Nat := 5

/-- Request ids have three bytes on the wire. -/
def requestIdTrim (id : UInt32) : UInt32 := id &&& 0x00ffffff

inductive Command
  | auth
  | heartbeat
  | close
  | reconnect
  | cmdSubAllType
  | cmdUnSubAllType
  | cmdSubOrderBook
  | cmdUnSubOrderBook
  | cmdSubTrades
  | cmdSubBrokers
  | cmdSubDepth
  | cmdUnSubDepth
  | cmdSubMarketInfo
  | cmdUnSubBrokers
  deriving DecidableEq, Repr

def Command.id : Command → Nat
  | .auth => 0
  | .heartbeat => 1
  | .close => 2
  | .reconnect => 3
  | .cmdSubAllType => 4
  | .cmdUnSubAllType => 5
  | .cmdSubOrderBook => 6
  | .cmdUnSubOrderBook => 7
  | .cmdSubTrades => 8
  | .cmdSubBrokers => 9
  | .cmdSubDepth => 10
  | .cmdUnSubDepth => 11
  | .cmdSubMarketInfo => 12
  | .cmdUnSubBrokers => 13

def Command.fromId : Nat → Option Command
  | 0 => some .auth
  | 1 => some .heartbeat
  | 2 => some .close
  | 3 => some .reconnect
  | 4 => some .cmdSubAllType
  | 5 => some .cmdUnSubAllType
  | 6 => some .cmdSubOrderBook
  | 7 => some .cmdUnSubOrderBook
  | 8 => some .cmdSubTrades
  | 9 => some .cmdSubBrokers
  | 10 => some .cmdSubDepth
  | 11 => some .cmdUnSubDepth
  | 12 => some .cmdSubMarketInfo
  | 13 => some .cmdUnSubBrokers
  | _ => none

inductive MsgType
  | unknown
  | snapshot
  | trade
  | depths
  | brokers
  | marketInfo
  | orderBook
  | kline
  deriving DecidableEq, Repr

def MsgType.id : MsgType → Nat
  | .unknown => 0
  | .snapshot => 1
  | .trade => 2
  | .depths => 3
  | .brokers => 4
  | .marketInfo => 5
  | .orderBook => 6
  | .kline => 7

def MsgType.fromId : Nat → Option MsgType
  | 0 => some .unknown
  | 1 => some .snapshot
  | 2 => some .trade
  | 3 => some .depths
  | 4 => some .brokers
  | 5 => some .marketInfo
  | 6 => some .orderBook
  | 7 => some .kline
  | _ => none

inductive ResponseStatus
  | success
  | serverTimeout
  | clientTimeout
  | badRequest
  | badResponse
  | unauthenticated
  | permissionDenied
  | serverInternalError
  | clientInternalError
  deriving DecidableEq, Repr

def ResponseStatus.id : ResponseStatus → Nat
  | .success => 0
  | .serverTimeout => 1
  | .clientTimeout => 2
  | .badRequest => 3
  | .badResponse => 4
  | .unauthenticated => 5
  | .permissionDenied => 6
  | .serverInternalError => 7
  | .clientInternalError => 8

def ResponseStatus.fromId : Nat → Option ResponseStatus
  | 0 => some .success
  | 1 => some .serverTimeout
  | 2 => some .clientTimeout
  | 3 => some .badRequest
  | 4 => some .badResponse
  | 5 => some .unauthenticated
  | 6 => some .permissionDenied
  | 7 => some .serverInternalError
  | 8 => some .clientInternalError
  | _ => none

structure Request where
  reserved : UInt8
  command : Command
  id : UInt32
  timeout : UInt8
  bodyLen : UInt32
  body : Bytes
  deriving DecidableEq, Repr

structure Response where
  reserved : UInt8
  command : Command
  id : UInt32
  status : ResponseStatus
  bodyLen : UInt32
  body : Bytes
  deriving DecidableEq, Repr

structure Push where
  reserved : UInt8
  command : Command
  msgType : MsgType
  bodyLen : UInt32
  body : Bytes
  deriving DecidableEq, Repr

inductive Packet
  | request (r : Request)
  | response (r : Response)
  | push (p : Push)
  deriving DecidableEq, Repr

def Packet.totalBytes : Packet → Nat
  | .request r => r.bodyLen.toNat + requestHeaderSize
  | .response r => r.bodyLen.toNat + responseHeaderSize
  | .push p => p.bodyLen.toNat + pushHeaderSize

def Command.read : Reader Bool Command := enum 4 Command.fromId
def MsgType.read : Reader Bool MsgType := enum 8 MsgType.fromId
def ResponseStatus.read : Reader Bool ResponseStatus := enum 8 ResponseStatus.fromId

def Request.read : Reader Bool Request := do
  let reserved ← u8 2
  let command ← Command.read
  let id ← u32 24
  let timeout ← u8 8
  let bodyLen ← u32 24
  let body ← byteCount bodyLen.toNat
  pure ⟨reserved, command, id, timeout, bodyLen, body⟩

def Response.read : Reader Bool Response := do
  let reserved ← u8 2
  let command ← Command.read
  let id ← u32 24
  let status ← ResponseStatus.read
  let bodyLen ← u32 24
  let body ← byteCount bodyLen.toNat
  pure ⟨reserved, command, id, status, bodyLen, body⟩

def Push.read : Reader Bool Push := do
  let reserved ← u8 2
  let command ← Command.read
  let msgType ← MsgType.read
  let bodyLen ← u32 24
  let body ← byteCount bodyLen.toNat
  pure ⟨reserved, command, msgType, bodyLen, body⟩

def Packet.read : Reader Bool Packet := do
  let tag ← bits 2
  match tag with
  | 0b00 => do
    let r ← Request.read
    pure (.request r)
  | 0b01 => do
    let r ← Response.read
    pure (.response r)
  | 0b10 => do
    let p ← Push.read
    pure (.push p)
  | _ => reject

/-- `Packet::from_bytes` -/
def Packet.fromBytes (input : Bytes × Nat) : Except ReadError ((Bytes × Nat) × Packet) :=
  Packet.read.fromBytes input

def Request.write (r : Request) : Except WriteError (List Bool) := do
  let reserved ← putBits 8 2 r.reserved.toNat
  let command ← putBits 8 4 r.command.id
  let id ← putBits 32 24 r.id.toNat
  let timeout ← putBits 8 8 r.timeout.toNat
  let bodyLen ← putBits 32 24 r.bodyLen.toNat
  pure (reserved ++ command ++ id ++ timeout ++ bodyLen ++ unpack r.body)

def Response.write (r : Response) : Except WriteError (List Bool) := do
  let reserved ← putBits 8 2 r.reserved.toNat
  let command ← putBits 8 4 r.command.id
  let id ← putBits 32 24 r.id.toNat
  let status ← putBits 8 8 r.status.id
  let bodyLen ← putBits 32 24 r.bodyLen.toNat
  pure (reserved ++ command ++ id ++ status ++ bodyLen ++ unpack r.body)

def Push.write (p : Push) : Except WriteError (List Bool) := do
  let reserved ← putBits 8 2 p.reserved.toNat
  let command ← putBits 8 4 p.command.id
  let msgType ← putBits 8 8 p.msgType.id
  let bodyLen ← putBits 32 24 p.bodyLen.toNat
  pure (reserved ++ command ++ msgType ++ bodyLen ++ unpack p.body)

def Packet.write : Packet → Except WriteError (List Bool)
  | .request r => do
    let tag ← putBits 8 2 0b00
    let fields ← r.write
    pure (tag ++ fields)
  | .response r => do
    let tag ← putBits 8 2 0b01
    let fields ← r.write
    pure (tag ++ fields)
  | .push p => do
    let tag ← putBits 8 2 0b10
    let fields ← p.write
    pure (tag ++ fields)

/-- `Packet::to_bytes` -/
def Packet.toBytes (p : Packet) : Except WriteError Bytes := do
  let bits ← p.write
  pure (pack bits)

/-- The heartbeat of the packet test: tag and command in one byte, id, timeout,
body length and body. -/
example : (Packet.request ⟨0, .heartbeat, 1, 2, 3, [0, 1, 2]⟩).toBytes =
    .ok [1, 0, 0, 1, 2, 0, 0, 3, 0, 1, 2] := by decide

end QuoteLink

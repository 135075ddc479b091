import QuoteLink.Proto
import QuoteLink.ServerConn

open Wire

namespace QuoteLink

/-- The codec of the control messages as their schema gives it. -/
def controlProst : Prost where
  encodeAuthRequest := AuthRequest.message.encode
  encodeSubscribeRequest := fun sub =>
    SubscribeRequest.message.encode (sub.all, sub.counterIds, Int64.ofInt sub.spanIndex, ())

def controlDecode : ProstDecode where
  linkError := LinkError.message.codec.decode
  subscribeResponse := SubscribeResponse.message.codec.decode
  unsubscribeResponse := UnsubscribeResponse.message.codec.decode
  authResponse := AuthResponse.message.codec.decode

def decodeAuthRequest : DecodeAuth := AuthRequest.message.codec.decode

theorem decodeAuthRequest_reads : decodeAuthRequest.Reads controlProst :=
  (AuthRequest.message.codec_skipsUnknown (by decide)).roundTrips

theorem heartbeat_roundTrips : Heartbeat.message.codec.RoundTrips :=
  (Heartbeat.message.codec_skipsUnknown (by decide)).roundTrips

/-- `timestamp` is what `unix_micros` returns. -/
def Packet.newHeartbeat (heartbeat : Codec Int64) (timestamp : Int64) (id : UInt32) : Packet :=
  let rawBody := heartbeat.encode timestamp
  .request ⟨0, .heartbeat, requestIdTrim id, defaultRequestTimeout, lenU32 rawBody, rawBody⟩

end QuoteLink

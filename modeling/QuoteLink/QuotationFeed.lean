import QuoteLink.LinkDelivery
import QuoteLink.Quotation

open Reader

namespace QuoteLink

/-- What a consumer of packets gets out of the pushes among them. -/
def Packet.quotation (prost : QuotationProst) : Packet → Option Quotation
  | .push p => parseQuotation prost p.msgType p.body
  | _ => none

/-- What a server writes on a connection: quotations with their commands, and the
packets that answer the client. -/
inductive FeedItem (prost : QuotationProst)
  | quotation (cmd : Command) (q : Quotation) (fits : (q.encodeToVec prost).length < 2 ^ 24)
  | answer (p : Packet) (fits : p.WellFormed) (h : p.quotation prost = none)

namespace FeedItem

variable {prost : QuotationProst}

def packet : FeedItem prost → Packet
  | .quotation cmd q _ => sendQuotation (q.encodeToVec prost) cmd q.msgType
  | .answer p _ _ => p

def quotation? : FeedItem prost → Option Quotation
  | .quotation _ q _ => some q
  | .answer _ _ _ => none

theorem quotation_packet (hprost : prost.Standard) (item : FeedItem prost) :
    item.packet.quotation prost = item.quotation? := by
  cases item with
  | quotation cmd q fits =>
    have hparse : parseQuotation prost q.msgType
        (q.encodeToVec prost ++ ([] : List Wire.Record).flatMap Wire.putRecord) = some q :=
      parseQuotation_encode hprost (lt_two_pow_64 fits) fun _ h => absurd h List.not_mem_nil
    rw [List.flatMap_nil, List.append_nil] at hparse
    exact hparse
  | answer p _ h => exact h

theorem wellFormed_packet (item : FeedItem prost) : item.packet.WellFormed := by
  cases item with
  | quotation cmd q fits => exact sendQuotation_wellFormed cmd q.msgType fits
  | answer p hwf _ => exact hwf

end FeedItem

namespace LinkDelivery

theorem filterMap_quotation {prost : QuotationProst} (hprost : prost.Standard) (feed : List (FeedItem prost)) :
    (feed.map FeedItem.packet).filterMap (Packet.quotation prost) = feed.filterMap FeedItem.quotation? := by
  rw [List.filterMap_map]
  exact congrArg (fun f => feed.filterMap f) (funext (FeedItem.quotation_packet hprost))

/-- A quotation, a heartbeat response and another quotation. -/
def feedItems : List (FeedItem schemaQuotations) :=
  [.quotation .cmdSubBrokers (.broker ⟨"700.HK", 3, [⟨1, [45]⟩], [], 0, 7⟩) (by decide +kernel),
    .answer (.response ⟨0, .heartbeat, 5, .success, 2, [8, 1]⟩) (by decide) rfl,
    .quotation .cmdSubDepth (.depth ⟨"700.HK", 4, [], [⟨1, 200, 31000, true, false, 1⟩], 0, 8⟩)
      (by decide +kernel)]

/-- Each packet passes through the link as a whole before the next one. -/
def feedEvents : List DeliveryEvent :=
  feedItems.flatMap fun item =>
    [.request item.packet, .writerSend, .frameTake, .quic .loopEnd,
      .quic (.streamSend (.ok item.packet.encoding.length) true), .quic .loopEnd, .udpRecv,
      .streamRecv item.packet.encoding.length false, .recvSend, .streamDone, .readerTake, .readerSend, .consume]

end LinkDelivery

end QuoteLink

import QuoteLink.Proto

open Wire

namespace QuoteLink

inductive Quotation
  | trade (data : TradePrice)
  | price (data : Snapshot)
  | depth (data : Depths)
  | broker (data : Brokers)
  | kLine (data : Kline)
  | orderBook (data : OrderBookV2)
  deriving DecidableEq

def Quotation.msgType : Quotation → MsgType
  | .trade _ => .trade
  | .price _ => .snapshot
  | .depth _ => .depths
  | .broker _ => .brokers
  | .kLine _ => .kline
  | .orderBook _ => .orderBook

/-- The generated codecs of the quotations. -/
structure QuotationProst where
  trade : Codec TradePrice
  price : Codec Snapshot
  depth : Codec Depths
  broker : Codec Brokers
  kLine : Codec Kline
  orderBook : Codec OrderBookV2

def Quotation.encodeToVec (prost : QuotationProst) : Quotation → Bytes
  | .trade data => prost.trade.encode data
  | .price data => prost.price.encode data
  | .depth data => prost.depth.encode data
  | .broker data => prost.broker.encode data
  | .kLine data => prost.kLine.encode data
  | .orderBook data => prost.orderBook.encode data

def parseQuotation (prost : QuotationProst) (msgType : MsgType) (data : Bytes) : Option Quotation :=
  match msgType with
  | .unknown => none
  | .snapshot => (prost.price.decode data).map .price
  | .trade => (prost.trade.decode data).map .trade
  | .depths => (prost.depth.decode data).map .depth
  | .brokers => (prost.broker.decode data).map .broker
  | .marketInfo => none
  | .orderBook => (prost.orderBook.decode data).map .orderBook
  | .kline => (prost.kLine.decode data).map .kLine

/-- The fields that the reader of a quotation knows. -/
def Quotation.tags : Quotation → List Nat
  | .trade _ => TradePrice.message.tags
  | .price _ => Snapshot.message.tags
  | .depth _ => Depths.message.tags
  | .broker _ => Brokers.message.tags
  | .kLine _ => Kline.message.tags
  | .orderBook _ => OrderBookV2.message.tags

/-- Every message is read back, whatever fields its reader does not know stand behind it. -/
structure QuotationProst.Standard (prost : QuotationProst) : Prop where
  trade : prost.trade.SkipsUnknown TradePrice.message.tags
  price : prost.price.SkipsUnknown Snapshot.message.tags
  depth : prost.depth.SkipsUnknown Depths.message.tags
  broker : prost.broker.SkipsUnknown Brokers.message.tags
  kLine : prost.kLine.SkipsUnknown Kline.message.tags
  orderBook : prost.orderBook.SkipsUnknown OrderBookV2.message.tags

theorem parseQuotation_encode {prost : QuotationProst} (hprost : prost.Standard) {q : Quotation}
    (hlen : (q.encodeToVec prost).length < 2 ^ 64) {unknown : List Record}
    (hunknown : ∀ r ∈ unknown, r.Writable ∧ r.tag ∉ q.tags) :
    parseQuotation prost q.msgType (q.encodeToVec prost ++ unknown.flatMap putRecord) = some q := by
  cases q with
  | trade data => exact congrArg (Option.map _) (hprost.trade data hlen unknown hunknown)
  | price data => exact congrArg (Option.map _) (hprost.price data hlen unknown hunknown)
  | depth data => exact congrArg (Option.map _) (hprost.depth data hlen unknown hunknown)
  | broker data => exact congrArg (Option.map _) (hprost.broker data hlen unknown hunknown)
  | kLine data => exact congrArg (Option.map _) (hprost.kLine data hlen unknown hunknown)
  | orderBook data => exact congrArg (Option.map _) (hprost.orderBook data hlen unknown hunknown)

/-- What is parsed has the type it was parsed for. -/
theorem msgType_of_parseQuotation {prost : QuotationProst} {msgType : MsgType} {data : Bytes} {q : Quotation}
    (h : parseQuotation prost msgType data = some q) : q.msgType = msgType := by
  cases msgType with
  | unknown => cases h
  | marketInfo => cases h
  | _ =>
    obtain ⟨m, _, rfl⟩ := Option.map_eq_some_iff.mp h
    rfl

/-- The codecs of the quotations as their schema gives them. -/
def schemaQuotations : QuotationProst where
  trade := TradePrice.message.codec
  price := Snapshot.message.codec
  depth := Depths.message.codec
  broker := Brokers.message.codec
  kLine := Kline.message.codec
  orderBook := OrderBookV2.message.codec

theorem schemaQuotations_standard : schemaQuotations.Standard where
  trade := TradePrice.message.codec_skipsUnknown (by decide)
  price := Snapshot.message.codec_skipsUnknown (by decide)
  depth := Depths.message.codec_skipsUnknown (by decide)
  broker := Brokers.message.codec_skipsUnknown (by decide)
  kLine := Kline.message.codec_skipsUnknown (by decide)
  orderBook := OrderBookV2.message.codec_skipsUnknown (by decide)

end QuoteLink

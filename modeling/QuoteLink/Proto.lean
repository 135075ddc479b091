import QuoteLink.SendRequest
import QuoteLink.WireMessage

open Wire

namespace QuoteLink

/-- `timestamp` is an `int64`. -/
def Heartbeat.message : Message Int64 :=
  .iso (.field 1 .int64 .nil) (fun (timestamp, _) => timestamp) (fun timestamp => (timestamp, ()))

def AuthInfo.message : Message AuthInfo :=
  .iso (.field 1 .string <| .field 2 .string <| .field 3 .string .nil)
    (fun (userName, password, clientName, _) => ⟨userName, password, clientName⟩)
    (fun m => (m.userName, m.password, m.clientName, ()))

def AuthRequest.message : Message AuthRequest :=
  .iso (.field 1 (.message AuthInfo.message) .nil) (fun (authInfo, _) => ⟨authInfo⟩)
    (fun m => (m.authInfo, ()))

def AuthResponse.message : Message AuthResponse :=
  .iso (.field 1 (.message AuthInfo.message) .nil) (fun (authInfo, _) => ⟨authInfo⟩)
    (fun m => (m.authInfo, ()))

/-- The fields of a `SubscribeRequest`, its `span_index` as the `int64` it is. -/
def SubscribeRequest.message : Message (Bool × List String × Int64 × Unit) :=
  .field 1 .bool <| .field 2 .repeatedString <| .field 3 .int64 .nil

def SubscribeResponse.message : Message SubscribeResponse :=
  .iso (.field 1 .repeatedString <| .field 2 .repeatedString .nil)
    (fun (success, failed, _) => ⟨success, failed⟩) (fun m => (m.success, m.failed, ()))

def UnsubscribeResponse.message : Message UnsubscribeResponse :=
  .iso (.field 1 .repeatedString <| .field 2 .repeatedString .nil)
    (fun (success, failed, _) => ⟨success, failed⟩) (fun m => (m.success, m.failed, ()))

def LinkError.message : Message LinkError :=
  .iso (.field 1 .uint64 <| .field 2 .string .nil) (fun (code, msg, _) => ⟨code, msg⟩)
    (fun m => (m.code, m.msg, ()))

/-- The messages of `base.proto` that quotations consist of; the fields of an enum
type hold its number. -/
structure VCMMessage where
  start : Int64
  «end» : Int64
  reference : Int64
  high : Int64
  low : Int64
  deriving DecidableEq

structure ConnectTurnover where
  buy : Int64
  sell : Int64
  deriving DecidableEq

structure ConnectDailyInfo where
  quota : Int64
  balance : Int64
  deriving DecidableEq

structure AuctionMessage where
  iep : Int64
  iev : Int64
  deriving DecidableEq

structure RefrenceMessage where
  limitHigh : Int64
  limitLow : Int64
  refPrice : Int64
  deriving DecidableEq

structure Snapshot where
  srcId : Int64
  symbol : String
  lastDone : Int64
  «open» : Int64
  high : Int64
  low : Int64
  totalAmount : UInt64
  totalBalance : UInt64
  tradeStatus : Int32
  timestamp : Int64
  sequence : Int64
  isRefresh : Bool
  isEod : Bool
  openInterest : Int64
  isCancel : Bool
  nominalPrice : Int64
  auctionPrice : Int64
  conditionPrice : Int64
  tag : Int32
  vcmMsg : Option VCMMessage
  connTurnover : Option ConnectTurnover
  connDailyInfo : Option ConnectDailyInfo
  auctionMsg : Option AuctionMessage
  refMsg : Option RefrenceMessage
  prevClosePrice : Int64
  nanoTimestamp : Int64
  deriving DecidableEq

structure TradePrice where
  srcId : Int64
  symbol : String
  timestamp : Int64
  price : Int64
  amount : UInt64
  type : String
  side : Int32
  sequence : Int64
  totalAmount : UInt64
  totalBalance : UInt64
  saleCondition : Int64
  «open» : Int64
  high : Int64
  low : Int64
  openInterest : Int64
  exchangeId : Int32
  exchangeSeq : Int64
  tag : Int32
  nanoTimestamp : Int64
  deriving DecidableEq

structure Depth where
  count : UInt64
  amount : UInt64
  price : Int64
  topLevel : Bool
  needSend : Bool
  priceLevel : Int32
  deriving DecidableEq

structure Depths where
  symbol : String
  sequence : Int64
  asks : List Depth
  bids : List Depth
  srcId : Int64
  nanoTimestamp : Int64
  deriving DecidableEq

structure Broker where
  level : Int32
  brokers : List Int32
  deriving DecidableEq

structure Brokers where
  symbol : String
  sequence : Int64
  asks : List Broker
  bids : List Broker
  srcId : Int64
  nanoTimestamp : Int64
  deriving DecidableEq

structure OrderDetail where
  id : Int64
  volume : Int64
  mpId : Int64
  deriving DecidableEq

structure OrderItem where
  price : Int64
  volume : Int64
  priceLevel : Int32
  details : List OrderDetail
  deriving DecidableEq

structure OrderArray where
  totalVolume : Int64
  orders : List OrderItem
  deriving DecidableEq

structure OrderBookV2 where
  symbol : String
  srcId : Int64
  asks : Option OrderArray
  bids : Option OrderArray
  tag : Int32
  sequence : Int64
  nanoTimestamp : Int64
  deriving DecidableEq

structure Kline where
  symbol : String
  lineType : Int32
  «open» : Int64
  high : Int64
  low : Int64
  close : Int64
  amount : UInt64
  timestamp : Int64
  balance : UInt64
  deriving DecidableEq

def VCMMessage.message : Message VCMMessage :=
  .iso (.field 1 .int64 <| .field 2 .int64 <| .field 3 .int64 <| .field 4 .int64 <| .field 5 .int64 .nil)
    (fun (start, stop, reference, high, low, _) => ⟨start, stop, reference, high, low⟩)
    (fun m => (m.start, m.end, m.reference, m.high, m.low, ()))

def ConnectTurnover.message : Message ConnectTurnover :=
  .iso (.field 1 .int64 <| .field 2 .int64 .nil) (fun (buy, sell, _) => ⟨buy, sell⟩)
    (fun m => (m.buy, m.sell, ()))

def ConnectDailyInfo.message : Message ConnectDailyInfo :=
  .iso (.field 1 .int64 <| .field 2 .int64 .nil) (fun (quota, balance, _) => ⟨quota, balance⟩)
    (fun m => (m.quota, m.balance, ()))

def AuctionMessage.message : Message AuctionMessage :=
  .iso (.field 1 .int64 <| .field 2 .int64 .nil) (fun (iep, iev, _) => ⟨iep, iev⟩)
    (fun m => (m.iep, m.iev, ()))

def RefrenceMessage.message : Message RefrenceMessage :=
  .iso (.field 1 .int64 <| .field 2 .int64 <| .field 3 .int64 .nil)
    (fun (limitHigh, limitLow, refPrice, _) => ⟨limitHigh, limitLow, refPrice⟩)
    (fun m => (m.limitHigh, m.limitLow, m.refPrice, ()))

def Snapshot.message : Message Snapshot :=
  .iso
    (.field 1 .int64 <| .field 2 .string <| .field 3 .int64 <| .field 4 .int64 <| .field 5 .int64 <|
      .field 6 .int64 <| .field 7 .uint64 <| .field 8 .uint64 <| .field 9 .int32 <|
      .field 10 .int64 <| .field 11 .int64 <| .field 12 .bool <| .field 13 .bool <|
      .field 14 .int64 <| .field 15 .bool <| .field 16 .int64 <| .field 17 .int64 <|
      .field 18 .int64 <| .field 19 .int32 <| .field 20 (.message VCMMessage.message) <|
      .field 21 (.message ConnectTurnover.message) <| .field 22 (.message ConnectDailyInfo.message) <|
      .field 23 (.message AuctionMessage.message) <| .field 24 (.message RefrenceMessage.message) <|
      .field 25 .int64 <| .field 26 .int64 .nil)
    (fun (srcId, symbol, lastDone, opening, high, low, totalAmount, totalBalance, tradeStatus, timestamp,
        sequence, isRefresh, isEod, openInterest, isCancel, nominalPrice, auctionPrice, conditionPrice,
        tag, vcmMsg, connTurnover, connDailyInfo, auctionMsg, refMsg, prevClosePrice, nanoTimestamp, _) =>
      ⟨srcId, symbol, lastDone, opening, high, low, totalAmount, totalBalance, tradeStatus, timestamp,
        sequence, isRefresh, isEod, openInterest, isCancel, nominalPrice, auctionPrice, conditionPrice,
        tag, vcmMsg, connTurnover, connDailyInfo, auctionMsg, refMsg, prevClosePrice, nanoTimestamp⟩)
    (fun m => (m.srcId, m.symbol, m.lastDone, m.open, m.high, m.low, m.totalAmount, m.totalBalance,
      m.tradeStatus, m.timestamp, m.sequence, m.isRefresh, m.isEod, m.openInterest, m.isCancel,
      m.nominalPrice, m.auctionPrice, m.conditionPrice, m.tag, m.vcmMsg, m.connTurnover,
      m.connDailyInfo, m.auctionMsg, m.refMsg, m.prevClosePrice, m.nanoTimestamp, ()))

def TradePrice.message : Message TradePrice :=
  .iso
    (.field 1 .int64 <| .field 2 .string <| .field 3 .int64 <| .field 4 .int64 <| .field 5 .uint64 <|
      .field 6 .string <| .field 7 .int32 <| .field 8 .int64 <| .field 9 .uint64 <|
      .field 10 .uint64 <| .field 11 .int64 <| .field 12 .int64 <| .field 13 .int64 <|
      .field 14 .int64 <| .field 15 .int64 <| .field 16 .int32 <| .field 17 .int64 <|
      .field 18 .int32 <| .field 19 .int64 .nil)
    (fun (srcId, symbol, timestamp, price, amount, type, side, sequence, totalAmount, totalBalance,
        saleCondition, opening, high, low, openInterest, exchangeId, exchangeSeq, tag, nanoTimestamp, _) =>
      ⟨srcId, symbol, timestamp, price, amount, type, side, sequence, totalAmount, totalBalance,
        saleCondition, opening, high, low, openInterest, exchangeId, exchangeSeq, tag, nanoTimestamp⟩)
    (fun m => (m.srcId, m.symbol, m.timestamp, m.price, m.amount, m.type, m.side, m.sequence,
      m.totalAmount, m.totalBalance, m.saleCondition, m.open, m.high, m.low, m.openInterest,
      m.exchangeId, m.exchangeSeq, m.tag, m.nanoTimestamp, ()))

def Depth.message : Message Depth :=
  .iso (.field 1 .uint64 <| .field 2 .uint64 <| .field 3 .int64 <| .field 4 .bool <| .field 5 .bool <|
      .field 6 .int32 .nil)
    (fun (count, amount, price, topLevel, needSend, priceLevel, _) =>
      ⟨count, amount, price, topLevel, needSend, priceLevel⟩)
    (fun m => (m.count, m.amount, m.price, m.topLevel, m.needSend, m.priceLevel, ()))

def Depths.message : Message Depths :=
  .iso (.field 1 .string <| .field 2 .int64 <| .field 3 (.repeatedMessage Depth.message) <|
      .field 4 (.repeatedMessage Depth.message) <| .field 5 .int64 <| .field 6 .int64 .nil)
    (fun (symbol, sequence, asks, bids, srcId, nanoTimestamp, _) =>
      ⟨symbol, sequence, asks, bids, srcId, nanoTimestamp⟩)
    (fun m => (m.symbol, m.sequence, m.asks, m.bids, m.srcId, m.nanoTimestamp, ()))

def Broker.message : Message Broker :=
  .iso (.field 1 .int32 <| .field 2 .packedInt32 .nil) (fun (level, brokers, _) => ⟨level, brokers⟩)
    (fun m => (m.level, m.brokers, ()))

def Brokers.message : Message Brokers :=
  .iso (.field 1 .string <| .field 2 .int64 <| .field 3 (.repeatedMessage Broker.message) <|
      .field 4 (.repeatedMessage Broker.message) <| .field 5 .int64 <| .field 6 .int64 .nil)
    (fun (symbol, sequence, asks, bids, srcId, nanoTimestamp, _) =>
      ⟨symbol, sequence, asks, bids, srcId, nanoTimestamp⟩)
    (fun m => (m.symbol, m.sequence, m.asks, m.bids, m.srcId, m.nanoTimestamp, ()))

def OrderDetail.message : Message OrderDetail :=
  .iso (.field 1 .int64 <| .field 2 .int64 <| .field 3 .int64 .nil)
    (fun (id, volume, mpId, _) => ⟨id, volume, mpId⟩) (fun m => (m.id, m.volume, m.mpId, ()))

def OrderItem.message : Message OrderItem :=
  .iso (.field 1 .int64 <| .field 2 .int64 <| .field 3 .int32 <|
      .field 4 (.repeatedMessage OrderDetail.message) .nil)
    (fun (price, volume, priceLevel, details, _) => ⟨price, volume, priceLevel, details⟩)
    (fun m => (m.price, m.volume, m.priceLevel, m.details, ()))

def OrderArray.message : Message OrderArray :=
  .iso (.field 1 .int64 <| .field 2 (.repeatedMessage OrderItem.message) .nil)
    (fun (totalVolume, orders, _) => ⟨totalVolume, orders⟩) (fun m => (m.totalVolume, m.orders, ()))

def OrderBookV2.message : Message OrderBookV2 :=
  .iso (.field 1 .string <| .field 2 .int64 <| .field 3 (.message OrderArray.message) <|
      .field 4 (.message OrderArray.message) <| .field 5 .int32 <| .field 6 .int64 <|
      .field 7 .int64 .nil)
    (fun (symbol, srcId, asks, bids, tag, sequence, nanoTimestamp, _) =>
      ⟨symbol, srcId, asks, bids, tag, sequence, nanoTimestamp⟩)
    (fun m => (m.symbol, m.srcId, m.asks, m.bids, m.tag, m.sequence, m.nanoTimestamp, ()))

def Kline.message : Message Kline :=
  .iso (.field 1 .string <| .field 2 .int32 <| .field 3 .int64 <| .field 4 .int64 <| .field 5 .int64 <|
      .field 6 .int64 <| .field 7 .uint64 <| .field 8 .int64 <| .field 9 .uint64 .nil)
    (fun (symbol, lineType, opening, high, low, close, amount, timestamp, balance, _) =>
      ⟨symbol, lineType, opening, high, low, close, amount, timestamp, balance⟩)
    (fun m => (m.symbol, m.lineType, m.open, m.high, m.low, m.close, m.amount, m.timestamp, m.balance, ()))

end QuoteLink

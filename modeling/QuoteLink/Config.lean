import QuoteLink.Packets

namespace QuoteLink

structure Subscribe where
  cmd : Command
  subAll : Bool
  spanIndex : Int
  deriving DecidableEq, Repr

structure LinkClientConfig where
  username : String
  password : String
  clientName : String
  subscribes : List Subscribe
  deriving DecidableEq, Repr

/-- A client retries without end when `retryTimes` is 0. -/
structure HealthyConfig where
  heartbeatTimeout : Nat
  authTimeout : Nat
  retryTimes : UInt32
  deriving DecidableEq, Repr

end QuoteLink

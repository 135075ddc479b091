import QuoteLink.LinkReadSpace
import QuoteLink.LinkWrite
import QuoteLink.QuicSendIntegrity
import QuoteLink.ResponseRouting
import QuoteLink.PipelineDeadlock
import QuoteLink.RetryTraces
import QuoteLink.ServerRegistration
import QuoteLink.QuicSendSpace
import QuoteLink.ConnDeadline
import QuoteLink.ConnIdentity
import QuoteLink.ConnInbox
import QuoteLink.CallbackGate
import QuoteLink.CallbackDelivery
import QuoteLink.ParseTurns
import QuoteLink.RequestRegistered
import QuoteLink.PendingRequests
import QuoteLink.Wire
import QuoteLink.SendRequest
import QuoteLink.SimpleBufQueue
import QuoteLink.AuthOrder
import QuoteLink.ConnSession
import QuoteLink.QuotationFeed
import QuoteLink.LinkProgress
import QuoteLink.AcceptServer
import QuoteLink.ServerDatagrams
import QuoteLink.ClientDatagrams
import QuoteLink.RetryBudget
import QuoteLink.ClientTraffic
import QuoteLink.AuthExchange
import QuoteLink.AuthAgreement
import QuoteLink.EndToEnd
import QuoteLink.EndDelivery
import QuoteLink.CallRoundTrip

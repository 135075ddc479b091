import QuoteLink.ControlMessages

open Reader Wire

namespace QuoteLink

theorem newRequest_wellFormed (cmd : Command) (id : UInt32) {body : Bytes} (h : body.length < 2 ^ 24) :
    (Packet.newRequest cmd id body).WellFormed :=
  (BuildCall.build_wellFormed_iff controlProst (.newRequest cmd id body)).mpr h

theorem newResponseFrom_wellFormed (cmd : Command) (id : UInt32) (status : ResponseStatus) (sent : Bytes)
    {body : Bytes} (h : body.length < 2 ^ 24) :
    (Packet.newResponseFrom (newRequest cmd id sent) status body).WellFormed :=
  (BuildCall.build_wellFormed_iff controlProst (.newResponseFrom (newRequest cmd id sent) status body)).mpr
    ⟨requestIdTrim_lt id, h⟩

section Call

variable {α β : Type} {request : Codec α} {result : Codec β} {linkError : Codec LinkError} {prost : ProstDecode}
  {commands : List Command} (text context : String)

/-- A successful answer whose body is a message of the result type is that message. -/
theorem sendRequestResult_success {m : β} {resp : Response} (hresult : result.RoundTrips)
    (hm : (result.encode m).length < 2 ^ 24) (hstatus : resp.status = .success)
    (hcmd : resp.command ∈ commands) (hbody : resp.body = result.encode m) :
    sendRequestResult prost (tryFromResponse commands text context result.decode) resp = .ok m := by
  have hdecode : result.decode resp.body = some m := by
    rw [hbody]
    exact hresult m (lt_two_pow_64 hm)
  rw [sendRequestResult, if_neg (not_not.mpr hstatus), convertResponse, tryFromResponse, if_pos hcmd, hdecode]

/-- A failed answer whose body is a `LinkError` is reported as this error. -/
theorem sendRequestResult_linkError {tryFrom : Response → Except ConvertError β} {err : LinkError} {resp : Response}
    (hlink : linkError.RoundTrips) (hprost : prost.linkError = linkError.decode)
    (herr : (linkError.encode err).length < 2 ^ 24) (hstatus : resp.status ≠ .success)
    (hbody : resp.body = linkError.encode err) :
    sendRequestResult prost tryFrom resp = .error (.linkError "response is link error" err) := by
  have hdecode : prost.linkError resp.body = some err := by
    rw [hbody, hprost]
    exact hlink err (lt_two_pow_64 herr)
  rw [sendRequestResult, if_pos hstatus, hdecode]

end Call

end QuoteLink

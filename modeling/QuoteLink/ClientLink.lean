import QuoteLink.Config
import QuoteLink.Machine
import QuoteLink.PacketBuild
import Mathlib.Data.List.AList

namespace QuoteLink

def authBody (prost : Prost) (conf : LinkClientConfig) : Bytes :=
  prost.encodeAuthRequest ⟨some ⟨conf.username, conf.password, conf.clientName⟩⟩

def subscribeBody (prost : Prost) (sub : Subscribe) : Bytes :=
  prost.encodeSubscribeRequest ⟨sub.subAll, [], sub.spanIndex⟩

/-- A configuration without subscriptions, and the encoding of its Auth body. -/
def plainConfig : LinkClientConfig := ⟨"", "", "", []⟩
def plainProst : Prost := ⟨fun _ => [10, 0], fun _ => []⟩

/-- The request of one call of `send_request`, which refuses the commands
heartbeat and auth; its oneshot is known by the number of the call. -/
structure CallRequest where
  call : Nat
  request : Request
  allowed : request.command ≠ .heartbeat ∧ request.command ≠ .auth
  deriving DecidableEq, Repr

/-- A request with the task that sent it. -/
inductive SentRequest
  | call (r : CallRequest)
  | heartbeat (r : Request) (h : r.command = .heartbeat)
  | auth (r : Request) (h : r.command = .auth)
  | subscribe (r : Request)
  deriving DecidableEq, Repr

def SentRequest.request : SentRequest → Request
  | .call r => r.request
  | .heartbeat r _ => r
  | .auth r _ => r
  | .subscribe r => r

/-- The call whose oneshot waits for the response. -/
def SentRequest.owner : SentRequest → Option Nat
  | .call r => some r.call
  | _ => none

/-- An item of `request_rx`; only requests come with a oneshot. -/
inductive Queued
  | request (r : CallRequest)
  | push (p : Push)
  | response (r : Response)
  deriving DecidableEq, Repr

/-- A packet on its way to the server. -/
inductive Outgoing
  | request (r : SentRequest)
  | push (p : Push)
  | response (r : Response)
  deriving DecidableEq, Repr

def Queued.packet : Queued → Outgoing
  | .request r => .request (.call r)
  | .push p => .push p
  | .response r => .response r

/-- The call whose oneshot is queued with the request. -/
def Queued.call? : Queued → Option Nat
  | .request r => some r.call
  | _ => none

/-- A response with the request it answers: the server echoes id and command. -/
structure Answer where
  response : Response
  answered : SentRequest
  echoes : response.id = answered.request.id ∧ response.command = answered.request.command
  deriving DecidableEq, Repr

inductive Incoming
  | response (a : Answer)
  | request (r : Request)
  | push (p : Push)
  deriving DecidableEq, Repr

/-- What the consumer task does with a packet. -/
inductive Outcome
  | handed (call : Nat)
  | onConnected
  | onResponse
  | onRequest
  | onPush
  deriving DecidableEq, Repr

/-- Where the link task stands: in `select!`, in one of its branches with what
it holds there, after `break 'data` (`failed`), or before a connection (`down`). -/
inductive LinkPc
  | idle
  | heartbeat (r : Request) (h : r.command = .heartbeat)
  | forwarding (q : Queued)
  | registering (q : Queued)
  | authAnswer (a : Answer)
  | subscribing (todo : List Subscribe) (packets : List SentRequest)
  | failed
  | down
  | stopped
  deriving DecidableEq, Repr

/-- The call whose oneshot the link task holds. -/
def LinkPc.call? : LinkPc → Option Nat
  | .forwarding q => q.call?
  | .registering q => q.call?
  | _ => none

/-- The call that got the packet. -/
def Outcome.call? : Outcome → Option Nat
  | .handed c => some c
  | _ => none

/-- What a call that waits on its oneshot returns with: the response, the error of a
oneshot whose sender was dropped, or that of `timeout_config.response`. -/
inductive ReturnCause
  | answered
  | dropped
  | timedOut
  deriving DecidableEq, Repr

/-- The current connection: the Auth packet until the handshake is done, the
requests on their way, those the server has not answered, and its packets up to
`inner_response_rx`. -/
structure Connection where
  auth : Option SentRequest
  inner : List Outgoing
  unanswered : List SentRequest
  replies : List Incoming
  deriving DecidableEq, Repr

def Connection.closed : Connection := ⟨none, [], [], []⟩

/-- `drawn` holds the calls that have their id and wait in `tx.send`. -/
structure Client where
  requestIdGen : UInt32
  nextCall : Nat
  drawn : List CallRequest
  returned : List Nat
  requestRx : List Queued
  requests : AList fun _ : UInt32 => Nat
  packetProcessRx : List Incoming
  pc : LinkPc
  conn : Connection
  consumed : List (Incoming × Outcome)

inductive ClientEvent
  | call (cmd : Command) (body : Bytes)
  | enqueue (k : Nat)
  | sendFailed (k : Nat)
  | ret (call : Nat) (cause : ReturnCause)
  | sendPush (p : Push)
  | sendResponse (r : Response)
  | connect
  | handshake
  | tick (body : Bytes)
  | heartbeatSent
  | take
  | forwarded (ok : Bool)
  | register (timedOut : Bool)
  | deliver (lost : Bool)
  | answer (k : Nat) (status : ResponseStatus) (body : Bytes)
  | serverRequest (r : Request)
  | serverPush (p : Push)
  | receive (full : Bool)
  | authForwarded
  | drawSubscribe
  | sendSubscribe
  | fail
  | reset
  | stop
  | consume
  deriving DecidableEq, Repr

namespace Client

def new : Client := ⟨1, 0, [], [], [], ∅, [], .down, .closed, []⟩

/-- `new_response_from` on the request, as the server is assumed to answer. -/
def answerTo (r : SentRequest) (status : ResponseStatus) (body : Bytes) : Answer :=
  ⟨⟨0, r.request.command, r.request.id, status, lenU32 body, body⟩, r, rfl, rfl⟩

/-- The consumer task on one packet. -/
def consumeOne (s : Client) (x : Incoming) : Client :=
  match x with
  | .request _ => { s with consumed := s.consumed ++ [(x, .onRequest)] }
  | .push _ => { s with consumed := s.consumed ++ [(x, .onPush)] }
  | .response a =>
    match s.requests.lookup a.response.id with
    | some c =>
      { s with
        requests := s.requests.erase a.response.id
        consumed := s.consumed ++ [(x, .handed c)] }
    | none =>
      if a.response.command = .auth ∧ a.response.status = .success then
        { s with consumed := s.consumed ++ [(x, .onConnected)] }
      else { s with consumed := s.consumed ++ [(x, .onResponse)] }

/-- The link task on a packet from `inner_response_rx`. -/
def receiveOne (s : Client) (x : Incoming) (full : Bool) : Client :=
  let keep : Client := if full then s else { s with packetProcessRx := s.packetProcessRx ++ [x] }
  match x with
  | .response a =>
    if a.response.command = .heartbeat then s
    else if a.response.command = .auth then
      if a.response.status = .success then { s with pc := .authAnswer a }
      else { s with pc := .failed, conn := .closed }
    else keep
  | _ => keep

def registerOne (s : Client) (q : Queued) (timedOut : Bool) : Client :=
  match q with
  | .request r =>
    if timedOut then { s with pc := .idle }
    else { s with pc := .idle, requests := s.requests.insert r.request.id r.call }
  | _ => { s with pc := .idle }

def deliverOne (s : Client) (x : Outgoing) (rest : List Outgoing) (lost : Bool) : Client :=
  match x with
  | .request r =>
    { s with conn := { s.conn with
        inner := rest
        unanswered := if lost then s.conn.unanswered else s.conn.unanswered ++ [r] } }
  | _ => { s with conn := { s.conn with inner := rest } }

/-- `break 'data` is possible here. -/
def canFail : LinkPc → Bool
  | .idle => true
  | .heartbeat _ _ => true
  | .authAnswer _ => true
  | .subscribing _ _ => true
  | _ => false

def canStop : LinkPc → Bool
  | .idle => true
  | .failed => true
  | .down => true
  | _ => false

/-- The calls whose oneshot waits for a response: in `tx.send`, in `request_rx`, in the
hands of the link task, or in the map. -/
def oneshots (s : Client) : List Nat :=
  s.drawn.map (·.call) ++ s.requestRx.filterMap Queued.call? ++ s.pc.call?.toList ++ s.requests.entries.map (·.2)

/-- The calls that the consumer task has handed a response. -/
def handedCalls (s : Client) : List Nat := s.consumed.filterMap fun x => x.2.call?

/-- `response_rx` is ready with a response or an error, or else the time is over; it is
looked at first, and the response is sent to it by a task of its own. -/
def canReturn (s : Client) (call : Nat) : ReturnCause → Prop
  | .answered => call ∈ s.handedCalls
  | .dropped => call ∉ s.oneshots ∧ call ∉ s.handedCalls
  | .timedOut => call ∈ s.oneshots ∨ call ∈ s.handedCalls

instance (s : Client) (call : Nat) : ∀ cause, Decidable (s.canReturn call cause)
  | .answered => inferInstanceAs (Decidable (_ ∈ _))
  | .dropped => inferInstanceAs (Decidable (_ ∧ _))
  | .timedOut => inferInstanceAs (Decidable (_ ∨ _))

/-- A step of the calls, the link task, the transport with the server behind
it, or the consumer task. -/
def step (prost : Prost) (conf : LinkClientConfig) (s : Client) : ClientEvent → Option Client
  | .call cmd body =>
    if h : cmd ≠ .heartbeat ∧ cmd ≠ .auth then
      some { s with
        requestIdGen := s.requestIdGen + 1
        nextCall := s.nextCall + 1
        drawn := s.drawn ++ [⟨s.nextCall, newRequest cmd s.requestIdGen body, h⟩] }
    else none
  | .enqueue k =>
    match s.drawn[k]? with
    | some r =>
      if s.pc = .stopped then none
      else some { s with drawn := s.drawn.eraseIdx k, requestRx := s.requestRx ++ [.request r] }
    | none => none
  | .sendFailed k =>
    match s.drawn[k]? with
    | some _ => some { s with drawn := s.drawn.eraseIdx k }
    | none => none
  | .ret call cause =>
    if call < s.nextCall ∧ call ∉ s.drawn.map (·.call) ∧ call ∉ s.returned ∧ s.canReturn call cause then
      some { s with returned := s.returned ++ [call] }
    else none
  | .sendPush p =>
    if s.pc = .stopped then none else some { s with requestRx := s.requestRx ++ [.push p] }
  | .sendResponse r =>
    if s.pc = .stopped then none else some { s with requestRx := s.requestRx ++ [.response r] }
  | .connect =>
    if s.pc = .down then
      some { s with
        requestIdGen := s.requestIdGen + 1
        pc := .idle
        conn := ⟨some (.auth (newRequest .auth s.requestIdGen (authBody prost conf)) rfl), [], [], []⟩ }
    else none
  | .handshake =>
    match s.conn.auth with
    | some r =>
      some { s with conn := { s.conn with auth := none, inner := s.conn.inner ++ [.request r] } }
    | none => none
  | .tick body =>
    if s.pc = .idle then
      some { s with
        requestIdGen := s.requestIdGen + 1
        pc := .heartbeat (newRequest .heartbeat s.requestIdGen body) rfl }
    else none
  | .heartbeatSent =>
    match s.pc with
    | .heartbeat r h =>
      some { s with
        pc := .idle
        conn := { s.conn with inner := s.conn.inner ++ [.request (.heartbeat r h)] } }
    | _ => none
  | .take =>
    match s.pc, s.requestRx with
    | .idle, q :: rest => some { s with pc := .forwarding q, requestRx := rest }
    | _, _ => none
  | .forwarded ok =>
    match s.pc with
    | .forwarding q =>
      if ok then
        some { s with
          pc := .registering q
          conn := { s.conn with inner := s.conn.inner ++ [q.packet] } }
      else some { s with pc := .idle }
    | _ => none
  | .register timedOut =>
    match s.pc with
    | .registering q => some (s.registerOne q timedOut)
    | _ => none
  | .deliver lost =>
    match s.conn.inner with
    | x :: rest => some (s.deliverOne x rest lost)
    | [] => none
  | .answer k status body =>
    match s.conn.unanswered[k]? with
    | some r =>
      some { s with conn := { s.conn with
        unanswered := s.conn.unanswered.eraseIdx k
        replies := s.conn.replies ++ [.response (answerTo r status body)] } }
    | none => none
  | .serverRequest r =>
    some { s with conn := { s.conn with replies := s.conn.replies ++ [.request r] } }
  | .serverPush p =>
    some { s with conn := { s.conn with replies := s.conn.replies ++ [.push p] } }
  | .receive full =>
    match s.pc, s.conn.replies with
    | .idle, x :: rest =>
      some (receiveOne { s with conn := { s.conn with replies := rest } } x full)
    | _, _ => none
  | .authForwarded =>
    match s.pc with
    | .authAnswer a =>
      some { s with
        pc := .subscribing conf.subscribes []
        packetProcessRx := s.packetProcessRx ++ [.response a] }
    | _ => none
  | .drawSubscribe =>
    match s.pc with
    | .subscribing (sub :: todo) packets =>
      some { s with
        requestIdGen := s.requestIdGen + 1
        pc := .subscribing todo
          (packets ++ [.subscribe (newRequest sub.cmd s.requestIdGen (subscribeBody prost sub))]) }
    | _ => none
  | .sendSubscribe =>
    match s.pc with
    | .subscribing [] (r :: packets) =>
      some { s with
        pc := .subscribing [] packets
        conn := { s.conn with inner := s.conn.inner ++ [.request r] } }
    | .subscribing [] [] => some { s with pc := .idle }
    | _ => none
  | .fail => if canFail s.pc then some { s with pc := .failed, conn := .closed } else none
  | .reset => if s.pc = .failed then some { s with pc := .down, requestIdGen := 1 } else none
  | .stop =>
    if canStop s.pc then some { s with pc := .stopped, conn := .closed, requestRx := [] } else none
  | .consume =>
    match s.packetProcessRx with
    | x :: rest => some (consumeOne { s with packetProcessRx := rest } x)
    | [] => none

/-- All that a step of the client can be. -/
inductive StepCase (prost : Prost) (conf : LinkClientConfig) (s : Client) : ClientEvent → Client → Prop
  | call (cmd : Command) (body : Bytes) (h : cmd ≠ .heartbeat ∧ cmd ≠ .auth) :
    StepCase prost conf s (.call cmd body)
      { s with
        requestIdGen := s.requestIdGen + 1
        nextCall := s.nextCall + 1
        drawn := s.drawn ++ [⟨s.nextCall, newRequest cmd s.requestIdGen body, h⟩] }
  | enqueue (k : Nat) (r : CallRequest) (hk : s.drawn[k]? = some r) (hpc : s.pc ≠ .stopped) :
    StepCase prost conf s (.enqueue k)
      { s with drawn := s.drawn.eraseIdx k, requestRx := s.requestRx ++ [.request r] }
  | sendFailed (k : Nat) (r : CallRequest) (hk : s.drawn[k]? = some r) :
    StepCase prost conf s (.sendFailed k) { s with drawn := s.drawn.eraseIdx k }
  | ret (call : Nat) (cause : ReturnCause)
    (h : call < s.nextCall ∧ call ∉ s.drawn.map (·.call) ∧ call ∉ s.returned ∧ s.canReturn call cause) :
    StepCase prost conf s (.ret call cause) { s with returned := s.returned ++ [call] }
  | sendPush (p : Push) (hpc : s.pc ≠ .stopped) :
    StepCase prost conf s (.sendPush p) { s with requestRx := s.requestRx ++ [.push p] }
  | sendResponse (r : Response) (hpc : s.pc ≠ .stopped) :
    StepCase prost conf s (.sendResponse r) { s with requestRx := s.requestRx ++ [.response r] }
  | connect (hpc : s.pc = .down) :
    StepCase prost conf s .connect
      { s with
        requestIdGen := s.requestIdGen + 1
        pc := .idle
        conn := ⟨some (.auth (newRequest .auth s.requestIdGen (authBody prost conf)) rfl), [], [], []⟩ }
  | handshake (r : SentRequest) (hr : s.conn.auth = some r) :
    StepCase prost conf s .handshake
      { s with conn := { s.conn with auth := none, inner := s.conn.inner ++ [.request r] } }
  | tick (body : Bytes) (hpc : s.pc = .idle) :
    StepCase prost conf s (.tick body)
      { s with
        requestIdGen := s.requestIdGen + 1
        pc := .heartbeat (newRequest .heartbeat s.requestIdGen body) rfl }
  | heartbeatSent (r : Request) (h : r.command = .heartbeat) (hpc : s.pc = .heartbeat r h) :
    StepCase prost conf s .heartbeatSent
      { s with
        pc := .idle
        conn := { s.conn with inner := s.conn.inner ++ [.request (.heartbeat r h)] } }
  | take (q : Queued) (rest : List Queued) (hpc : s.pc = .idle) (hrx : s.requestRx = q :: rest) :
    StepCase prost conf s .take { s with pc := .forwarding q, requestRx := rest }
  | forwarded (q : Queued) (hpc : s.pc = .forwarding q) :
    StepCase prost conf s (.forwarded true)
      { s with
        pc := .registering q
        conn := { s.conn with inner := s.conn.inner ++ [q.packet] } }
  | forwardFailed (q : Queued) (hpc : s.pc = .forwarding q) :
    StepCase prost conf s (.forwarded false) { s with pc := .idle }
  | register (q : Queued) (timedOut : Bool) (hpc : s.pc = .registering q) :
    StepCase prost conf s (.register timedOut) (s.registerOne q timedOut)
  | deliver (x : Outgoing) (rest : List Outgoing) (lost : Bool) (hx : s.conn.inner = x :: rest) :
    StepCase prost conf s (.deliver lost) (s.deliverOne x rest lost)
  | answer (k : Nat) (r : SentRequest) (status : ResponseStatus) (body : Bytes)
    (hk : s.conn.unanswered[k]? = some r) :
    StepCase prost conf s (.answer k status body)
      { s with conn := { s.conn with
          unanswered := s.conn.unanswered.eraseIdx k
          replies := s.conn.replies ++ [.response (answerTo r status body)] } }
  | serverRequest (r : Request) :
    StepCase prost conf s (.serverRequest r)
      { s with conn := { s.conn with replies := s.conn.replies ++ [.request r] } }
  | serverPush (p : Push) :
    StepCase prost conf s (.serverPush p)
      { s with conn := { s.conn with replies := s.conn.replies ++ [.push p] } }
  | receive (x : Incoming) (rest : List Incoming) (full : Bool) (hpc : s.pc = .idle)
    (hx : s.conn.replies = x :: rest) :
    StepCase prost conf s (.receive full)
      (receiveOne { s with conn := { s.conn with replies := rest } } x full)
  | authForwarded (a : Answer) (hpc : s.pc = .authAnswer a) :
    StepCase prost conf s .authForwarded
      { s with
        pc := .subscribing conf.subscribes []
        packetProcessRx := s.packetProcessRx ++ [.response a] }
  | drawSubscribe (sub : Subscribe) (todo : List Subscribe) (packets : List SentRequest)
    (hpc : s.pc = .subscribing (sub :: todo) packets) :
    StepCase prost conf s .drawSubscribe
      { s with
        requestIdGen := s.requestIdGen + 1
        pc := .subscribing todo
          (packets ++ [.subscribe (newRequest sub.cmd s.requestIdGen (subscribeBody prost sub))]) }
  | sendSubscribe (r : SentRequest) (packets : List SentRequest)
    (hpc : s.pc = .subscribing [] (r :: packets)) :
    StepCase prost conf s .sendSubscribe
      { s with
        pc := .subscribing [] packets
        conn := { s.conn with inner := s.conn.inner ++ [.request r] } }
  | subscribed (hpc : s.pc = .subscribing [] []) :
    StepCase prost conf s .sendSubscribe { s with pc := .idle }
  | fail (hcan : canFail s.pc = true) :
    StepCase prost conf s .fail { s with pc := .failed, conn := .closed }
  | reset (hpc : s.pc = .failed) : StepCase prost conf s .reset { s with pc := .down, requestIdGen := 1 }
  | stop (hcan : canStop s.pc = true) :
    StepCase prost conf s .stop { s with pc := .stopped, conn := .closed, requestRx := [] }
  | consume (x : Incoming) (rest : List Incoming) (hx : s.packetProcessRx = x :: rest) :
    StepCase prost conf s .consume (consumeOne { s with packetProcessRx := rest } x)

theorem step_cases {prost : Prost} {conf : LinkClientConfig} {s s' : Client} {e : ClientEvent}
    (h : step prost conf s e = some s') : StepCase prost conf s e s' := by
  cases e with
  | call cmd body =>
    simp only [step, Option.dite_none_right_eq_some, Option.some.injEq] at h
    obtain ⟨hcmd, rfl⟩ := h
    exact .call cmd body hcmd
  | enqueue k =>
    simp only [step] at h
    split at h
    next r hk =>
      simp only [Option.ite_none_left_eq_some, Option.some.injEq] at h
      obtain ⟨hpc, rfl⟩ := h
      exact .enqueue k r hk hpc
    next => cases h
  | sendFailed k =>
    simp only [step] at h
    split at h
    next r hk =>
      cases h
      exact .sendFailed k r hk
    next => cases h
  | ret call cause =>
    simp only [step, Option.ite_none_right_eq_some, Option.some.injEq] at h
    obtain ⟨hcall, rfl⟩ := h
    exact .ret call cause hcall
  | sendPush p =>
    simp only [step, Option.ite_none_left_eq_some, Option.some.injEq] at h
    obtain ⟨hpc, rfl⟩ := h
    exact .sendPush p hpc
  | sendResponse r =>
    simp only [step, Option.ite_none_left_eq_some, Option.some.injEq] at h
    obtain ⟨hpc, rfl⟩ := h
    exact .sendResponse r hpc
  | connect =>
    simp only [step, Option.ite_none_right_eq_some, Option.some.injEq] at h
    obtain ⟨hpc, rfl⟩ := h
    exact .connect hpc
  | handshake =>
    simp only [step] at h
    split at h
    next r hr =>
      cases h
      exact .handshake r hr
    next => cases h
  | tick body =>
    simp only [step, Option.ite_none_right_eq_some, Option.some.injEq] at h
    obtain ⟨hpc, rfl⟩ := h
    exact .tick body hpc
  | heartbeatSent =>
    simp only [step] at h
    split at h
    next r hr hpc =>
      cases h
      exact .heartbeatSent r hr hpc
    next => cases h
  | take =>
    simp only [step] at h
    split at h
    next q rest hpc hrx =>
      cases h
      exact .take q rest hpc hrx
    next => cases h
  | forwarded ok =>
    simp only [step] at h
    split at h
    next q hpc =>
      cases ok with
      | true =>
        cases h
        exact .forwarded q hpc
      | false =>
        cases h
        exact .forwardFailed q hpc
    next => cases h
  | register timedOut =>
    simp only [step] at h
    split at h
    next q hpc =>
      cases h
      exact .register q timedOut hpc
    next => cases h
  | deliver lost =>
    simp only [step] at h
    split at h
    next x rest hx =>
      cases h
      exact .deliver x rest lost hx
    next => cases h
  | answer k status body =>
    simp only [step] at h
    split at h
    next r hk =>
      cases h
      exact .answer k r status body hk
    next => cases h
  | serverRequest r =>
    cases h
    exact .serverRequest r
  | serverPush p =>
    cases h
    exact .serverPush p
  | receive full =>
    simp only [step] at h
    split at h
    next x rest hpc hx =>
      cases h
      exact .receive x rest full hpc hx
    next => cases h
  | authForwarded =>
    simp only [step] at h
    split at h
    next a hpc =>
      cases h
      exact .authForwarded a hpc
    next => cases h
  | drawSubscribe =>
    simp only [step] at h
    split at h
    next sub todo packets hpc =>
      cases h
      exact .drawSubscribe sub todo packets hpc
    next => cases h
  | sendSubscribe =>
    simp only [step] at h
    split at h
    next r packets hpc =>
      cases h
      exact .sendSubscribe r packets hpc
    next hpc =>
      cases h
      exact .subscribed hpc
    next => cases h
  | fail =>
    simp only [step, Option.ite_none_right_eq_some, Option.some.injEq] at h
    obtain ⟨hcan, rfl⟩ := h
    exact .fail hcan
  | reset =>
    simp only [step, Option.ite_none_right_eq_some, Option.some.injEq] at h
    obtain ⟨hpc, rfl⟩ := h
    exact .reset hpc
  | stop =>
    simp only [step, Option.ite_none_right_eq_some, Option.some.injEq] at h
    obtain ⟨hcan, rfl⟩ := h
    exact .stop hcan
  | consume =>
    simp only [step] at h
    split at h
    next x rest hx =>
      cases h
      exact .consume x rest hx
    next => cases h

end Client

end QuoteLink

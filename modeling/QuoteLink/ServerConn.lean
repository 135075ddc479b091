import QuoteLink.Config
import QuoteLink.PacketBuild

namespace QuoteLink

/-- `AuthRequest::decode` -/
abbrev DecodeAuth := Bytes → Option AuthRequest

/-- What `encode_to_vec` has written `decode` reads. -/
def DecodeAuth.Reads (decode : DecodeAuth) (prost : Prost) : Prop :=
  ∀ auth, (prost.encodeAuthRequest auth).length < 2 ^ 64 → decode (prost.encodeAuthRequest auth) = some auth

def AuthInfo.default : AuthInfo := ⟨"", "", ""⟩

/-- `format!("{}@{}", client_name, peer_addr)` -/
def nameAt (clientName peerAddr : String) : String := clientName ++ "@" ++ peerAddr

/-- Where the main process loop of a connection stands: in `select!`, in one of
its awaits with the request it is about, or behind the loop. -/
inductive ConnPc
  | select
  | replying (request : Request)
  | onAuth (request : Request)
  | sendNew (request : Request)
  | forwardAuth (request : Request)
  | onDisconnect
  | sendExit
  | done
  deriving DecidableEq, Repr

/-- The locals of the main process loop of one connection. -/
structure ConnLoop where
  peerAddr : String
  isAuthOk : Bool
  clientName : String
  lastPingAt : Nat
  authInfo : AuthInfo
  pc : ConnPc
  deriving DecidableEq, Repr

inductive ConnEvent
  | tick (now : Nat)
  | exitSignal
  | recv (packet : Packet) (now : Nat)
  | recvClosed
  | replied
  | replyFailed
  | authResult (ok : Bool)
  | newSent
  | authForwarded
  | disconnected
  | exitSent
  deriving DecidableEq, Repr

/-- What the loop does to the world: it calls the handler, replies, hands a
packet to the callback task, or signals the connection management. -/
inductive ConnEffect
  | onAuth (requestId : UInt32) (authInfo : AuthInfo)
  | reply (packet : Packet)
  | callback (packet : Packet)
  | signalNew (name : String)
  | signalExit (name : String)
  | onDisconnect (authInfo : AuthInfo)
  deriving DecidableEq, Repr

namespace ConnLoop

def new (peerAddr : String) (now : Nat) : ConnLoop :=
  ⟨peerAddr, false, nameAt "waitAuth" peerAddr, now, .default, .select⟩

/-- Behind the loop: only after a successful auth is `on_disconnect` called. -/
def leave (l : ConnLoop) : ConnLoop × List ConnEffect :=
  if l.isAuthOk then ({ l with pc := .onDisconnect }, [.onDisconnect l.authInfo])
  else ({ l with pc := .sendExit }, [])

/-- An Auth request: the locals change before `on_auth` has answered. -/
def recvAuth (decode : DecodeAuth) (l : ConnLoop) (request : Request) :
    ConnLoop × List ConnEffect :=
  match decode request.body with
  | none => l.leave
  | some auth =>
    let info := auth.authInfo.getD .default
    ({ l with
        authInfo := info
        clientName := nameAt info.clientName l.peerAddr
        pc := .onAuth request }, [.onAuth request.id info])

def recvOne (decode : DecodeAuth) (l : ConnLoop) (packet : Packet) : ConnLoop × List ConnEffect :=
  match packet with
  | .request request =>
    if request.command = .heartbeat then ({ l with pc := .replying request }, [])
    else if request.command = .auth then l.recvAuth decode request
    else (l, [.callback packet])
  | _ => (l, [.callback packet])

/-- The timeout that holds for the loop right now. -/
def timeout (conf : HealthyConfig) (l : ConnLoop) : Nat :=
  if l.isAuthOk then conf.heartbeatTimeout else conf.authTimeout

def step (decode : DecodeAuth) (conf : HealthyConfig) (l : ConnLoop) :
    ConnEvent → Option (ConnLoop × List ConnEffect)
  | .tick now =>
    if l.pc = .select then
      some (if l.timeout conf < now - l.lastPingAt then l.leave else (l, []))
    else none
  | .exitSignal => if l.pc = .select then some l.leave else none
  | .recv packet now =>
    if l.pc = .select then some ({ l with lastPingAt := now }.recvOne decode packet) else none
  | .recvClosed => if l.pc = .select then some l.leave else none
  | .replied =>
    match l.pc with
    | .replying request =>
      some ({ l with pc := .select }, [.reply (.newHeartbeatResponse request)])
    | _ => none
  -- `send_tx` is closed, which is only logged
  | .replyFailed =>
    match l.pc with
    | .replying _ => some ({ l with pc := .select }, [])
    | _ => none
  | .authResult ok =>
    match l.pc with
    | .onAuth request =>
      if ok then some ({ l with isAuthOk := true, pc := .sendNew request }, [])
      else some ({ l with pc := .select }, [])
    | _ => none
  | .newSent =>
    match l.pc with
    | .sendNew request => some ({ l with pc := .forwardAuth request }, [.signalNew l.clientName])
    | _ => none
  | .authForwarded =>
    match l.pc with
    | .forwardAuth request => some ({ l with pc := .select }, [.callback (.request request)])
    | _ => none
  | .disconnected => if l.pc = .onDisconnect then some ({ l with pc := .sendExit }, []) else none
  | .exitSent =>
    if l.pc = .sendExit then some ({ l with pc := .done }, [.signalExit l.clientName]) else none

/-- All that a step of the loop can be. -/
inductive StepCase (decode : DecodeAuth) (conf : HealthyConfig) (l : ConnLoop) :
    ConnEvent → ConnLoop × List ConnEffect → Prop
  | tick (now : Nat) (hpc : l.pc = .select) (h : ¬l.timeout conf < now - l.lastPingAt) :
    StepCase decode conf l (.tick now) (l, [])
  | tickLeave (now : Nat) (hpc : l.pc = .select) (h : l.timeout conf < now - l.lastPingAt) :
    StepCase decode conf l (.tick now) l.leave
  | exitSignal (hpc : l.pc = .select) : StepCase decode conf l .exitSignal l.leave
  | recvClosed (hpc : l.pc = .select) : StepCase decode conf l .recvClosed l.leave
  | heartbeat (r : Request) (now : Nat) (hpc : l.pc = .select) (hr : r.command = .heartbeat) :
    StepCase decode conf l (.recv (.request r) now)
      ({ l with lastPingAt := now, pc := .replying r }, [])
  | authInvalid (r : Request) (now : Nat) (hpc : l.pc = .select) (hr : r.command = .auth)
    (hdecode : decode r.body = none) :
    StepCase decode conf l (.recv (.request r) now) { l with lastPingAt := now }.leave
  | auth (r : Request) (now : Nat) (hpc : l.pc = .select) (hr : r.command = .auth)
    (auth : AuthRequest) (hdecode : decode r.body = some auth) :
    StepCase decode conf l (.recv (.request r) now)
      ({ l with
          lastPingAt := now
          authInfo := auth.authInfo.getD .default
          clientName := nameAt (auth.authInfo.getD .default).clientName l.peerAddr
          pc := .onAuth r }, [.onAuth r.id (auth.authInfo.getD .default)])
  | packet (p : Packet) (now : Nat) (hpc : l.pc = .select)
    (hp : ∀ r, p = .request r → r.command ≠ .heartbeat ∧ r.command ≠ .auth) :
    StepCase decode conf l (.recv p now) ({ l with lastPingAt := now }, [.callback p])
  | replied (r : Request) (hpc : l.pc = .replying r) :
    StepCase decode conf l .replied ({ l with pc := .select }, [.reply (.newHeartbeatResponse r)])
  | replyFailed (r : Request) (hpc : l.pc = .replying r) :
    StepCase decode conf l .replyFailed ({ l with pc := .select }, [])
  | authOk (r : Request) (hpc : l.pc = .onAuth r) :
    StepCase decode conf l (.authResult true) ({ l with isAuthOk := true, pc := .sendNew r }, [])
  | authRejected (r : Request) (hpc : l.pc = .onAuth r) :
    StepCase decode conf l (.authResult false) ({ l with pc := .select }, [])
  | newSent (r : Request) (hpc : l.pc = .sendNew r) :
    StepCase decode conf l .newSent ({ l with pc := .forwardAuth r }, [.signalNew l.clientName])
  | authForwarded (r : Request) (hpc : l.pc = .forwardAuth r) :
    StepCase decode conf l .authForwarded ({ l with pc := .select }, [.callback (.request r)])
  | disconnected (hpc : l.pc = .onDisconnect) :
    StepCase decode conf l .disconnected ({ l with pc := .sendExit }, [])
  | exitSent (hpc : l.pc = .sendExit) :
    StepCase decode conf l .exitSent ({ l with pc := .done }, [.signalExit l.clientName])

theorem step_cases {decode : DecodeAuth} {conf : HealthyConfig} {l : ConnLoop} {e : ConnEvent}
    {out : ConnLoop × List ConnEffect} (h : l.step decode conf e = some out) :
    StepCase decode conf l e out := by
  cases e with
  | tick now =>
    simp only [step, Option.ite_none_right_eq_some, Option.some.injEq] at h
    obtain ⟨hpc, rfl⟩ := h
    split
    next ht => exact .tickLeave now hpc ht
    next ht => exact .tick now hpc ht
  | exitSignal =>
    simp only [step, Option.ite_none_right_eq_some, Option.some.injEq] at h
    obtain ⟨hpc, rfl⟩ := h
    exact .exitSignal hpc
  | recv p now =>
    simp only [step, Option.ite_none_right_eq_some, Option.some.injEq] at h
    obtain ⟨hpc, rfl⟩ := h
    cases p with
    | request r =>
      by_cases hbeat : r.command = .heartbeat
      · simp only [recvOne, hbeat, if_true]
        exact .heartbeat r now hpc hbeat
      · by_cases hauth : r.command = .auth
        · simp only [recvOne, hauth, if_true, if_false, reduceCtorEq, recvAuth]
          cases hdecode : decode r.body with
          | none => exact .authInvalid r now hpc hauth hdecode
          | some auth => exact .auth r now hpc hauth auth hdecode
        · simp only [recvOne, hbeat, hauth, if_false]
          refine .packet (.request r) now hpc ?_
          rintro q ⟨⟩
          exact ⟨hbeat, hauth⟩
    | response r => exact .packet (.response r) now hpc fun q hq => by cases hq
    | push p => exact .packet (.push p) now hpc fun q hq => by cases hq
  | recvClosed =>
    simp only [step, Option.ite_none_right_eq_some, Option.some.injEq] at h
    obtain ⟨hpc, rfl⟩ := h
    exact .recvClosed hpc
  | replied =>
    simp only [step] at h
    split at h
    next r hpc =>
      cases h
      exact .replied r hpc
    next => cases h
  | replyFailed =>
    simp only [step] at h
    split at h
    next r hpc =>
      cases h
      exact .replyFailed r hpc
    next => cases h
  | authResult ok =>
    simp only [step] at h
    split at h
    next r hpc =>
      cases ok with
      | true =>
        cases h
        exact .authOk r hpc
      | false =>
        cases h
        exact .authRejected r hpc
    next => cases h
  | newSent =>
    simp only [step] at h
    split at h
    next r hpc =>
      cases h
      exact .newSent r hpc
    next => cases h
  | authForwarded =>
    simp only [step] at h
    split at h
    next r hpc =>
      cases h
      exact .authForwarded r hpc
    next => cases h
  | disconnected =>
    simp only [step, Option.ite_none_right_eq_some, Option.some.injEq] at h
    obtain ⟨hpc, rfl⟩ := h
    exact .disconnected hpc
  | exitSent =>
    simp only [step, Option.ite_none_right_eq_some, Option.some.injEq] at h
    obtain ⟨hpc, rfl⟩ := h
    exact .exitSent hpc

/-- The loop without what it does to the world. -/
def next (decode : DecodeAuth) (conf : HealthyConfig) (l : ConnLoop) (e : ConnEvent) : Option ConnLoop :=
  (l.step decode conf e).map Prod.fst

theorem next_cases {decode : DecodeAuth} {conf : HealthyConfig} {l l' : ConnLoop} {e : ConnEvent}
    (h : l.next decode conf e = some l') : ∃ out, StepCase decode conf l e out ∧ out.1 = l' := by
  obtain ⟨out, hs, hl⟩ := Option.map_eq_some_iff.mp h
  exact ⟨out, step_cases hs, hl⟩

/-- The main process loop has been left. -/
def ended (l : ConnLoop) : Bool :=
  match l.pc with
  | .onDisconnect => true
  | .sendExit => true
  | .done => true
  | _ => false

@[simp] theorem leave_ended (l : ConnLoop) : l.leave.1.ended = true := by
  unfold leave
  split <;> rfl

@[simp] theorem leave_isAuthOk (l : ConnLoop) : l.leave.1.isAuthOk = l.isAuthOk := by
  unfold leave
  split <;> rfl

@[simp] theorem leave_lastPingAt (l : ConnLoop) : l.leave.1.lastPingAt = l.lastPingAt := by
  unfold leave
  split <;> rfl

@[simp] theorem leave_authInfo (l : ConnLoop) : l.leave.1.authInfo = l.authInfo := by
  unfold leave
  split <;> rfl

end ConnLoop

end QuoteLink

import QuoteLink.AuthExchange

namespace QuoteLink

def SentRequest.isAuth (r : SentRequest) : Bool := decide (r.request.command = .auth)

def Outgoing.isAuthRequest : Outgoing → Bool
  | .request r => r.isAuth
  | _ => false

/-- An Auth request has the body that the client builds from its configuration. -/
def Outgoing.Own (prost : Prost) (conf : LinkClientConfig) : Outgoing → Prop
  | .request r => r.isAuth = true → r.request.body = authBody prost conf
  | _ => True

/-- No subscription is an Auth request. -/
def LinkPc.OnlySubscribes : LinkPc → Prop
  | .subscribing todo packets => (∀ sub ∈ todo, sub.cmd ≠ .auth) ∧ ∀ r ∈ packets, r.isAuth = false
  | _ => True

/-- An accepted answer is in the hands of the link task. -/
def LinkPc.claims : LinkPc → Nat
  | .authAnswer _ => 1
  | _ => 0

namespace Client

variable {prost : Prost} {conf : LinkClientConfig} {c c' : Client} {e : ClientEvent}

/-- The Auth requests of the current connection that have no answer yet. -/
def asks (c : Client) : Nat :=
  c.conn.auth.toList.countP SentRequest.isAuth + c.conn.inner.countP Outgoing.isAuthRequest +
    c.conn.unanswered.countP SentRequest.isAuth

/-- How often `on_connected` was called, or is going to be. -/
def claims (c : Client) : Nat :=
  c.conn.replies.countP Incoming.accepts + c.pc.claims + c.packetProcessRx.countP Incoming.accepts +
    c.consumed.countP fun y => decide (y.2 = .onConnected)

/-- The client sends its own credentials and no others. -/
structure SendsOwn (prost : Prost) (conf : LinkClientConfig) (c : Client) : Prop where
  auth : ∀ r, c.conn.auth = some r → Outgoing.Own prost conf (.request r)
  inner : ∀ x ∈ c.conn.inner, x.Own prost conf
  pc : c.pc.OnlySubscribes

theorem new_sendsOwn (prost : Prost) (conf : LinkClientConfig) : new.SendsOwn prost conf where
  auth := fun r hr => by cases hr
  inner := fun _ hx => by cases hx
  pc := trivial

theorem isAuthRequest_packet (q : Queued) : q.packet.isAuthRequest = false := by
  cases q with
  | request r => exact decide_eq_false r.allowed.2
  | push p => rfl
  | response r => rfl

theorem isAuthRequest_heartbeat {r : Request} (hbeat : r.command = .heartbeat) :
    Outgoing.isAuthRequest (.request (.heartbeat r hbeat)) = false := by
  refine decide_eq_false fun hauth : r.command = .auth => ?_
  rw [hbeat] at hauth
  cases hauth

theorem own_of_not_auth {x : Outgoing} (hx : x.isAuthRequest = false) : x.Own prost conf := by
  cases x with
  | request r =>
    intro hauth
    have hnot : r.isAuth = false := hx
    rw [hauth] at hnot
    cases hnot
  | push p => trivial
  | response r => trivial

theorem SendsOwn.same (h : c.SendsOwn prost conf) (hauth : c'.conn.auth = c.conn.auth)
    (hinner : ∀ x ∈ c'.conn.inner, x ∈ c.conn.inner) (hpc : c'.pc.OnlySubscribes) : c'.SendsOwn prost conf := by
  refine ⟨?_, fun x hx => h.inner x (hinner x hx), hpc⟩
  rw [hauth]
  exact h.auth

theorem sendsOwn_closed (hconn : c.conn = .closed) (hpc : c.pc.OnlySubscribes) : c.SendsOwn prost conf := by
  refine ⟨?_, ?_, hpc⟩
  · rw [hconn]
    exact fun r hr => by cases hr
  · rw [hconn]
    exact fun _ hx => by cases hx

theorem SendsOwn.enqueue (h : c.SendsOwn prost conf) {x : Outgoing} {pc : LinkPc} {auth : Option SentRequest}
    (hauth : ∀ r, auth = some r → Outgoing.Own prost conf (.request r)) (hx : x.Own prost conf)
    (hpc : pc.OnlySubscribes) :
    SendsOwn prost conf { c with
      pc := pc
      conn := { c.conn with auth := auth, inner := c.conn.inner ++ [x] } } := by
  refine ⟨hauth, fun y hy => ?_, hpc⟩
  rcases List.mem_append.mp hy with hy | hy
  · exact h.inner y hy
  · rw [List.mem_singleton.mp hy]
    exact hx

theorem step_sendsOwn (hsub : ∀ sub ∈ conf.subscribes, sub.cmd ≠ .auth) (h : c.SendsOwn prost conf)
    (hs : c.step prost conf e = some c') : c'.SendsOwn prost conf := by
  cases step_cases hs with
  | connect hpc =>
    refine ⟨fun r hr => ?_, (fun _ hx => by cases hx), trivial⟩
    cases hr
    exact fun _ => rfl
  | handshake r hr => exact h.enqueue (fun r hr => by cases hr) (h.auth r hr) h.pc
  | heartbeatSent r hbeat hpc =>
    exact h.enqueue h.auth (own_of_not_auth (isAuthRequest_heartbeat hbeat)) trivial
  | forwarded q hpc => exact h.enqueue h.auth (own_of_not_auth (isAuthRequest_packet q)) trivial
  | sendSubscribe r packets hpc =>
    have hpcOwn := h.pc
    rw [hpc] at hpcOwn
    refine h.enqueue h.auth (own_of_not_auth (hpcOwn.2 r List.mem_cons_self)) ?_
    exact ⟨hpcOwn.1, fun q hq => hpcOwn.2 q (List.mem_cons_of_mem r hq)⟩
  | tick | take | forwardFailed | subscribed | reset => exact h.same rfl (fun _ hx => hx) trivial
  | register q timedOut hpc =>
    obtain ⟨requests, heq⟩ := registerOne_frame c q timedOut
    rw [heq]
    exact h.same rfl (fun _ hx => hx) trivial
  | deliver x rest lost hx =>
    obtain ⟨hauth, hinner, hpc⟩ := ConnWrites.deliverOne_conn c x rest lost
    refine h.same hauth ?_ ?_
    · rw [hinner, hx]
      exact fun _ hy => List.mem_cons_of_mem x hy
    · rw [hpc]
      exact h.pc
  | receive x rest full hpc hx =>
    have hless : SendsOwn prost conf { c with conn := { c.conn with replies := rest } } :=
      h.same rfl (fun _ hy => hy) h.pc
    have hcase := ClientTraffic.receive_cases { c with conn := { c.conn with replies := rest } } x full
    generalize receiveOne { c with conn := { c.conn with replies := rest } } x full = c' at hcase
    cases hcase with
    | refused a _ _ => exact sendsOwn_closed rfl trivial
    | accepted a _ _ => exact hless.same rfl (fun _ hy => hy) trivial
    | pong a _ => exact hless
    | dropped _ _ _ => exact hless
    | kept _ _ _ => exact hless.same rfl (fun _ hy => hy) hless.pc
  | authForwarded a hpc =>
    refine h.same rfl (fun _ hx => hx) ⟨hsub, fun r hr => by cases hr⟩
  | drawSubscribe sub todo packets hpc =>
    have hpcOwn := h.pc
    rw [hpc] at hpcOwn
    refine h.same rfl (fun _ hx => hx) ⟨fun q hq => hpcOwn.1 q (List.mem_cons_of_mem sub hq), fun r hr => ?_⟩
    rcases List.mem_append.mp hr with hr | hr
    · exact hpcOwn.2 r hr
    · rw [List.mem_singleton.mp hr]
      exact decide_eq_false (hpcOwn.1 sub List.mem_cons_self)
  | fail | stop => exact sendsOwn_closed rfl trivial
  | consume x rest hx =>
    obtain ⟨requests, consumed, heq⟩ := consumeOne_frame { c with packetProcessRx := rest } x
    rw [heq]
    exact h.same rfl (fun _ hy => hy) h.pc
  | _ => exact h.same rfl (fun _ hx => hx) h.pc

/-- What a step does to the Auth requests and the claims that one was accepted. -/
inductive TokenCase (c c' : Client) (e : ClientEvent) : Prop
  | quiet (hasks : c'.asks ≤ c.asks) (hclaims : c'.claims ≤ c.claims)
  | accepted (k : Nat) (body : Bytes) (r : SentRequest) (he : e = .answer k .success body)
    (hk : c.conn.unanswered[k]? = some r) (hauth : r.request.command = .auth)
    (hasks : c'.asks + 1 = c.asks) (hclaims : c'.claims = c.claims + 1)

theorem TokenCase.same (hasks : c'.asks = c.asks) (hclaims : c'.claims = c.claims) : TokenCase c c' e :=
  .quiet (Nat.le_of_eq hasks) (Nat.le_of_eq hclaims)

theorem asks_enqueue (c : Client) (pc : LinkPc) {x : Outgoing} (hx : x.isAuthRequest = false) :
    asks { c with pc := pc, conn := { c.conn with inner := c.conn.inner ++ [x] } } = c.asks := by
  simp [asks, hx]

theorem asks_deliver (x : Outgoing) (rest : List Outgoing) (lost : Bool) (hx : c.conn.inner = x :: rest) :
    (c.deliverOne x rest lost).asks ≤ c.asks ∧ (c.deliverOne x rest lost).claims = c.claims := by
  cases x with
  | request r =>
    have hcount : (Outgoing.request r).isAuthRequest = r.isAuth := rfl
    refine ⟨?_, rfl⟩
    cases lost with
    | true =>
      simp only [asks, deliverOne, hx, if_true, List.countP_cons]
      omega
    | false =>
      simp only [asks, deliverOne, hx, Bool.false_eq_true, if_false, List.countP_cons, List.countP_append,
        List.countP_nil, hcount]
      omega
  | push p =>
    refine ⟨?_, rfl⟩
    simp only [asks, deliverOne, hx, List.countP_cons]
    omega
  | response p =>
    refine ⟨?_, rfl⟩
    simp only [asks, deliverOne, hx, List.countP_cons]
    omega

/-- `on_connected` is called for an accepted answer and for nothing else. -/
theorem consumeOne_outcome (c : Client) (x : Incoming) : ∃ requests out,
    c.consumeOne x = { c with requests := requests, consumed := c.consumed ++ [(x, out)] } ∧
      (out = .onConnected → x.accepts = true) := by
  cases x with
  | request r => exact ⟨_, .onRequest, rfl, fun h => by cases h⟩
  | push p => exact ⟨_, .onPush, rfl, fun h => by cases h⟩
  | response a =>
    simp only [consumeOne]
    split
    next call _ => exact ⟨_, .handed call, rfl, fun h => by cases h⟩
    next =>
      split
      next hyes => exact ⟨_, .onConnected, rfl, fun _ => decide_eq_true hyes⟩
      next => exact ⟨_, .onResponse, rfl, fun h => by cases h⟩

theorem consumeOne_tokens {x : Incoming} {rest : List Incoming} (hx : c.packetProcessRx = x :: rest) :
    (consumeOne { c with packetProcessRx := rest } x).asks = c.asks ∧
      (consumeOne { c with packetProcessRx := rest } x).claims ≤ c.claims := by
  obtain ⟨requests, out, heq, hout⟩ := consumeOne_outcome { c with packetProcessRx := rest } x
  rw [heq]
  refine ⟨rfl, ?_⟩
  simp only [claims, hx, List.countP_append, List.countP_cons]
  by_cases hyes : out = .onConnected
  · rw [hout hyes, hyes]
    simp
    omega
  · simp [hyes]

theorem receiveOne_tokens {x : Incoming} {rest : List Incoming} (full : Bool) (hpc : c.pc = .idle)
    (hx : c.conn.replies = x :: rest) :
    (receiveOne { c with conn := { c.conn with replies := rest } } x full).asks ≤ c.asks ∧
      (receiveOne { c with conn := { c.conn with replies := rest } } x full).claims ≤ c.claims := by
  have hcase := ClientTraffic.receive_cases { c with conn := { c.conn with replies := rest } } x full
  generalize receiveOne { c with conn := { c.conn with replies := rest } } x full = c' at hcase
  cases hcase with
  | refused a _ _ =>
    refine ⟨Nat.zero_le _, ?_⟩
    simp only [claims, LinkPc.claims, Connection.closed, List.countP_nil]
    omega
  | accepted a ha hstatus =>
    have hyes : Incoming.accepts (.response a) = true := decide_eq_true ⟨ha, hstatus⟩
    refine ⟨Nat.le_refl _, ?_⟩
    simp only [claims, LinkPc.claims, hpc, hx, List.countP_cons, hyes, if_true]
    omega
  | pong a _ =>
    refine ⟨Nat.le_refl _, ?_⟩
    simp only [claims, hx, List.countP_cons]
    omega
  | dropped _ _ _ =>
    refine ⟨Nat.le_refl _, ?_⟩
    simp only [claims, hx, List.countP_cons]
    omega
  | kept _ _ hother =>
    have hno : x.accepts = false := by
      cases x with
      | response a => exact decide_eq_false fun hyes => hother a rfl hyes.1
      | request r => rfl
      | push p => rfl
    refine ⟨Nat.le_refl _, ?_⟩
    simp only [claims, hx, List.countP_cons, List.countP_append, List.countP_nil, hno]
    omega

theorem answer_tokens {k : Nat} {r : SentRequest} (status : ResponseStatus) (body : Bytes)
    (hk : c.conn.unanswered[k]? = some r) :
    TokenCase c { c with conn := { c.conn with
      unanswered := c.conn.unanswered.eraseIdx k
      replies := c.conn.replies ++ [.response (answerTo r status body)] } } (.answer k status body) := by
  obtain ⟨hlt, hget⟩ := List.getElem?_eq_some_iff.mp hk
  have hperm : (r :: c.conn.unanswered.eraseIdx k).Perm c.conn.unanswered :=
    hget ▸ List.getElem_cons_eraseIdx_perm hlt
  have hcount := hperm.countP_eq SentRequest.isAuth
  rw [List.countP_cons] at hcount
  by_cases hyes : r.request.command = .auth ∧ status = .success
  · obtain ⟨hauth, rfl⟩ := hyes
    have haccepts : Incoming.accepts (.response (answerTo r .success body)) = true :=
      accepts_answerTo.mpr ⟨hauth, rfl⟩
    have hask : r.isAuth = true := decide_eq_true hauth
    rw [hask, if_pos rfl] at hcount
    refine .accepted k body r rfl hk hauth ?_ ?_
    · simp only [asks]
      omega
    · simp only [claims, List.countP_append, List.countP_singleton, haccepts, if_true]
      omega
  · have haccepts : Incoming.accepts (.response (answerTo r status body)) = false :=
      Bool.eq_false_of_not_eq_true fun h => hyes (accepts_answerTo.mp h)
    refine .quiet ?_ ?_
    · simp only [asks]
      omega
    · simp only [claims, List.countP_append, List.countP_singleton, haccepts]
      simp

theorem step_tokens (h : c.SendsOwn prost conf) (hconnect : e ≠ .connect) (hs : c.step prost conf e = some c') :
    TokenCase c c' e := by
  have hpcOwn := h.pc
  cases step_cases hs with
  | connect hpc => exact absurd rfl hconnect
  | handshake r hr =>
    have hcount : (Outgoing.request r).isAuthRequest = r.isAuth := rfl
    refine .same ?_ rfl
    simp only [asks, hr, Option.toList_some, Option.toList_none, List.countP_append, List.countP_singleton,
      List.countP_nil, hcount]
    omega
  | heartbeatSent r hbeat hpc =>
    refine .same (asks_enqueue c .idle (isAuthRequest_heartbeat hbeat)) ?_
    simp only [claims, hpc, LinkPc.claims]
  | forwarded q hpc =>
    refine .same (asks_enqueue c (.registering q) (isAuthRequest_packet q)) ?_
    simp only [claims, hpc, LinkPc.claims]
  | sendSubscribe r packets hpc =>
    rw [hpc] at hpcOwn
    have hnot : (Outgoing.request r).isAuthRequest = false := hpcOwn.2 r List.mem_cons_self
    refine .same (asks_enqueue c (.subscribing [] packets) hnot) ?_
    simp only [claims, hpc, LinkPc.claims]
  | tick body hpc | take q rest hpc _ | forwardFailed q hpc | subscribed hpc | reset hpc
  | drawSubscribe sub todo packets hpc =>
    refine .same rfl ?_
    simp only [claims, hpc, LinkPc.claims]
  | register q timedOut hpc =>
    obtain ⟨requests, heq⟩ := registerOne_frame c q timedOut
    rw [heq]
    refine .same rfl ?_
    simp only [claims, hpc, LinkPc.claims]
  | deliver x rest lost hx =>
    obtain ⟨hasks, hclaims⟩ := asks_deliver x rest lost hx
    exact .quiet hasks (Nat.le_of_eq hclaims)
  | answer k r status body hk => exact answer_tokens status body hk
  | serverRequest r | serverPush p =>
    refine .same rfl ?_
    simp [claims, Incoming.accepts]
  | receive x rest full hpc hx =>
    obtain ⟨hasks, hclaims⟩ := receiveOne_tokens full hpc hx
    exact .quiet hasks hclaims
  | authForwarded a hpc =>
    refine .quiet (Nat.le_refl _) ?_
    simp only [claims, hpc, LinkPc.claims, List.countP_append, List.countP_singleton]
    split <;> omega
  | fail hcan | stop hcan =>
    refine .quiet (Nat.zero_le _) ?_
    simp only [claims, LinkPc.claims, Connection.closed, List.countP_nil]
    omega
  | consume x rest hx =>
    obtain ⟨hasks, hclaims⟩ := consumeOne_tokens hx
    exact .quiet (Nat.le_of_eq hasks) hclaims
  | _ => exact .same rfl rfl

end Client

def LinkClientConfig.authInfo (conf : LinkClientConfig) : AuthInfo := ⟨conf.username, conf.password, conf.clientName⟩

namespace ServerSide

variable {prost : Prost} {decode : DecodeAuth} {conf : LinkClientConfig} {healthy : HealthyConfig}
  {x x' : ServerSide} {e : SideEvent}

/-- What the server knows of its client is what the client is configured with: `on_auth`
was called, and is being called, with these credentials. -/
structure Knows (prost : Prost) (conf : LinkClientConfig) (x : ServerSide) : Prop where
  recvRx : ∀ p ∈ x.recvRx, p.Own prost conf
  authInfo : x.loop.isAuthOk = true ∨ (∃ r, x.loop.pc = .onAuth r) → x.loop.authInfo = conf.authInfo

theorem new_knows (prost : Prost) (conf : LinkClientConfig) (peerAddr : String) (now : Nat) :
    (new peerAddr now).Knows prost conf where
  recvRx := fun _ hp => by cases hp
  authInfo := by
    rintro (hok | ⟨r, hpc⟩)
    · cases hok
    · cases hpc

theorem leave_keeps_authInfo {l : ConnLoop} {info : AuthInfo}
    (h : l.isAuthOk = true ∨ (∃ r, l.pc = .onAuth r) → l.authInfo = info) :
    l.leave.1.isAuthOk = true ∨ (∃ r, l.leave.1.pc = .onAuth r) → l.leave.1.authInfo = info := by
  rw [ConnLoop.leave_isAuthOk, ConnLoop.leave_authInfo]
  rintro (hok | ⟨r, hpc⟩)
  · exact h (Or.inl hok)
  · unfold ConnLoop.leave at hpc
    split at hpc
    · cases hpc
    · cases hpc

/-- The credentials of the loop are those of its last Auth request. -/
theorem next_authInfo {l l' : ConnLoop} {ev : ConnEvent} {info : AuthInfo}
    (h : l.isAuthOk = true ∨ (∃ r, l.pc = .onAuth r) → l.authInfo = info)
    (hown : ∀ r now, ev = .recv (.request r) now → r.command = .auth →
      decode r.body = some ⟨some info⟩)
    (hs : l.next decode healthy ev = some l') :
    l'.isAuthOk = true ∨ (∃ r, l'.pc = .onAuth r) → l'.authInfo = info := by
  obtain ⟨out, hcase, rfl⟩ := ConnLoop.next_cases hs
  cases hcase with
  | tick | packet => exact h
  | tickLeave | exitSignal | recvClosed => exact leave_keeps_authInfo h
  | authInvalid r now =>
    have hkept : ({ l with lastPingAt := now } : ConnLoop).isAuthOk = true ∨
        (∃ q, ({ l with lastPingAt := now } : ConnLoop).pc = .onAuth q) → l.authInfo = info := h
    exact leave_keeps_authInfo hkept
  | auth r now hpc hr auth hdecode =>
    intro _
    cases hdecode.symm.trans (hown r now rfl hr)
    rfl
  | authOk r hpc => exact fun _ => h (Or.inr ⟨r, hpc⟩)
  | _ =>
    rintro (hok | ⟨r, hpc⟩)
    · exact h (Or.inl hok)
    · cases hpc

theorem step_knows (hdecode : decode (authBody prost conf) = some ⟨some conf.authInfo⟩) (h : x.Knows prost conf)
    (hs : x.step decode healthy e = some x') : x'.Knows prost conf := by
  cases step_cases hs with
  | take now p rest l hrx hl =>
    refine ⟨fun q hq => h.recvRx q (hrx ▸ List.mem_cons_of_mem p hq), next_authInfo h.authInfo ?_ hl⟩
    intro r now' hev hauth
    cases p with
    | request sent =>
      cases hev
      have hown := h.recvRx (.request sent) (hrx ▸ List.mem_cons_self)
      rw [hown (decide_eq_true hauth)]
      exact hdecode
    | push p => cases hev
    | response p => cases hev
  | loop ev l he hl =>
    refine ⟨h.recvRx, next_authInfo h.authInfo ?_ hl⟩
    rintro r now rfl _
    exact absurd rfl (he (.request r) now)

theorem answer_knows {r : SentRequest} {status : ResponseStatus} (h : x.Knows prost conf)
    (hs : x.answer r status = some x') : x'.Knows prost conf := by
  simp only [answer, Option.ite_none_right_eq_some, Option.some.injEq] at hs
  obtain ⟨_, rfl⟩ := hs
  split
  next => exact ⟨h.recvRx, h.authInfo⟩
  next => exact h

/-- On a connection where the client was accepted it was accepted as what it is configured
to be. -/
theorem Knows.authInfo_of_accepting (h : x.Knows prost conf) (hsound : x.Sound) (haccept : x.accepting = true) :
    x.loop.authInfo = conf.authInfo := by
  refine h.authInfo ?_
  rcases accepting_iff.mp haccept with hok | hpromised
  · exact Or.inl hok
  · exact hsound.promised hpromised

end ServerSide

namespace AuthExchange

variable {prost : Prost} {decode : DecodeAuth} {conf : LinkClientConfig} {healthy : HealthyConfig}
  {s s' : AuthExchange} {e : ExchangeEvent}

/-- The connections on which the client was accepted. -/
def acceptings (xs : List ServerSide) : Nat := xs.countP ServerSide.accepting

/-- Each Auth request that is still open may lead to one more call of `on_connected`, and
only the current connection has one. -/
structure Counted (prost : Prost) (conf : LinkClientConfig) (s : AuthExchange) : Prop where
  sends : s.client.SendsOwn prost conf
  knows : ∀ x ∈ s.sides, x.Knows prost conf
  asked : s.client.asks + s.client.claims ≤ acceptings s.earlier + 1
  claimed : s.client.claims ≤ acceptings s.sides

theorem new_counted (prost : Prost) (conf : LinkClientConfig) : new.Counted prost conf where
  sends := Client.new_sendsOwn prost conf
  knows := fun _ hx => by cases hx
  asked := Nat.zero_le _
  claimed := Nat.le_refl _

theorem acceptings_sides (s : AuthExchange) :
    acceptings s.sides = acceptings s.earlier + acceptings s.conn.toList :=
  List.countP_append

theorem acceptings_set {xs : List ServerSide} {c : Nat} {x x' : ServerSide} (hx : xs[c]? = some x)
    (h : x.accepting = true → x'.accepting = true) : acceptings xs ≤ acceptings (xs.set c x') := by
  obtain ⟨hlt, hget⟩ := List.getElem?_eq_some_iff.mp hx
  have hle : (if xs[c].accepting = true then 1 else 0) ≤ acceptings xs :=
    List.boole_getElem_le_countP hlt
  rw [acceptings, acceptings, List.countP_set hlt]
  rw [hget] at hle ⊢
  by_cases hyes : x.accepting = true
  · rw [if_pos hyes, if_pos (h hyes)]
    omega
  · rw [if_neg hyes]
    omega

theorem ServedCase.ne_connect {e : ClientEvent} {conn : Option ServerSide} (h : ServedCase s e conn) :
    e ≠ .connect := by
  cases h with
  | same _ hconnect _ => exact hconnect
  | deliver lost _ => exact fun he => by cases he
  | answer k status body _ _ _ _ _ _ => exact fun he => by cases he

theorem ServedCase.acceptings_le {e : ClientEvent} {conn : Option ServerSide} (h : ServedCase s e conn) :
    acceptings s.conn.toList ≤ acceptings conn.toList := by
  cases h with
  | same _ _ _ => exact Nat.le_refl _
  | deliver lost _ =>
    cases hconn : s.conn with
    | none => exact Nat.le_refl _
    | some x => exact Nat.le_of_eq rfl
  | answer k status body r x x' _ hx hanswer =>
    rw [hx]
    have hkeeps : acceptings [x] ≤ acceptings ([x].set 0 x') :=
      acceptings_set rfl (ServerSide.answer_accepting hanswer).1
    exact hkeeps

theorem served_knows {e : ClientEvent} {conn : Option ServerSide} (h : s.Counted prost conf)
    (hconn : ServedCase s e conn) :
    ∀ x, conn = some x → x.Knows prost conf := by
  have hcurrent : ∀ x, s.conn = some x → x.Knows prost conf := fun x hx => h.knows x (mem_sides.mpr (Or.inr hx))
  cases hconn with
  | same _ _ _ => exact hcurrent
  | deliver lost _ =>
    intro x' hx'
    obtain ⟨x, hx, rfl⟩ := Option.map_eq_some_iff.mp hx'
    refine ⟨fun p hp => ?_, (hcurrent x hx).authInfo⟩
    rcases List.mem_append.mp hp with hp | hp
    · exact (hcurrent x hx).recvRx p hp
    · refine h.sends.inner p ?_
      split at hp
      · cases hp
      · exact List.mem_of_mem_take hp
  | answer k status body r x x' _ hx hanswer =>
    intro y hy
    cases hy
    exact ServerSide.answer_knows (hcurrent x hx) hanswer

theorem connect_tokens {c c' : Client} (hc : c.step prost conf .connect = some c') :
    c'.asks = 1 ∧ c'.claims ≤ c.claims := by
  cases Client.step_cases hc with
  | connect hpc =>
    refine ⟨rfl, ?_⟩
    simp only [Client.claims, LinkPc.claims, List.countP_nil]
    omega

theorem step_counted (hdecode : decode (authBody prost conf) = some ⟨some conf.authInfo⟩)
    (hsub : ∀ sub ∈ conf.subscribes, sub.cmd ≠ .auth) (h : s.Counted prost conf)
    (hs : s.step prost decode conf healthy e = some s') : s'.Counted prost conf := by
  have hasked := h.asked
  have hclaimed := h.claimed
  have hsides := acceptings_sides s
  cases step_cases hs with
  | connect peerAddr now client hc =>
    obtain ⟨hasks, hclaims⟩ := connect_tokens hc
    have hmore := acceptings_sides ⟨client, some (.new peerAddr now), s.sides⟩
    refine ⟨Client.step_sendsOwn hsub h.sends hc, fun x hx => ?_, ?_, ?_⟩
    · rcases mem_sides.mp hx with hx | hx
      · exact h.knows x hx
      · cases hx
        exact ServerSide.new_knows prost conf peerAddr now
    · dsimp only
      omega
    · dsimp only at hmore ⊢
      omega
  | client e client conn hconn hc =>
    have hmono := hconn.acceptings_le
    have hafter := acceptings_sides { s with client := client, conn := conn }
    dsimp only at hafter
    refine ⟨Client.step_sendsOwn hsub h.sends hc, forall_sides_of_conn h.knows (served_knows h hconn), ?_, ?_⟩
    · cases Client.step_tokens h.sends hconn.ne_connect hc with
      | quiet hasks hclaims =>
        dsimp only
        omega
      | accepted k body r _ _ _ hasks hclaims =>
        dsimp only
        omega
    · cases Client.step_tokens h.sends hconn.ne_connect hc with
      | quiet hasks hclaims =>
        dsimp only
        omega
      | accepted k body r he hk hauth hasks hclaims =>
        subst he
        cases hconn with
        | same _ _ hother => exact absurd rfl (hother k .success body)
        | answer _ _ _ r' x x' hr' _ hanswer =>
          cases hr'.symm.trans hk
          have haccept := (ServerSide.answer_accepting hanswer).2 hauth rfl
          have hone : acceptings [x'] = 1 := by rw [acceptings, List.countP_singleton, haccept, if_pos rfl]
          rw [Option.toList_some, hone] at hafter
          dsimp only
          omega
  | server e x x' hx hstep =>
    have hknows := ServerSide.step_knows hdecode (h.knows x (mem_sides.mpr (Or.inr hx))) hstep
    have hmono : acceptings [x] ≤ acceptings ([x].set 0 x') :=
      acceptings_set rfl fun hyes => ServerSide.step_accepting hyes hstep
    rw [List.set_cons_zero] at hmono
    have hafter := acceptings_sides { s with conn := some x' }
    rw [hx, Option.toList_some] at hsides
    rw [Option.toList_some] at hafter
    refine ⟨h.sends, forall_sides_of_conn h.knows (fun y hy => by cases hy; exact hknows), hasked, ?_⟩
    dsimp only at hafter ⊢
    omega
  | earlier c e x x' hx hstep =>
    have hmem : x ∈ s.sides := mem_sides.mpr (Or.inl (List.mem_of_getElem? hx))
    have hmono := acceptings_set hx fun hyes => ServerSide.step_accepting hyes hstep
    have hafter := acceptings_sides { s with earlier := s.earlier.set c x' }
    dsimp only at hafter
    refine ⟨h.sends, forall_sides_of_set h.knows (ServerSide.step_knows hdecode (h.knows x hmem) hstep), ?_, ?_⟩
    · dsimp only
      omega
    · dsimp only
      omega

end AuthExchange

end QuoteLink

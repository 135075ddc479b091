import QuoteLink.ClientTraffic
import QuoteLink.ControlMessages

namespace QuoteLink

/-- The packet as the server reads it. -/
def Outgoing.toPacket : Outgoing → Packet
  | .request r => .request r.request
  | .push p => .push p
  | .response r => .response r

/-- A subscription that the link task sends on its own. -/
def Outgoing.isSubscription : Outgoing → Bool
  | .request (.subscribe _) => true
  | _ => false

/-- The answer that an Auth request was accepted. -/
def Incoming.accepts : Incoming → Bool
  | .response a => decide (a.response.command = .auth ∧ a.response.status = .success)
  | _ => false

/-- A connection on the server's side: its main process loop, the packets on their
way to it, whether the handler has answered an Auth request with success, and the
packets the loop took with its `is_auth_ok` at the time. -/
structure ServerSide where
  loop : ConnLoop
  recvRx : List Outgoing
  promised : Bool
  taken : List (Outgoing × Bool)
  deriving DecidableEq

inductive SideEvent
  | take (now : Nat)
  | loop (e : ConnEvent)
  deriving DecidableEq

namespace ServerSide

def new (peerAddr : String) (now : Nat) : ServerSide := ⟨.new peerAddr now, [], false, []⟩

def step (decode : DecodeAuth) (conf : HealthyConfig) (x : ServerSide) : SideEvent → Option ServerSide
  | .take now =>
    match x.recvRx with
    | p :: rest =>
      (x.loop.next decode conf (.recv p.toPacket now)).map fun l =>
        { x with loop := l, recvRx := rest, taken := x.taken ++ [(p, x.loop.isAuthOk)] }
    | [] => none
  | .loop (.recv _ _) => none
  | .loop e => (x.loop.next decode conf e).map fun l => { x with loop := l }

/-- The handler answers a request that the loop took. -/
def answer (x : ServerSide) (r : SentRequest) (status : ResponseStatus) : Option ServerSide :=
  if .request r ∈ x.taken.map Prod.fst then
    some (if r.request.command = .auth ∧ status = .success then { x with promised := true } else x)
  else none

/-- The client was accepted on the connection, or was told so. -/
def accepting (x : ServerSide) : Bool := x.loop.isAuthOk || x.promised

/-- `on_auth` is true to the answer it has sent. -/
def KeepsPromise (x : ServerSide) (e : SideEvent) : Prop :=
  e = .loop (.authResult false) → x.promised = true → x.loop.isAuthOk = true

instance (x : ServerSide) (e : SideEvent) : Decidable (x.KeepsPromise e) :=
  inferInstanceAs (Decidable (_ → _ → _))

/-- The handler says that an Auth request is accepted in the call of `on_auth` about it,
or later. -/
def MayAccept (x : ServerSide) (r : SentRequest) : Prop :=
  r.request.command = .auth → x.loop.isAuthOk = true ∨ x.loop.pc = .onAuth r.request

instance (x : ServerSide) (r : SentRequest) : Decidable (x.MayAccept r) :=
  inferInstanceAs (Decidable (_ → _))

end ServerSide

/-- A client and the connections it had: the server's side of the current one, and of
the earlier ones, whose loops may still run. -/
structure AuthExchange where
  client : Client
  conn : Option ServerSide
  earlier : List ServerSide

inductive ExchangeEvent
  | connect (peerAddr : String) (now : Nat)
  | client (e : ClientEvent)
  | server (e : SideEvent)
  | earlier (c : Nat) (e : SideEvent)
  deriving DecidableEq

namespace ServerSide

variable {decode : DecodeAuth} {conf : HealthyConfig} {l l' : ConnLoop} {x x' : ServerSide} {e : SideEvent}

/-- All that a step of the server's side can be. -/
inductive StepCase (decode : DecodeAuth) (conf : HealthyConfig) (x : ServerSide) : SideEvent → ServerSide → Prop
  | take (now : Nat) (p : Outgoing) (rest : List Outgoing) (l : ConnLoop) (hrx : x.recvRx = p :: rest)
    (hl : x.loop.next decode conf (.recv p.toPacket now) = some l) :
    StepCase decode conf x (.take now) { x with loop := l, recvRx := rest, taken := x.taken ++ [(p, x.loop.isAuthOk)] }
  | loop (e : ConnEvent) (l : ConnLoop) (he : ∀ p now, e ≠ .recv p now)
    (hl : x.loop.next decode conf e = some l) : StepCase decode conf x (.loop e) { x with loop := l }

theorem step_cases (h : x.step decode conf e = some x') : StepCase decode conf x e x' := by
  cases e with
  | take now =>
    simp only [step] at h
    split at h
    next p rest hrx =>
      obtain ⟨l, hl, rfl⟩ := Option.map_eq_some_iff.mp h
      exact .take now p rest l hrx hl
    next => cases h
  | loop ev =>
    cases ev with
    | recv p now => cases h
    | _ =>
      obtain ⟨l, hl, rfl⟩ := Option.map_eq_some_iff.mp h
      exact .loop _ l (fun p now hp => by cases hp) hl

theorem next_keeps_isAuthOk {ev : ConnEvent} (hok : l.isAuthOk = true)
    (h : l.next decode conf ev = some l') : l'.isAuthOk = true := by
  obtain ⟨out, hcase, rfl⟩ := ConnLoop.next_cases h
  cases hcase with
  | tickLeave | exitSignal | recvClosed | authInvalid => rw [ConnLoop.leave_isAuthOk]; exact hok
  | authOk => rfl
  | _ => exact hok

/-- A loop that waits for `on_auth` goes on when it returns. -/
theorem next_onAuth {ev : ConnEvent} {r : Request} (hpc : l.pc = .onAuth r)
    (h : l.next decode conf ev = some l') : ev = .authResult false ∨ l'.isAuthOk = true := by
  obtain ⟨out, hcase, rfl⟩ := ConnLoop.next_cases h
  cases hcase with
  | authOk => exact Or.inr rfl
  | authRejected => exact Or.inl rfl
  | tick _ hsel | tickLeave _ hsel | exitSignal hsel | recvClosed hsel | heartbeat _ _ hsel | authInvalid _ _ hsel
  | auth _ _ hsel | packet _ _ hsel | replied _ hsel | replyFailed _ hsel | newSent _ hsel
  | authForwarded _ hsel | disconnected hsel | exitSent hsel =>
    rw [hpc] at hsel
    cases hsel

theorem next_recv_select {p : Packet} {now : Nat} (h : l.next decode conf (.recv p now) = some l') :
    l.pc = .select := by
  obtain ⟨out, hcase, _⟩ := ConnLoop.next_cases h
  cases hcase with
  | heartbeat _ _ hsel | authInvalid _ _ hsel | auth _ _ hsel | packet _ _ hsel => exact hsel

theorem accepting_iff : x.accepting = true ↔ x.loop.isAuthOk = true ∨ x.promised = true :=
  Bool.or_eq_true_iff

/-- What the handler has promised holds, or `on_auth` is about to return it; and a
subscription waits for the loop only on a connection where the client was accepted. -/
structure Sound (x : ServerSide) : Prop where
  promised : x.promised = true → x.loop.isAuthOk = true ∨ ∃ r, x.loop.pc = .onAuth r
  waiting : ∀ p ∈ x.recvRx, p.isSubscription = true → x.accepting = true
  taken : ∀ y ∈ x.taken, y.1.isSubscription = true → y.2 = true

theorem new_sound (peerAddr : String) (now : Nat) : (new peerAddr now).Sound where
  promised := fun h => by cases h
  waiting := fun _ hp => by cases hp
  taken := fun _ hy => by cases hy

theorem step_accepting (h : x.accepting = true) (hs : x.step decode conf e = some x') : x'.accepting = true := by
  rw [accepting_iff] at h ⊢
  cases step_cases hs with
  | take now p rest l hrx hl => exact h.imp (fun hok => next_keeps_isAuthOk hok hl) id
  | loop ev l he hl => exact h.imp (fun hok => next_keeps_isAuthOk hok hl) id

theorem step_sound (h : x.Sound) (hkeeps : x.KeepsPromise e) (hs : x.step decode conf e = some x') : x'.Sound := by
  have haccept : x.accepting = true → x'.accepting = true := fun hx => step_accepting hx hs
  cases step_cases hs with
  | take now p rest l hrx hl =>
    have hselect := next_recv_select hl
    have hpromised : x.promised = true → x.loop.isAuthOk = true := by
      intro hx
      rcases h.promised hx with hok | ⟨r, hpc⟩
      · exact hok
      · rw [hselect] at hpc
        cases hpc
    refine ⟨fun hx => Or.inl (next_keeps_isAuthOk (hpromised hx) hl), fun q hq hsub => ?_, fun y hy hsub => ?_⟩
    · exact haccept (h.waiting q (hrx ▸ List.mem_cons_of_mem p hq) hsub)
    · rcases List.mem_append.mp hy with hy | hy
      · exact h.taken y hy hsub
      · cases List.mem_singleton.mp hy
        have hmem : p ∈ x.recvRx := hrx ▸ List.mem_cons_self
        exact (accepting_iff.mp (h.waiting p hmem hsub)).elim id hpromised
  | loop ev l he hl =>
    refine ⟨fun hx => ?_, fun q hq hsub => haccept (h.waiting q hq hsub), h.taken⟩
    rcases h.promised hx with hok | ⟨r, hpc⟩
    · exact Or.inl (next_keeps_isAuthOk hok hl)
    · rcases next_onAuth hpc hl with rfl | hok
      · exact Or.inl (next_keeps_isAuthOk (hkeeps rfl hx) hl)
      · exact Or.inl hok

theorem answer_accepting {r : SentRequest} {status : ResponseStatus} (h : x.answer r status = some x') :
    (x.accepting = true → x'.accepting = true) ∧
      (r.request.command = .auth → status = .success → x'.accepting = true) := by
  simp only [answer, Option.ite_none_right_eq_some, Option.some.injEq] at h
  obtain ⟨_, rfl⟩ := h
  split
  next => exact ⟨fun _ => accepting_iff.mpr (Or.inr rfl), fun _ _ => accepting_iff.mpr (Or.inr rfl)⟩
  next hother => exact ⟨id, fun hauth hstatus => absurd ⟨hauth, hstatus⟩ hother⟩

theorem answer_sound {r : SentRequest} {status : ResponseStatus} (h : x.Sound)
    (hmay : status = .success → x.MayAccept r) (hs : x.answer r status = some x') : x'.Sound := by
  have haccept := (answer_accepting hs).1
  simp only [answer, Option.ite_none_right_eq_some, Option.some.injEq] at hs
  obtain ⟨_, rfl⟩ := hs
  split at haccept
  next hyes =>
    rw [if_pos hyes]
    refine ⟨fun _ => ?_, fun p hp hsub => haccept (h.waiting p hp hsub), h.taken⟩
    exact (hmay hyes.2 hyes.1).imp id fun hpc => ⟨_, hpc⟩
  next hother =>
    rw [if_neg hother]
    exact h

/-- What arrives may be a subscription where the client was accepted. -/
theorem Sound.arrive (h : x.Sound) {ps : List Outgoing}
    (hps : ∀ p ∈ ps, p.isSubscription = true → x.accepting = true) :
    Sound { x with recvRx := x.recvRx ++ ps } := by
  refine ⟨h.promised, fun p hp hsub => ?_, h.taken⟩
  rcases List.mem_append.mp hp with hp | hp
  · exact h.waiting p hp hsub
  · exact hps p hp hsub

end ServerSide

namespace Client

variable {prost : Prost} {conf : LinkClientConfig} {c c' : Client} {e : ClientEvent} {accepted : Prop}

/-- What only an accepted Auth request leads to on the current connection: its answer,
the subscriptions, and where the link task stands. -/
structure Trusts (c : Client) (accepted : Prop) : Prop where
  auth : ∀ r, c.conn.auth = some r → Outgoing.isSubscription (.request r) = false
  replies : ∀ x ∈ c.conn.replies, x.accepts = true → accepted
  pc : c.pc.answered = true → accepted
  inner : ∀ x ∈ c.conn.inner, x.isSubscription = true → accepted

theorem new_trusts : new.Trusts accepted where
  auth := fun r hr => by cases hr
  replies := fun _ hx => by cases hx
  pc := fun h => by cases h
  inner := fun _ hx => by cases hx

theorem Trusts.mono {more : Prop} (h : c.Trusts accepted) (himp : accepted → more) : c.Trusts more :=
  ⟨h.auth, fun x hx ha => himp (h.replies x hx ha), fun ha => himp (h.pc ha), fun x hx ha => himp (h.inner x hx ha)⟩

theorem Trusts.of_le (h : c.Trusts accepted) (hauth : c'.conn.auth = c.conn.auth)
    (hreplies : ∀ x ∈ c'.conn.replies, x ∈ c.conn.replies)
    (hpc : c'.pc.answered = true → c.pc.answered = true)
    (hinner : ∀ x ∈ c'.conn.inner, x ∈ c.conn.inner) : c'.Trusts accepted := by
  refine ⟨?_, fun x hx ha => h.replies x (hreplies x hx) ha, fun ha => h.pc (hpc ha),
    fun x hx ha => h.inner x (hinner x hx) ha⟩
  rw [hauth]
  exact h.auth

theorem Trusts.same (h : c.Trusts accepted) (hconn : c'.conn = c.conn)
    (hpc : c'.pc.answered = true → c.pc.answered = true) : c'.Trusts accepted := by
  refine h.of_le (by rw [hconn]) ?_ hpc ?_
  · rw [hconn]
    exact fun _ hx => hx
  · rw [hconn]
    exact fun _ hx => hx

theorem trusts_closed (hconn : c.conn = .closed) (hpc : c.pc.answered = false) : c.Trusts accepted := by
  refine ⟨?_, ?_, fun ha => ?_, ?_⟩
  · rw [hconn]
    exact fun r hr => by cases hr
  · rw [hconn]
    exact fun _ hx => by cases hx
  · rw [hpc] at ha
    cases ha
  · rw [hconn]
    exact fun _ hx => by cases hx

theorem Trusts.enqueue (h : c.Trusts accepted) {x : Outgoing} {pc : LinkPc} {auth : Option SentRequest}
    (hauth : ∀ r, auth = some r → Outgoing.isSubscription (.request r) = false)
    (hx : x.isSubscription = true → accepted) (hpc : pc.answered = true → accepted) :
    Trusts { c with
      pc := pc
      conn := { c.conn with auth := auth, inner := c.conn.inner ++ [x] } } accepted := by
  refine ⟨hauth, h.replies, hpc, fun y hy ha => ?_⟩
  rcases List.mem_append.mp hy with hy | hy
  · exact h.inner y hy ha
  · cases List.mem_singleton.mp hy
    exact hx ha

theorem Trusts.reply (h : c.Trusts accepted) {x : Incoming} (unanswered : List SentRequest)
    (hx : x.accepts = true → accepted) :
    Trusts { c with
      conn := { c.conn with unanswered := unanswered, replies := c.conn.replies ++ [x] } } accepted := by
  refine ⟨h.auth, fun y hy ha => ?_, h.pc, h.inner⟩
  rcases List.mem_append.mp hy with hy | hy
  · exact h.replies y hy ha
  · cases List.mem_singleton.mp hy
    exact hx ha

theorem isSubscription_packet (q : Queued) : q.packet.isSubscription = false := by
  cases q <;> rfl

theorem accepts_answerTo {r : SentRequest} {status : ResponseStatus} {body : Bytes} :
    Incoming.accepts (.response (answerTo r status body)) = true ↔ r.request.command = .auth ∧ status = .success :=
  decide_eq_true_iff

/-- A step of the client's, where the server says that it accepts only if it did. -/
theorem step_trusts (h : c.Trusts accepted)
    (hanswer : ∀ k body, e = .answer k .success body → ∀ r ∈ c.conn.unanswered[k]?, r.request.command = .auth →
      accepted)
    (hs : c.step prost conf e = some c') : c'.Trusts accepted := by
  cases step_cases hs with
  | connect hpc =>
    refine ⟨fun r hr => ?_, (fun _ hx => by cases hx), (fun ha => by cases ha), fun _ hx => by cases hx⟩
    cases hr
    rfl
  | handshake r hr =>
    refine h.enqueue (fun r hr => by cases hr) (fun hx => ?_) h.pc
    rw [h.auth r hr] at hx
    cases hx
  | heartbeatSent r hbeat hpc => exact h.enqueue h.auth (fun hx => by cases hx) (fun ha => by cases ha)
  | forwarded q hpc =>
    refine h.enqueue h.auth (fun hx => ?_) (fun ha => by cases ha)
    rw [isSubscription_packet] at hx
    cases hx
  | sendSubscribe r packets hpc =>
    have hyes : accepted := h.pc (by rw [hpc]; rfl)
    exact h.enqueue h.auth (fun _ => hyes) (fun _ => hyes)
  | tick | take | forwardFailed | subscribed | reset => exact h.same rfl (fun ha => by cases ha)
  | register q timedOut hpc =>
    obtain ⟨requests, heq⟩ := registerOne_frame c q timedOut
    rw [heq]
    exact h.same rfl (fun ha => by cases ha)
  | deliver x rest lost hx =>
    obtain ⟨hauth, hinner, hpc⟩ := ConnWrites.deliverOne_conn c x rest lost
    have hreplies : (c.deliverOne x rest lost).conn.replies = c.conn.replies := by
      unfold deliverOne
      split <;> rfl
    refine h.of_le hauth ?_ (by rw [hpc]; exact id) ?_
    · rw [hreplies]
      exact fun _ hy => hy
    · rw [hinner, hx]
      exact fun _ hy => List.mem_cons_of_mem x hy
  | answer k r status body hk =>
    refine h.reply _ fun ha => ?_
    obtain ⟨hauth, rfl⟩ := accepts_answerTo.mp ha
    exact hanswer k body rfl r hk hauth
  | serverRequest r => exact h.reply c.conn.unanswered (fun ha => by cases ha)
  | serverPush p => exact h.reply c.conn.unanswered (fun ha => by cases ha)
  | receive x rest full hpc hx =>
    have hless : Trusts { c with conn := { c.conn with replies := rest } } accepted :=
      h.of_le rfl (fun y hy => hx ▸ List.mem_cons_of_mem x hy) id fun _ hy => hy
    have hcase := ClientTraffic.receive_cases { c with conn := { c.conn with replies := rest } } x full
    generalize receiveOne { c with conn := { c.conn with replies := rest } } x full = c' at hcase
    cases hcase with
    | refused a _ _ => exact trusts_closed rfl rfl
    | accepted a ha hstatus =>
      have hmem : .response a ∈ c.conn.replies := hx ▸ List.mem_cons_self
      exact ⟨hless.auth, hless.replies, fun _ => h.replies _ hmem (decide_eq_true ⟨ha, hstatus⟩), hless.inner⟩
    | pong a _ => exact hless
    | dropped _ _ _ => exact hless
    | kept _ _ _ => exact hless.same rfl id
  | authForwarded a hpc | drawSubscribe sub todo packets hpc => exact h.same rfl fun _ => by rw [hpc]; rfl
  | fail | stop => exact trusts_closed rfl rfl
  | consume x rest hx =>
    obtain ⟨requests, consumed, heq⟩ := consumeOne_frame { c with packetProcessRx := rest } x
    rw [heq]
    exact h.same rfl id
  | _ => exact h.same rfl id

end Client

namespace AuthExchange

def new : AuthExchange := ⟨.new, none, []⟩

def sides (s : AuthExchange) : List ServerSide := s.earlier ++ s.conn.toList

/-- The server's side after a step of the client's: `link_write_loop`, spawned after the
Auth packet was sent to it, delivers the packets, and the handler answers them. -/
def served (s : AuthExchange) : ClientEvent → Option (Option ServerSide)
  | .connect => none
  | .deliver lost =>
    if s.client.conn.auth = none then
      some (s.conn.map fun x =>
        { x with recvRx := x.recvRx ++ if lost then [] else s.client.conn.inner.take 1 })
    else none
  | .answer k status _ =>
    s.client.conn.unanswered[k]?.bind fun r => s.conn.bind fun x => (x.answer r status).map some
  | _ => some s.conn

def step (prost : Prost) (decode : DecodeAuth) (conf : LinkClientConfig) (healthy : HealthyConfig)
    (s : AuthExchange) :
    ExchangeEvent → Option AuthExchange
  | .connect peerAddr now =>
    (s.client.step prost conf .connect).map fun client => ⟨client, some (.new peerAddr now), s.sides⟩
  | .client e =>
    (s.served e).bind fun conn =>
      (s.client.step prost conf e).map fun client => { s with client := client, conn := conn }
  | .server e => s.conn.bind fun x => (x.step decode healthy e).map fun x' => { s with conn := some x' }
  | .earlier c e =>
    s.earlier[c]?.bind fun x => (x.step decode healthy e).map fun x' => { s with earlier := s.earlier.set c x' }

/-- The handler of the server does what it tells the client. -/
def Honest (s : AuthExchange) : ExchangeEvent → Prop
  | .client (.answer k status _) =>
    status = .success → ∀ r ∈ s.client.conn.unanswered[k]?, ∀ x ∈ s.conn, x.MayAccept r
  | .server e => ∀ x ∈ s.conn, x.KeepsPromise e
  | .earlier c e => ∀ x ∈ s.earlier[c]?, x.KeepsPromise e
  | _ => True

instance (s : AuthExchange) (e : ExchangeEvent) : Decidable (s.Honest e) := by
  unfold Honest
  split <;> infer_instance

variable {prost : Prost} {decode : DecodeAuth} {conf : LinkClientConfig} {healthy : HealthyConfig}
  {s s' : AuthExchange} {e : ExchangeEvent}

/-- What becomes of the server's side when the client takes a step. -/
inductive ServedCase (s : AuthExchange) : ClientEvent → Option ServerSide → Prop
  | same (e : ClientEvent) (hconnect : e ≠ .connect) (hanswer : ∀ k status body, e ≠ .answer k status body) :
    ServedCase s e s.conn
  | deliver (lost : Bool) (hauth : s.client.conn.auth = none) :
    ServedCase s (.deliver lost) (s.conn.map fun x =>
      { x with recvRx := x.recvRx ++ if lost then [] else s.client.conn.inner.take 1 })
  | answer (k : Nat) (status : ResponseStatus) (body : Bytes) (r : SentRequest) (x x' : ServerSide)
    (hr : s.client.conn.unanswered[k]? = some r) (hx : s.conn = some x) (hanswer : x.answer r status = some x') :
    ServedCase s (.answer k status body) (some x')

theorem served_cases {e : ClientEvent} {conn : Option ServerSide} (h : s.served e = some conn) :
    ServedCase s e conn := by
  cases e with
  | connect => cases h
  | deliver lost =>
    simp only [served, Option.ite_none_right_eq_some, Option.some.injEq] at h
    obtain ⟨hauth, rfl⟩ := h
    exact .deliver lost hauth
  | answer k status body =>
    obtain ⟨r, hr, hrest⟩ := Option.bind_eq_some_iff.mp h
    obtain ⟨x, hx, hanswer⟩ := Option.bind_eq_some_iff.mp hrest
    obtain ⟨x', hx', rfl⟩ := Option.map_eq_some_iff.mp hanswer
    exact .answer k status body r x x' hr hx hx'
  | _ =>
    cases h
    exact .same _ (fun he => by cases he) (fun k status body he => by cases he)

/-- All that a step of the exchange can be. -/
inductive StepCase (prost : Prost) (decode : DecodeAuth) (conf : LinkClientConfig) (healthy : HealthyConfig)
    (s : AuthExchange) :
    ExchangeEvent → AuthExchange → Prop
  | connect (peerAddr : String) (now : Nat) (client : Client)
    (hc : s.client.step prost conf .connect = some client) :
    StepCase prost decode conf healthy s (.connect peerAddr now) ⟨client, some (.new peerAddr now), s.sides⟩
  | client (e : ClientEvent) (client : Client) (conn : Option ServerSide) (hconn : ServedCase s e conn)
    (hc : s.client.step prost conf e = some client) :
    StepCase prost decode conf healthy s (.client e) { s with client := client, conn := conn }
  | server (e : SideEvent) (x x' : ServerSide) (hx : s.conn = some x) (hs : x.step decode healthy e = some x') :
    StepCase prost decode conf healthy s (.server e) { s with conn := some x' }
  | earlier (c : Nat) (e : SideEvent) (x x' : ServerSide) (hx : s.earlier[c]? = some x)
    (hs : x.step decode healthy e = some x') :
    StepCase prost decode conf healthy s (.earlier c e) { s with earlier := s.earlier.set c x' }

theorem step_cases (h : s.step prost decode conf healthy e = some s') : StepCase prost decode conf healthy s e s' := by
  cases e with
  | connect peerAddr now =>
    obtain ⟨client, hc, rfl⟩ := Option.map_eq_some_iff.mp h
    exact .connect peerAddr now client hc
  | client e =>
    obtain ⟨conn, hconn, hrest⟩ := Option.bind_eq_some_iff.mp h
    obtain ⟨client, hc, rfl⟩ := Option.map_eq_some_iff.mp hrest
    exact .client e client conn (served_cases hconn) hc
  | server e =>
    obtain ⟨x, hx, hrest⟩ := Option.bind_eq_some_iff.mp h
    obtain ⟨x', hs, rfl⟩ := Option.map_eq_some_iff.mp hrest
    exact .server e x x' hx hs
  | earlier c e =>
    obtain ⟨x, hx, hrest⟩ := Option.bind_eq_some_iff.mp h
    obtain ⟨x', hs, rfl⟩ := Option.map_eq_some_iff.mp hrest
    exact .earlier c e x x' hx hs

theorem mem_sides {x : ServerSide} : x ∈ s.sides ↔ x ∈ s.earlier ∨ s.conn = some x := by
  rw [sides, List.mem_append, Option.mem_toList]

/-- The client was accepted on the current connection, or was told so. -/
def Accepted (s : AuthExchange) : Prop := ∃ x, s.conn = some x ∧ x.accepting = true

/-- The two sides agree on who was accepted. -/
structure Agreed (s : AuthExchange) : Prop where
  sides : ∀ x ∈ s.sides, x.Sound
  client : s.client.Trusts s.Accepted

theorem new_agreed : new.Agreed where
  sides := fun _ hx => by cases hx
  client := Client.new_trusts

/-- One side in the place of another. -/
theorem forall_sides_of_conn {P : ServerSide → Prop} {client : Client} {conn : Option ServerSide}
    (h : ∀ x ∈ s.sides, P x) (hconn : ∀ x, conn = some x → P x) :
    ∀ x ∈ AuthExchange.sides { s with client := client, conn := conn }, P x := by
  intro x hx
  rcases mem_sides.mp hx with hx | hx
  · exact h x (mem_sides.mpr (Or.inl hx))
  · exact hconn x hx

theorem forall_sides_of_set {P : ServerSide → Prop} {c : Nat} {x' : ServerSide} (h : ∀ x ∈ s.sides, P x)
    (hx' : P x') : ∀ x ∈ AuthExchange.sides { s with earlier := s.earlier.set c x' }, P x := by
  intro x hx
  rcases mem_sides.mp hx with hx | hx
  · rcases List.mem_or_eq_of_mem_set hx with hx | rfl
    · exact h x (mem_sides.mpr (Or.inl hx))
    · exact hx'
  · exact h x (mem_sides.mpr (Or.inr hx))

theorem served_agreed {e : ClientEvent} {conn : Option ServerSide} (h : s.Agreed) (hhonest : s.Honest (.client e))
    (hconn : ServedCase s e conn) :
    (∀ x, conn = some x → x.Sound) ∧ (s.Accepted → ∃ x, conn = some x ∧ x.accepting = true) := by
  have hcurrent : ∀ x, s.conn = some x → x.Sound := fun x hx => h.sides x (mem_sides.mpr (Or.inr hx))
  cases hconn with
  | same e _ _ => exact ⟨hcurrent, id⟩
  | deliver lost hauth =>
    constructor
    · intro x' hx'
      obtain ⟨x, hx, rfl⟩ := Option.map_eq_some_iff.mp hx'
      refine (hcurrent x hx).arrive fun p hp hsub => ?_
      have hmem : p ∈ s.client.conn.inner := by
        split at hp
        · cases hp
        · exact List.mem_of_mem_take hp
      obtain ⟨y, hy, haccept⟩ := h.client.inner p hmem hsub
      cases hx.symm.trans hy
      exact haccept
    · rintro ⟨x, hx, haccept⟩
      refine ⟨_, congrArg (Option.map _) hx, ?_⟩
      exact haccept
  | answer k status body r x x' hr hx hanswer =>
    constructor
    · rintro y hy
      cases hy
      exact ServerSide.answer_sound (hcurrent x hx) (fun hstatus => hhonest hstatus r hr x hx) hanswer
    · rintro ⟨y, hy, haccept⟩
      cases hx.symm.trans hy
      exact ⟨x', rfl, (ServerSide.answer_accepting hanswer).1 haccept⟩

theorem step_agreed (h : s.Agreed) (hhonest : s.Honest e) (hs : s.step prost decode conf healthy e = some s') :
    s'.Agreed := by
  cases step_cases hs with
  | connect peerAddr now client hc =>
    constructor
    · intro x hx
      rcases mem_sides.mp hx with hx | hx
      · exact h.sides x hx
      · cases hx
        exact ServerSide.new_sound peerAddr now
    · cases Client.step_cases hc with
      | connect hpc =>
        refine ⟨fun r hr => ?_, (fun _ hx => by cases hx), (fun ha => by cases ha), fun _ hx => by cases hx⟩
        cases hr
        rfl
  | client e client conn hconn hc =>
    obtain ⟨hsound, haccept⟩ := served_agreed h hhonest hconn
    refine ⟨forall_sides_of_conn h.sides hsound, ?_⟩
    refine Client.step_trusts (h.client.mono haccept) ?_ hc
    rintro k body rfl r hr hauth
    cases hconn with
    | same _ _ hother => exact absurd rfl (hother k .success body)
    | answer _ _ _ r' x x' hr' hx hanswer =>
      cases hr'.symm.trans hr
      exact ⟨x', rfl, (ServerSide.answer_accepting hanswer).2 hauth rfl⟩
  | server e x x' hx hstep =>
    have hsound : x'.Sound :=
      ServerSide.step_sound (h.sides x (mem_sides.mpr (Or.inr hx))) (hhonest x hx) hstep
    refine ⟨forall_sides_of_conn h.sides (fun y hy => by cases hy; exact hsound), h.client.mono ?_⟩
    rintro ⟨y, hy, haccept⟩
    cases hx.symm.trans hy
    exact ⟨x', rfl, ServerSide.step_accepting haccept hstep⟩
  | earlier c e x x' hx hstep =>
    have hmem : x ∈ s.sides := mem_sides.mpr (Or.inl (List.mem_of_getElem? hx))
    exact ⟨forall_sides_of_set h.sides (ServerSide.step_sound (h.sides x hmem) (hhonest x hx) hstep), h.client⟩

/-- Whatever the order of steps on the two sides and over how many connections, the loop
of a connection takes a subscription of the link task only after its client was accepted:
by then `is_auth_ok` is set. -/
theorem subscriptions_after_auth (prost : Prost) (decode : DecodeAuth) (conf : LinkClientConfig)
    (healthy : HealthyConfig) (events : List ExchangeEvent) (s : AuthExchange)
    (hhonest : Machine.Meets (step prost decode conf healthy) Honest new events)
    (hrun : Machine.run (step prost decode conf healthy) new events = some s) :
    ∀ x ∈ s.sides, ∀ y ∈ x.taken, y.1.isSubscription = true → y.2 = true := by
  have hstep : ∀ (s : AuthExchange) e s', s.Agreed → s.Honest e → s.step prost decode conf healthy e = some s' →
      s'.Agreed :=
    fun _ _ _ h hh hs => step_agreed h hh hs
  have hagreed : s.Agreed := Machine.run_invariant_of_meets hstep new_agreed hhonest hrun
  exact fun x hx => (hagreed.sides x hx).taken

/-- A client that subscribes to the trades. -/
def exchangeConfig : LinkClientConfig := ⟨"u", "p", "c", [⟨.cmdSubTrades, true, 0⟩]⟩

/-- The client is accepted and its subscription taken; it reconnects while the loop of
the first connection still runs, and is refused. -/
def exchangeRun : List ExchangeEvent :=
  [.connect "10.0.0.7:4001" 0, .client .handshake, .client (.deliver false), .server (.take 1),
    .client (.answer 0 .success []), .server (.loop (.authResult true)), .client (.receive false),
    .client .authForwarded, .client .drawSubscribe, .client .sendSubscribe, .client .sendSubscribe,
    .client (.deliver false), .client .consume, .server (.loop .newSent), .server (.loop .authForwarded),
    .server (.take 2), .client .fail, .client .reset, .connect "10.0.0.7:4002" 5, .earlier 0 (.loop .recvClosed),
    .client .handshake, .client (.deliver false), .server (.take 6), .server (.loop (.authResult false))]

theorem subscriptions_after_auth_reconnecting :
    ∃ s, Machine.run (step controlProst decodeAuthRequest exchangeConfig ⟨30, 10, 3⟩) new exchangeRun = some s ∧
      s.sides.map (fun x => x.taken.map (·.1.isSubscription)) = [[false, true], [false]] ∧
      ∀ x ∈ s.sides, ∀ y ∈ x.taken, y.1.isSubscription = true → y.2 = true := by
  have htaken : (Machine.run (step controlProst decodeAuthRequest exchangeConfig ⟨30, 10, 3⟩) new exchangeRun).map
      (fun s => s.sides.map fun x => x.taken.map (·.1.isSubscription)) = some [[false, true], [false]] := by
    decide +kernel
  obtain ⟨s, hrun, hs⟩ := Option.map_eq_some_iff.mp htaken
  have hhonest : Machine.Meets (step controlProst decodeAuthRequest exchangeConfig ⟨30, 10, 3⟩) Honest new
      exchangeRun := by decide +kernel
  exact ⟨s, hrun, hs,
    subscriptions_after_auth controlProst decodeAuthRequest exchangeConfig ⟨30, 10, 3⟩ exchangeRun s hhonest hrun⟩

end AuthExchange

end QuoteLink

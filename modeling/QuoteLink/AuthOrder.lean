import QuoteLink.Precedes
import QuoteLink.ResponseRouting

namespace QuoteLink

/-- The request that the transport sends first. -/
def Outgoing.IsAuth : Outgoing → Prop
  | .request (.auth _ _) => True
  | _ => False

def Outgoing.IsHeartbeat : Outgoing → Prop
  | .request r => r.request.command = .heartbeat
  | .push _ => False
  | .response r => r.command = .heartbeat

instance : ∀ x : Outgoing, Decidable x.IsHeartbeat
  | .request _ | .response _ => inferInstanceAs (Decidable (_ = _))
  | .push _ => isFalse not_false

/-- What the link task is about to forward from `request_rx`. -/
def LinkPc.forwards : LinkPc → Option Outgoing
  | .forwarding q => some q.packet
  | _ => none

/-- The link task has a connection. -/
def LinkPc.connected : LinkPc → Bool
  | .failed | .down | .stopped => false
  | _ => true

/-- The link task is busy with the response to the Auth request. -/
def LinkPc.answered : LinkPc → Bool
  | .authAnswer _ | .subscribing _ _ => true
  | _ => false

/-- A step of the transport on its way from the handshake to the peer. -/
def ClientEvent.isTransport : ClientEvent → Bool
  | .handshake | .deliver _ => true
  | _ => false

/-- The client with the packets that `link_write_loop` has written on the current
connection. -/
structure ConnWrites where
  client : Client
  written : List Outgoing

namespace ConnWrites

def new : ConnWrites := ⟨.new, []⟩

/-- `link_write_loop` is spawned after the Auth packet was sent to it. -/
def writes (s : ConnWrites) : ClientEvent → Option (List Outgoing)
  | .connect => some []
  | .deliver _ =>
    if s.client.conn.auth = none then some (s.written ++ s.client.conn.inner.take 1) else none
  | _ => some s.written

def step (prost : Prost) (conf : LinkClientConfig) (s : ConnWrites) (e : ClientEvent) :
    Option ConnWrites :=
  (s.writes e).bind fun written =>
    (s.client.step prost conf e).map fun client => ⟨client, written⟩

/-- All that was sent to `link_write_loop`, in order. -/
def sent (s : ConnWrites) : List Outgoing := s.written ++ s.client.conn.inner

/-- Auth precedes every packet written that is not a heartbeat. -/
def AuthFirst (s : ConnWrites) : Prop := Precedes Outgoing.IsAuth Outgoing.IsHeartbeat s.written

/-- The link task forwards no packet of the user, unless it is a heartbeat, before the
handshake is done and the transport has sent Auth. -/
def Patient (s : ConnWrites) (e : ClientEvent) : Prop :=
  e = .forwarded true → s.client.conn.auth ≠ none → ∀ x ∈ s.client.pc.forwards, x.IsHeartbeat

instance (s : ConnWrites) (e : ClientEvent) : Decidable (s.Patient e) :=
  inferInstanceAs (Decidable (_ → _ → _))

variable {prost : Prost} {conf : LinkClientConfig} {s s' : ConnWrites} {e : ClientEvent}

theorem step_iff {client : Client} {written : List Outgoing} :
    s.step prost conf e = some ⟨client, written⟩ ↔
      s.writes e = some written ∧ s.client.step prost conf e = some client := by
  simp only [step, Option.bind_eq_some_iff, Option.map_eq_some_iff, mk.injEq]
  constructor
  · rintro ⟨_, hw, _, hc, rfl, rfl⟩
    exact ⟨hw, hc⟩
  · rintro ⟨hw, hc⟩
    exact ⟨written, hw, client, hc, rfl, rfl⟩

/-- Until the transport sends Auth nothing is written, and nothing on its way is an
Auth or answers one. -/
structure Handshaking (s : ConnWrites) : Prop where
  written : s.written = []
  inner : ∀ x ∈ s.client.conn.inner, ¬x.IsAuth
  unanswered : s.client.conn.unanswered = []
  replies : ∀ a, .response a ∉ s.client.conn.replies
  pc : s.client.pc.answered = false

/-- Before Auth was sent the connection is handshaking. -/
def Early (s : ConnWrites) : Prop :=
  ∀ r, s.client.conn.auth = some r → Outgoing.IsAuth (.request r) ∧ s.Handshaking

theorem new_early : new.Early := by
  intro r hr
  cases hr

theorem Early.of_sent (hauth : s.client.conn.auth = none) : s.Early := by
  intro r hr
  rw [hauth] at hr
  cases hr

/-- Auth was sent when its response is there. -/
theorem Early.auth_eq_none (h : s.Early) (hpc : s.client.pc.answered = true) :
    s.client.conn.auth = none := by
  cases hauth : s.client.conn.auth with
  | none => rfl
  | some r =>
    have hanswered := (h r hauth).2.pc
    rw [hpc] at hanswered
    cases hanswered

theorem Early.same (h : s.Early) (hwritten : s'.written = s.written)
    (hconn : s'.client.conn = s.client.conn)
    (hpc : s.client.pc.answered = false → s'.client.pc.answered = false) : s'.Early := by
  intro r hr
  rw [hconn] at hr
  obtain ⟨hauth, hshake⟩ := h r hr
  refine ⟨hauth, ⟨hwritten.trans hshake.written, ?_, ?_, ?_, hpc hshake.pc⟩⟩
  · rw [hconn]
    exact hshake.inner
  · rw [hconn]
    exact hshake.unanswered
  · rw [hconn]
    exact hshake.replies

theorem Early.enqueue (h : s.Early) {x : Outgoing} {pc : LinkPc} (hx : ¬x.IsAuth)
    (hpc : pc.answered = false) :
    Early { s with client := { s.client with
      pc := pc
      conn := { s.client.conn with inner := s.client.conn.inner ++ [x] } } } := by
  intro r hr
  obtain ⟨hauth, hshake⟩ := h r hr
  refine ⟨hauth, ⟨hshake.written, ?_, hshake.unanswered, hshake.replies, hpc⟩⟩
  intro y hy
  rcases List.mem_append.mp hy with hold | hnew
  · exact hshake.inner y hold
  · rw [List.mem_singleton.mp hnew]
    exact hx

theorem Early.reply (h : s.Early) {replies : List Incoming}
    (hreplies : ∀ a, .response a ∈ replies → .response a ∈ s.client.conn.replies) :
    Early { s with client := { s.client with conn := { s.client.conn with replies := replies } } } := by
  intro r hr
  obtain ⟨hauth, hshake⟩ := h r hr
  refine ⟨hauth, ⟨hshake.written, hshake.inner, hshake.unanswered, ?_, hshake.pc⟩⟩
  intro a ha
  exact hshake.replies a (hreplies a ha)

theorem receiveOne_other (c : Client) {x : Incoming} (full : Bool) (hx : ∀ a, x ≠ .response a) :
    (c.receiveOne x full).conn = c.conn ∧ (c.receiveOne x full).pc = c.pc := by
  cases x with
  | response a => exact absurd rfl (hx a)
  | request r => cases full <;> exact ⟨rfl, rfl⟩
  | push p => cases full <;> exact ⟨rfl, rfl⟩

/-- A failed Auth ends the connection, and no other packet changes it. -/
theorem receiveOne_conn (c : Client) (x : Incoming) (full : Bool) :
    (c.receiveOne x full).conn = c.conn ∨
      (c.receiveOne x full).conn = .closed ∧ (c.receiveOne x full).pc = .failed := by
  unfold Client.receiveOne
  cases full <;> dsimp only <;> repeat' split
  all_goals first | exact Or.inl rfl | exact Or.inr ⟨rfl, rfl⟩

/-- What is taken from the connection before Auth was sent is no response. -/
theorem Early.receive (h : s.Early) {x : Incoming} {rest : List Incoming} (full : Bool)
    (hx : s.client.conn.replies = x :: rest) :
    Early { s with client :=
      Client.receiveOne { s.client with conn := { s.client.conn with replies := rest } } x full } := by
  cases hauth : s.client.conn.auth with
  | none =>
    rcases receiveOne_conn { s.client with conn := { s.client.conn with replies := rest } } x full
      with hconn | ⟨hconn, _⟩
    · apply Early.of_sent
      rw [hconn]
      exact hauth
    · apply Early.of_sent
      rw [hconn]
      rfl
  | some r =>
    have hreplies := (h r hauth).2.replies
    rw [hx] at hreplies
    have hother : ∀ a, x ≠ .response a := by
      rintro a rfl
      exact hreplies a List.mem_cons_self
    have hrest : ∀ a, .response a ∈ rest → .response a ∈ s.client.conn.replies := by
      intro a ha
      rw [hx]
      exact List.mem_cons_of_mem x ha
    obtain ⟨hconn, hsame⟩ := receiveOne_other
      { s.client with conn := { s.client.conn with replies := rest } } full hother
    refine (h.reply hrest).same rfl hconn ?_
    intro hanswered
    rw [hsame]
    exact hanswered

theorem deliverOne_conn (c : Client) (x : Outgoing) (rest : List Outgoing) (lost : Bool) :
    (c.deliverOne x rest lost).conn.auth = c.conn.auth ∧
      (c.deliverOne x rest lost).conn.inner = rest ∧ (c.deliverOne x rest lost).pc = c.pc := by
  unfold Client.deliverOne
  split <;> exact ⟨rfl, rfl, rfl⟩

theorem writes_deliver {lost : Bool} {written : List Outgoing}
    (h : s.writes (.deliver lost) = some written) :
    s.client.conn.auth = none ∧ written = s.written ++ s.client.conn.inner.take 1 := by
  simp only [writes, Option.ite_none_right_eq_some, Option.some.injEq] at h
  exact ⟨h.1, h.2.symm⟩

theorem packet_not_auth (q : Queued) : ¬q.packet.IsAuth := by
  cases q <;> exact not_false

theorem exists_forwarding {pc : LinkPc} {x : Outgoing} (hx : x ∈ pc.forwards) :
    ∃ q, pc = .forwarding q ∧ x = q.packet := by
  cases pc with
  | forwarding q => exact ⟨q, rfl, (Option.some.inj hx).symm⟩
  | _ => cases hx

theorem step_early (h : s.Early) (hs : s.step prost conf e = some s') : s'.Early := by
  obtain ⟨client, written⟩ := s'
  obtain ⟨hw, hc⟩ := step_iff.mp hs
  cases Client.step_cases hc with
  | connect hpc =>
    cases hw
    intro r hr
    cases hr
    exact ⟨trivial, ⟨rfl, fun _ hx => absurd hx List.not_mem_nil, rfl, fun _ => List.not_mem_nil, rfl⟩⟩
  | handshake r hr => exact Early.of_sent rfl
  | heartbeatSent r hbeat hpc =>
    cases hw
    exact h.enqueue not_false rfl
  | forwarded q hpc =>
    cases hw
    exact h.enqueue (packet_not_auth q) rfl
  | tick | take | forwardFailed | subscribed | reset =>
    cases hw
    exact h.same rfl rfl fun _ => rfl
  | register q timedOut hpc =>
    cases hw
    obtain ⟨requests, heq⟩ := Client.registerOne_frame s.client q timedOut
    rw [heq]
    exact h.same rfl rfl fun _ => rfl
  | deliver x rest lost hx =>
    obtain ⟨hauth, _⟩ := writes_deliver hw
    exact Early.of_sent ((deliverOne_conn s.client x rest lost).1.trans hauth)
  | answer k r status body hk =>
    cases hw
    intro r' hr'
    have hnone := (h r' hr').2.unanswered
    rw [hnone] at hk
    cases hk
  | serverRequest p | serverPush p =>
    cases hw
    refine h.reply ?_
    intro a ha
    simpa using ha
  | receive x rest full hpc hx =>
    cases hw
    exact h.receive full hx
  | authForwarded a hpc | drawSubscribe sub todo packets hpc | sendSubscribe r packets hpc =>
    apply Early.of_sent
    apply h.auth_eq_none
    rw [hpc]
    rfl
  | fail | stop => exact Early.of_sent rfl
  | consume x rest hx =>
    cases hw
    obtain ⟨requests, consumed, heq⟩ := Client.consumeOne_frame { s.client with packetProcessRx := rest } x
    rw [heq]
    exact h.same rfl rfl id
  | _ =>
    cases hw
    exact h.same rfl rfl id

/-- In what was sent on the connection Auth leads, and it is there after the handshake. -/
structure Led (s : ConnWrites) : Prop where
  leads : Precedes Outgoing.IsAuth Outgoing.IsHeartbeat s.sent
  auth : s.client.conn.auth = none → s.client.pc.connected = true → ∃ x ∈ s.sent, x.IsAuth

theorem new_led : new.Led := by
  refine ⟨Precedes.nil, ?_⟩
  intro _ hconnected
  cases hconnected

theorem Led.authFirst (h : s.Led) : s.AuthFirst := h.leads.front (List.prefix_append _ _)

theorem Led.same (h : s.Led) (hsent : s'.sent = s.sent)
    (hauth : s'.client.conn.auth = s.client.conn.auth)
    (hpc : s'.client.pc.connected = true → s.client.pc.connected = true) : s'.Led := by
  refine ⟨?_, ?_⟩
  · rw [hsent]
    exact h.leads
  · intro hnone hconnected
    rw [hauth] at hnone
    rw [hsent]
    exact h.auth hnone (hpc hconnected)

/-- When the connection ends, what was not written is lost. -/
theorem Led.closed (h : s.Led) (hwritten : s'.written = s.written)
    (hconn : s'.client.conn = .closed) (hpc : s'.client.pc.connected = false) : s'.Led := by
  refine ⟨?_, ?_⟩
  · rw [sent, hwritten, hconn]
    exact h.leads.front ⟨s.client.conn.inner, by rw [sent, Connection.closed, List.append_nil]⟩
  · intro _ hconnected
    rw [hpc] at hconnected
    cases hconnected

/-- Once Auth was sent, anything may follow; before, only heartbeats. -/
theorem Led.enqueue (h : s.Led) {x : Outgoing} {pc : LinkPc} (hpc : s.client.pc.connected = true)
    (hx : s.client.conn.auth = none ∨ x.IsHeartbeat) :
    Led { s with client := { s.client with
      pc := pc
      conn := { s.client.conn with inner := s.client.conn.inner ++ [x] } } } := by
  have hsent : sent { s with client := { s.client with
      pc := pc
      conn := { s.client.conn with inner := s.client.conn.inner ++ [x] } } } = s.sent ++ [x] :=
    (List.append_assoc _ _ _).symm
  refine ⟨?_, ?_⟩
  · rw [hsent]
    apply h.leads.snoc
    rcases hx with hnone | hbeat
    · exact Or.inr (Or.inr (h.auth hnone hpc))
    · exact Or.inl hbeat
  · intro hnone _
    obtain ⟨y, hy, hauth⟩ := h.auth hnone hpc
    rw [hsent]
    exact ⟨y, List.mem_append_left _ hy, hauth⟩

/-- A step that waits for Auth before it forwards keeps Auth in the lead. -/
theorem step_led (h : s.Led) (hearly : s.Early) (hp : s.Patient e)
    (hs : s.step prost conf e = some s') : s'.Led := by
  obtain ⟨client, written⟩ := s'
  obtain ⟨hw, hc⟩ := step_iff.mp hs
  cases Client.step_cases hc with
  | connect hpc =>
    cases hw
    refine ⟨Precedes.nil, ?_⟩
    intro hnone
    cases hnone
  | handshake r hr =>
    cases hw
    have hauth : Outgoing.IsAuth (.request r) := (hearly r hr).1
    have hsent : s.written ++ (s.client.conn.inner ++ [.request r]) = s.sent ++ [.request r] :=
      (List.append_assoc _ _ _).symm
    refine ⟨?_, ?_⟩
    · rw [sent, hsent]
      exact h.leads.snoc (Or.inr (Or.inl hauth))
    · intro _ _
      rw [sent, hsent]
      exact ⟨_, List.mem_append_right _ List.mem_cons_self, hauth⟩
  | heartbeatSent r hbeat hpc =>
    cases hw
    exact h.enqueue (by rw [hpc]; rfl) (Or.inr hbeat)
  | forwarded q hpc =>
    cases hw
    refine h.enqueue (by rw [hpc]; rfl) ?_
    by_cases hnone : s.client.conn.auth = none
    · exact Or.inl hnone
    · refine Or.inr (hp rfl hnone q.packet ?_)
      rw [hpc]
      rfl
  | sendSubscribe r packets hpc =>
    cases hw
    exact h.enqueue (by rw [hpc]; rfl) (Or.inl (hearly.auth_eq_none (by rw [hpc]; rfl)))
  | deliver x rest lost hx =>
    obtain ⟨hauth, rfl⟩ := writes_deliver hw
    obtain ⟨hsame, hrest, hpc⟩ := deliverOne_conn s.client x rest lost
    refine h.same ?_ hsame ?_
    · rw [sent, sent, hrest, hx, List.append_assoc]
      rfl
    · intro hconnected
      rw [← hpc]
      exact hconnected
  | receive x rest full hpc hx =>
    cases hw
    rcases receiveOne_conn { s.client with conn := { s.client.conn with replies := rest } } x full
      with hconn | ⟨hconn, hfailed⟩
    · refine h.same ?_ ?_ ?_
      · rw [sent, hconn]
        rfl
      · rw [hconn]
      · intro _
        rw [hpc]
        rfl
    · exact h.closed rfl hconn (by rw [hfailed]; rfl)
  | fail | stop =>
    cases hw
    exact h.closed rfl rfl rfl
  | reset hpc =>
    cases hw
    refine h.same rfl rfl ?_
    intro hconnected
    cases hconnected
  | tick body hpc | take q rest hpc hrx | forwardFailed q hpc | authForwarded a hpc
  | drawSubscribe sub todo packets hpc | subscribed hpc =>
    cases hw
    exact h.same rfl rfl fun _ => by rw [hpc]; rfl
  | register q timedOut hpc =>
    cases hw
    obtain ⟨requests, heq⟩ := Client.registerOne_frame s.client q timedOut
    rw [heq]
    exact h.same rfl rfl fun _ => by rw [hpc]; rfl
  | consume x rest hx =>
    cases hw
    obtain ⟨requests, consumed, heq⟩ := Client.consumeOne_frame { s.client with packetProcessRx := rest } x
    rw [heq]
    exact h.same rfl rfl id
  | _ =>
    cases hw
    exact h.same rfl rfl id

theorem step_deliver (prost : Prost) (conf : LinkClientConfig) {x : Outgoing} {rest : List Outgoing}
    (lost : Bool) (hauth : s.client.conn.auth = none) (hx : s.client.conn.inner = x :: rest) :
    s.step prost conf (.deliver lost) = some ⟨s.client.deliverOne x rest lost, s.written ++ [x]⟩ := by
  apply step_iff.mpr
  constructor
  · rw [writes, if_pos hauth, hx]
    rfl
  · simp only [Client.step, hx]

/-- The write loop gets through to any packet that was sent to it. -/
theorem exists_deliver_run (prost : Prost) (conf : LinkClientConfig) {rest : List Outgoing}
    (xs : List Outgoing) (hauth : s.client.conn.auth = none) (hinner : s.client.conn.inner = xs ++ rest) :
    ∃ v, Machine.run (step prost conf) s (List.replicate xs.length (.deliver false)) = some v ∧
      v.written = s.written ++ xs := by
  induction xs generalizing s with
  | nil => exact ⟨s, rfl, (List.append_nil _).symm⟩
  | cons x xs ih =>
    have hstep := step_deliver prost conf false hauth hinner
    obtain ⟨hsame, hrest, _⟩ := deliverOne_conn s.client x (xs ++ rest) false
    obtain ⟨v, hrun, hwritten⟩ := ih (s := ⟨_, s.written ++ [x]⟩) (hsame.trans hauth) hrest
    refine ⟨v, Machine.run_cons_iff.mpr ⟨_, hstep, hrun⟩, ?_⟩
    rw [hwritten, List.append_assoc]
    rfl

/-- A packet of the user that is forwarded too early gets ahead of Auth. -/
theorem exists_overtaking_run {q : Queued} {r : SentRequest} (hearly : s.Early)
    (hauth : s.client.conn.auth = some r) (hpc : s.client.pc = .forwarding q)
    (hq : ¬q.packet.IsHeartbeat) (hs : s.step prost conf (.forwarded true) = some s') :
    ∃ onward v, (∀ g ∈ onward, g.isTransport = true) ∧
      Machine.run (step prost conf) s' onward = some v ∧ ¬v.AuthFirst := by
  obtain ⟨client, written⟩ := s'
  obtain ⟨hw, hc⟩ := step_iff.mp hs
  obtain ⟨_, hshake⟩ := hearly r hauth
  cases Client.step_cases hc with
  | forwarded q' hpc' =>
    cases hpc.symm.trans hpc'
    cases hw
    let client : Client := { s.client with
      pc := .registering q
      conn := { s.client.conn with
        auth := none
        inner := (s.client.conn.inner ++ [q.packet]) ++ [.request r] } }
    have hhandshake : step prost conf { s with client := { s.client with
        pc := .registering q
        conn := { s.client.conn with inner := s.client.conn.inner ++ [q.packet] } } } .handshake =
        some ⟨client, s.written⟩ := by
      apply step_iff.mpr
      exact ⟨rfl, by simp only [Client.step, hauth, client]⟩
    obtain ⟨v, hrun, hwritten⟩ := exists_deliver_run prost conf
      (s := ⟨client, s.written⟩) (s.client.conn.inner ++ [q.packet]) rfl rfl
    refine ⟨.handshake :: List.replicate _ (.deliver false), v, ?_,
      Machine.run_cons_iff.mpr ⟨_, hhandshake, hrun⟩, ?_⟩
    · intro g hg
      rcases List.mem_cons.mp hg with rfl | hdeliver
      · rfl
      · rw [List.eq_of_mem_replicate hdeliver]
        rfl
    · intro hfirst
      have hall : s.client.conn.inner ++ [q.packet] <+: v.written := by
        rw [hwritten, hshake.written]
        exact List.prefix_refl _
      rcases hfirst _ _ hall hq with hpacket | ⟨y, hy, hyauth⟩
      · exact packet_not_auth q hpacket
      · exact hshake.inner y hy hyauth

/-- Auth comes first in every state of a run, and will have in whatever the transport
then writes, exactly when the link task waits for Auth before it forwards. -/
theorem auth_first_iff (prost : Prost) (conf : LinkClientConfig) (events : List ClientEvent)
    (t : ConnWrites) (h : Machine.run (step prost conf) new events = some t) :
    (∀ past u onward v, past <+: events → Machine.run (step prost conf) new past = some u →
      (∀ g ∈ onward, g.isTransport = true) → Machine.run (step prost conf) u onward = some v →
      v.AuthFirst) ↔ Machine.Meets (step prost conf) Patient new events := by
  constructor
  · intro hall
    refine Machine.meets_iff.mpr fun past e s hpast hrun => ?_
    rintro rfl hauth x hx
    obtain ⟨r, hr⟩ := Option.ne_none_iff_exists'.mp hauth
    obtain ⟨q, hpc, rfl⟩ := exists_forwarding hx
    have hearly : s.Early := Machine.run_invariant (fun _ _ _ => step_early) new_early hrun
    obtain ⟨s', hrun'⟩ := Machine.run_prefix h hpast
    by_contra hq
    obtain ⟨onward, v, htransport, hv, hlate⟩ :=
      exists_overtaking_run hearly hr hpc hq (Machine.run_snoc hrun hrun')
    exact hlate (hall _ s' onward v hpast hrun' htransport hv)
  · intro hmeets past u onward v hpast hrun htransport hv
    have hstep : ∀ s e s', s.Early ∧ s.Led → s.Patient e → step prost conf s e = some s' →
        s'.Early ∧ s'.Led :=
      fun s e s' hs hp he => ⟨step_early hs.1 he, step_led hs.2 hs.1 hp he⟩
    have hu : u.Early ∧ u.Led := Machine.run_invariant_of_meets hstep ⟨new_early, new_led⟩
      (hmeets.front hpast) hrun
    have honward : ∀ s e s', s.Early ∧ s.Led → e.isTransport = true →
        step prost conf s e = some s' → s'.Early ∧ s'.Led := by
      intro s e s' hs he
      refine hstep s e s' hs ?_
      rintro rfl
      cases he
    exact (Machine.run_invariant_of_meets honward hu
      (Machine.meets_of_forall_mem htransport) hv).2.authFirst

/-- A request that waits in the queue when the connection is opened, but is taken
after the handshake. -/
def patientRun : List ClientEvent :=
  [.call .cmdSubDepth [], .enqueue 0, .connect, .tick [], .heartbeatSent, .handshake, .take,
    .forwarded true, .register false, .deliver false, .deliver false, .deliver false]

theorem auth_first_iff_patient :
    ∃ s, Machine.run (step plainProst plainConfig) new patientRun = some s ∧ s.written.length = 3 ∧
      ∀ past u onward v, past <+: patientRun →
        Machine.run (step plainProst plainConfig) new past = some u →
        (∀ g ∈ onward, g.isTransport = true) →
        Machine.run (step plainProst plainConfig) u onward = some v → v.AuthFirst := by
  have hout : (Machine.run (step plainProst plainConfig) new patientRun).map (·.written.length) =
      some 3 := by
    decide +kernel
  obtain ⟨s, hrun, hlength⟩ := Option.map_eq_some_iff.mp hout
  exact ⟨s, hrun, hlength,
    (auth_first_iff plainProst plainConfig patientRun s hrun).mpr (by decide +kernel)⟩

/-- The same request taken before the handshake. -/
def overtakingRun : List ClientEvent :=
  [.call .cmdSubDepth [], .enqueue 0, .connect, .take, .forwarded true, .register false, .handshake,
    .deliver false, .deliver false]

theorem auth_first_counterexample :
    ∃ s r a h, Machine.run (step plainProst plainConfig) new overtakingRun = some s ∧
      s.written = [.request (.call r), .request (.auth a h)] ∧ ¬s.AuthFirst := by
  have hout : (Machine.run (step plainProst plainConfig) new overtakingRun).map (·.written) =
      some [.request (.call ⟨0, newRequest .cmdSubDepth 1 [], by decide⟩),
        .request (.auth (newRequest .auth 2 (authBody plainProst plainConfig)) rfl)] := by
    decide +kernel
  obtain ⟨s, hrun, hwritten⟩ := Option.map_eq_some_iff.mp hout
  refine ⟨s, _, _, _, hrun, hwritten, ?_⟩
  intro hfirst
  rw [AuthFirst, hwritten] at hfirst
  have hcall : ¬Outgoing.IsHeartbeat (.request (.call ⟨0, newRequest .cmdSubDepth 1 [], by decide⟩)) := by
    decide
  rcases hfirst [] _ ⟨_, rfl⟩ hcall with hauth | ⟨y, hy, _⟩
  · exact hauth
  · cases hy

end ConnWrites

end QuoteLink

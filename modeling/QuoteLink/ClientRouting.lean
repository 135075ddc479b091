import QuoteLink.ClientLink
import QuoteLink.IdLedger
import Mathlib.Tactic.Abel
import Mathlib.Tactic.Convert

open IdLedger

namespace QuoteLink

/-- The id a request carries. -/
def SentRequest.id (r : SentRequest) : UInt32 := r.request.id

/-- Requests whose answers are routed: those to heartbeats stay in the link task. -/
def SentRequest.routed? (r : SentRequest) : Option SentRequest :=
  if r.request.command = .heartbeat then none else some r

def CallRequest.request? (r : CallRequest) : Option SentRequest := some (.call r)

def Queued.request? : Queued → Option SentRequest
  | .request r => r.request?
  | _ => none

def Outgoing.routed? : Outgoing → Option SentRequest
  | .request r => r.routed?
  | _ => none

def Incoming.routed? : Incoming → Option SentRequest
  | .response a => a.answered.routed?
  | _ => none

def Incoming.answered? : Incoming → Option SentRequest
  | .response a => some a.answered
  | _ => none

namespace Client

def heldUnsent : LinkPc → Multiset SentRequest
  | .forwarding q => collect Queued.request? [q]
  | _ => 0

def heldSent : LinkPc → Multiset SentRequest
  | .subscribing _ packets => collect SentRequest.routed? packets
  | .authAnswer a => {a.answered}
  | _ => 0

def registeringOf : LinkPc → Option SentRequest
  | .registering q => q.request?
  | _ => none

def connSent (c : Connection) : Multiset SentRequest :=
  collect SentRequest.routed? c.auth.toList + collect Outgoing.routed? c.inner +
    collect SentRequest.routed? c.unanswered + collect Incoming.routed? c.replies

/-- The requests in flight of a client, whatever queue they are in. -/
def ledger (s : Client) : IdLedger UInt32 SentRequest Nat where
  unsent := collect CallRequest.request? s.drawn + collect Queued.request? s.requestRx +
    heldUnsent s.pc
  sent := heldSent s.pc + connSent s.conn
  arrived := collect Incoming.answered? s.packetProcessRx
  registering := registeringOf s.pc
  table := fun i => s.requests.lookup i

/-- The id that the next packet will carry. -/
def nextId (s : Client) : UInt32 := requestIdTrim s.requestIdGen

def NextIdFree (s : Client) : Prop := s.nextId ∉ s.ledger.ids SentRequest.id

/-- Where the code relies on ids being different without making them so. The id
drawn for a request must be free; that of an automatic packet must not be in the
table either; and a registration may fail only if the table has no such id. -/
def Fresh (s : Client) : ClientEvent → Prop
  | .call _ _ => s.NextIdFree
  | .connect => s.NextIdFree ∧ s.requests.lookup s.nextId = none
  | .drawSubscribe => s.NextIdFree ∧ s.requests.lookup s.nextId = none
  | .register timedOut =>
    timedOut = true → (registeringOf s.pc).all fun r => s.requests.lookup r.id = none
  | _ => True

instance (s : Client) : Decidable s.NextIdFree := inferInstanceAs (Decidable (_ ∉ _))

instance (s : Client) : ∀ e, Decidable (s.Fresh e)
  | .call _ _ => inferInstanceAs (Decidable (NextIdFree s))
  | .connect => inferInstanceAs (Decidable (_ ∧ _))
  | .drawSubscribe => inferInstanceAs (Decidable (_ ∧ _))
  | .register _ => inferInstanceAs (Decidable (_ → _))
  | .enqueue _ | .sendFailed _ | .ret _ _ | .sendPush _ | .sendResponse _ | .handshake | .tick _
  | .heartbeatSent | .take | .forwarded _ | .deliver _ | .answer _ _ _ | .serverRequest _
  | .serverPush _ | .receive _ | .authForwarded | .sendSubscribe | .fail | .reset | .stop
  | .consume => inferInstanceAs (Decidable True)

abbrev Moves (s s' : Client) : Prop :=
  Relation.ReflTransGen (Move SentRequest.id SentRequest.owner) s.ledger s'.ledger

/-- Moves that enter every call in the table; `next` is the id drawn, if any. -/
abbrev OrderlyMoves (next : Option UInt32) (s s' : Client) : Prop :=
  Relation.ReflTransGen (OrderlyMove SentRequest.id SentRequest.owner next) s.ledger s'.ledger

theorem OrderlyMoves.moves {next : Option UInt32} {s s' : Client} (h : s.OrderlyMoves next s') :
    s.Moves s' :=
  Relation.ReflTransGen.mono (fun _ _ hm => OrderlyMove.move hm) _ _ h

section Steps

variable {s s' : Client} {next : Option UInt32}

theorem moves_of_eq (h : s'.ledger = s.ledger) : s.OrderlyMoves next s' := by
  rw [OrderlyMoves, h]

theorem moves_of_le (hunsent : s'.ledger.unsent ≤ s.ledger.unsent)
    (hsent : s'.ledger.sent ≤ s.ledger.sent) (harrived : s'.ledger.arrived ≤ s.ledger.arrived)
    (hreg : s'.ledger.registering = s.ledger.registering)
    (htable : s'.ledger.table = s.ledger.table) : s.OrderlyMoves next s' :=
  .single (.forget hunsent hsent harrived hreg htable)

theorem CallRequest.collect_one (r : CallRequest) :
    collect CallRequest.request? [r] = {SentRequest.call r} :=
  collect_singleton _ r

theorem routed?_call (r : CallRequest) : (SentRequest.call r).routed? = some (.call r) :=
  if_neg r.allowed.1

theorem call_moves {cmd : Command} {body : Bytes} (h : cmd ≠ .heartbeat ∧ cmd ≠ .auth)
    (hfree : s.NextIdFree) :
    s.OrderlyMoves (some s.nextId) { s with
      requestIdGen := s.requestIdGen + 1
      nextCall := s.nextCall + 1
      drawn := s.drawn ++ [⟨s.nextCall, newRequest cmd s.requestIdGen body, h⟩] } := by
  let r : CallRequest := ⟨s.nextCall, newRequest cmd s.requestIdGen body, h⟩
  have hdraw : OrderlyMove SentRequest.id SentRequest.owner (some s.nextId) s.ledger
      { s.ledger with unsent := SentRequest.call r ::ₘ s.ledger.unsent } :=
    OrderlyMove.draw (SentRequest.call r) rfl hfree
  have heq : ledger { s with
      requestIdGen := s.requestIdGen + 1
      nextCall := s.nextCall + 1
      drawn := s.drawn ++ [r] } =
      { s.ledger with unsent := SentRequest.call r ::ₘ s.ledger.unsent } := by
    have hone := CallRequest.collect_one r
    simp only [ledger, collect_append, hone, ← Multiset.singleton_add]
    congr 1
    abel
  rw [OrderlyMoves, heq]
  exact .single hdraw

theorem enqueue_moves {k : Nat} {r : CallRequest} (hk : s.drawn[k]? = some r) :
    s.OrderlyMoves next { s with drawn := s.drawn.eraseIdx k, requestRx := s.requestRx ++ [.request r] } := by
  have herase := collect_eraseIdx CallRequest.request? hk
  have hsame : collect Queued.request? [.request r] = collect CallRequest.request? [r] :=
    collect_singleton _ (Queued.request r)
  apply moves_of_eq
  simp only [ledger, collect_append, herase, hsame]
  congr 1
  abel

theorem sendFailed_moves {k : Nat} {r : CallRequest} (hk : s.drawn[k]? = some r) :
    s.OrderlyMoves next { s with drawn := s.drawn.eraseIdx k } := by
  have herase := collect_eraseIdx CallRequest.request? hk
  refine moves_of_le ?_ le_rfl le_rfl rfl rfl
  simp only [ledger, herase]
  refine add_le_add (add_le_add ?_ le_rfl) le_rfl
  exact Multiset.le_add_left _ _

theorem connect_moves {prost : Prost} {conf : LinkClientConfig} (hpc : s.pc = .down)
    (hfree : s.NextIdFree) (hslot : s.requests.lookup s.nextId = none) :
    s.OrderlyMoves (some s.nextId) { s with
      requestIdGen := s.requestIdGen + 1
      pc := .idle
      conn := ⟨some (.auth (newRequest .auth s.requestIdGen (authBody prost conf)) rfl), [], [], []⟩ } := by
  let r : SentRequest := .auth (newRequest .auth s.requestIdGen (authBody prost conf)) rfl
  have hreg : s.ledger.registering = none := by simp only [ledger, registeringOf, hpc]
  have hdraw : OrderlyMove SentRequest.id SentRequest.owner (some s.nextId) s.ledger
      { s.ledger with sent := r ::ₘ s.ledger.sent } := OrderlyMove.drawSent r rfl rfl hfree hslot hreg
  refine .trans (.single hdraw) (.single (.forget ?_ ?_ le_rfl ?_ rfl))
  · simp only [ledger, heldUnsent, hpc, le_refl]
  · have hone : collect SentRequest.routed? [r] = {r} := collect_singleton _ r
    have hsent : heldSent .idle + connSent ⟨some r, [], [], []⟩ = {r} := by
      simp only [heldSent, connSent, Option.toList_some, hone, collect_nil, add_zero, zero_add]
    show heldSent .idle + connSent ⟨some r, [], [], []⟩ ≤ r ::ₘ s.ledger.sent
    rw [hsent, Multiset.singleton_le]
    exact Multiset.mem_cons_self r _
  · exact hreg.symm

theorem handshake_moves {r : SentRequest} (hr : s.conn.auth = some r) :
    s.OrderlyMoves next { s with conn := { s.conn with
      auth := none, inner := s.conn.inner ++ [.request r] } } := by
  have hsame : collect Outgoing.routed? [.request r] = collect SentRequest.routed? [r] :=
    collect_singleton_congr _ rfl
  apply moves_of_eq
  simp only [ledger, connSent, hr, Option.toList_none, Option.toList_some, collect_nil,
    collect_append, hsame]
  congr 1
  abel

theorem heartbeatSent_moves {r : Request} {h : r.command = .heartbeat} (hpc : s.pc = .heartbeat r h) :
    s.OrderlyMoves next { s with
      pc := .idle
      conn := { s.conn with inner := s.conn.inner ++ [.request (.heartbeat r h)] } } := by
  have hnone : Outgoing.routed? (.request (.heartbeat r h)) = none := if_pos h
  apply moves_of_eq
  simp only [ledger, heldUnsent, heldSent, registeringOf, hpc, connSent, collect_append,
    collect_singleton, hnone, Option.toList_none, Multiset.coe_nil, add_zero]

theorem queueOther_moves {q : Queued} (hq : q.request? = none) :
    s.OrderlyMoves next { s with requestRx := s.requestRx ++ [q] } := by
  apply moves_of_eq
  simp only [ledger, collect_append, collect_singleton, hq, Option.toList_none, Multiset.coe_nil,
    add_zero]

theorem take_moves {q : Queued} {rest : List Queued} (hpc : s.pc = .idle)
    (hq : s.requestRx = q :: rest) : s.OrderlyMoves next { s with pc := .forwarding q, requestRx := rest } := by
  have hcons := collect_cons Queued.request? q rest
  apply moves_of_eq
  simp only [ledger, heldUnsent, heldSent, registeringOf, hpc, hq, hcons]
  congr 1
  abel

theorem forwarded_moves {q : Queued} (hpc : s.pc = .forwarding q) :
    s.OrderlyMoves next { s with
      pc := .registering q
      conn := { s.conn with inner := s.conn.inner ++ [q.packet] } } := by
  cases q with
  | request r =>
    have hone : collect Queued.request? [.request r] = {SentRequest.call r} := collect_singleton _ _
    have hout : collect Outgoing.routed? [.request (.call r)] = {SentRequest.call r} := by
      rw [collect_singleton, Outgoing.routed?, routed?_call]
      rfl
    have hunsent : s.ledger.unsent = SentRequest.call r ::ₘ
        (collect CallRequest.request? s.drawn + collect Queued.request? s.requestRx) := by
      simp only [ledger, heldUnsent, hpc, hone, ← Multiset.singleton_add]
      abel
    have hreg : s.ledger.registering = none := by simp only [ledger, registeringOf, hpc]
    have hsend : OrderlyMove SentRequest.id SentRequest.owner next s.ledger _ :=
      OrderlyMove.send (SentRequest.call r) _ hunsent hreg
    refine .single ?_
    convert hsend using 1
    simp only [ledger, heldUnsent, heldSent, registeringOf, hpc, connSent, collect_append,
      Queued.packet, hout, add_zero, zero_add, ← Multiset.singleton_add]
    congr 1
    abel
  | push p =>
    apply moves_of_eq
    simp only [ledger, heldUnsent, heldSent, registeringOf, hpc, connSent, collect_append,
      Queued.packet, collect_singleton, Outgoing.routed?, Queued.request?, Option.toList_none,
      Multiset.coe_nil, add_zero]
  | response r =>
    apply moves_of_eq
    simp only [ledger, heldUnsent, heldSent, registeringOf, hpc, connSent, collect_append,
      Queued.packet, collect_singleton, Outgoing.routed?, Queued.request?, Option.toList_none,
      Multiset.coe_nil, add_zero]

theorem register_moves {q : Queued} (hpc : s.pc = .registering q) :
    s.OrderlyMoves next (s.registerOne q false) := by
  cases q with
  | request r =>
    have hreg : s.ledger.registering = some (.call r) := by
      simp only [ledger, registeringOf, hpc, Queued.request?, CallRequest.request?]
    have hmove : OrderlyMove SentRequest.id SentRequest.owner next s.ledger _ :=
      OrderlyMove.register (SentRequest.call r) hreg r.call rfl
    refine .single ?_
    convert hmove using 1
    simp only [registerOne, ledger, heldUnsent, heldSent, registeringOf, hpc, Bool.false_eq_true,
      if_false]
    congr 1
    funext i
    have hid : (SentRequest.call r).id = r.request.id := rfl
    by_cases hi : i = r.request.id
    · rw [hi, hid, AList.lookup_insert, Function.update_self]
    · rw [hid, AList.lookup_insert_ne hi, Function.update_of_ne hi]
  | push p =>
    apply moves_of_eq
    simp only [registerOne, ledger, heldUnsent, heldSent, registeringOf, hpc, Queued.request?]
  | response r =>
    apply moves_of_eq
    simp only [registerOne, ledger, heldUnsent, heldSent, registeringOf, hpc, Queued.request?]

/-- The wait for the lock times out, so the request is never entered. -/
theorem giveUp_moves {q : Queued} (hpc : s.pc = .registering q)
    (hslot : (registeringOf s.pc).all fun r => s.requests.lookup r.id = none) :
    s.Moves (s.registerOne q true) := by
  cases q with
  | request r =>
    have hreg : s.ledger.registering = some (.call r) := by
      simp only [ledger, registeringOf, hpc, Queued.request?, CallRequest.request?]
    have hnone : s.ledger.table (SentRequest.call r).id = none := by
      show s.requests.lookup (SentRequest.call r).id = none
      simpa only [registeringOf, hpc, Queued.request?, CallRequest.request?, Option.all_some,
        decide_eq_true_eq] using hslot
    have hmove : Move SentRequest.id SentRequest.owner s.ledger _ := Move.giveUp _ hreg hnone
    refine .single ?_
    convert hmove using 1
    simp only [registerOne, ledger, heldUnsent, heldSent, registeringOf, hpc, if_true]
  | push p =>
    have hmoves : s.OrderlyMoves none (s.registerOne (.push p) false) := register_moves hpc
    exact hmoves.moves
  | response r =>
    have hmoves : s.OrderlyMoves none (s.registerOne (.response r) false) := register_moves hpc
    exact hmoves.moves

theorem deliver_moves {x : Outgoing} {rest : List Outgoing} {lost : Bool}
    (hx : s.conn.inner = x :: rest) : s.OrderlyMoves next (s.deliverOne x rest lost) := by
  have hcons := collect_cons Outgoing.routed? x rest
  cases x with
  | request r =>
    have hsame : collect Outgoing.routed? [.request r] = collect SentRequest.routed? [r] :=
      collect_singleton_congr _ rfl
    cases lost with
    | true =>
      refine moves_of_le le_rfl ?_ le_rfl rfl rfl
      simp only [deliverOne, ledger, connSent, hx, hcons, if_true]
      refine add_le_add le_rfl (add_le_add (add_le_add (add_le_add le_rfl ?_) le_rfl) le_rfl)
      exact Multiset.le_add_left _ _
    | false =>
      apply moves_of_eq
      simp only [deliverOne, ledger, connSent, hx, hcons, hsame, collect_append, Bool.false_eq_true,
        if_false]
      congr 1
      abel
  | push p =>
    apply moves_of_eq
    simp only [deliverOne, ledger, connSent, hx, hcons, collect_singleton, Outgoing.routed?,
      Option.toList_none, Multiset.coe_nil, zero_add]
  | response r =>
    apply moves_of_eq
    simp only [deliverOne, ledger, connSent, hx, hcons, collect_singleton, Outgoing.routed?,
      Option.toList_none, Multiset.coe_nil, zero_add]

theorem answer_moves {k : Nat} {r : SentRequest} {status : ResponseStatus} {body : Bytes}
    (hk : s.conn.unanswered[k]? = some r) :
    s.OrderlyMoves next { s with conn := { s.conn with
      unanswered := s.conn.unanswered.eraseIdx k
      replies := s.conn.replies ++ [.response (answerTo r status body)] } } := by
  have herase := collect_eraseIdx SentRequest.routed? hk
  have hsame : collect Incoming.routed? [.response (answerTo r status body)] =
      collect SentRequest.routed? [r] :=
    collect_singleton_congr _ rfl
  apply moves_of_eq
  simp only [ledger, connSent, collect_append, herase, hsame]
  congr 1
  abel

/-- Packets of the server that answer nothing. -/
theorem serverPacket_moves {x : Incoming} (hx : x.routed? = none) :
    s.OrderlyMoves next { s with conn := { s.conn with replies := s.conn.replies ++ [x] } } := by
  apply moves_of_eq
  simp only [ledger, connSent, collect_append, collect_singleton, hx, Option.toList_none,
    Multiset.coe_nil, add_zero]

theorem Incoming.routed?_of_forwarded {a : Answer} (h : a.response.command ≠ .heartbeat) :
    (Incoming.response a).routed? = some a.answered := by
  rw [a.echoes.2] at h
  exact if_neg h

/-- The link task moves an answer from the connection to the consumer's queue,
keeps it in hand, or loses it. -/
theorem receive_moves {x : Incoming} {rest : List Incoming} {full : Bool} (hpc : s.pc = .idle)
    (hx : s.conn.replies = x :: rest) :
    s.OrderlyMoves next (receiveOne { s with conn := { s.conn with replies := rest } } x full) := by
  have hcons := collect_cons Incoming.routed? x rest
  -- dropping the packet
  have hdrop : s.OrderlyMoves next { s with conn := { s.conn with replies := rest } } := by
    refine moves_of_le le_rfl ?_ le_rfl rfl rfl
    simp only [ledger, connSent, hx, hcons]
    refine add_le_add le_rfl (add_le_add le_rfl ?_)
    exact Multiset.le_add_left _ _
  have hother : ∀ y : Incoming, y.routed? = none → y.answered? = none → x = y →
      s.OrderlyMoves next { s with
        packetProcessRx := s.packetProcessRx ++ [y], conn := { s.conn with replies := rest } } := by
    intro y hrouted hanswered hxy
    subst hxy
    apply moves_of_eq
    simp only [ledger, connSent, hx, hcons, collect_append, collect_singleton, hrouted, hanswered,
      Option.toList_none, Multiset.coe_nil, zero_add, add_zero]
  cases x with
  | response a =>
    by_cases hbeat : a.response.command = .heartbeat
    · simpa only [receiveOne, hbeat, if_true] using hdrop
    · have hrouted := Incoming.routed?_of_forwarded hbeat
      have hsent : s.ledger.sent = a.answered ::ₘ
          (heldSent s.pc + connSent { s.conn with replies := rest }) := by
        simp only [ledger, connSent, hx, hcons, collect_singleton, hrouted, Option.toList_some,
          Multiset.coe_singleton, ← Multiset.singleton_add]
        abel
      by_cases hauth : a.response.command = .auth
      · by_cases hok : a.response.status = .success
        · simp only [receiveOne, hauth, hok, if_true, if_false, reduceCtorEq]
          apply moves_of_eq
          have hsame : ledger { s with pc := .authAnswer a, conn := { s.conn with replies := rest } } =
              { s.ledger with
                sent := a.answered ::ₘ (heldSent s.pc + connSent { s.conn with replies := rest }) } := by
            simp only [ledger, heldUnsent, heldSent, registeringOf, hpc, zero_add,
              Multiset.singleton_add]
          rw [hsame, ← hsent]
        · simp only [receiveOne, hauth, hok, if_true, if_false, reduceCtorEq]
          refine moves_of_le ?_ ?_ le_rfl ?_ rfl
          · simp only [ledger, heldUnsent, hpc, le_refl]
          · simp only [ledger, heldSent, connSent, Connection.closed, Option.toList_none,
              collect_nil, add_zero]
            exact Multiset.zero_le _
          · simp only [ledger, registeringOf, hpc]
      · cases full with
        | true => simpa only [receiveOne, hbeat, hauth, if_true, if_false] using hdrop
        | false =>
          have hreg : s.ledger.registering = none := by simp only [ledger, registeringOf, hpc]
          have hmove : OrderlyMove SentRequest.id SentRequest.owner next s.ledger _ :=
            OrderlyMove.arrive a.answered _ hsent hreg
          refine .single ?_
          convert hmove using 1
          simp only [receiveOne, hbeat, hauth, if_false, ledger, collect_append, collect_singleton,
            Incoming.answered?, Option.toList_some, Multiset.coe_singleton,
            ← Multiset.singleton_add, Bool.false_eq_true]
          congr 1
          abel
  | request r =>
    cases full with
    | true => simpa only [receiveOne, if_true] using hdrop
    | false => simpa only [receiveOne, Bool.false_eq_true, if_false] using hother _ rfl rfl rfl
  | push p =>
    cases full with
    | true => simpa only [receiveOne, if_true] using hdrop
    | false => simpa only [receiveOne, Bool.false_eq_true, if_false] using hother _ rfl rfl rfl

theorem authForwarded_moves {a : Answer} {subscribes : List Subscribe} (hpc : s.pc = .authAnswer a) :
    s.OrderlyMoves next { s with
      pc := .subscribing subscribes []
      packetProcessRx := s.packetProcessRx ++ [.response a] } := by
  have hreg : s.ledger.registering = none := by simp only [ledger, registeringOf, hpc]
  have hsent : s.ledger.sent = a.answered ::ₘ connSent s.conn := by
    simp only [ledger, heldSent, hpc, Multiset.singleton_add]
  have hmove : OrderlyMove SentRequest.id SentRequest.owner next s.ledger _ :=
    OrderlyMove.arrive a.answered _ hsent hreg
  refine .single ?_
  convert hmove using 1
  simp only [ledger, heldUnsent, heldSent, registeringOf, hpc, collect_append, collect_nil,
    collect_singleton, Incoming.answered?, Option.toList_some, Multiset.coe_singleton,
    ← Multiset.singleton_add, zero_add]
  congr 1
  abel

theorem drawSubscribe_moves {prost : Prost} {sub : Subscribe} {todo : List Subscribe}
    {packets : List SentRequest} (hpc : s.pc = .subscribing (sub :: todo) packets)
    (hfree : s.NextIdFree) (hslot : s.requests.lookup s.nextId = none) :
    s.OrderlyMoves (some s.nextId) { s with
      requestIdGen := s.requestIdGen + 1
      pc := .subscribing todo
        (packets ++ [.subscribe (newRequest sub.cmd s.requestIdGen (subscribeBody prost sub))]) } := by
  let r : SentRequest := .subscribe (newRequest sub.cmd s.requestIdGen (subscribeBody prost sub))
  have hreg : s.ledger.registering = none := by simp only [ledger, registeringOf, hpc]
  have hdraw : OrderlyMove SentRequest.id SentRequest.owner (some s.nextId) s.ledger
      { s.ledger with sent := r ::ₘ s.ledger.sent } := OrderlyMove.drawSent r rfl rfl hfree hslot hreg
  refine .trans (.single hdraw) (.single (.forget ?_ ?_ le_rfl ?_ rfl))
  · simp only [ledger, heldUnsent, hpc, le_refl]
  · have hle : collect SentRequest.routed? [r] ≤ {r} := by
      rw [collect_singleton, SentRequest.routed?]
      split
      · exact Multiset.zero_le _
      · exact le_rfl
    simp only [ledger, heldSent, hpc, collect_append, ← Multiset.singleton_add]
    calc collect SentRequest.routed? packets + collect SentRequest.routed? [r] + connSent s.conn
        = collect SentRequest.routed? [r] + (collect SentRequest.routed? packets + connSent s.conn) := by
          abel
      _ ≤ {r} + (collect SentRequest.routed? packets + connSent s.conn) := add_le_add hle le_rfl
  · simp only [ledger, registeringOf, hpc]

theorem sendSubscribe_moves {r : SentRequest} {packets : List SentRequest}
    (hpc : s.pc = .subscribing [] (r :: packets)) :
    s.OrderlyMoves next { s with
      pc := .subscribing [] packets
      conn := { s.conn with inner := s.conn.inner ++ [.request r] } } := by
  have hcons := collect_cons SentRequest.routed? r packets
  have hsame : collect Outgoing.routed? [.request r] = collect SentRequest.routed? [r] :=
    collect_singleton_congr _ rfl
  apply moves_of_eq
  simp only [ledger, heldUnsent, heldSent, registeringOf, hpc, connSent, collect_append, hcons, hsame]
  congr 1
  abel

/-- The connection is dropped with everything on it. -/
theorem closed_moves {pc : LinkPc} {requestRx : List Queued} (hheld : heldUnsent pc = 0)
    (hsent : heldSent pc = 0) (hnew : registeringOf pc = none) (hold : registeringOf s.pc = none)
    (hrx : collect Queued.request? requestRx ≤ collect Queued.request? s.requestRx) :
    s.OrderlyMoves next { s with pc := pc, conn := .closed, requestRx := requestRx } := by
  refine moves_of_le ?_ ?_ le_rfl ?_ rfl
  · simp only [ledger, hheld, add_zero]
    exact le_trans (add_le_add le_rfl hrx) (Multiset.le_add_right _ _)
  · simp only [ledger, hsent, connSent, Connection.closed, Option.toList_none, collect_nil, add_zero]
    exact Multiset.zero_le _
  · simp only [ledger, hnew, hold]

theorem arrived_cons {a : Answer} {rest : List Incoming}
    (hx : s.packetProcessRx = .response a :: rest) :
    s.ledger.arrived = a.answered ::ₘ collect Incoming.answered? rest := by
  have hcons := collect_cons Incoming.answered? (.response a) rest
  simp only [ledger, hx, hcons, collect_singleton, Incoming.answered?, Option.toList_some,
    Multiset.coe_singleton, Multiset.singleton_add]

theorem consume_moves {x : Incoming} {rest : List Incoming} (hx : s.packetProcessRx = x :: rest) :
    s.OrderlyMoves next (consumeOne { s with packetProcessRx := rest } x) := by
  have hcons := collect_cons Incoming.answered? x rest
  cases x with
  | response a =>
    have harrived := arrived_cons hx
    have hid : a.answered.id = a.response.id := a.echoes.1.symm
    have hmove : OrderlyMove SentRequest.id SentRequest.owner next s.ledger _ :=
      OrderlyMove.consume a.answered _ harrived
    refine .single ?_
    convert hmove using 1
    cases hlook : s.requests.lookup a.response.id with
    | some c =>
      simp only [consumeOne, hlook, ledger]
      congr 1
      funext i
      by_cases hi : i = a.response.id
      · rw [hi, hid, AList.lookup_erase, Function.update_self]
      · rw [hid, AList.lookup_erase_ne hi, Function.update_of_ne hi]
    | none =>
      have htable : Function.update s.ledger.table a.answered.id none = s.ledger.table := by
        rw [hid, Function.update_eq_self_iff]
        exact hlook.symm
      rw [htable]
      simp only [consumeOne, hlook]
      split <;> rfl
  | request r =>
    apply moves_of_eq
    simp only [consumeOne, ledger, hx, hcons, collect_singleton, Incoming.answered?,
      Option.toList_none, Multiset.coe_nil, zero_add]
  | push p =>
    apply moves_of_eq
    simp only [consumeOne, ledger, hx, hcons, collect_singleton, Incoming.answered?,
      Option.toList_none, Multiset.coe_nil, zero_add]

end Steps

end Client

end QuoteLink

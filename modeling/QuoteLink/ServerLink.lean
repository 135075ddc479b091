import QuoteLink.Machine
import QuoteLink.ServerConn
import Mathlib.Data.List.AList

namespace QuoteLink

/-- A signal of connection `conn`. An `Exit` has only the name in it; the number
of the connection says where it came from. -/
inductive ClientSignal
  | new (name : String) (conn : Nat)
  | exit (name : String) (conn : Nat)
  deriving DecidableEq, Repr

def ClientSignal.conn : ClientSignal → Nat
  | .new _ c => c
  | .exit _ c => c

def ClientSignal.name : ClientSignal → String
  | .new n _ => n
  | .exit n _ => n

def ConnEffect.signal? (conn : Nat) : ConnEffect → Option ClientSignal
  | .signalNew name => some (.new name conn)
  | .signalExit name => some (.exit name conn)
  | _ => none

/-- The connections of a server, numbered as they are accepted, and its
connection management. A broadcast sender in `clients` is known by the number of
its connection. `closed` lists the connections whose transport has ended, and
`exited` those whose `Exit` was processed; `registered` lists the processed
`New` signals until an `Exit` or a `CloseClient` revokes them. -/
structure Server where
  conns : List ConnLoop
  closed : List Nat
  signals : List ClientSignal
  exitSignals : List Nat
  clients : AList fun _ : String => Nat
  broadcasts : List (Packet × List Nat)
  shutdown : Bool
  exited : List Nat
  registered : List (Nat × String)

inductive ServerEvent
  | accept (peerAddr : String) (now : Nat)
  | transportClosed (conn : Nat)
  | conn (conn : Nat) (e : ConnEvent)
  | takeSignal
  | closeClient (name : String)
  | broadcast (packet : Packet)
  | shutdown
  deriving DecidableEq, Repr

namespace Server

def new : Server := ⟨[], [], [], [], ∅, [], false, [], []⟩

/-- The broadcast senders of the map, one for each entry. -/
def recipients (s : Server) : List Nat := s.clients.entries.map fun entry => entry.2

/-- `listen_at` accepts an address again once the old datagram channel is closed. -/
def canAccept (s : Server) (peerAddr : String) : Bool :=
  s.conns.zipIdx.all fun (l, i) => l.peerAddr != peerAddr || s.closed.contains i

/-- What has to have happened outside the loop for its event. -/
def canOccur (s : Server) (c : Nat) : ConnEvent → Bool
  | .exitSignal => s.exitSignals.contains c
  | .recvClosed => s.closed.contains c
  | _ => true

def stepConn (decode : DecodeAuth) (conf : HealthyConfig) (s : Server) (c : Nat) (e : ConnEvent)
    (l : ConnLoop) : Option Server :=
  (l.step decode conf e).map fun out =>
    { s with
      conns := s.conns.set c out.1
      signals := s.signals ++ out.2.filterMap (ConnEffect.signal? c)
      exitSignals := if e = .exitSignal then s.exitSignals.erase c else s.exitSignals }

def processSignal (s : Server) : ClientSignal → Server
  | .new name c =>
    { s with clients := s.clients.insert name c, registered := s.registered ++ [(c, name)] }
  | .exit name c =>
    { s with
      clients := s.clients.erase name
      exited := s.exited ++ [c]
      registered := s.registered.filter fun r => r.1 ≠ c }

def step (decode : DecodeAuth) (conf : HealthyConfig) (s : Server) : ServerEvent → Option Server
  | .accept peerAddr now =>
    if s.canAccept peerAddr then some { s with conns := s.conns ++ [.new peerAddr now] } else none
  | .transportClosed c =>
    if c < s.conns.length then some { s with closed := s.closed ++ [c] } else none
  | .conn c e =>
    match s.conns[c]? with
    | some l => if s.canOccur c e then s.stepConn decode conf c e l else none
    | none => none
  | .takeSignal =>
    match s.shutdown, s.signals with
    | false, signal :: rest => some ({ s with signals := rest }.processSignal signal)
    | _, _ => none
  | .closeClient name =>
    if s.shutdown then none
    else
      match s.clients.lookup name with
      | some c =>
        some { s with
          clients := s.clients.erase name
          exitSignals := s.exitSignals ++ [c]
          registered := s.registered.filter fun r => r.2 ≠ name }
      | none => some s
  | .broadcast packet =>
    if s.shutdown then none
    else some { s with broadcasts := s.broadcasts ++ [(packet, s.recipients)] }
  | .shutdown => some { s with shutdown := true }

/-- All that a step of the server can be. -/
inductive StepCase (decode : DecodeAuth) (conf : HealthyConfig) (s : Server) : ServerEvent → Server → Prop
  | accept (peerAddr : String) (now : Nat) (h : s.canAccept peerAddr = true) :
    StepCase decode conf s (.accept peerAddr now) { s with conns := s.conns ++ [.new peerAddr now] }
  | transportClosed (c : Nat) (h : c < s.conns.length) :
    StepCase decode conf s (.transportClosed c) { s with closed := s.closed ++ [c] }
  | conn (c : Nat) (e : ConnEvent) (l : ConnLoop) {s' : Server} (hl : s.conns[c]? = some l)
    (he : s.canOccur c e = true) (hs : s.stepConn decode conf c e l = some s') :
    StepCase decode conf s (.conn c e) s'
  | takeSignal (x : ClientSignal) (rest : List ClientSignal) (hup : s.shutdown = false)
    (hx : s.signals = x :: rest) :
    StepCase decode conf s .takeSignal ({ s with signals := rest }.processSignal x)
  | closeClient (name : String) (c : Nat) (hup : ¬s.shutdown = true) (hc : s.clients.lookup name = some c) :
    StepCase decode conf s (.closeClient name)
      { s with
        clients := s.clients.erase name
        exitSignals := s.exitSignals ++ [c]
        registered := s.registered.filter fun r => r.2 ≠ name }
  | closeUnknown (name : String) (hup : ¬s.shutdown = true) (hnone : s.clients.lookup name = none) :
    StepCase decode conf s (.closeClient name) s
  | broadcast (packet : Packet) (hup : ¬s.shutdown = true) :
    StepCase decode conf s (.broadcast packet)
      { s with broadcasts := s.broadcasts ++ [(packet, s.recipients)] }
  | shutdown : StepCase decode conf s .shutdown { s with shutdown := true }

theorem step_cases {decode : DecodeAuth} {conf : HealthyConfig} {s s' : Server} {e : ServerEvent}
    (h : step decode conf s e = some s') : StepCase decode conf s e s' := by
  cases e with
  | accept peerAddr now =>
    simp only [step, Option.ite_none_right_eq_some, Option.some.injEq] at h
    obtain ⟨hcan, rfl⟩ := h
    exact .accept peerAddr now hcan
  | transportClosed c =>
    simp only [step, Option.ite_none_right_eq_some, Option.some.injEq] at h
    obtain ⟨hc, rfl⟩ := h
    exact .transportClosed c hc
  | conn c e =>
    simp only [step] at h
    split at h
    next l hl =>
      simp only [Option.ite_none_right_eq_some] at h
      exact .conn c e l hl h.1 h.2
    next => cases h
  | takeSignal =>
    simp only [step] at h
    split at h
    next x rest hup hx =>
      cases h
      exact .takeSignal x rest hup hx
    next => cases h
  | closeClient name =>
    simp only [step, Option.ite_none_left_eq_some] at h
    obtain ⟨hup, h⟩ := h
    split at h
    next c hc =>
      cases h
      exact .closeClient name c hup hc
    next hnone =>
      cases h
      exact .closeUnknown name hup hnone
  | broadcast packet =>
    simp only [step, Option.ite_none_left_eq_some, Option.some.injEq] at h
    obtain ⟨hup, rfl⟩ := h
    exact .broadcast packet hup
  | shutdown =>
    cases h
    exact .shutdown

end Server

/-- A position of a list with one more element. -/
theorem getElem?_snoc_cases {α : Type} {l : List α} {d : Nat} {x y : α} (h : (l ++ [x])[d]? = some y) :
    l[d]? = some y ∨ d = l.length ∧ y = x := by
  rw [List.getElem?_append] at h
  split at h
  next => exact Or.inl h
  next hd =>
    obtain ⟨hlt, hget⟩ := List.getElem?_eq_some_iff.mp h
    rw [List.length_singleton] at hlt
    have hlast : d = l.length := by omega
    simp only [hlast, Nat.sub_self, List.getElem_cons_zero] at hget
    exact Or.inr ⟨hlast, hget.symm⟩

/-- `AuthRequest::decode` on bodies with a client name of one letter. -/
def decodeLetter : DecodeAuth
  | [10, 3, 26, 1, letter] => some ⟨some ⟨"", "", String.singleton (Char.ofNat letter.toNat)⟩⟩
  | _ => none

def authLetter (id : UInt32) (letter : UInt8) : Packet :=
  .request (newRequest .auth id [10, 3, 26, 1, letter])

end QuoteLink

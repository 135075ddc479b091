import QuoteLink.Channel
import QuoteLink.Machine
import QuoteLink.Packets
import QuoteLink.Pump
import Mathlib.Data.List.Infix

namespace QuoteLink

/-- Where the task stands that drives a QUIC connection: in `select!`, at the header of
a datagram, feeding it to `conn.recv`, asking `conn.send` for datagrams, with one to
put on `udp_data_send_tx`, or gone. -/
inductive UdpPc
  | select
  | header
  | feeding
  | sending
  | handing (b : Bytes)
  | exited
  deriving DecidableEq, Repr

/-- The task is at a datagram, or was left at one. -/
def UdpPc.holdsDatagram : UdpPc → Bool
  | .header => true
  | .feeding => true
  | .exited => true
  | _ => false

/-- The datagrams of a connection, in and out: the task of `accept_new_conn`, which
becomes `quic_process_loop` once the connection is established, and from then on
`udp_write_loop`. `feed` are the datagrams taken from `udp_data_recv_rx` and what
`conn.recv` got of them, `made` what `conn.send` returned, and `wire` what was taken to
be sent and what the socket got of it. -/
structure UdpTasks where
  established : Bool
  hasConn : Bool
  pc : UdpPc
  feed : Pump UInt8
  made : List Bytes
  udpDataSend : Channel Bytes
  writerUp : Bool
  wire : Pump UInt8
  deriving DecidableEq, Repr

inductive UdpEvent
  | recv (b : Bytes)
  | header (ok accepts : Bool)
  | connRecv (n : Option Nat)
  | recvEnd
  | isEstablished
  | otherBranch
  | connSend (b : Bytes)
  | connSendEnd (ok : Bool)
  | handOn
  | leave
  | writerTake
  | socketSend (n : Option Nat)
  | writeEnd
  | writerLeave
  deriving DecidableEq, Repr

/-- The datagram an event takes from `udp_data_recv_rx`. -/
def UdpEvent.received : UdpEvent → List Bytes
  | .recv b => [b]
  | _ => []

namespace UdpTasks

/-- What `accept_new_conn` spawns. -/
def accepted (sendChanSize : Nat) : UdpTasks :=
  ⟨false, false, .select, .new, [], .empty sendChanSize, true, .new⟩

/-- What `connect` spawns after its handshake. -/
def connected (sendChanSize : Nat) : UdpTasks :=
  ⟨true, true, .select, .new, [], .empty sendChanSize, true, .new⟩

/-- Before the connection is established its task sends the datagrams itself. -/
def writes (s : UdpTasks) : Bool := s.writerUp && (s.established || s.pc == .sending)

def step (s : UdpTasks) : UdpEvent → Option UdpTasks
  | .recv b =>
    if s.pc = .select then
      (s.feed.take b).map fun feed => { s with pc := if s.established then .feeding else .header, feed := feed }
    else none
  | .header ok accepts =>
    if s.pc = .header then
      some (if ok && (s.hasConn || accepts) then { s with hasConn := true, pc := .feeding }
        else { s with pc := .exited })
    else none
  | .connRecv n =>
    if s.pc = .feeding then
      match n with
      | some n => (s.feed.piece n).map fun feed => { s with feed := feed }
      | none => some { s with pc := .exited }
    else none
  | .recvEnd =>
    if s.pc = .feeding then s.feed.finish.map fun feed => { s with pc := .sending, feed := feed } else none
  | .isEstablished =>
    if s.hasConn = true ∧ s.established = false ∧ s.pc = .select then some { s with established := true } else none
  -- the branches of the timer, the ticker and `quic_data_send_rx`, and the reading of the
  -- stream, all of which call `conn_send_loop!`
  | .otherBranch => if s.established = true ∧ s.pc = .select then some { s with pc := .sending } else none
  | .connSend b =>
    if s.pc = .sending then
      if s.established then some { s with made := s.made ++ [b], pc := .handing b }
      else (s.wire.take b).map fun wire => { s with made := s.made ++ [b], wire := wire }
    else none
  | .connSendEnd ok =>
    if s.pc = .sending ∧ (s.established = true ∨ s.wire.current = none) then
      some { s with pc := if ok then .select else .exited }
    else none
  | .handOn =>
    match s.pc with
    | .handing b =>
      if s.writerUp then (s.udpDataSend.send b).map fun ch => { s with pc := .sending, udpDataSend := ch }
      else some { s with pc := .exited }
    | _ => none
  | .leave => if s.pc = .select then some { s with pc := .exited } else none
  | .writerTake =>
    if s.established && s.writerUp then
      match s.udpDataSend.recv with
      | some (b, ch) => (s.wire.take b).map fun wire => { s with udpDataSend := ch, wire := wire }
      | none => none
    else none
  | .socketSend n =>
    if s.writes then
      match n with
      | some n => (s.wire.piece n).map fun wire => { s with wire := wire }
      | none => some (if s.established then { s with writerUp := false } else { s with pc := .exited })
    else none
  | .writeEnd => if s.writes then s.wire.finish.map fun wire => { s with wire := wire } else none
  | .writerLeave =>
    if s.established = true ∧ s.pc = .exited ∧ s.udpDataSend.items = [] ∧ s.wire.current = none then
      some { s with writerUp := false }
    else none

/-- All that a step can be. -/
inductive StepCase (s : UdpTasks) : UdpEvent → UdpTasks → Prop
  | recv (b : Bytes) (feed : Pump UInt8) (hpc : s.pc = .select) (htake : s.feed.take b = some feed) :
    StepCase s (.recv b) { s with pc := if s.established then .feeding else .header, feed := feed }
  | header (accepts : Bool) (hpc : s.pc = .header) :
    StepCase s (.header true accepts) { s with hasConn := true, pc := .feeding }
  | headerFailed (ok accepts : Bool) (hpc : s.pc = .header) : StepCase s (.header ok accepts) { s with pc := .exited }
  | connRecv (n : Nat) (feed : Pump UInt8) (hpc : s.pc = .feeding) (hpiece : s.feed.piece n = some feed) :
    StepCase s (.connRecv (some n)) { s with feed := feed }
  | connRecvFailed (hpc : s.pc = .feeding) : StepCase s (.connRecv none) { s with pc := .exited }
  | recvEnd (feed : Pump UInt8) (hpc : s.pc = .feeding) (hfinish : s.feed.finish = some feed) :
    StepCase s .recvEnd { s with pc := .sending, feed := feed }
  | isEstablished (hnot : s.established = false) (hpc : s.pc = .select) :
    StepCase s .isEstablished { s with established := true }
  | otherBranch (hpc : s.pc = .select) : StepCase s .otherBranch { s with pc := .sending }
  | connSend (b : Bytes) (hpc : s.pc = .sending) (hestablished : s.established = true) :
    StepCase s (.connSend b) { s with made := s.made ++ [b], pc := .handing b }
  | connSendEarly (b : Bytes) (wire : Pump UInt8) (hpc : s.pc = .sending) (hnot : s.established = false)
    (htake : s.wire.take b = some wire) :
    StepCase s (.connSend b) { s with made := s.made ++ [b], wire := wire }
  | connSendEnd (ok : Bool) (hpc : s.pc = .sending) :
    StepCase s (.connSendEnd ok) { s with pc := if ok then .select else .exited }
  | handOn (b : Bytes) (ch : Channel Bytes) (hpc : s.pc = .handing b) (hch : s.udpDataSend.send b = some ch) :
    StepCase s .handOn { s with pc := .sending, udpDataSend := ch }
  | handOnFailed (b : Bytes) (hpc : s.pc = .handing b) : StepCase s .handOn { s with pc := .exited }
  | leave (hpc : s.pc = .select) : StepCase s .leave { s with pc := .exited }
  | writerTake (b : Bytes) (ch : Channel Bytes) (wire : Pump UInt8) (hestablished : s.established = true)
    (hch : s.udpDataSend.recv = some (b, ch)) (htake : s.wire.take b = some wire) :
    StepCase s .writerTake { s with udpDataSend := ch, wire := wire }
  | socketSend (n : Nat) (wire : Pump UInt8) (hpiece : s.wire.piece n = some wire) :
    StepCase s (.socketSend (some n)) { s with wire := wire }
  | socketFailed (hestablished : s.established = true) : StepCase s (.socketSend none) { s with writerUp := false }
  | socketFailedEarly (hnot : s.established = false) : StepCase s (.socketSend none) { s with pc := .exited }
  | writeEnd (wire : Pump UInt8) (hfinish : s.wire.finish = some wire) :
    StepCase s .writeEnd { s with wire := wire }
  | writerLeave : StepCase s .writerLeave { s with writerUp := false }

theorem step_cases {s s' : UdpTasks} {e : UdpEvent} (hs : s.step e = some s') : StepCase s e s' := by
  cases e with
  | recv b =>
    simp only [step, Option.ite_none_right_eq_some] at hs
    obtain ⟨hpc, hs⟩ := hs
    obtain ⟨feed, htake, rfl⟩ := Option.map_eq_some_iff.mp hs
    exact .recv b feed hpc htake
  | header ok accepts =>
    simp only [step, Option.ite_none_right_eq_some, Option.some.injEq] at hs
    obtain ⟨hpc, rfl⟩ := hs
    split
    next hok =>
      obtain ⟨rfl, _⟩ := (Bool.and_eq_true _ _).mp hok
      exact .header accepts hpc
    next => exact .headerFailed ok accepts hpc
  | connRecv n =>
    simp only [step, Option.ite_none_right_eq_some] at hs
    obtain ⟨hpc, hs⟩ := hs
    cases n with
    | some n =>
      obtain ⟨feed, hpiece, rfl⟩ := Option.map_eq_some_iff.mp hs
      exact .connRecv n feed hpc hpiece
    | none =>
      cases hs
      exact .connRecvFailed hpc
  | recvEnd =>
    simp only [step, Option.ite_none_right_eq_some] at hs
    obtain ⟨hpc, hs⟩ := hs
    obtain ⟨feed, hfinish, rfl⟩ := Option.map_eq_some_iff.mp hs
    exact .recvEnd feed hpc hfinish
  | isEstablished =>
    simp only [step, Option.ite_none_right_eq_some, Option.some.injEq] at hs
    obtain ⟨⟨_, hnot, hpc⟩, rfl⟩ := hs
    exact .isEstablished hnot hpc
  | otherBranch =>
    simp only [step, Option.ite_none_right_eq_some, Option.some.injEq] at hs
    obtain ⟨⟨_, hpc⟩, rfl⟩ := hs
    exact .otherBranch hpc
  | connSend b =>
    simp only [step, Option.ite_none_right_eq_some] at hs
    obtain ⟨hpc, hs⟩ := hs
    split at hs
    next hestablished =>
      cases hs
      exact .connSend b hpc hestablished
    next hnot =>
      obtain ⟨wire, htake, rfl⟩ := Option.map_eq_some_iff.mp hs
      exact .connSendEarly b wire hpc (Bool.eq_false_of_not_eq_true hnot) htake
  | connSendEnd ok =>
    simp only [step, Option.ite_none_right_eq_some, Option.some.injEq] at hs
    obtain ⟨⟨hpc, _⟩, rfl⟩ := hs
    exact .connSendEnd ok hpc
  | handOn =>
    simp only [step] at hs
    split at hs
    next b hpc =>
      split at hs
      next =>
        obtain ⟨ch, hch, rfl⟩ := Option.map_eq_some_iff.mp hs
        exact .handOn b ch hpc hch
      next =>
        cases hs
        exact .handOnFailed b hpc
    next => cases hs
  | leave =>
    simp only [step, Option.ite_none_right_eq_some, Option.some.injEq] at hs
    obtain ⟨hpc, rfl⟩ := hs
    exact .leave hpc
  | writerTake =>
    simp only [step, Option.ite_none_right_eq_some, Bool.and_eq_true] at hs
    obtain ⟨⟨hestablished, _⟩, hs⟩ := hs
    split at hs
    next b ch hch =>
      obtain ⟨wire, htake, rfl⟩ := Option.map_eq_some_iff.mp hs
      exact .writerTake b ch wire hestablished hch htake
    next => cases hs
  | socketSend n =>
    simp only [step, Option.ite_none_right_eq_some] at hs
    obtain ⟨_, hs⟩ := hs
    cases n with
    | some n =>
      obtain ⟨wire, hpiece, rfl⟩ := Option.map_eq_some_iff.mp hs
      exact .socketSend n wire hpiece
    | none =>
      cases hs
      split
      next hestablished => exact .socketFailed hestablished
      next hnot => exact .socketFailedEarly (Bool.eq_false_of_not_eq_true hnot)
  | writeEnd =>
    simp only [step, Option.ite_none_right_eq_some] at hs
    obtain ⟨_, hs⟩ := hs
    obtain ⟨wire, hfinish, rfl⟩ := Option.map_eq_some_iff.mp hs
    exact .writeEnd wire hfinish
  | writerLeave =>
    simp only [step, Option.ite_none_right_eq_some, Option.some.injEq] at hs
    obtain ⟨_, rfl⟩ := hs
    exact .writerLeave

/-- The datagram the task waits to hand on. -/
def inHand (s : UdpTasks) : List Bytes :=
  match s.pc with
  | .handing b => [b]
  | _ => []

/-- Where the datagrams are. `lost` is the one in hand when `udp_write_loop` was gone. -/
structure Conserved (s : UdpTasks) (lost : List Bytes) : Prop where
  feed : s.feed.Conserved
  fed : s.feed.current = none ∨ s.pc.holdsDatagram = true
  wire : s.wire.Conserved
  made : s.wire.taken ++ s.udpDataSend.items ++ s.inHand ++ lost = s.made
  early : s.established = false → s.udpDataSend.items = [] ∧ s.inHand = []
  lost_eq : s.pc ≠ .exited → lost = []

/-- `conn.recv` and the socket take what they are given in one piece, as QUIC and UDP do. -/
def TakesWhole (s : UdpTasks) : UdpEvent → Prop
  | .connRecv (some n) => n = s.feed.rest.length
  | .socketSend (some n) => n = s.wire.rest.length
  | _ => True

instance (s : UdpTasks) : ∀ e, Decidable (s.TakesWhole e)
  | .connRecv (some _) | .socketSend (some _) => inferInstanceAs (Decidable (_ = _))
  | .connRecv none | .socketSend none | .recv _ | .header _ _ | .recvEnd | .isEstablished | .otherBranch
  | .connSend _ | .connSendEnd _ | .handOn | .leave | .writerTake | .writeEnd | .writerLeave => isTrue trivial

section Steps

variable {s s' : UdpTasks} {lost : List Bytes}

theorem accepted_conserved (sendChanSize : Nat) : Conserved (accepted sendChanSize) [] where
  feed := Pump.new_conserved
  fed := Or.inl rfl
  wire := Pump.new_conserved
  made := rfl
  early := fun _ => ⟨rfl, rfl⟩
  lost_eq := fun _ => rfl

theorem connected_conserved (sendChanSize : Nat) : Conserved (connected sendChanSize) [] where
  feed := Pump.new_conserved
  fed := Or.inl rfl
  wire := Pump.new_conserved
  made := rfl
  early := fun _ => ⟨rfl, rfl⟩
  lost_eq := fun _ => rfl

/-- A turn on the side of the incoming datagrams. -/
theorem Conserved.turn (h : Conserved s lost) (hup : s.pc ≠ .exited) (hhand : s.inHand = [])
    (hwire : s'.wire = s.wire) (hqueue : s'.udpDataSend = s.udpDataSend) (hmade : s'.made = s.made)
    (hestablished : s'.established = false → s.established = false) (hhand' : s'.inHand = [])
    (hfeed : s'.feed.Conserved)
    (hfed : s'.feed.current = none ∨ s'.pc.holdsDatagram = true) : Conserved s' [] := by
  have hold := h.made
  rw [h.lost_eq hup, hhand] at hold
  refine ⟨hfeed, hfed, hwire ▸ h.wire, ?_, fun hf => ?_, fun _ => rfl⟩
  · rw [hwire, hqueue, hmade, hhand', hold]
  · exact ⟨hqueue ▸ (h.early (hestablished hf)).1, hhand'⟩

theorem step_conserved {e : UdpEvent} (h : Conserved s lost) (hs : s.step e = some s') :
    ∃ lost', Conserved s' lost' := by
  cases step_cases hs with
  | recv b feed hpc htake =>
    have hfeed := (h.feed.take htake).1
    refine ⟨[], h.turn (by simp [hpc]) (by simp [inHand, hpc]) rfl rfl rfl id ?_ hfeed (Or.inr ?_)⟩
    · cases s.established <;> rfl
    · cases s.established <;> rfl
  | header accepts hpc =>
    exact ⟨[], h.turn (by simp [hpc]) (by simp [inHand, hpc]) rfl rfl rfl id rfl h.feed (Or.inr rfl)⟩
  | headerFailed ok accepts hpc =>
    exact ⟨[], h.turn (by simp [hpc]) (by simp [inHand, hpc]) rfl rfl rfl id rfl h.feed (Or.inr rfl)⟩
  | connRecv n feed hpc hpiece =>
    have hhand : s.inHand = [] := by simp [inHand, hpc]
    have hfeed := (h.feed.piece hpiece).1
    exact ⟨[], h.turn (by simp [hpc]) hhand rfl rfl rfl id hhand hfeed (Or.inr (by rw [hpc]; rfl))⟩
  | connRecvFailed hpc =>
    exact ⟨[], h.turn (by simp [hpc]) (by simp [inHand, hpc]) rfl rfl rfl id rfl h.feed (Or.inr rfl)⟩
  | recvEnd feed hpc hfinish =>
    obtain ⟨_, _, _, _, hdone⟩ := Pump.finish_eq_some hfinish
    have hnone : feed.current = none := by rw [hdone]
    have hfeed := (h.feed.finish hfinish).1
    exact ⟨[], h.turn (by simp [hpc]) (by simp [inHand, hpc]) rfl rfl rfl id rfl hfeed (Or.inl hnone)⟩
  | isEstablished hnot hpc =>
    have hhand : s.inHand = [] := by simp [inHand, hpc]
    exact ⟨[], h.turn (by simp [hpc]) hhand rfl rfl rfl (fun _ => hnot) hhand h.feed h.fed⟩
  | otherBranch hpc =>
    have hnone : s.feed.current = none := by simpa [hpc, UdpPc.holdsDatagram] using h.fed
    exact ⟨[], h.turn (by simp [hpc]) (by simp [inHand, hpc]) rfl rfl rfl id rfl h.feed (Or.inl hnone)⟩
  | connSend b hpc hestablished =>
    have hnone : s.feed.current = none := by simpa [hpc, UdpPc.holdsDatagram] using h.fed
    have hmade := h.made
    rw [h.lost_eq (by simp [hpc])] at hmade
    simp only [inHand, hpc, List.append_nil] at hmade
    refine ⟨[], h.feed, Or.inl hnone, h.wire, ?_, fun hf => ?_, fun _ => rfl⟩
    · show s.wire.taken ++ s.udpDataSend.items ++ [b] ++ [] = s.made ++ [b]
      rw [List.append_nil, hmade]
    · cases hestablished.symm.trans hf
  | connSendEarly b wire hpc hnot htake =>
    have hnone : s.feed.current = none := by simpa [hpc, UdpPc.holdsDatagram] using h.fed
    obtain ⟨hwire, htaken, _⟩ := h.wire.take htake
    obtain ⟨hqueue, hhand⟩ := h.early hnot
    have hmade := h.made
    rw [h.lost_eq (by simp [hpc]), hhand, hqueue, List.append_nil, List.append_nil, List.append_nil] at hmade
    refine ⟨[], h.feed, Or.inl hnone, hwire, ?_, fun _ => ⟨hqueue, hhand⟩, fun _ => rfl⟩
    show wire.taken ++ s.udpDataSend.items ++ s.inHand ++ [] = s.made ++ [b]
    rw [hqueue, hhand, htaken, hmade, List.append_nil, List.append_nil, List.append_nil]
  | connSendEnd ok hpc =>
    have hnone : s.feed.current = none := by simpa [hpc, UdpPc.holdsDatagram] using h.fed
    refine ⟨[], h.turn (by simp [hpc]) (by simp [inHand, hpc]) rfl rfl rfl id ?_ h.feed (Or.inl hnone)⟩
    cases ok <;> rfl
  | handOn b ch hpc hch =>
    have hnone : s.feed.current = none := by simpa [hpc, UdpPc.holdsDatagram] using h.fed
    have hmade := h.made
    rw [h.lost_eq (by simp [hpc])] at hmade
    simp only [inHand, hpc, List.append_nil] at hmade
    refine ⟨[], h.feed, Or.inl hnone, h.wire, ?_, fun hf => ?_, fun _ => rfl⟩
    · show s.wire.taken ++ ch.items ++ [] ++ [] = s.made
      rw [Channel.items_of_send hch, List.append_nil, List.append_nil, ← List.append_assoc, hmade]
    -- only an established connection has a datagram to hand on
    · have hhand := (h.early hf).2
      simp [inHand, hpc] at hhand
  | handOnFailed b hpc =>
    have hnone : s.feed.current = none := by simpa [hpc, UdpPc.holdsDatagram] using h.fed
    have hmade := h.made
    rw [h.lost_eq (by simp [hpc])] at hmade
    simp only [inHand, hpc, List.append_nil] at hmade
    refine ⟨[b], h.feed, Or.inl hnone, h.wire, ?_, fun hf => ⟨(h.early hf).1, rfl⟩, fun hne => absurd rfl hne⟩
    show s.wire.taken ++ s.udpDataSend.items ++ [] ++ [b] = s.made
    rw [List.append_nil, hmade]
  | leave hpc =>
    have hnone : s.feed.current = none := by simpa [hpc, UdpPc.holdsDatagram] using h.fed
    exact ⟨[], h.turn (by simp [hpc]) (by simp [inHand, hpc]) rfl rfl rfl id rfl h.feed (Or.inl hnone)⟩
  | writerTake b ch wire hestablished hch htake =>
    obtain ⟨hwire, htaken, _⟩ := h.wire.take htake
    have hmade := h.made
    rw [Channel.items_of_recv hch] at hmade
    refine ⟨lost, h.feed, h.fed, hwire, ?_, fun hf => ?_, h.lost_eq⟩
    · show wire.taken ++ ch.items ++ s.inHand ++ lost = s.made
      rw [htaken, List.append_assoc s.wire.taken, List.singleton_append, hmade]
    · cases hestablished.symm.trans hf
  | socketSend n wire hpiece =>
    obtain ⟨hwire, htaken⟩ := h.wire.piece hpiece
    refine ⟨lost, h.feed, h.fed, hwire, ?_, h.early, h.lost_eq⟩
    show wire.taken ++ s.udpDataSend.items ++ s.inHand ++ lost = s.made
    rw [htaken, h.made]
  | socketFailed _ => exact ⟨lost, h.feed, h.fed, h.wire, h.made, h.early, h.lost_eq⟩
  | socketFailedEarly hnot =>
    obtain ⟨hqueue, hhand⟩ := h.early hnot
    have hmade := h.made
    rw [hhand] at hmade
    exact ⟨lost, h.feed, Or.inr rfl, h.wire, hmade, fun _ => ⟨hqueue, rfl⟩,
      fun hne => absurd rfl hne⟩
  | writeEnd wire hfinish =>
    obtain ⟨hwire, htaken, _⟩ := h.wire.finish hfinish
    refine ⟨lost, h.feed, h.fed, hwire, ?_, h.early, h.lost_eq⟩
    show wire.taken ++ s.udpDataSend.items ++ s.inHand ++ lost = s.made
    rw [htaken, h.made]
  | writerLeave => exact ⟨lost, h.feed, h.fed, h.wire, h.made, h.early, h.lost_eq⟩

theorem step_whole {e : UdpEvent} (h : s.feed.Whole ∧ s.wire.Whole) (hwhole : s.TakesWhole e)
    (hs : s.step e = some s') : s'.feed.Whole ∧ s'.wire.Whole := by
  obtain ⟨hfeed, hwire⟩ := h
  cases step_cases hs with
  | recv b feed _ htake => exact ⟨hfeed.take htake, hwire⟩
  | connRecv n feed _ hpiece => exact ⟨hfeed.piece hpiece hwhole, hwire⟩
  | recvEnd feed _ hfinish => exact ⟨hfeed.finish hfinish, hwire⟩
  | connSendEarly b wire _ _ htake => exact ⟨hfeed, hwire.take htake⟩
  | writerTake b ch wire _ _ htake => exact ⟨hfeed, hwire.take htake⟩
  | socketSend n wire hpiece => exact ⟨hfeed, hwire.piece hpiece hwhole⟩
  | writeEnd wire hfinish => exact ⟨hfeed, hwire.finish hfinish⟩
  | _ => exact ⟨hfeed, hwire⟩

/-- The task takes the datagrams of its events, none once it is gone. -/
theorem step_taken {e : UdpEvent} (hs : s.step e = some s') : s'.feed.taken = s.feed.taken ++ e.received := by
  cases step_cases hs with
  | recv b feed _ htake =>
    obtain ⟨_, rfl⟩ := Pump.take_eq_some htake
    rfl
  | connRecv n feed _ hpiece =>
    obtain ⟨_, _, _, _, _, rfl⟩ := Pump.piece_eq_some hpiece
    exact (List.append_nil _).symm
  | recvEnd feed _ hfinish =>
    obtain ⟨_, _, _, _, rfl⟩ := Pump.finish_eq_some hfinish
    exact (List.append_nil _).symm
  | _ => exact (List.append_nil _).symm

/-- A task that is gone stays gone. -/
theorem step_exited {e : UdpEvent} (hpc : s.pc = .exited) (hs : s.step e = some s') : s'.pc = .exited := by
  cases step_cases hs with
  | writerTake | socketSend | socketFailed | writeEnd | writerLeave => exact hpc
  | headerFailed | connRecvFailed | handOnFailed | socketFailedEarly | leave => rfl
  -- the others start from another place
  | _ => simp_all only [reduceCtorEq]

end Steps

/-- Either end starts with nothing in hand. -/
def Start (s : UdpTasks) : Prop := ∃ sendChanSize, s = accepted sendChanSize ∨ s = connected sendChanSize

theorem Start.conserved {s : UdpTasks} (h : s.Start) : Conserved s [] := by
  obtain ⟨sendChanSize, rfl | rfl⟩ := h
  · exact accepted_conserved sendChanSize
  · exact connected_conserved sendChanSize

theorem Start.whole {s : UdpTasks} (h : s.Start) : s.feed.Whole ∧ s.wire.Whole := by
  obtain ⟨sendChanSize, rfl | rfl⟩ := h
  · exact ⟨Pump.new_whole, Pump.new_whole⟩
  · exact ⟨Pump.new_whole, Pump.new_whole⟩

theorem Start.taken {s : UdpTasks} (h : s.Start) : s.feed.taken = [] := by
  obtain ⟨sendChanSize, rfl | rfl⟩ := h
  · rfl
  · rfl

/-- Both ways of the datagrams of a connection, through the handshake and after it.
`conn.recv` gets the datagrams that were taken, byte for byte and in order, and all of
them whenever the task is not at one; the socket gets those that `conn.send` made, and
while the task is up all of them once none is in hand or queued. As long as no call takes
less than it is given the boundaries of the datagrams are kept as well, but for empty
ones. -/
theorem datagrams_fed_and_sent (start : UdpTasks) (hstart : start.Start) (events : List UdpEvent) (s : UdpTasks)
    (hrun : Machine.run step start events = some s) :
    (s.feed.pieces.flatten <+: (events.flatMap UdpEvent.received).flatten ∧
      (s.pc.holdsDatagram = false → s.feed.pieces.flatten = (events.flatMap UdpEvent.received).flatten)) ∧
    (s.wire.pieces.flatten <+: s.made.flatten ∧
      (s.pc ≠ .exited → s.inHand = [] → s.udpDataSend.items = [] → s.wire.current = none →
        s.wire.pieces.flatten = s.made.flatten)) ∧
    (Machine.Meets step TakesWhole start events →
      s.feed.pieces <+: Pump.nonempty (events.flatMap UdpEvent.received) ∧
      s.wire.pieces <+: Pump.nonempty s.made) := by
  have hstep : ∀ s e s', (∃ lost, Conserved s lost) → s.step e = some s' → ∃ lost, Conserved s' lost := by
    rintro s e s' ⟨lost, h⟩ hs
    exact step_conserved h hs
  obtain ⟨lost, h⟩ := Machine.run_invariant hstep ⟨[], hstart.conserved⟩ hrun
  have htaken : s.feed.taken = events.flatMap UdpEvent.received := by
    have hcollect := Machine.run_collect (fun _ _ _ hs => step_taken hs) hrun
    rwa [hstart.taken, List.nil_append] at hcollect
  have hmade : s.wire.taken <+: s.made := by
    rw [← h.made, List.append_assoc, List.append_assoc]
    exact List.prefix_append _ _
  refine ⟨⟨htaken ▸ h.feed.pieces_front, fun hpc => ?_⟩, ⟨?_, fun hup hhand hqueue hnone => ?_⟩, fun hwhole => ?_⟩
  · have hnone : s.feed.current = none := by simpa [hpc] using h.fed
    rw [h.feed.pieces_of_none hnone, htaken]
  · exact h.wire.pieces_front.trans hmade.flatten
  · have hall := h.made
    rw [h.lost_eq hup, hhand, hqueue] at hall
    simp only [List.append_nil] at hall
    rw [h.wire.pieces_of_none hnone, hall]
  · obtain ⟨hfeed, hwire⟩ := Machine.run_invariant_of_meets (fun _ _ _ h hw hs => step_whole h hw hs)
      hstart.whole hwhole hrun
    exact ⟨htaken ▸ hfeed.pieces_front, hwire.pieces_front.trans (hmade.filter _)⟩

/-- A server's connection: a handshake of one datagram each way, a datagram of the
peer taken in two pieces, and an answer that is on its way. -/
def acceptedEvents : List UdpEvent :=
  [.recv [1, 2], .header true true, .connRecv (some 2), .recvEnd, .connSend [7, 8], .socketSend (some 2),
    .writeEnd, .connSendEnd true, .isEstablished, .recv [3, 4], .connRecv (some 1), .connRecv (some 1), .recvEnd,
    .connSend [9], .handOn, .connSendEnd true, .writerTake]

theorem datagrams_fed_and_sent_accepted :
    ∃ s, Machine.run step (accepted 1) acceptedEvents = some s ∧ s.feed.pieces = [[1, 2], [3], [4]] ∧
      s.feed.pieces.flatten = [1, 2, 3, 4] ∧ s.wire.pieces.flatten <+: s.made.flatten := by
  have hend : (Machine.run step (accepted 1) acceptedEvents).any
      (fun s => decide (s.feed.pieces = [[1, 2], [3], [4]] ∧ s.pc.holdsDatagram = false)) = true := by decide +kernel
  obtain ⟨s, hrun, h⟩ := (Option.any_eq_true _ _).mp hend
  obtain ⟨hpieces, hpc⟩ := of_decide_eq_true h
  obtain ⟨⟨_, hfed⟩, ⟨hwire, _⟩, _⟩ := datagrams_fed_and_sent (accepted 1) ⟨1, Or.inl rfl⟩ acceptedEvents s hrun
  exact ⟨s, hrun, hpieces, hfed hpc, hwire⟩

end UdpTasks

end QuoteLink

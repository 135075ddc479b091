import QuoteLink.AcceptLoop
import QuoteLink.Machine

namespace QuoteLink

namespace AcceptLoop

/-- The addresses of the connections, in the order they were accepted, with what
arrived for each. -/
def history (s : AcceptLoop) : List (String × List Bytes) := s.channels.map fun ch => (ch.peerAddr, ch.arrived)

/-- What was routed to the connections of an address, one after the other. -/
def arrivedFrom (peer : String) (history : List (String × List Bytes)) : List Bytes :=
  (history.filter fun x => x.1 = peer).flatMap (·.2)

/-- The datagrams an address sent. -/
def sentBy (peer : String) (arrivals : List (String × Bytes)) : List Bytes :=
  (arrivals.filter fun x => x.1 = peer).map (·.2)

/-- The datagrams of all connections with their addresses. -/
def allArrived (history : List (String × List Bytes)) : List (String × Bytes) :=
  history.flatMap fun x => x.2.map fun data => (x.1, data)

/-- Every datagram read from the socket is in one of the connections of its address or
was dropped, because the last connection of its address is closed. -/
structure Delivers (conf : AcceptConfig) (s : AcceptLoop) : Prop where
  inOrder : ∀ peer, (arrivedFrom peer s.history).Sublist (sentBy peer s.arrivals)
  conserved : (allArrived s.history ++ s.dropped).Perm s.arrivals
  dropped : 0 < conf.recvChanSize → ∀ x ∈ s.dropped, ∃ ch ∈ s.channels, ch.peerAddr = x.1 ∧ ch.closed = true

section Delivery

variable {conf : AcceptConfig} {s s' : AcceptLoop} {e : AcceptEvent}

theorem sentBy_snoc (peer p : String) (data : Bytes) (arrivals : List (String × Bytes)) :
    sentBy p (arrivals ++ [(peer, data)]) = sentBy p arrivals ++ (if peer = p then [data] else []) := by
  by_cases heq : peer = p
  · simp [sentBy, heq]
  · simp [sentBy, heq]

theorem arrivedFrom_snoc (peer p : String) (data : Bytes) (history : List (String × List Bytes)) :
    arrivedFrom p (history ++ [(peer, [data])]) =
      arrivedFrom p history ++ (if peer = p then [data] else []) := by
  by_cases heq : peer = p
  · simp [arrivedFrom, heq]
  · simp [arrivedFrom, heq]

theorem allArrived_snoc (peer : String) (data : Bytes) (history : List (String × List Bytes)) :
    allArrived (history ++ [(peer, [data])]) = allArrived history ++ [(peer, data)] := by
  simp [allArrived]

/-- One more datagram for the last connection of an address. -/
theorem arrivedFrom_extend {before after : List (String × List Bytes)} {peer : String} (datas : List Bytes)
    (data : Bytes) (hafter : ∀ x ∈ after, x.1 ≠ peer) (p : String) :
    arrivedFrom p (before ++ (peer, datas ++ [data]) :: after) =
      arrivedFrom p (before ++ (peer, datas) :: after) ++ (if peer = p then [data] else []) := by
  by_cases heq : peer = p
  · have hnone : after.filter (fun x => x.1 = p) = [] := by
      refine List.filter_eq_nil_iff.mpr fun x hx => ?_
      simpa [heq] using hafter x hx
    simp [arrivedFrom, heq, hnone]
  · simp [arrivedFrom, heq]

theorem allArrived_extend (before after : List (String × List Bytes)) (peer : String) (datas : List Bytes)
    (data : Bytes) :
    (allArrived (before ++ (peer, datas ++ [data]) :: after)).Perm
      (allArrived (before ++ (peer, datas) :: after) ++ [(peer, data)]) := by
  simp only [allArrived, List.flatMap_append, List.flatMap_cons, List.map_append, List.append_assoc,
    List.map_cons, List.map_nil]
  refine List.Perm.append_left _ (List.Perm.append_left _ ?_)
  exact List.perm_append_comm

theorem history_set_kept {c : Nat} {ch ch' : DatagramChannel} (hch : s.channels[c]? = some ch)
    (hkept : ch.Kept ch') : (s.channels.set c ch').map (fun ch => (ch.peerAddr, ch.arrived)) = s.history := by
  obtain ⟨hlt, hget⟩ := List.getElem?_eq_some_iff.mp hch
  have hlen : c < (s.channels.map fun ch => (ch.peerAddr, ch.arrived)).length := by
    rw [List.length_map]
    exact hlt
  have hsame : (ch'.peerAddr, ch'.arrived) = (s.channels.map fun ch => (ch.peerAddr, ch.arrived))[c] := by
    rw [List.getElem_map, hget, hkept.peerAddr, hkept.arrived]
  rw [List.map_set, hsame, List.set_getElem_self, history]

theorem Delivers.kept (h : Delivers conf s) {c : Nat} {ch ch' : DatagramChannel}
    (hch : s.channels[c]? = some ch) (hkept : ch.Kept ch') :
    Delivers conf { s with channels := s.channels.set c ch' } := by
  have hhistory : history { s with channels := s.channels.set c ch' } = s.history := history_set_kept hch hkept
  refine ⟨?_, ?_, ?_⟩
  · rw [hhistory]
    exact h.inOrder
  · rw [hhistory]
    exact h.conserved
  · intro hsize x hx
    obtain ⟨y, hy, hpeer, hclosed⟩ := h.dropped hsize x hx
    obtain ⟨d, hd, hget⟩ := List.getElem_of_mem hy
    by_cases heq : c = d
    · subst heq
      have hsame : ch = y := Option.some.inj (hch.symm.trans (List.getElem?_eq_some_iff.mpr ⟨hd, hget⟩))
      subst hsame
      exact ⟨ch', List.mem_set hd ch', hkept.peerAddr.trans hpeer, hkept.closed hclosed⟩
    · have hother : (s.channels.set c ch')[d]? = some y := by
        rw [List.getElem?_set_ne heq]
        exact List.getElem?_eq_some_iff.mpr ⟨hd, hget⟩
      exact ⟨y, List.mem_of_getElem? hother, hpeer, hclosed⟩

theorem Delivers.drop (h : Delivers conf s) (peer : String) (data : Bytes)
    (hclosed : 0 < conf.recvChanSize → ∃ ch ∈ s.channels, ch.peerAddr = peer ∧ ch.closed = true) :
    Delivers conf { s with
      arrivals := s.arrivals ++ [(peer, data)]
      dropped := s.dropped ++ [(peer, data)] } := by
  refine ⟨?_, ?_, ?_⟩
  · intro p
    rw [sentBy_snoc]
    exact (h.inOrder p).trans (List.sublist_append_left _ _)
  · show (allArrived s.history ++ (s.dropped ++ [(peer, data)])).Perm (s.arrivals ++ [(peer, data)])
    rw [← List.append_assoc]
    exact h.conserved.append_right _
  · intro hsize x hx
    rcases List.mem_append.mp hx with hx | hx
    · exact h.dropped hsize x hx
    · rw [List.mem_singleton.mp hx]
      exact hclosed hsize

/-- A datagram for an open connection goes to the last one of its address. -/
theorem Delivers.push (h : Delivers conf s) (hs : s.Sound) {c : Nat} {ch : DatagramChannel}
    (hch : s.channels[c]? = some ch) (hopen : ch.closed = false) (data : Bytes) :
    Delivers conf { s with
      channels := s.channels.set c (ch.push data)
      arrivals := s.arrivals ++ [(ch.peerAddr, data)] } := by
  obtain ⟨hlt, hget⟩ := List.getElem?_eq_some_iff.mp hch
  have hsplit : s.channels = s.channels.take c ++ ch :: s.channels.drop (c + 1) := by
    rw [← hget, List.getElem_cons_drop, List.take_append_drop]
  have hset : s.channels.set c (ch.push data) =
      s.channels.take c ++ ch.push data :: s.channels.drop (c + 1) :=
    List.set_eq_take_append_cons_drop.trans (if_pos hlt)
  have hafter : ∀ x ∈ (s.channels.drop (c + 1)).map (fun ch => (ch.peerAddr, ch.arrived)), x.1 ≠ ch.peerAddr := by
    intro x hx hpeer
    obtain ⟨y, hy, rfl⟩ := List.mem_map.mp hx
    obtain ⟨j, hj⟩ := List.mem_iff_getElem?.mp hy
    rw [List.getElem?_drop] at hj
    have hclosed := hs.single c (c + 1 + j) ch y (by omega) hch hj hpeer.symm
    rw [hopen] at hclosed
    cases hclosed
  have hold : s.history = (s.channels.take c).map (fun ch => (ch.peerAddr, ch.arrived)) ++
      (ch.peerAddr, ch.arrived) :: (s.channels.drop (c + 1)).map fun ch => (ch.peerAddr, ch.arrived) := by
    conv_lhs => rw [history, hsplit, List.map_append, List.map_cons]
  have hnew : (s.channels.set c (ch.push data)).map (fun ch => (ch.peerAddr, ch.arrived)) =
      (s.channels.take c).map (fun ch => (ch.peerAddr, ch.arrived)) ++
      (ch.peerAddr, ch.arrived ++ [data]) ::
        (s.channels.drop (c + 1)).map fun ch => (ch.peerAddr, ch.arrived) := by
    rw [hset, List.map_append, List.map_cons, ch.peerAddr_push, ch.arrived_push]
  refine ⟨?_, ?_, ?_⟩
  · intro p
    show (arrivedFrom p ((s.channels.set c (ch.push data)).map _)).Sublist _
    rw [hnew, arrivedFrom_extend ch.arrived data hafter, ← hold, sentBy_snoc]
    exact (h.inOrder p).append (List.Sublist.refl _)
  · show (allArrived ((s.channels.set c (ch.push data)).map _) ++ s.dropped).Perm _
    rw [hnew]
    refine ((allArrived_extend _ _ ch.peerAddr ch.arrived data).append_right s.dropped).trans ?_
    rw [← hold, List.append_assoc]
    refine (List.perm_append_comm.append_left _).trans ?_
    rw [← List.append_assoc]
    exact h.conserved.append_right _
  · intro hsize x hx
    obtain ⟨y, hy, hpeer, hclosed⟩ := h.dropped hsize x hx
    obtain ⟨d, hd, hy⟩ := List.getElem_of_mem hy
    have hne : c ≠ d := by
      rintro rfl
      rw [← hy, hget, hopen] at hclosed
      cases hclosed
    have hother : (s.channels.set c (ch.push data))[d]? = some y := by
      rw [List.getElem?_set_ne hne]
      exact List.getElem?_eq_some_iff.mpr ⟨hd, hy⟩
    exact ⟨y, List.mem_of_getElem? hother, hpeer, hclosed⟩

theorem Delivers.opened (h : Delivers conf s) {peer : String} {data : Bytes} {queue : Channel Bytes}
    {routes : AList fun _ : String => Nat} {announcing : List Nat} :
    Delivers conf { s with
      channels := s.channels ++ [⟨peer, [data], queue, [], [], false⟩]
      routes := routes
      announcing := announcing
      arrivals := s.arrivals ++ [(peer, data)] } := by
  have hnew : (s.channels ++ [(⟨peer, [data], queue, [], [], false⟩ : DatagramChannel)]).map
      (fun ch => (ch.peerAddr, ch.arrived)) = s.history ++ [(peer, [data])] := List.map_append
  refine ⟨?_, ?_, ?_⟩
  · intro p
    show (arrivedFrom p ((s.channels ++ [_]).map _)).Sublist _
    rw [hnew, arrivedFrom_snoc, sentBy_snoc]
    exact (h.inOrder p).append (List.Sublist.refl _)
  · show (allArrived ((s.channels ++ [_]).map _) ++ s.dropped).Perm _
    rw [hnew, allArrived_snoc, List.append_assoc]
    refine (List.perm_append_comm.append_left _).trans ?_
    rw [← List.append_assoc]
    exact h.conserved.append_right _
  · intro hsize x hx
    obtain ⟨y, hy, hpeer, hclosed⟩ := h.dropped hsize x hx
    exact ⟨y, List.mem_append_left _ hy, hpeer, hclosed⟩

theorem step_delivers (h : Delivers conf s) (hs : s.Sound) (hstep : s.step conf e = some s') :
    Delivers conf s' := by
  cases step_cases hstep with
  | tick _ => exact ⟨h.inOrder, h.conserved, h.dropped⟩
  | opened peer data queue _ _ _ => exact h.opened
  | refused peer data hsize => exact h.drop peer _ fun hpos => absurd hsize (Nat.ne_of_gt hpos)
  | skipped peer data c ch hroute hch hclosed =>
    obtain ⟨ch', hch', hpeer⟩ := hs.routes peer c hroute
    cases hch.symm.trans hch'
    exact h.drop peer _ fun _ => ⟨ch, List.mem_of_getElem? hch, hpeer, hclosed⟩
  | pushed peer data c ch hroute hch hopen =>
    obtain ⟨ch', hch', hpeer⟩ := hs.routes peer c hroute
    cases hch.symm.trans hch'
    subst hpeer
    exact h.push hs hch hopen _
  | recvFailed => exact ⟨h.inOrder, h.conserved, h.dropped⟩
  | sendDeferred c i ch ch' hch hmove =>
    obtain ⟨_, hkept⟩ := (hs.channels ch (List.mem_of_getElem? hch)).sendDeferred hmove
    exact h.kept hch hkept
  | recv c ch ch' hch hmove =>
    obtain ⟨_, hkept⟩ := (hs.channels ch (List.mem_of_getElem? hch)).recv hmove
    exact h.kept hch hkept
  | close c ch ch' hch hmove =>
    obtain ⟨_, hkept⟩ := (hs.channels ch (List.mem_of_getElem? hch)).close hmove
    exact h.kept hch hkept
  | announced i c _ => exact ⟨h.inOrder, h.conserved, h.dropped⟩

theorem new_delivers (conf : AcceptConfig) : Delivers conf new where
  inOrder := fun _ => List.Sublist.refl _
  conserved := List.Perm.refl _
  dropped := by
    intro _ x hx
    cases hx

theorem run_sound {events : List AcceptEvent} (hrun : Machine.run (step conf) new events = some s) :
    s.Sound ∧ Delivers conf s := by
  have hstep : ∀ s e s', (s.Sound ∧ Delivers conf s) → s.step conf e = some s' →
      s'.Sound ∧ Delivers conf s' :=
    fun s e s' h hs => ⟨step_sound h.1 hs, step_delivers h.2 h.1 hs⟩
  exact Machine.run_invariant hstep ⟨new_sound, new_delivers conf⟩ hrun

theorem step_arrivals (hstep : s.step conf e = some s') : s'.arrivals = s.arrivals ++ e.datagram conf := by
  cases step_cases hstep with
  | opened | refused | skipped | pushed => rfl
  | _ => exact (List.append_nil _).symm

end Delivery

/-- A datagram for an open connection finds room in its channel. -/
def Roomy (s : AcceptLoop) : AcceptEvent → Prop
  | .recvFrom peer _ =>
    ((s.routes.lookup peer).all fun c => (s.channels[c]?).all fun ch => ch.closed || !decide ch.queue.Full) = true
  | _ => True

instance (s : AcceptLoop) : ∀ e, Decidable (s.Roomy e)
  | .recvFrom _ _ => inferInstanceAs (Decidable (_ = true))
  | .tick | .recvFailed | .sendDeferred _ _ | .recv _ | .close _ | .announced _ => isTrue trivial

section InOrder

variable {conf : AcceptConfig} {s s' : AcceptLoop} {e : AcceptEvent}

def InOrder (s : AcceptLoop) : Prop := ∀ ch ∈ s.channels, ch.InOrder

theorem InOrder.set (h : s.InOrder) {ch' : DatagramChannel} (h' : ch'.InOrder) (c : Nat) :
    ∀ ch ∈ s.channels.set c ch', ch.InOrder := by
  intro ch hch
  rcases List.mem_or_eq_of_mem_set hch with hch | rfl
  · exact h ch hch
  · exact h'

theorem step_inOrder (h : s.InOrder) (hroomy : s.Roomy e) (hs : s.step conf e = some s') : s'.InOrder := by
  cases step_cases hs with
  | opened peer data queue _ _ hqueue =>
    intro ch hch
    rcases List.mem_append.mp hch with hch | hch
    · exact h ch hch
    · rw [List.mem_singleton.mp hch]
      exact ⟨rfl, Channel.items_of_send hqueue⟩
  | pushed peer data c ch hroute hch hopen =>
    have hroom : ¬ch.queue.Full := by simpa [Roomy, hroute, hch, hopen] using hroomy
    exact h.set ((h ch (List.mem_of_getElem? hch)).push hroom _) c
  | sendDeferred c i ch ch' hch hmove =>
    have hnone := (h ch (List.mem_of_getElem? hch)).sendDeferred_eq_none i
    rw [hnone] at hmove
    cases hmove
  | recv c ch ch' hch hmove => exact h.set ((h ch (List.mem_of_getElem? hch)).recv hmove) c
  | close c ch ch' hch hmove => exact h.set ((h ch (List.mem_of_getElem? hch)).close hmove) c
  | _ => exact h

end InOrder

/-- The routing table over whole runs: an address has one open connection at most, which
its datagrams are routed to as long as the loop runs; each connection is put on
`accept_tx` once; and after a turn of the ticker the table holds the open connections
and nothing else. -/
theorem one_open_connection (conf : AcceptConfig) (events : List AcceptEvent) (s : AcceptLoop)
    (hrun : Machine.run (step conf) new events = some s) :
    (∀ (c d : Nat) (ch ch' : DatagramChannel), s.channels[c]? = some ch → s.channels[d]? = some ch' →
      ch.closed = false → ch'.closed = false → ch.peerAddr = ch'.peerAddr → c = d) ∧
    (s.stopped = false → ∀ (c : Nat) (ch : DatagramChannel), s.channels[c]? = some ch → ch.closed = false →
      s.routes.lookup ch.peerAddr = some c) ∧
    (s.accepted ++ s.announcing).Perm (List.range s.channels.length) ∧
    ∀ s', s.step conf .tick = some s' → ∀ peer c, s'.routes.lookup peer = some c ↔
      ∃ ch : DatagramChannel, s'.channels[c]? = some ch ∧ ch.peerAddr = peer ∧ ch.closed = false := by
  obtain ⟨h, _⟩ := run_sound hrun
  refine ⟨?_, h.routed, h.announced, ?_⟩
  · intro c d ch ch' hch hch' hopen hopen' hpeer
    have hle : ¬c < d := by
      intro hlt
      rw [h.single c d ch ch' hlt hch hch' hpeer] at hopen
      cases hopen
    have hge : ¬d < c := by
      intro hlt
      rw [h.single d c ch' ch hlt hch' hch hpeer.symm] at hopen'
      cases hopen'
    omega
  · intro s' hs' peer c
    cases step_cases hs' with
    | tick hup =>
      show s.sweep.lookup peer = some c ↔ _
      rw [lookup_sweep_eq_some]
      constructor
      · rintro ⟨hroute, hopen⟩
        obtain ⟨ch, hch, hpeer⟩ := h.routes peer c hroute
        refine ⟨ch, hch, hpeer, ?_⟩
        simpa [isOpen, hch] using hopen
      · rintro ⟨ch, hch, rfl, hopen⟩
        exact ⟨h.routed hup c ch hch hopen, isOpen_of hch hopen⟩

/-- No datagram is lost, doubled or routed to another peer by the accept loop. What is
routed to the connections of an address are, connection after connection, datagrams of
this address in the order they were read; together with the dropped ones they are all
that were read, and one is dropped only if a connection of its address is closed. A
connection receives each of its datagrams at most once, and as long as it is open each
was received, is queued, or is about to be queued; the one that opened the connection is
the first its handshake receives. -/
theorem datagrams_conserved (conf : AcceptConfig) (events : List AcceptEvent) (s : AcceptLoop)
    (hrun : Machine.run (step conf) new events = some s) (hsize : 0 < conf.recvChanSize) :
    (∀ peer, (arrivedFrom peer s.history).Sublist
      (sentBy peer (events.flatMap fun e => e.datagram conf))) ∧
    (allArrived s.history ++ s.dropped).Perm (events.flatMap fun e => e.datagram conf) ∧
    (∀ x ∈ s.dropped, ∃ ch ∈ s.channels, ch.peerAddr = x.1 ∧ ch.closed = true) ∧
    ∀ ch ∈ s.channels, (∃ rest, (ch.received ++ rest).Perm ch.arrived) ∧
      (ch.closed = false → (ch.received ++ ch.queue.items ++ ch.deferred).Perm ch.arrived) ∧
      ∃ data, ch.arrived.head? = some data ∧ (ch.received ++ ch.queue.items).head? = some data := by
  obtain ⟨hsound, hdelivers⟩ := run_sound hrun
  have hstep : ∀ (s : AcceptLoop) e s', s.step conf e = some s' → s'.arrivals = s.arrivals ++ e.datagram conf :=
    fun _ _ _ hs => step_arrivals hs
  have harrivals : s.arrivals = events.flatMap fun e => e.datagram conf := Machine.run_collect hstep hrun
  rw [← harrivals]
  refine ⟨hdelivers.inOrder, hdelivers.conserved, hdelivers.dropped hsize, ?_⟩
  intro ch hch
  obtain ⟨⟨lost, hperm, hlost⟩, hfirst⟩ := hsound.channels ch hch
  refine ⟨(hsound.channels ch hch).received.1, fun hopen => ?_, hfirst⟩
  rw [hlost hopen, List.append_nil] at hperm
  exact hperm

/-- If no datagram finds its channel full, every connection gets its datagrams in the
order they were read from the socket. -/
theorem datagrams_in_order (conf : AcceptConfig) (events : List AcceptEvent) (s : AcceptLoop)
    (hroomy : Machine.Meets (step conf) Roomy new events)
    (hrun : Machine.run (step conf) new events = some s) :
    ∀ ch ∈ s.channels, ch.deferred = [] ∧ ch.received ++ ch.queue.items = ch.arrived := by
  have hstep : ∀ s e s', InOrder s → s.Roomy e → s.step conf e = some s' → s'.InOrder :=
    fun _ _ _ h hr hs => step_inOrder h hr hs
  have hnew : new.InOrder := by
    intro ch hch
    cases hch
  exact Machine.run_invariant_of_meets hstep hnew hroomy hrun

/-- Two peers; the first one's connection ends and a new one is opened after a turn of the
ticker. In between one datagram is dropped, and one finds the channel full. -/
def acceptEvents : List AcceptEvent :=
  [.recvFrom "a" [1], .recvFrom "b" [2], .recvFrom "a" [3], .announced 1, .recv 0, .recv 0, .close 0,
    .recvFrom "a" [4], .recvFrom "b" [5], .recvFrom "b" [6], .tick, .recvFrom "a" [7], .announced 0,
    .recv 1, .sendDeferred 1 0]

theorem one_open_connection_reopened :
    ∃ s, Machine.run (step ⟨1500, 2⟩) new acceptEvents = some s ∧ s.routes.lookup "a" = some 2 ∧
      (s.accepted ++ s.announcing).Perm (List.range s.channels.length) := by
  have hend : (Machine.run (step ⟨1500, 2⟩) new acceptEvents).any
      (fun s => s.routes.lookup "a" == some 2) = true := by decide +kernel
  obtain ⟨s, hrun, hroute⟩ := (Option.any_eq_true _ _).mp hend
  exact ⟨s, hrun, beq_iff_eq.mp hroute, (one_open_connection ⟨1500, 2⟩ acceptEvents s hrun).2.2.1⟩

theorem datagrams_conserved_reopened :
    ∃ s, Machine.run (step ⟨1500, 2⟩) new acceptEvents = some s ∧ s.dropped = [("a", [4])] ∧
      (allArrived s.history ++ s.dropped).Perm
        [("a", [1]), ("b", [2]), ("a", [3]), ("a", [4]), ("b", [5]), ("b", [6]), ("a", [7])] := by
  have hend : (Machine.run (step ⟨1500, 2⟩) new acceptEvents).any
      (fun s => s.dropped == [("a", [4])]) = true := by decide +kernel
  obtain ⟨s, hrun, hdropped⟩ := (Option.any_eq_true _ _).mp hend
  exact ⟨s, hrun, beq_iff_eq.mp hdropped,
    (datagrams_conserved ⟨1500, 2⟩ acceptEvents s hrun (by decide)).2.1⟩

theorem datagrams_in_order_reopened :
    ∃ s, Machine.run (step ⟨1500, 3⟩) new (acceptEvents.take 14) = some s ∧
      ∀ ch ∈ s.channels, ch.deferred = [] ∧ ch.received ++ ch.queue.items = ch.arrived := by
  have hsome : (Machine.run (step ⟨1500, 3⟩) new (acceptEvents.take 14)).isSome = true := by decide +kernel
  obtain ⟨s, hrun⟩ := Option.isSome_iff_exists.mp hsome
  exact ⟨s, hrun, datagrams_in_order ⟨1500, 3⟩ (acceptEvents.take 14) s (by decide +kernel) hrun⟩

end AcceptLoop

end QuoteLink

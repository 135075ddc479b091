import QuoteLink.AcceptDelivery
import QuoteLink.UdpTasks

namespace QuoteLink

/-- `listen_at`, with the tasks that `accept_new_conn` has spawned for the connections. -/
structure ServerDatagrams where
  accept : AcceptLoop
  tasks : List UdpTasks

inductive ServerDatagramsEvent
  | accept (e : AcceptEvent)
  | task (c : Nat) (e : UdpEvent)
  deriving DecidableEq, Repr

/-- The receiver of a channel belongs to the task of its connection. -/
def AcceptEvent.byTask : AcceptEvent → Bool
  | .recv _ => true
  | .close _ => true
  | _ => false

namespace ServerDatagrams

def new : ServerDatagrams := ⟨.new, []⟩

def spawned (sendChanSize : Nat) (s : ServerDatagrams) (a : AcceptLoop) : ServerDatagrams :=
  ⟨a, s.tasks ++ List.replicate (a.channels.length - s.tasks.length) (.accepted sendChanSize)⟩

/-- A step of a task takes the next datagram from its channel, or closes the channel if
it is the task's last. -/
def onChannel (conf : AcceptConfig) (s : ServerDatagrams) (c : Nat) (e : UdpEvent) (t t' : UdpTasks) :
    Option AcceptLoop :=
  match e with
  | .recv b =>
    if ((s.accept.channels[c]?).bind fun ch => ch.queue.items.head?) = some b then s.accept.step conf (.recv c)
    else none
  | _ =>
    if t'.pc = .exited ∧ t.pc ≠ .exited then s.accept.step conf (.close c) else some s.accept

def step (conf : AcceptConfig) (sendChanSize : Nat) (s : ServerDatagrams) :
    ServerDatagramsEvent → Option ServerDatagrams
  | .accept e => if e.byTask then none else (s.accept.step conf e).map (s.spawned sendChanSize)
  | .task c e =>
    (s.tasks[c]?).bind fun t => (t.step e).bind fun t' =>
      (s.onChannel conf c e t t').map fun a => ⟨a, s.tasks.set c t'⟩

/-- The datagrams an event reads from the socket. -/
def datagram (conf : AcceptConfig) : ServerDatagramsEvent → List (String × Bytes)
  | .accept e => e.datagram conf
  | .task _ _ => []

/-- The task of a connection has what was received from its channel, which is closed
once the task is gone. -/
structure Served (t : UdpTasks) (ch : DatagramChannel) : Prop where
  taken : t.feed.taken = ch.received
  closed : ch.closed = true ↔ t.pc = .exited
  conserved : ∃ lost, t.Conserved lost

structure Joined (conf : AcceptConfig) (s : ServerDatagrams) : Prop where
  sound : s.accept.Sound
  delivers : s.accept.Delivers conf
  length : s.tasks.length = s.accept.channels.length
  served : ∀ (c : Nat) (t : UdpTasks) (ch : DatagramChannel), s.tasks[c]? = some t →
    s.accept.channels[c]? = some ch → Served t ch

section Steps

variable {conf : AcceptConfig} {sendChanSize : Nat} {s s' : ServerDatagrams} {a : AcceptLoop}

/-- The accept loop and the spawned sends leave what the tasks have received, and close
nothing; a new channel is open and untouched. -/
theorem accept_frame {e : AcceptEvent} (htask : e.byTask = false) (hs : s.accept.step conf e = some a) :
    s.accept.channels.length ≤ a.channels.length ∧ ∀ (c : Nat) (ch : DatagramChannel), a.channels[c]? = some ch →
      (∃ old, s.accept.channels[c]? = some old ∧ ch.received = old.received ∧ ch.closed = old.closed) ∨
      s.accept.channels.length ≤ c ∧ ch.received = [] ∧ ch.closed = false := by
  have hset : ∀ (c : Nat) (ch ch' : DatagramChannel), s.accept.channels[c]? = some ch →
      ch'.received = ch.received → ch'.closed = ch.closed →
      ∀ (d : Nat) (x : DatagramChannel), (s.accept.channels.set c ch')[d]? = some x →
      ∃ old, s.accept.channels[d]? = some old ∧ x.received = old.received ∧ x.closed = old.closed := by
    intro c ch ch' hch hreceived hclosed d x hx
    rcases AcceptLoop.getElem?_set_cases hx with ⟨rfl, rfl⟩ | hx
    · exact ⟨ch, hch, hreceived, hclosed⟩
    · exact ⟨x, hx, rfl, rfl⟩
  cases AcceptLoop.step_cases hs with
  | opened peer data queue _ _ _ =>
    refine ⟨by simp, fun c ch hch => ?_⟩
    rcases getElem?_snoc_cases hch with hch | ⟨rfl, rfl⟩
    · exact Or.inl ⟨ch, hch, rfl, rfl⟩
    · exact Or.inr ⟨Nat.le_refl _, rfl, rfl⟩
  | pushed peer data c ch _ hch _ =>
    refine ⟨by simp, fun d x hx => Or.inl ?_⟩
    exact hset c ch _ hch (ch.received_push _) (ch.closed_push _) d x hx
  | sendDeferred c i ch ch' hch hmove =>
    refine ⟨by simp, fun d x hx => Or.inl ?_⟩
    exact hset c ch ch' hch (DatagramChannel.received_of_sendDeferred hmove)
      (DatagramChannel.closed_of_sendDeferred hmove) d x hx
  | recv => cases htask
  | close => cases htask
  | _ => exact ⟨Nat.le_refl _, fun c ch hch => Or.inl ⟨ch, hch, rfl, rfl⟩⟩

theorem accepted_served {ch : DatagramChannel} (hreceived : ch.received = []) (hopen : ch.closed = false) :
    Served (.accepted sendChanSize) ch where
  taken := hreceived.symm
  closed := iff_of_false (by simp [hopen]) (by simp [UdpTasks.accepted])
  conserved := ⟨[], UdpTasks.accepted_conserved sendChanSize⟩

theorem onChannel_of_other {c : Nat} {e : UdpEvent} {t t' : UdpTasks} (hnone : e.received = []) :
    s.onChannel conf c e t t' =
      if t'.pc = .exited ∧ t.pc ≠ .exited then s.accept.step conf (.close c) else some s.accept := by
  cases e with
  | recv b => cases hnone
  | _ => rfl

/-- The task takes the datagram that its channel hands over. -/
theorem recv_served {c : Nat} {b : Bytes} {t t' : UdpTasks} {ch : DatagramChannel} (h : Served t ch)
    (hch : s.accept.channels[c]? = some ch) (ht : t.step (.recv b) = some t')
    (ha : s.onChannel conf c (.recv b) t t' = some a) :
    ∃ ch', a.channels = s.accept.channels.set c ch' ∧ Served t' ch' := by
  obtain ⟨lost, hc⟩ := h.conserved
  have htaken := UdpTasks.step_taken ht
  have hstays : t'.pc ≠ .exited := by
    cases UdpTasks.step_cases ht with
    | recv b feed _ _ => cases t.established <;> exact UdpPc.noConfusion
  simp only [onChannel, hch, Option.bind_some, Option.ite_none_right_eq_some] at ha
  obtain ⟨hhead, ha⟩ := ha
  cases AcceptLoop.step_cases ha with
  | recv _ ch₀ ch' hch₀ hmove =>
    cases hch.symm.trans hch₀
    have hclosed := DatagramChannel.closed_of_recv hmove
    unfold DatagramChannel.recv at hmove
    split at hmove
    next data queue hopen hrecv =>
      cases hmove
      rw [Channel.items_of_recv hrecv] at hhead
      cases hhead
      refine ⟨_, rfl, ?_, ?_, UdpTasks.step_conserved hc ht⟩
      · show t'.feed.taken = ch.received ++ [b]
        rw [htaken, h.taken]
        rfl
      · rw [hclosed]
        exact iff_of_false (by simp [hopen]) hstays
    next => cases hmove

/-- What the step of a task does to its channel. -/
theorem step_served {c : Nat} {e : UdpEvent} {t t' : UdpTasks} {ch : DatagramChannel} (h : Served t ch)
    (hch : s.accept.channels[c]? = some ch) (ht : t.step e = some t') (ha : s.onChannel conf c e t t' = some a) :
    ∃ ch', a.channels = s.accept.channels.set c ch' ∧ Served t' ch' := by
  by_cases hnone : e.received = []
  · obtain ⟨lost, hc⟩ := h.conserved
    have htaken : t'.feed.taken = ch.received := by
      rw [UdpTasks.step_taken ht, hnone, List.append_nil, h.taken]
    rw [onChannel_of_other hnone] at ha
    by_cases hgone : t'.pc = .exited ∧ t.pc ≠ .exited
    · rw [if_pos hgone] at ha
      cases AcceptLoop.step_cases ha with
      | close _ ch₀ ch' hch₀ hmove =>
        cases hch.symm.trans hch₀
        have hclosed := DatagramChannel.closed_of_close hmove
        have hreceived := DatagramChannel.received_of_close hmove
        exact ⟨ch', rfl, htaken.trans hreceived.symm, iff_of_true hclosed hgone.1, UdpTasks.step_conserved hc ht⟩
    · rw [if_neg hgone] at ha
      cases ha
      obtain ⟨hlt, hget⟩ := List.getElem?_eq_some_iff.mp hch
      refine ⟨ch, by rw [← hget, List.set_getElem_self], htaken, ?_, UdpTasks.step_conserved hc ht⟩
      rw [h.closed]
      constructor
      · exact fun hpc => UdpTasks.step_exited hpc ht
      · intro hpc
        by_contra hne
        exact hgone ⟨hpc, hne⟩
  · cases e with
    | recv b => exact recv_served h hch ht ha
    | _ => exact absurd rfl hnone

/-- For the accept loop the step of a task is one of its own, or none. -/
theorem onChannel_cases {c : Nat} {e : UdpEvent} {t t' : UdpTasks} (ha : s.onChannel conf c e t t' = some a) :
    a = s.accept ∨ ∃ e' : AcceptEvent, e'.byTask = true ∧ s.accept.step conf e' = some a := by
  by_cases hnone : e.received = []
  · rw [onChannel_of_other hnone] at ha
    split at ha
    next => exact Or.inr ⟨.close c, rfl, ha⟩
    next =>
      cases ha
      exact Or.inl rfl
  · cases e with
    | recv b =>
      simp only [onChannel, Option.ite_none_right_eq_some] at ha
      exact Or.inr ⟨.recv c, rfl, ha.2⟩
    | _ => exact absurd rfl hnone

/-- The accept loop's own steps, from which a task may be spawned. -/
theorem Joined.accept (h : s.Joined conf) {e : AcceptEvent} (htask : e.byTask = false)
    (hs : s.accept.step conf e = some a) : (s.spawned sendChanSize a).Joined conf := by
  obtain ⟨hle, hframe⟩ := accept_frame htask hs
  have hlength : (s.spawned sendChanSize a).tasks.length = a.channels.length := by
    rw [spawned, List.length_append, List.length_replicate, h.length]
    omega
  refine ⟨AcceptLoop.step_sound h.sound hs, AcceptLoop.step_delivers h.delivers h.sound hs, hlength, ?_⟩
  intro c t ch ht hch
  have hc : (s.tasks ++ List.replicate (a.channels.length - s.tasks.length) (.accepted sendChanSize))[c]? = some t := ht
  rcases hframe c ch hch with ⟨old, hold, hreceived, hclosed⟩ | ⟨hnew, hreceived, hopen⟩
  · have hlt : c < s.tasks.length := by
      rw [h.length]
      exact (List.getElem?_eq_some_iff.mp hold).1
    rw [List.getElem?_append_left hlt] at hc
    have hserved := h.served c t old hc hold
    exact ⟨hserved.taken.trans hreceived.symm, hclosed ▸ hserved.closed, hserved.conserved⟩
  · rw [List.getElem?_append_right (h.length ▸ hnew)] at hc
    rw [List.eq_of_mem_replicate (List.mem_of_getElem? hc)]
    exact accepted_served hreceived hopen

theorem step_joined {e : ServerDatagramsEvent} (h : s.Joined conf) (hs : s.step conf sendChanSize e = some s') :
    s'.Joined conf := by
  cases e with
  | accept e =>
    simp only [step, Option.ite_none_left_eq_some, Bool.not_eq_true] at hs
    obtain ⟨htask, hs⟩ := hs
    obtain ⟨a, ha, rfl⟩ := Option.map_eq_some_iff.mp hs
    exact h.accept htask ha
  | task c e =>
    obtain ⟨t, ht, hs⟩ := Option.bind_eq_some_iff.mp hs
    obtain ⟨t', ht', hs⟩ := Option.bind_eq_some_iff.mp hs
    obtain ⟨a, ha, rfl⟩ := Option.map_eq_some_iff.mp hs
    obtain ⟨hlt, _⟩ := List.getElem?_eq_some_iff.mp ht
    obtain ⟨ch, hch⟩ : ∃ ch, s.accept.channels[c]? = some ch := ⟨_, List.getElem?_eq_getElem (h.length ▸ hlt)⟩
    obtain ⟨ch', hset, hserved⟩ := step_served (h.served c t ch ht hch) hch ht' ha
    have hnext : a.Sound ∧ a.Delivers conf := by
      rcases onChannel_cases ha with rfl | ⟨e', _, he'⟩
      · exact ⟨h.sound, h.delivers⟩
      · exact ⟨AcceptLoop.step_sound h.sound he', AcceptLoop.step_delivers h.delivers h.sound he'⟩
    refine ⟨hnext.1, hnext.2, by simp only [hset, List.length_set, h.length], ?_⟩
    intro d u x hu hx
    have hx : (s.accept.channels.set c ch')[d]? = some x := hset ▸ hx
    have hlen : c < s.accept.channels.length := h.length ▸ hlt
    by_cases heq : c = d
    · subst heq
      rw [List.getElem?_set_self hlt] at hu
      rw [List.getElem?_set_self hlen] at hx
      cases hu
      cases hx
      exact hserved
    · rw [List.getElem?_set_ne heq] at hu hx
      exact h.served d u x hu hx

theorem step_arrivals {e : ServerDatagramsEvent} (hs : s.step conf sendChanSize e = some s') :
    s'.accept.arrivals = s.accept.arrivals ++ datagram conf e := by
  cases e with
  | accept e =>
    simp only [step, Option.ite_none_left_eq_some] at hs
    obtain ⟨_, hs⟩ := hs
    obtain ⟨a, ha, rfl⟩ := Option.map_eq_some_iff.mp hs
    exact AcceptLoop.step_arrivals ha
  | task c e =>
    obtain ⟨t, _, hs⟩ := Option.bind_eq_some_iff.mp hs
    obtain ⟨t', _, hs⟩ := Option.bind_eq_some_iff.mp hs
    obtain ⟨a, ha, rfl⟩ := Option.map_eq_some_iff.mp hs
    rcases onChannel_cases ha with rfl | ⟨e', htask, he'⟩
    · exact (List.append_nil _).symm
    · have hnone : e'.datagram conf = [] := by
        cases e' with
        | recv | close => rfl
        | _ => cases htask
      have harrivals := AcceptLoop.step_arrivals he'
      rwa [hnone] at harrivals

/-- A datagram for an open connection finds room in its channel. -/
def Roomy (s : ServerDatagrams) : ServerDatagramsEvent → Prop
  | .accept e => s.accept.Roomy e
  | .task _ _ => True

instance (s : ServerDatagrams) : ∀ e, Decidable (s.Roomy e)
  | .accept e => inferInstanceAs (Decidable (s.accept.Roomy e))
  | .task _ _ => isTrue trivial

theorem step_inOrder {e : ServerDatagramsEvent} (h : s.accept.InOrder) (hroomy : s.Roomy e)
    (hs : s.step conf sendChanSize e = some s') : s'.accept.InOrder := by
  cases e with
  | accept e =>
    simp only [step, Option.ite_none_left_eq_some] at hs
    obtain ⟨_, hs⟩ := hs
    obtain ⟨a, ha, rfl⟩ := Option.map_eq_some_iff.mp hs
    exact AcceptLoop.step_inOrder h hroomy ha
  | task c e =>
    obtain ⟨t, _, hs⟩ := Option.bind_eq_some_iff.mp hs
    obtain ⟨t', _, hs⟩ := Option.bind_eq_some_iff.mp hs
    obtain ⟨a, ha, rfl⟩ := Option.map_eq_some_iff.mp hs
    rcases onChannel_cases ha with rfl | ⟨e', htask, he'⟩
    · exact h
    · have hroomy' : s.accept.Roomy e' := by
        cases e' with
        | recvFrom => cases htask
        | _ => trivial
      exact AcceptLoop.step_inOrder h hroomy' he'

theorem new_joined (conf : AcceptConfig) : new.Joined conf where
  sound := AcceptLoop.new_sound
  delivers := AcceptLoop.new_delivers conf
  length := rfl
  served := by
    intro c t ch ht
    cases ht

/-- What was routed to one connection is part of what was routed to all of its address. -/
theorem arrived_sublist {a : AcceptLoop} {ch : DatagramChannel} (hch : ch ∈ a.channels) :
    ch.arrived.Sublist (AcceptLoop.arrivedFrom ch.peerAddr a.history) := by
  have hmem : (ch.peerAddr, ch.arrived) ∈ a.history.filter fun x => x.1 = ch.peerAddr :=
    List.mem_filter.mpr ⟨List.mem_map.mpr ⟨ch, hch, rfl⟩, decide_eq_true rfl⟩
  exact List.sublist_flatten_of_mem (List.mem_map.mpr ⟨_, hmem, rfl⟩)

end Steps

/-- The QUIC connections of a server are fed apart. In every run, and whatever its other
connections do, `conn.recv` of a connection gets, byte for byte and in order, datagrams
of the one peer it was opened for, each at most once and the first one first; between
two datagrams it has got all that its task has received. If no datagram finds its
channel full these are the first ones that were read for the connection. -/
theorem connections_fed_apart (conf : AcceptConfig) (sendChanSize : Nat) (events : List ServerDatagramsEvent)
    (s : ServerDatagrams) (hrun : Machine.run (step conf sendChanSize) new events = some s)
    (c : Nat) (t : UdpTasks) (ht : s.tasks[c]? = some t) :
    ∃ ch, s.accept.channels[c]? = some ch ∧
      ch.arrived.Sublist (AcceptLoop.sentBy ch.peerAddr (events.flatMap (datagram conf))) ∧
      (∃ rest, (ch.received ++ rest).Perm ch.arrived) ∧
      (ch.received = [] ∨ ch.received.head? = ch.arrived.head?) ∧
      t.feed.pieces.flatten <+: ch.received.flatten ∧
      (t.pc.holdsDatagram = false → t.feed.pieces.flatten = ch.received.flatten) ∧
      (Machine.Meets (step conf sendChanSize) Roomy new events → ch.received <+: ch.arrived) := by
  have h := Machine.run_invariant (fun _ _ _ h hs => step_joined h hs) (new_joined conf) hrun
  have harrivals : s.accept.arrivals = events.flatMap (datagram conf) :=
    Machine.run_collect (fun _ _ _ hs => step_arrivals hs) hrun
  obtain ⟨hlt, _⟩ := List.getElem?_eq_some_iff.mp ht
  obtain ⟨ch, hch⟩ : ∃ ch, s.accept.channels[c]? = some ch := ⟨_, List.getElem?_eq_getElem (h.length ▸ hlt)⟩
  have hmem := List.mem_of_getElem? hch
  obtain ⟨htaken, _, lost, hc⟩ := h.served c t ch ht hch
  obtain ⟨honce, hfirst⟩ := (h.sound.channels ch hmem).received
  refine ⟨ch, hch, ?_, honce, hfirst, htaken ▸ hc.feed.pieces_front, fun hpc => ?_, fun hroomy => ?_⟩
  · exact harrivals ▸ (arrived_sublist hmem).trans (h.delivers.inOrder _)
  · rw [hc.feed.pieces_of_none (by simpa [hpc] using hc.fed), htaken]
  · have hnew : new.accept.InOrder := by
      intro x hx
      cases hx
    have hin := Machine.run_invariant_of_meets (fun _ _ _ h hr hs => step_inOrder h hr hs) hnew hroomy hrun
    exact ⟨_, (hin ch hmem).2⟩

/-- Two peers; each connection has its own first datagram, and the second of one finds its
task still at the first. -/
def fedEvents : List ServerDatagramsEvent :=
  [.accept (.recvFrom "a" [1, 2]), .accept (.recvFrom "b" [3]), .task 1 (.recv [3]), .task 0 (.recv [1, 2]),
    .accept (.recvFrom "a" [4]), .task 0 (.header true true), .task 0 (.connRecv (some 1)),
    .task 1 (.header true true), .task 1 (.connRecv (some 1)), .task 1 .recvEnd, .task 0 (.connRecv (some 1)),
    .task 0 .recvEnd, .task 0 (.connSendEnd true), .task 0 .isEstablished, .task 0 (.recv [4])]

theorem connections_fed_apart_two :
    ∃ s t ch, Machine.run (step ⟨1500, 2⟩ 1) new fedEvents = some s ∧ s.tasks[0]? = some t ∧
      t.feed.pieces = [[1], [2]] ∧ s.accept.channels[0]? = some ch ∧ ch.received <+: ch.arrived := by
  have hend : ((Machine.run (step ⟨1500, 2⟩ 1) new fedEvents).bind fun s => (s.tasks[0]?).map fun t => (s, t)).any
      (fun x => decide (x.2.feed.pieces = [[1], [2]])) = true := by decide +kernel
  obtain ⟨⟨s, t⟩, hrun, hpieces⟩ := (Option.any_eq_true _ _).mp hend
  obtain ⟨s, hrun, ht⟩ := Option.bind_eq_some_iff.mp hrun
  obtain ⟨t, ht, heq⟩ := Option.map_eq_some_iff.mp ht
  cases heq
  obtain ⟨ch, hch, _, _, _, _, _, hin⟩ := connections_fed_apart ⟨1500, 2⟩ 1 fedEvents s hrun 0 t ht
  exact ⟨s, t, ch, hrun, ht, of_decide_eq_true hpieces, hch, hin (by decide +kernel)⟩

end ServerDatagrams

end QuoteLink

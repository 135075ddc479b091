import QuoteLink.EndToEnd

namespace QuoteLink

theorem map_set_same {α β : Type} (f : α → β) {xs : List α} {c : Nat} {x x' : α} (hx : xs[c]? = some x)
    (hf : f x' = f x) : (xs.set c x').map f = xs.map f := by
  have hget : (xs.map f)[c]? = some (f x') := by rw [List.getElem?_map, hx, Option.map_some, hf]
  obtain ⟨hlt, heq⟩ := List.getElem?_eq_some_iff.mp hget
  rw [List.map_set, ← heq, List.set_getElem_self]

namespace ClientTraffic

variable {prost : Prost} {conf : LinkClientConfig} {s s' : ClientTraffic} {e : TrafficEvent}

/-- What is under way in a client came from its user and its servers, in order. -/
structure Flowing (s : ClientTraffic) : Prop where
  settled : Settled s.client
  outbound : s.outbound.Sublist s.queued
  inbound : s.inbound.Sublist s.sent

theorem new_flowing : new.Flowing := ⟨new_settled, List.Sublist.refl _, List.Sublist.refl _⟩

theorem step_flowing (h : s.Flowing) (hs : s.step prost conf e = some s') : s'.Flowing := by
  obtain ⟨hqueued, hsent⟩ := step_log hs
  refine ⟨traffic_settled h.settled hs, ?_, ?_⟩
  · rw [hqueued]
    exact (step_outbound h.settled hs).sublist.trans (h.outbound.append_right _)
  · rw [hsent]
    exact (step_inbound hs).sublist.trans (h.inbound.append_right _)

theorem written_sublist (s : ClientTraffic) : s.written.Sublist s.onLinks := by
  have hearlier : (s.earlier.flatMap EndedLink.written).Sublist (s.earlier.flatMap EndedLink.carried) :=
    List.Sublist.flatMap_right s.earlier fun l _ => List.sublist_append_left l.written l.left
  rw [written, writtenOn, onLinks, List.flatten_append, ← List.flatMap_def, ← List.flatMap_def]
  exact hearlier.append_right _

/-- A connection keeps what was written on it when it becomes an earlier one. -/
theorem retired_written (s : ClientTraffic) : s.retired.map EndedLink.written = s.writtenOn := by
  cases hlink : s.link <;> simp [retired, writtenOn, hlink]

theorem advance_written {e : ClientEvent} (he : e.relinks = false) (client : Client) :
    (s.advance e client).writtenOn = s.writtenOn := by
  cases hup : client.pc.connected with
  | true =>
    obtain ⟨hearlier, hlink⟩ := advance_open (s := s) hup he
    rw [writtenOn, writtenOn, hearlier, hlink]
  | false =>
    obtain ⟨hearlier, hlink⟩ := advance_closed (s := s) (e := e) hup
    rw [writtenOn, hearlier, hlink, retired_written]
    exact List.append_nil _

theorem step_written_same (he : e.isLink = false) (hs : s.step prost conf e = some s') :
    s'.writtenOn = s.writtenOn ∧ s'.sent = s.sent := by
  cases step_cases hs with
  | client e client haccepts hc =>
    have hbrings : s.brings (.client e) = [] := by
      cases e with
      | serverRequest r | serverPush p => cases he
      | _ => rfl
    have hrelinks : e.relinks = false := by
      cases e with
      | connect | deliver lost => cases he
      | _ => rfl
    exact ⟨advance_written hrelinks client, (congrArg (s.sent ++ ·) hbrings).trans (List.append_nil _)⟩
  | leave written hlink =>
    refine ⟨?_, rfl⟩
    rw [writtenOn, writtenOn, hlink]
    rfl
  | lateWrite c written x rest hl => cases he
  | lateLeave c l hl =>
    refine ⟨?_, rfl⟩
    rw [writtenOn, writtenOn]
    dsimp only
    rw [map_set_same EndedLink.written hl]
    rfl

/-- The `c`-th connection has `q` written on it, and nothing comes in. -/
structure WritesOn (s s' : ClientTraffic) (c : Nat) (q : Outgoing) : Prop where
  written : ∃ w, s.writtenOn[c]? = some w ∧ s'.writtenOn = s.writtenOn.set c (w ++ [q])
  sent : s'.sent = s.sent

theorem step_connect (hs : s.step prost conf (.client .connect) = some s') :
    s'.writtenOn = s.writtenOn ++ [[]] ∧ s'.sent = s.sent := by
  cases step_cases hs with
  | client e client haccepts hc =>
    refine ⟨?_, List.append_nil _⟩
    cases Client.step_cases hc with
    | connect hpc =>
      rw [← retired_written s]
      rfl

/-- A packet that arrives is not written. -/
theorem step_arrival {k : Nat} {p : Packet} (hs : s.step prost conf (.client (EndToEnd.arrival k p)) = some s') :
    s'.writtenOn = s.writtenOn ∧ s'.sent = s.sent ++ s.brings (.client (EndToEnd.arrival k p)) := by
  cases step_cases hs with
  | client e client haccepts hc =>
    have hrelinks : (EndToEnd.arrival k p).relinks = false := by
      cases p <;> rfl
    exact ⟨advance_written hrelinks client, rfl⟩

theorem step_deliver {lost : Bool} {q : Outgoing} {rest : List Outgoing} (h : Settled s.client)
    (hq : s.client.conn.inner = q :: rest) (hs : s.step prost conf (.client (.deliver lost)) = some s') :
    s.WritesOn s' s.earlier.length q := by
  cases step_cases hs with
  | client e client haccepts hc =>
    cases Client.step_cases hc with
    | deliver x rest' lost hx =>
      obtain ⟨_, _, hpc⟩ := ConnWrites.deliverOne_conn s.client x rest' lost
      have hconnected := h.connected_of_inner hx
      obtain ⟨l, hl, _⟩ := link_of_accepts haccepts
      refine ⟨⟨l.written, ?_, ?_⟩, List.append_nil _⟩
      · simp [writtenOn, hl]
      · simp [writtenOn, advance, relink, hpc, hconnected, hl, hq]

theorem step_lateWrite {c : Nat} {written rest : List Outgoing} {q : Outgoing}
    (hl : s.earlier[c]? = some ⟨written, q :: rest⟩) (hs : s.step prost conf (.lateWrite c) = some s') :
    s.WritesOn s' c q := by
  cases step_cases hs with
  | lateWrite c written' x rest' hl' =>
    cases hl.symm.trans hl'
    obtain ⟨hlt, _⟩ := List.getElem?_eq_some_iff.mp hl
    refine ⟨⟨written, ?_, ?_⟩, rfl⟩
    · rw [writtenOn, List.getElem?_append_left (by simpa using hlt), List.getElem?_map, hl]
      rfl
    · rw [writtenOn, writtenOn, List.set_append_left _ _ (by simpa using hlt), List.map_set]

end ClientTraffic

/-- What a user may send is data for the server. -/
theorem isData_of_isUser {q : Outgoing} (hq : q.isUser = true) : q.toPacket.isData = true := by
  cases q with
  | push p => rfl
  | response r => rfl
  | request r =>
    cases r with
    | call r =>
      obtain ⟨hbeat, hauth⟩ := r.allowed
      simp [Outgoing.toPacket, SentRequest.request, Packet.isData, Packet.isControl, hbeat, hauth]
    | heartbeat | auth | subscribe => cases hq

namespace LinkDelivery

variable {conf : DeliveryConfig} {s : LinkDelivery} {chunks : List Bytes} {lost : Bytes}

theorem Conserved.delivered_sublist (h : Conserved conf s chunks lost) (hwf : ∀ p ∈ s.requests, p.WellFormed) :
    s.delivered.Sublist s.requests := by
  obtain ⟨kept, hsub, hkept⟩ := h.exists_kept
  exact (h.delivered_prefix (fun p hp => hwf p (hsub.subset hp)) hkept).sublist.trans hsub

theorem Conserved.delivered_all (h : Conserved conf s chunks lost) (hwf : ∀ p ∈ s.requests, p.WellFormed)
    (hrest : s.AtRest) (hnodrop : ∀ f ∈ s.sender.frames, f.2 = true) : s.delivered = s.requests :=
  h.delivered_eq hrest hwf (h.kept_eq hrest hnodrop)

end LinkDelivery

namespace EndToEnd

variable {conf : EndConfig} {s s' : EndToEnd} {e : EndEvent}

/-- All that a step of the whole can be. -/
inductive StepCase (conf : EndConfig) (s : EndToEnd) : EndEvent → EndToEnd → Prop
  | connect (peerAddr : String) (now : Nat) (traffic : ClientTraffic)
    (ht : s.traffic.step conf.prost conf.client (.client .connect) = some traffic) :
    StepCase conf s (.connect peerAddr now) ⟨traffic, s.pipes ++ [.new conf peerAddr now]⟩
  | client (e : TrafficEvent) (traffic : ClientTraffic) (he : e.isLink = false)
    (ht : s.traffic.step conf.prost conf.client e = some traffic) :
    StepCase conf s (.client e) { s with traffic := traffic }
  | write (q : Outgoing) (rest : List Outgoing) (s' : EndToEnd) (hq : s.traffic.client.conn.inner = q :: rest)
    (hs : s.writeOn conf s.traffic.earlier.length q (.client (.deliver false)) = some s') :
    StepCase conf s .write s'
  | lateWrite (c : Nat) (written rest : List Outgoing) (q : Outgoing) (s' : EndToEnd)
    (hl : s.traffic.earlier[c]? = some ⟨written, q :: rest⟩) (hs : s.writeOn conf c q (.lateWrite c) = some s') :
    StepCase conf s (.lateWrite c) s'
  | arrive (k : Nat) (front : List Pipe) (x : Pipe) (packet : Packet) (ch : Channel Packet) (down : LinkDelivery)
    (traffic : ClientTraffic) (hx : s.pipes = front ++ [x]) (hrecv : x.down.response.recv = some (packet, ch))
    (hdown : x.down.step conf.down .consume = some down)
    (ht : s.traffic.step conf.prost conf.client (.client (arrival k packet)) = some traffic) :
    StepCase conf s (.arrive k) ⟨traffic, front ++ [{ x with down := down }]⟩
  | pipe (c : Nat) (e : PipeEvent) (x x' : Pipe) (hx : s.pipes[c]? = some x) (hs : x.step conf e = some x') :
    StepCase conf s (.pipe c e) { s with pipes := s.pipes.set c x' }

theorem step_cases (h : s.step conf e = some s') : StepCase conf s e s' := by
  cases e with
  | connect peerAddr now =>
    obtain ⟨traffic, ht, rfl⟩ := Option.map_eq_some_iff.mp h
    exact .connect peerAddr now traffic ht
  | client e =>
    simp only [step, Option.ite_none_left_eq_some, Bool.not_eq_true] at h
    obtain ⟨he, hmap⟩ := h
    obtain ⟨traffic, ht, rfl⟩ := Option.map_eq_some_iff.mp hmap
    exact .client e traffic he ht
  | write =>
    simp only [step] at h
    split at h
    next q rest hq => exact .write q rest s' hq h
    next => cases h
  | lateWrite c =>
    simp only [step] at h
    split at h
    next written q rest hl => exact .lateWrite c written rest q s' hl h
    next => cases h
  | arrive k =>
    obtain ⟨x, hx, hrest⟩ := Option.bind_eq_some_iff.mp h
    obtain ⟨front, hfront⟩ := List.getLast?_eq_some_iff.mp hx
    split at hrest
    next packet ch hrecv =>
      simp only [Option.ite_none_right_eq_some] at hrest
      obtain ⟨down, hdown, hmap⟩ := Option.bind_eq_some_iff.mp hrest.2
      obtain ⟨traffic, ht, rfl⟩ := Option.map_eq_some_iff.mp hmap
      rw [hfront, List.dropLast_concat]
      exact .arrive k front x packet ch down traffic hfront hrecv hdown ht
    next => cases hrest
  | pipe c e =>
    obtain ⟨x, hx, hrest⟩ := Option.bind_eq_some_iff.mp h
    obtain ⟨x', hs, rfl⟩ := Option.map_eq_some_iff.mp hrest
    exact .pipe c e x x' hx hs

theorem flatMap_set {β : Type} (f : Pipe → List β) {xs : List Pipe} {c : Nat} {x x' : Pipe} (hx : xs[c]? = some x)
    (hf : f x' = f x) : (xs.set c x').flatMap f = xs.flatMap f := by
  rw [List.flatMap_def, List.flatMap_def, map_set_same f hx hf]

/-- The packets of a server's own that came out of the link. -/
def arrived (x : Pipe) : List Packet := x.down.delivered.filter fun p => !p.isResponse

/-- The client, the links and the servers carry on what the one before them has got. -/
structure Joined (conf : EndConfig) (s : EndToEnd) : Prop where
  pipes : ∀ x ∈ s.pipes, x.Sound conf
  traffic : s.traffic.Flowing
  written : s.traffic.writtenOn.map (List.map Outgoing.toPacket) = s.pipes.map fun x => x.up.requests
  sent : s.traffic.sent.map Incoming.toPacket = s.pipes.flatMap arrived

theorem new_joined (conf : EndConfig) : new.Joined conf where
  pipes := fun _ hx => by cases hx
  traffic := ClientTraffic.new_flowing
  written := rfl
  sent := rfl

theorem Joined.forall_set (h : s.Joined conf) {c : Nat} {x' : Pipe} (hx' : x'.Sound conf) :
    ∀ y ∈ s.pipes.set c x', y.Sound conf := by
  intro y hy
  rcases List.mem_or_eq_of_mem_set hy with hy | rfl
  · exact h.pipes y hy
  · exact hx'

/-- What a `link_write_loop` takes, the link takes in. -/
theorem writeOn_joined {c : Nat} {q : Outgoing} {e : TrafficEvent} (h : s.Joined conf)
    (hwrites : ∀ traffic, s.traffic.step conf.prost conf.client e = some traffic → s.traffic.WritesOn traffic c q)
    (hs : s.writeOn conf c q e = some s') : s'.Joined conf := by
  obtain ⟨x, hx, hrest⟩ := Option.bind_eq_some_iff.mp hs
  obtain ⟨up, hup, hmap⟩ := Option.bind_eq_some_iff.mp hrest
  obtain ⟨traffic, ht, rfl⟩ := Option.map_eq_some_iff.mp hmap
  obtain ⟨⟨w, hw, hwritten⟩, hsent⟩ := hwrites traffic ht
  have hsound := h.pipes x (List.mem_of_getElem? hx)
  obtain ⟨hrequests, hdelivered⟩ := LinkDelivery.step_ends hup
  have hsame : up.delivered = x.up.delivered := hdelivered.trans (List.append_nil _)
  have hx' : Pipe.Sound conf { x with up := up } := by
    refine ⟨Pipe.up_conserved hsound hup, hsound.down, hsound.holds, ?_⟩
    rw [hsame]
    exact hsound.handed
  -- before the step, the link has taken in what was written on it
  have hbefore : w.map Outgoing.toPacket = x.up.requests := by
    have hget := congrArg (fun ps => ps[c]?) h.written
    simpa [hw, hx] using hget
  refine ⟨h.forall_set hx', ClientTraffic.step_flowing h.traffic ht, ?_, ?_⟩
  · rw [hwritten, List.map_set, h.written, List.map_set, List.map_append, hbefore, hrequests]
    rfl
  · rw [hsent, h.sent, flatMap_set arrived hx]
    rfl

theorem step_joined (h : s.Joined conf) (hs : s.step conf e = some s') : s'.Joined conf := by
  cases step_cases hs with
  | connect peerAddr now traffic ht =>
    obtain ⟨hwritten, hsent⟩ := ClientTraffic.step_connect ht
    refine ⟨fun x hx => ?_, ClientTraffic.step_flowing h.traffic ht, ?_, ?_⟩
    · rcases List.mem_append.mp hx with hx | hx
      · exact h.pipes x hx
      · rw [List.mem_singleton.mp hx]
        exact Pipe.new_sound conf peerAddr now
    · rw [hwritten, List.map_append, h.written, List.map_append]
      rfl
    · rw [hsent, h.sent, List.flatMap_append]
      exact (List.append_nil _).symm
  | client e traffic he ht =>
    obtain ⟨hwritten, hsent⟩ := ClientTraffic.step_written_same he ht
    refine ⟨h.pipes, ClientTraffic.step_flowing h.traffic ht, ?_, ?_⟩
    · rw [hwritten]
      exact h.written
    · rw [hsent]
      exact h.sent
  | write q rest s' hq hs =>
    exact writeOn_joined h (fun _ ht => ClientTraffic.step_deliver h.traffic.settled hq ht) hs
  | lateWrite c written rest q s' hl hs =>
    exact writeOn_joined h (fun _ ht => ClientTraffic.step_lateWrite hl ht) hs
  | arrive k front x packet ch down traffic hx hrecv hdown ht =>
    obtain ⟨hwritten, hsent⟩ := ClientTraffic.step_arrival ht
    have hsound := h.pipes x (by simp [hx])
    have hdelivered := (LinkDelivery.step_ends hdown).2
    rw [LinkDelivery.consumes_of_recv hrecv] at hdelivered
    have hx' : Pipe.Sound conf { x with down := down } :=
      ⟨hsound.up, Pipe.down_conserved hsound hdown, hsound.holds, hsound.handed⟩
    have hbrings : (s.traffic.brings (.client (arrival k packet))).map Incoming.toPacket =
        [packet].filter fun p => !p.isResponse := by
      cases packet <;> rfl
    refine ⟨fun y hy => ?_, ClientTraffic.step_flowing h.traffic ht, ?_, ?_⟩
    · rcases List.mem_append.mp hy with hy | hy
      · exact h.pipes y (by simp [hx, hy])
      · rw [List.mem_singleton.mp hy]
        exact hx'
    · rw [hwritten, h.written, hx]
      simp
    · rw [hsent, List.map_append, h.sent, hbrings, hx, List.flatMap_append, List.flatMap_append,
        List.flatMap_singleton, List.flatMap_singleton, arrived, arrived, hdelivered, List.filter_append,
        List.append_assoc]
  | pipe c e x x' hx hstep =>
    obtain ⟨hsound, hrequests, hdelivered⟩ := Pipe.step_sound (h.pipes x (List.mem_of_getElem? hx)) hstep
    refine ⟨h.forall_set hsound, h.traffic, ?_, ?_⟩
    · rw [h.written, map_set_same (fun x : Pipe => x.up.requests) hx hrequests]
    · have harrived : arrived x' = arrived x := by rw [arrived, arrived, hdelivered]
      rw [h.sent, flatMap_set arrived hx harrived]

theorem run_joined {events : List EndEvent} (hrun : Machine.run (step conf) new events = some s) : s.Joined conf :=
  Machine.run_invariant (fun _ _ _ h hs => step_joined h hs) (new_joined conf) hrun

/-- Connection after connection, the requests, pushes and responses of a client's user reach
the callback tasks of the servers whole, in order and at most once: what is handed to them,
but for Auth requests, are some of the packets written, and the user's among them some of
those queued. When the links are at rest and none has dropped a frame, these are all of
the user's packets that were written. -/
theorem user_packets_reach_callbacks (conf : EndConfig) (events : List EndEvent) (s : EndToEnd)
    (hrun : Machine.run (step conf) new events = some s)
    (hwf : ∀ x ∈ s.pipes, ∀ p ∈ x.up.requests, p.WellFormed) :
    ∃ got : List Outgoing,
      got.map Outgoing.toPacket = s.pipes.flatMap (fun x => x.handed.filter Packet.isData) ∧
      got.Sublist s.traffic.written ∧ (got.filter Outgoing.isUser).Sublist s.traffic.queued ∧
      ((∀ x ∈ s.pipes, x.up.AtRest ∧ ∀ f ∈ x.up.sender.frames, f.2 = true) →
        got.filter Outgoing.isUser = s.traffic.written.filter Outgoing.isUser) := by
  have h := run_joined hrun
  have hwritten : s.pipes.flatMap (fun x => x.up.requests.filter Packet.isData) =
      (s.traffic.written.filter (Packet.isData ∘ Outgoing.toPacket)).map Outgoing.toPacket := by
    rw [← List.filter_map, ClientTraffic.written, List.map_flatten, h.written, ← List.flatMap_def,
      List.filter_flatMap]
  have hpipe : ∀ x ∈ s.pipes, (x.handed.filter Packet.isData).Sublist (x.up.requests.filter Packet.isData) := by
    intro x hx
    obtain ⟨chunks, lost, hup⟩ := (h.pipes x hx).up
    rw [(h.pipes x hx).handed]
    exact (hup.delivered_sublist (hwf x hx)).filter _
  have hall := List.Sublist.flatMap_right s.pipes hpipe
  rw [hwritten] at hall
  obtain ⟨got, hgot, heq⟩ := List.sublist_map_iff.mp hall
  have huser : (s.traffic.written.filter Outgoing.isUser).Sublist s.traffic.outbound := by
    rw [ClientTraffic.outbound, List.append_assoc, List.append_assoc, List.filter_append]
    exact ((ClientTraffic.written_sublist s.traffic).filter _).trans (List.sublist_append_left _ _)
  have hsub : got.Sublist s.traffic.written := hgot.trans List.filter_sublist
  refine ⟨got, heq.symm, hsub, (hsub.filter _).trans (huser.trans h.traffic.outbound), fun hrest => ?_⟩
  have hfull : s.pipes.flatMap (fun x => x.handed.filter Packet.isData) =
      s.pipes.flatMap fun x => x.up.requests.filter Packet.isData := by
    refine List.flatMap_congr fun x hx => ?_
    obtain ⟨chunks, lost, hup⟩ := (h.pipes x hx).up
    obtain ⟨hquiet, hnodrop⟩ := hrest x hx
    rw [(h.pipes x hx).handed, hup.delivered_all (hwf x hx) hquiet hnodrop]
  rw [hfull, hwritten] at heq
  have hlen : got.length = (s.traffic.written.filter (Packet.isData ∘ Outgoing.toPacket)).length := by
    have hmap := congrArg List.length heq
    rw [List.length_map, List.length_map] at hmap
    exact hmap.symm
  rw [hgot.eq_of_length hlen, List.filter_filter]
  refine List.filter_congr fun q _ => ?_
  cases hq : q.isUser with
  | true => exact isData_of_isUser hq
  | false => rfl

/-- Links with room for one packet in each channel. -/
def endConfig : EndConfig :=
  ⟨plainProst, decodeAuthRequest, plainConfig, ⟨30, 10, 3⟩, ⟨64, 64, 1, 1, 1, none⟩, ⟨64, 64, 1, 1, 1, none⟩⟩

/-- A frame of `n` bytes passes through a link as a whole. -/
def carry (n : Nat) : List DeliveryEvent :=
  [.writerSend, .frameTake, .quic .loopEnd, .quic (.streamSend (.ok n) true), .quic .loopEnd, .udpRecv,
    .streamRecv n false, .recvSend, .streamDone, .readerTake, .readerSend]

/-- A step of the client alone. -/
def user (e : ClientEvent) : EndEvent := .client (.client e)

/-- The client's user sends a push. -/
def pushing (p : Push) : List EndEvent :=
  [user (.sendPush p), user .take, user (.forwarded true), user (.register false)]

/-- The client logs in, its user sends a push and gets one; the user's next push is written
by the `link_write_loop` of the connection when the client has a new one. -/
def endRun : List EndEvent :=
  [.connect "10.0.0.7:4001" 0, user .handshake, .write] ++ (carry 10).map (fun e => .pipe 0 (.up e)) ++
    [.pipe 0 (.take 1), .pipe 0 (.loop (.authResult true)), .pipe 0 (.loop .newSent),
      .pipe 0 (.loop .authForwarded)] ++
    pushing ⟨0, .cmdSubAllType, .trade, 0, []⟩ ++ [.write] ++ (carry 5).map (fun e => .pipe 0 (.up e)) ++
    [.pipe 0 (.take 2), .pipe 0 (.send (.push ⟨0, .cmdSubAllType, .depths, 0, []⟩))] ++
    (carry 5).map (fun e => .pipe 0 (.down e)) ++ [.arrive 0, user (.receive false), user .consume] ++
    pushing ⟨0, .cmdSubAllType, .kline, 0, []⟩ ++ [user .fail, user .reset, .connect "10.0.0.7:4002" 3] ++
    [.lateWrite 0] ++ (carry 5).map (fun e => .pipe 0 (.up e)) ++ [.pipe 0 (.take 4)]

theorem user_packets_reach_callbacks_reconnecting :
    ∃ s, Machine.run (step endConfig) new endRun = some s ∧ s.traffic.queued.length = 2 ∧
      ∃ got : List Outgoing,
        got.map Outgoing.toPacket =
          [.push ⟨0, .cmdSubAllType, .trade, 0, []⟩, .push ⟨0, .cmdSubAllType, .kline, 0, []⟩] ∧
        got.Sublist s.traffic.written ∧ (got.filter Outgoing.isUser).Sublist s.traffic.queued ∧
        got.filter Outgoing.isUser = s.traffic.written.filter Outgoing.isUser := by
  have hend : (Machine.run (step endConfig) new endRun).any (fun s => decide
      ((∀ x ∈ s.pipes, ∀ p ∈ x.up.requests, p.WellFormed) ∧ s.traffic.queued.length = 2 ∧
        s.pipes.flatMap (fun x => x.handed.filter Packet.isData) =
          [.push ⟨0, .cmdSubAllType, .trade, 0, []⟩, .push ⟨0, .cmdSubAllType, .kline, 0, []⟩] ∧
        ∀ x ∈ s.pipes, x.up.AtRest ∧ ∀ f ∈ x.up.sender.frames, f.2 = true)) = true := by decide +kernel
  obtain ⟨s, hrun, h⟩ := (Option.any_eq_true _ _).mp hend
  obtain ⟨hwf, hqueued, hhanded, hrest⟩ := of_decide_eq_true h
  obtain ⟨got, hgot, hwritten, huser, hall⟩ := user_packets_reach_callbacks endConfig endRun s hrun hwf
  exact ⟨s, hrun, hqueued, got, hgot.trans hhanded, hwritten, huser, hall hrest⟩

end EndToEnd

end QuoteLink

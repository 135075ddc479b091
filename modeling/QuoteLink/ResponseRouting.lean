import QuoteLink.ClientRouting

open IdLedger

namespace QuoteLink

namespace Client

variable {prost : Prost} {conf : LinkClientConfig} {s s' : Client} {e : ClientEvent}

/-- The id that a step draws, if it draws one. -/
def drawnId (s : Client) : ClientEvent → Option UInt32
  | .call _ _ | .connect | .tick _ | .drawSubscribe => some s.nextId
  | _ => none

/-- Every step of a client is a run of moves of its requests in flight, which
enter each call in the table unless the wait for the lock times out. -/
theorem step_orderly (hs : step prost conf s e = some s') (hf : s.Fresh e)
    (hreg : e ≠ .register true) : s.OrderlyMoves (s.drawnId e) s' := by
  cases step_cases hs with
  | call cmd body h => exact call_moves h hf
  | enqueue k r hk hpc => exact enqueue_moves hk
  | sendFailed k r hk => exact sendFailed_moves hk
  | ret call cause h => exact moves_of_eq rfl
  | sendPush p hpc => exact queueOther_moves rfl
  | sendResponse r hpc => exact queueOther_moves rfl
  | connect hpc => exact connect_moves hpc hf.1 hf.2
  | handshake r hr => exact handshake_moves hr
  | tick body hpc =>
    apply moves_of_eq
    simp only [ledger, heldUnsent, heldSent, registeringOf, hpc]
  | heartbeatSent r h hpc => exact heartbeatSent_moves hpc
  | take q rest hpc hrx => exact take_moves hpc hrx
  | forwarded q hpc => exact forwarded_moves hpc
  | forwardFailed q hpc =>
    refine moves_of_le ?_ ?_ le_rfl ?_ rfl
    · simp only [ledger, heldUnsent, hpc, add_zero]
      exact Multiset.le_add_right _ _
    · simp only [ledger, heldSent, hpc, le_refl]
    · simp only [ledger, registeringOf, hpc]
  | register q timedOut hpc =>
    cases timedOut with
    | true => exact absurd rfl hreg
    | false => exact register_moves hpc
  | deliver x rest lost hx => exact deliver_moves hx
  | answer k r status body hk => exact answer_moves hk
  | serverRequest r => exact serverPacket_moves rfl
  | serverPush p => exact serverPacket_moves rfl
  | receive x rest full hpc hx => exact receive_moves hpc hx
  | authForwarded a hpc => exact authForwarded_moves hpc
  | drawSubscribe sub todo packets hpc => exact drawSubscribe_moves hpc hf.1 hf.2
  | sendSubscribe r packets hpc => exact sendSubscribe_moves hpc
  | subscribed hpc =>
    apply moves_of_eq
    simp only [ledger, heldUnsent, heldSent, registeringOf, hpc, collect_nil]
  | fail hcan =>
    have hold : registeringOf s.pc = none := by
      cases hpc : s.pc <;> simp only [hpc, canFail, Bool.false_eq_true] at hcan <;> rfl
    exact closed_moves rfl rfl rfl hold le_rfl
  | reset hpc =>
    apply moves_of_eq
    simp only [ledger, heldUnsent, heldSent, registeringOf, hpc]
  | stop hcan =>
    have hold : registeringOf s.pc = none := by
      cases hpc : s.pc <;> simp only [hpc, canStop, Bool.false_eq_true] at hcan <;> rfl
    exact closed_moves rfl rfl rfl hold (Multiset.zero_le _)
  | consume x rest hx => exact consume_moves hx

/-- Every step of a client is a run of moves of its requests in flight. -/
theorem step_moves (hs : step prost conf s e = some s') (hf : s.Fresh e) : s.Moves s' := by
  by_cases hreg : e = .register true
  · subst hreg
    cases step_cases hs with
    | register q timedOut hpc => exact giveUp_moves hpc (hf rfl)
  · exact (step_orderly hs hf hreg).moves

/-- The parts of the client that the branches of its tasks may change. -/
theorem registerOne_frame (s : Client) (q : Queued) (timedOut : Bool) :
    ∃ requests, s.registerOne q timedOut = { s with pc := .idle, requests := requests } := by
  unfold registerOne
  split
  · split <;> exact ⟨_, rfl⟩
  · exact ⟨_, rfl⟩

theorem deliverOne_frame (s : Client) (x : Outgoing) (rest : List Outgoing) (lost : Bool) :
    ∃ conn, s.deliverOne x rest lost = { s with conn := conn } := by
  unfold deliverOne
  split <;> exact ⟨_, rfl⟩

theorem receiveOne_frame (s : Client) (x : Incoming) (full : Bool) :
    ∃ pc conn packetProcessRx, s.receiveOne x full =
      { s with pc := pc, conn := conn, packetProcessRx := packetProcessRx } := by
  unfold receiveOne
  cases full <;> dsimp only <;> repeat' split
  all_goals exact ⟨_, _, _, rfl⟩

theorem consumeOne_frame (s : Client) (x : Incoming) :
    ∃ requests consumed, s.consumeOne x = { s with requests := requests, consumed := consumed } := by
  unfold consumeOne
  repeat' split
  all_goals exact ⟨_, _, rfl⟩

/-- Only the consumer task consumes. -/
theorem step_consumed (hs : step prost conf s e = some s') : s'.consumed = s.consumed ∨
    ∃ x rest, s.packetProcessRx = x :: rest ∧
      s' = consumeOne { s with packetProcessRx := rest } x := by
  cases step_cases hs with
  | consume x rest hx => exact Or.inr ⟨x, rest, hx, rfl⟩
  | register q timedOut hpc =>
    obtain ⟨_, heq⟩ := registerOne_frame s q timedOut
    rw [heq]
    exact Or.inl rfl
  | deliver x rest lost hx =>
    obtain ⟨_, heq⟩ := deliverOne_frame s x rest lost
    rw [heq]
    exact Or.inl rfl
  | receive x rest full hpc hx =>
    obtain ⟨_, _, _, heq⟩ := receiveOne_frame { s with conn := { s.conn with replies := rest } } x full
    rw [heq]
    exact Or.inl rfl
  | _ => exact Or.inl rfl

/-- The response answers the packet of the call it is handed to, and a
successful Auth response leads to `on_connected`. -/
def RoutedRight : Incoming × Outcome → Prop
  | (.response a, out) =>
    (∀ c, out = .handed c → a.answered.owner = some c) ∧
      (a.response.command = .auth → a.response.status = .success → out = .onConnected)
  | _ => True

theorem consumeOne_routedRight {x : Incoming} {rest : List Incoming}
    (hsound : s.ledger.Sound SentRequest.id SentRequest.owner) (hx : s.packetProcessRx = x :: rest)
    (hall : ∀ y ∈ s.consumed, RoutedRight y) :
    ∀ y ∈ (consumeOne { s with packetProcessRx := rest } x).consumed, RoutedRight y := by
  have hadd : ∀ out, RoutedRight (x, out) → ∀ y ∈ s.consumed ++ [(x, out)], RoutedRight y := by
    intro out hout y hy
    rcases List.mem_append.mp hy with hold | hnew
    · exact hall y hold
    · rw [List.mem_singleton.mp hnew]
      exact hout
  cases x with
  | request r => exact hadd .onRequest trivial
  | push p => exact hadd .onPush trivial
  | response a =>
    have harrived : a.answered ∈ s.ledger.arrived := by
      rw [arrived_cons hx]
      exact Multiset.mem_cons_self _ _
    have hrouted : ∀ c, s.requests.lookup a.response.id = some c → a.answered.owner = some c := by
      intro c hc
      rw [a.echoes.1] at hc
      exact hsound.arrived _ harrived c hc
    cases hlook : s.requests.lookup a.response.id with
    | some c =>
      have howner := hrouted c hlook
      have hnotauth : a.response.command ≠ .auth := by
        rw [a.echoes.2]
        cases hr : a.answered with
        | call r => exact r.allowed.2
        | heartbeat r h => rw [hr] at howner; cases howner
        | auth r h => rw [hr] at howner; cases howner
        | subscribe r => rw [hr] at howner; cases howner
      simp only [consumeOne, hlook]
      refine hadd (.handed c) ⟨?_, fun hauth => absurd hauth hnotauth⟩
      intro d hd
      cases hd
      exact howner
    | none =>
      by_cases hok : a.response.command = .auth ∧ a.response.status = .success
      · simp only [consumeOne, hlook, hok, and_self, if_true]
        refine hadd .onConnected ⟨?_, fun _ _ => rfl⟩
        intro c hc
        cases hc
      · simp only [consumeOne, hlook, hok, if_false]
        refine hadd .onResponse ⟨?_, fun hauth hstatus => absurd ⟨hauth, hstatus⟩ hok⟩
        intro c hc
        cases hc

theorem new_sound : new.ledger.Sound SentRequest.id SentRequest.owner where
  nodup := Multiset.nodup_zero
  sent := fun t ht => absurd ht (Multiset.notMem_zero t)
  arrived := fun t ht => absurd ht (Multiset.notMem_zero t)
  registering := fun q hq => by cases hq

/-- In every run that draws only free ids, each response reaches the call it
answers, or none. -/
theorem response_routing_sound (prost : Prost) (conf : LinkClientConfig)
    (events : List ClientEvent) (s : Client)
    (h : Machine.run (step prost conf) new events = some s)
    (hf : Machine.Meets (step prost conf) Fresh new events) : ∀ x ∈ s.consumed, RoutedRight x := by
  have hstep : ∀ (s : Client) (e : ClientEvent) (s' : Client),
      (s.ledger.Sound SentRequest.id SentRequest.owner ∧ ∀ x ∈ s.consumed, RoutedRight x) →
      s.Fresh e → step prost conf s e = some s' →
      s'.ledger.Sound SentRequest.id SentRequest.owner ∧ ∀ x ∈ s'.consumed, RoutedRight x := by
    intro s e s' ⟨hsound, hall⟩ hfresh hs
    refine ⟨hsound.moves (step_moves hs hfresh), ?_⟩
    rcases step_consumed hs with hsame | ⟨x, rest, hx, rfl⟩
    · rw [hsame]
      exact hall
    · exact consumeOne_routedRight hsound hx hall
  have hnil : ∀ x ∈ new.consumed, RoutedRight x := fun x hx => absurd hx List.not_mem_nil
  exact (Machine.run_invariant_of_meets hstep ⟨new_sound, hnil⟩ hf h).2

/-- A call is sent and answered on the second connection, whose Auth packet
has an id that no other request carries. -/
def reconnectRun : List ClientEvent :=
  [.connect, .fail, .call .cmdSubDepth [], .enqueue 0, .reset, .connect, .handshake, .take,
    .forwarded true, .deliver false, .deliver false, .answer 1 .success [], .register false,
    .receive false, .answer 0 .success [], .receive false, .authForwarded, .consume, .consume]

theorem response_routing_sound_reconnect :
    ∃ s, Machine.run (step plainProst plainConfig) new reconnectRun = some s ∧
      s.consumed.map (·.2) = [.handed 0, .onConnected] ∧ ∀ x ∈ s.consumed, RoutedRight x := by
  have hsome : (Machine.run (step plainProst plainConfig) new reconnectRun).isSome = true := by
    decide +kernel
  have hout : (Machine.run (step plainProst plainConfig) new reconnectRun).map
      (fun s => s.consumed.map (·.2)) = some [.handed 0, .onConnected] := by
    decide +kernel
  obtain ⟨s, hrun⟩ := Option.isSome_iff_exists.mp hsome
  rw [hrun] at hout
  exact ⟨s, hrun, Option.some.inj hout,
    response_routing_sound plainProst plainConfig reconnectRun s hrun (by decide +kernel)⟩

/-- The call before the reconnect never got its response. Its id is the first
one drawn after the reset, so it receives the response to the Auth packet, and
`on_connected` is not called. -/
def staleCallRun : List ClientEvent :=
  [.call .cmdSubDepth [], .enqueue 0, .connect, .take, .forwarded true, .register false, .fail,
    .reset, .connect, .handshake, .deliver false, .answer 0 .success [], .receive false,
    .authForwarded, .consume]

theorem response_routing_sound_counterexample :
    ∃ s, Machine.run (step plainProst plainConfig) new staleCallRun = some s ∧
      (∃ r h, s.consumed = [(.response (answerTo (.auth r h) .success []), .handed 0)]) ∧
      ¬∀ x ∈ s.consumed, RoutedRight x := by
  have hout : (Machine.run (step plainProst plainConfig) new staleCallRun).map (·.consumed) =
      some [(.response (answerTo (.auth (newRequest .auth 1 (authBody plainProst plainConfig)) rfl)
        .success []), .handed 0)] := by
    decide +kernel
  obtain ⟨s, hrun, hconsumed⟩ := Option.map_eq_some_iff.mp hout
  refine ⟨s, hrun, ⟨_, _, hconsumed⟩, ?_⟩
  intro hall
  rw [hconsumed] at hall
  have howner := (hall _ (List.mem_singleton_self _)).1 0 rfl
  cases howner

end Client

end QuoteLink

import QuoteLink.ResponseRouting

open IdLedger

namespace QuoteLink

namespace Client

variable {prost : Prost} {conf : LinkClientConfig} {s s' t : Client} {e : ClientEvent}
  {es : List ClientEvent}

/-- The ids drawn in a run, in order. -/
def drawnIds (prost : Prost) (conf : LinkClientConfig) : Client → List ClientEvent → List UInt32
  | _, [] => []
  | s, e :: es =>
    (s.drawnId e).toList ++ (step prost conf s e).elim [] fun s' => drawnIds prost conf s' es

theorem drawnId_cases (s : Client) (e : ClientEvent) :
    s.drawnId e = none ∨ s.drawnId e = some s.nextId := by
  cases e <;> first | exact Or.inl rfl | exact Or.inr rfl

/-- Every id drawn advances `request_id_gen` by one. -/
theorem step_requestIdGen (hs : step prost conf s e = some s') (he : e ≠ .reset) :
    s'.requestIdGen = if (s.drawnId e).isSome then s.requestIdGen + 1 else s.requestIdGen := by
  cases step_cases hs with
  | reset => exact absurd rfl he
  | register q timedOut hpc =>
    obtain ⟨_, heq⟩ := registerOne_frame s q timedOut
    rw [heq]
    rfl
  | deliver x rest lost hx =>
    obtain ⟨_, heq⟩ := deliverOne_frame s x rest lost
    rw [heq]
    rfl
  | receive x rest full hpc hx =>
    obtain ⟨_, _, _, heq⟩ := receiveOne_frame { s with conn := { s.conn with replies := rest } } x full
    rw [heq]
    rfl
  | consume x rest hx =>
    obtain ⟨_, _, heq⟩ := consumeOne_frame { s with packetProcessRx := rest } x
    rw [heq]
    rfl
  | _ => rfl

/-- The steps of the first connection, its ids being three bytes long, in which the
registration gets the lock in time. -/
def FirstConnStep (s : Client) (e : ClientEvent) : Prop :=
  e ≠ .reset ∧ e ≠ .register true ∧ (s.drawnId e ≠ none → s.requestIdGen.toNat < 2 ^ 24)

theorem nextId_eq (h : s.requestIdGen.toNat < 2 ^ 24) : s.nextId = s.requestIdGen :=
  requestIdTrim_of_lt h

theorem toNat_requestIdGen (hs : step prost conf s e = some s') (he : s.FirstConnStep e) :
    s'.requestIdGen.toNat = s.requestIdGen.toNat + (s.drawnId e).toList.length := by
  obtain ⟨hreset, _, hlt⟩ := he
  rw [step_requestIdGen hs hreset]
  cases hdrawn : s.drawnId e with
  | none => rfl
  | some i =>
    have hbound := hlt (by rw [hdrawn]; exact Option.some_ne_none i)
    have hone : (1 : UInt32).toNat = 1 := rfl
    simp only [Option.isSome_some, if_true, Option.toList_some, List.length_singleton,
      UInt32.toNat_add, hone]
    omega

/-- With fewer than `2 ^ 24` ids drawn, no id comes round again. -/
theorem firstConn_meets (h : Machine.run (step prost conf) s es = some t)
    (hreset : .reset ∉ es) (hlock : .register true ∉ es)
    (hdraws : s.requestIdGen.toNat + (drawnIds prost conf s es).length ≤ 2 ^ 24) :
    Machine.Meets (step prost conf) FirstConnStep s es := by
  induction es generalizing s with
  | nil => trivial
  | cons e es ih =>
    obtain ⟨s', he, hes⟩ := Machine.run_cons_iff.mp h
    simp only [List.mem_cons, not_or] at hreset hlock
    simp only [drawnIds, he, Option.elim_some, List.length_append] at hdraws
    have hcond : s.FirstConnStep e := by
      refine ⟨Ne.symm hreset.1, Ne.symm hlock.1, ?_⟩
      intro hdrawn
      obtain ⟨i, hi⟩ := Option.ne_none_iff_exists'.mp hdrawn
      rw [hi, Option.toList_some, List.length_singleton] at hdraws
      omega
    refine ⟨hcond, ?_⟩
    rw [he]
    refine ih hes hreset.2 hlock.2 ?_
    rw [toNat_requestIdGen he hcond]
    omega

/-- The ids drawn on the first connection are the numbers counted by `request_id_gen`. -/
theorem drawnIds_eq_range (h : Machine.run (step prost conf) s es = some t)
    (hmeets : Machine.Meets (step prost conf) FirstConnStep s es) :
    (drawnIds prost conf s es).map UInt32.toNat =
      List.range' s.requestIdGen.toNat (t.requestIdGen.toNat - s.requestIdGen.toNat) ∧
      s.requestIdGen.toNat ≤ t.requestIdGen.toNat := by
  induction es generalizing s with
  | nil =>
    cases h
    simp [drawnIds]
  | cons e es ih =>
    obtain ⟨s', he, hes⟩ := Machine.run_cons_iff.mp h
    obtain ⟨hcond, hrest⟩ := hmeets
    rw [he] at hrest
    obtain ⟨htail, hle⟩ := ih hes hrest
    have hgen := toNat_requestIdGen he hcond
    simp only [drawnIds, he, Option.elim_some, List.map_append, htail]
    rcases drawnId_cases s e with hnone | hsome
    · rw [hnone] at hgen ⊢
      simp only [Option.toList_none, List.length_nil, Nat.add_zero] at hgen
      rw [hgen] at hle ⊢
      exact ⟨rfl, hle⟩
    · have hlt := hcond.2.2 (by rw [hsome]; exact Option.some_ne_none _)
      rw [hsome] at hgen ⊢
      simp only [Option.toList_some, List.length_singleton] at hgen
      have hcount : t.requestIdGen.toNat - s.requestIdGen.toNat =
          (t.requestIdGen.toNat - s'.requestIdGen.toNat) + 1 := by omega
      rw [nextId_eq hlt, hcount, List.range'_succ, hgen]
      exact ⟨rfl, by omega⟩

/-- The id was drawn earlier on this connection. -/
def Drawn (s : Client) (i : UInt32) : Prop := 0 < i.toNat ∧ i.toNat < s.requestIdGen.toNat

/-- What holds on the first connection: no id is in flight twice, every call sent is
entered in the table, and no response to a call was handed elsewhere. -/
structure InOrder (s : Client) : Prop where
  sound : s.ledger.Sound SentRequest.id SentRequest.owner
  registered : s.ledger.Registered SentRequest.id SentRequest.owner
  drawn : s.ledger.Within SentRequest.id s.Drawn
  started : 0 < s.requestIdGen.toNat
  handed : ∀ a out, (.response a, out) ∈ s.consumed → ∀ c, a.answered.owner = some c → out = .handed c

theorem InOrder.fresh (h : s.InOrder) (he : s.FirstConnStep e) : s.Fresh e := by
  have hnew : s.drawnId e ≠ none → s.NextIdFree ∧ s.requests.lookup s.nextId = none := by
    intro hdrawn
    have hid := nextId_eq (he.2.2 hdrawn)
    refine ⟨?_, ?_⟩
    · intro hmem
      obtain ⟨t, ht, heq⟩ := Multiset.mem_map.mp hmem
      have hlt := (h.drawn.ids t ht).2
      rw [heq, hid] at hlt
      exact Nat.lt_irrefl _ hlt
    · cases hlook : s.requests.lookup s.nextId with
      | none => rfl
      | some c =>
        have hlt := (h.drawn.table s.nextId c hlook).2
        rw [hid] at hlt
        exact absurd hlt (Nat.lt_irrefl _)
  cases e with
  | call cmd body => exact (hnew (Option.some_ne_none _)).1
  | connect => exact hnew (Option.some_ne_none _)
  | drawSubscribe => exact hnew (Option.some_ne_none _)
  | register timedOut =>
    intro htimed
    rw [htimed] at he
    exact absurd rfl he.2.1
  | _ => trivial

theorem InOrder.lookup_of_taken {a : Answer} {c : Nat} (h : s.InOrder)
    (ha : .response a ∈ s.packetProcessRx) (howner : a.answered.owner = some c) :
    s.Drawn a.response.id ∧ s.requests.lookup a.response.id = some c := by
  have harrived : a.answered ∈ s.ledger.arrived := by
    have hmem : a.answered ∈ s.packetProcessRx.filterMap Incoming.answered? :=
      List.mem_filterMap.mpr ⟨_, ha, rfl⟩
    exact Multiset.mem_coe.mpr hmem
  rw [a.echoes.1]
  exact ⟨h.drawn.ids _ (Multiset.mem_add.mpr (Or.inr harrived)), h.registered.arrived _ harrived c howner⟩

theorem InOrder.consumeOne_handed {x : Incoming} {rest : List Incoming} (h : s.InOrder)
    (hx : s.packetProcessRx = x :: rest) :
    ∀ a out, (.response a, out) ∈ (consumeOne { s with packetProcessRx := rest } x).consumed →
      ∀ c, a.answered.owner = some c → out = .handed c := by
  have hadd : ∀ o, (∀ a, x = .response a → ∀ c, a.answered.owner = some c → o = .handed c) →
      ∀ a out, (Incoming.response a, out) ∈ s.consumed ++ [(x, o)] →
        ∀ c, a.answered.owner = some c → out = .handed c := by
    intro o ho a out hmem
    rcases List.mem_append.mp hmem with hold | hnew
    · exact h.handed a out hold
    · obtain ⟨hxa, rfl⟩ := Prod.mk.inj (List.mem_singleton.mp hnew)
      exact ho a hxa.symm
  cases x with
  | request r => exact hadd .onRequest fun a hxa => nomatch hxa
  | push p => exact hadd .onPush fun a hxa => nomatch hxa
  | response a =>
    have htaken : ∀ c, a.answered.owner = some c → s.requests.lookup a.response.id = some c := by
      intro c hc
      refine (h.lookup_of_taken ?_ hc).2
      rw [hx]
      exact List.mem_cons_self
    cases hlook : s.requests.lookup a.response.id with
    | some d =>
      simp only [consumeOne, hlook]
      refine hadd (.handed d) ?_
      intro b hb c hc
      cases hb
      rw [htaken c hc] at hlook
      cases hlook
      rfl
    | none =>
      have hnone : ∀ o, ∀ b, Incoming.response a = .response b → ∀ c, b.answered.owner = some c →
          o = Outcome.handed c := by
        intro o b hb c hc
        cases hb
        rw [htaken c hc] at hlook
        cases hlook
      simp only [consumeOne, hlook]
      split
      · exact hadd .onConnected (hnone _)
      · exact hadd .onResponse (hnone _)

theorem InOrder.step (h : s.InOrder) (he : s.FirstConnStep e) (hs : step prost conf s e = some s') :
    s'.InOrder := by
  have hmoves := step_orderly hs (h.fresh he) he.2.1
  have hgen := toNat_requestIdGen hs he
  refine ⟨h.sound.moves hmoves.moves, h.registered.moves h.sound hmoves, ?_, ?_, ?_⟩
  · have hnext : ∀ i, s.drawnId e = some i → s'.Drawn i := by
      intro i hi
      rcases drawnId_cases s e with hnone | hsome
      · rw [hnone] at hi
        cases hi
      · have hid := nextId_eq (he.2.2 (by rw [hsome]; exact Option.some_ne_none _))
        rw [hsome, hid] at hi
        cases hi
        have hstarted := h.started
        rw [hsome] at hgen
        simp only [Option.toList_some, List.length_singleton] at hgen
        exact ⟨hstarted, by omega⟩
    have hkept : s.ledger.Within SentRequest.id s'.Drawn :=
      h.drawn.mono fun i hi => ⟨hi.1, lt_of_lt_of_le hi.2 (by omega)⟩
    exact hkept.moves hnext hmoves
  · have hstarted := h.started
    omega
  · rcases step_consumed hs with hsame | ⟨x, rest, hx, rfl⟩
    · rw [hsame]
      exact h.handed
    · exact h.consumeOne_handed hx

theorem new_inOrder : new.InOrder where
  sound := new_sound
  registered :=
    ⟨fun t ht => absurd ht (Multiset.notMem_zero t), fun t ht => absurd ht (Multiset.notMem_zero t)⟩
  drawn := by
    refine ⟨fun t ht => absurd ht (Multiset.notMem_zero t), ?_, ?_⟩
    · intro t ht
      cases ht
    · intro i c hc
      cases hc
  started := by decide
  handed := fun a out hmem => absurd hmem List.not_mem_nil

/-- The consumer task takes a response to a call and hands it to the call. -/
theorem InOrder.consume {a : Answer} {c : Nat} {rest : List Incoming} (h : s.InOrder)
    (hx : s.packetProcessRx = .response a :: rest) (howner : a.answered.owner = some c) :
    Client.step prost conf s .consume = some { s with
      packetProcessRx := rest
      requests := s.requests.erase a.response.id
      consumed := s.consumed ++ [(.response a, .handed c)] } := by
  have hmem : .response a ∈ s.packetProcessRx := by
    rw [hx]
    exact List.mem_cons_self
  obtain ⟨_, hlook⟩ := h.lookup_of_taken hmem howner
  simp only [Client.step, hx, consumeOne, hlook]

/-- On the first connection no id is drawn twice, and a response to a call that waits
for the consumer task finds the call in the table: when the consumer task takes it, it
hands it to the call, and it has never handed one elsewhere. -/
theorem response_after_registration (prost : Prost) (conf : LinkClientConfig)
    (events : List ClientEvent) (s : Client)
    (h : Machine.run (step prost conf) new events = some s)
    (hfirst : .reset ∉ events) (hlock : .register true ∉ events)
    (hdraws : (drawnIds prost conf new events).length < 2 ^ 24) :
    (drawnIds prost conf new events).Nodup ∧
      ∀ a c, a.answered.owner = some c →
        (.response a ∈ s.packetProcessRx →
          a.response.id ∈ drawnIds prost conf new events ∧
            s.requests.lookup a.response.id = some c) ∧
        (∀ rest, s.packetProcessRx = .response a :: rest →
          step prost conf s .consume = some { s with
            packetProcessRx := rest
            requests := s.requests.erase a.response.id
            consumed := s.consumed ++ [(.response a, .handed c)] }) ∧
        ∀ out, (.response a, out) ∈ s.consumed → out = .handed c := by
  have hgen : new.requestIdGen.toNat = 1 := rfl
  have hmeets : Machine.Meets (Client.step prost conf) FirstConnStep new events := by
    refine firstConn_meets h hfirst hlock ?_
    omega
  have hstep : ∀ (s : Client) e s', s.InOrder → s.FirstConnStep e →
      Client.step prost conf s e = some s' → s'.InOrder := fun s e s' hi he hs => hi.step he hs
  have horder : s.InOrder := Machine.run_invariant_of_meets hstep new_inOrder hmeets h
  obtain ⟨hrange, _⟩ := drawnIds_eq_range h hmeets
  refine ⟨?_, ?_⟩
  · apply List.Nodup.of_map UInt32.toNat
    rw [hrange]
    exact List.nodup_range'
  · intro a c howner
    refine ⟨?_, fun rest hx => horder.consume hx howner, fun out hout => horder.handed a out hout c howner⟩
    intro ha
    obtain ⟨hdrawn, hlook⟩ := horder.lookup_of_taken ha howner
    refine ⟨?_, hlook⟩
    have hmem : a.response.id.toNat ∈ (drawnIds prost conf new events).map UInt32.toNat := by
      obtain ⟨hpos, hlt⟩ := hdrawn
      rw [hrange, List.mem_range']
      exact ⟨a.response.id.toNat - 1, by omega, by omega⟩
    obtain ⟨i, hi, heq⟩ := List.mem_map.mp hmem
    rwa [← UInt32.toNat_inj.mp heq]

/-- The server answers a call before its oneshot is entered; the answer is taken
from the transport after that. -/
def promptAnswerRun : List ClientEvent :=
  [.call .cmdSubDepth [], .enqueue 0, .connect, .take, .forwarded true, .deliver false,
    .answer 0 .success [], .register false, .receive false]

theorem response_after_registration_prompt :
    ∃ s s' a, Machine.run (step plainProst plainConfig) new promptAnswerRun = some s ∧
      .response a ∈ s.packetProcessRx ∧ s.requests.lookup a.response.id = some 0 ∧
      Machine.run (step plainProst plainConfig) new (promptAnswerRun ++ [.consume]) = some s' ∧
      s'.consumed = [(.response a, .handed 0)] := by
  let r : CallRequest := ⟨0, newRequest .cmdSubDepth 1 [], by decide⟩
  let a : Answer := answerTo (.call r) .success []
  have hout : (Machine.run (step plainProst plainConfig) new promptAnswerRun).map
      (fun s => (s.packetProcessRx, s.consumed)) = some ([.response a], []) := by
    decide +kernel
  obtain ⟨s, hrun, hs⟩ := Option.map_eq_some_iff.mp hout
  obtain ⟨hrx, hconsumed⟩ := Prod.mk.inj hs
  have ha : .response a ∈ s.packetProcessRx := by
    rw [hrx]
    exact List.mem_singleton_self _
  obtain ⟨htaken, hconsume, _⟩ := (response_after_registration plainProst plainConfig promptAnswerRun s hrun
    (by decide) (by decide) (by decide +kernel)).2 a 0 rfl
  have hnext := hconsume [] hrx
  have hend : Machine.run (step plainProst plainConfig) s [.consume] = some _ :=
    Machine.run_cons_iff.mpr ⟨_, hnext, rfl⟩
  have hlast := Machine.run_append hrun hend
  refine ⟨s, _, a, hrun, ha, (htaken ha).2, hlast, ?_⟩
  show s.consumed ++ [(.response a, .handed 0)] = [(.response a, .handed 0)]
  rw [hconsumed, List.nil_append]

end Client

end QuoteLink

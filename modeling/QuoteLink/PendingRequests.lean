import QuoteLink.ResponseRouting

open IdLedger

namespace QuoteLink

def CallRequest.call? (r : CallRequest) : Option Nat := some r.call

namespace Client

variable {prost : Prost} {conf : LinkClientConfig} {s s' t : Client} {e : ClientEvent}
  {es : List ClientEvent}

/-- The calls whose oneshots are in the `requests` map. -/
def tableCalls (s : Client) : List Nat := s.requests.entries.map (·.2)

/-- The calls of `send_request` that have not returned. -/
def inProgress (s : Client) : List Nat := (List.range s.nextCall).filter (· ∉ s.returned)

/-- Every entry of the map belongs to a call that has not returned, and the map is
no larger than the calls in progress. -/
def NoLeak (s : Client) : Prop :=
  (∀ c ∈ s.tableCalls, c ∉ s.returned) ∧ s.requests.entries.length ≤ s.inProgress.length

/-- No call runs into its response timeout before the consumer task has handed it its
response. -/
def InTime (s : Client) : ClientEvent → Prop
  | .ret c .timedOut => c ∈ s.handedCalls
  | _ => True

instance (s : Client) : ∀ e, Decidable (s.InTime e)
  | .ret c .timedOut => inferInstanceAs (Decidable (c ∈ s.handedCalls))
  | .ret _ .answered | .ret _ .dropped | .register _ | .call _ _ | .enqueue _ | .sendFailed _ | .sendPush _
  | .sendResponse _ | .connect | .handshake | .tick _ | .heartbeatSent | .take | .forwarded _ | .deliver _
  | .answer _ _ _ | .serverRequest _ | .serverPush _ | .receive _ | .authForwarded | .drawSubscribe
  | .sendSubscribe | .fail | .reset | .stop | .consume => isTrue trivial

def pcCalls : LinkPc → Multiset Nat
  | .forwarding q => collect Queued.call? [q]
  | .registering q => collect Queued.call? [q]
  | _ => 0

/-- The calls whose oneshot is somewhere on its way or in the map. -/
def pending (s : Client) : Multiset Nat :=
  collect CallRequest.call? s.drawn + collect Queued.call? s.requestRx + pcCalls s.pc +
    (s.tableCalls : Multiset Nat)

theorem pending_eq (hdrawn : s'.drawn = s.drawn) (hrx : s'.requestRx = s.requestRx)
    (hpc : pcCalls s'.pc = pcCalls s.pc) (htable : s'.requests = s.requests) :
    s'.pending = s.pending := by
  simp only [pending, tableCalls, hdrawn, hrx, hpc, htable]

theorem pending_le (hdrawn : s'.drawn = s.drawn) (hrx : s'.requestRx = s.requestRx)
    (hpc : pcCalls s'.pc = 0) (htable : s'.requests = s.requests) : s'.pending ≤ s.pending := by
  simp only [pending, tableCalls, hdrawn, hrx, hpc, htable, add_zero]
  exact add_le_add (Multiset.le_add_right _ _) le_rfl

theorem tableCalls_erase (m : AList fun _ : UInt32 => Nat) (i : UInt32) :
    ((m.erase i).entries.map (·.2)).Sublist (m.entries.map (·.2)) :=
  (List.kerase_sublist i m.entries).map _

theorem call_pending {cmd : Command} {body : Bytes} (h : cmd ≠ .heartbeat ∧ cmd ≠ .auth) :
    pending { s with
      requestIdGen := s.requestIdGen + 1
      nextCall := s.nextCall + 1
      drawn := s.drawn ++ [⟨s.nextCall, newRequest cmd s.requestIdGen body, h⟩] } =
      s.nextCall ::ₘ s.pending := by
  have hone : collect CallRequest.call? [⟨s.nextCall, newRequest cmd s.requestIdGen body, h⟩] =
      {s.nextCall} := collect_singleton _ _
  simp only [pending, tableCalls, collect_append, hone, ← Multiset.singleton_add]
  abel

theorem queueOther_pending {q : Queued} (hq : q.call? = none) :
    pending { s with requestRx := s.requestRx ++ [q] } = s.pending := by
  simp only [pending, tableCalls, collect_append, collect_singleton, hq, Option.toList_none,
    Multiset.coe_nil, add_zero]

theorem stop_pending : pending { s with pc := .stopped, conn := .closed, requestRx := [] } ≤ s.pending := by
  simp only [pending, tableCalls, pcCalls, collect_nil, add_zero]
  refine add_le_add ?_ le_rfl
  exact le_trans (Multiset.le_add_right _ _) (Multiset.le_add_right _ _)

theorem enqueue_pending {k : Nat} {r : CallRequest} (hk : s.drawn[k]? = some r) :
    pending { s with drawn := s.drawn.eraseIdx k, requestRx := s.requestRx ++ [.request r] } =
      s.pending := by
  have herase := collect_eraseIdx CallRequest.call? hk
  have hsame : collect Queued.call? [.request r] = collect CallRequest.call? [r] :=
    collect_singleton_congr _ rfl
  simp only [pending, tableCalls, collect_append, herase, hsame]
  abel

theorem sendFailed_pending {k : Nat} {r : CallRequest} (hk : s.drawn[k]? = some r) :
    pending { s with drawn := s.drawn.eraseIdx k } ≤ s.pending := by
  have herase := collect_eraseIdx CallRequest.call? hk
  simp only [pending, tableCalls, herase]
  exact add_le_add (add_le_add (add_le_add (Multiset.le_add_left _ _) le_rfl) le_rfl) le_rfl

theorem take_pending {q : Queued} {rest : List Queued} (hpc : s.pc = .idle)
    (hq : s.requestRx = q :: rest) :
    pending { s with pc := .forwarding q, requestRx := rest } = s.pending := by
  have hcons := collect_cons Queued.call? q rest
  simp only [pending, tableCalls, pcCalls, hpc, hq, hcons]
  abel

theorem register_pending {q : Queued} {timedOut : Bool} (hpc : s.pc = .registering q) :
    (s.registerOne q timedOut).pending ≤ s.pending := by
  cases q with
  | request r =>
    have hone : collect Queued.call? [.request r] = {r.call} := collect_singleton _ _
    cases timedOut with
    | true =>
      simp only [registerOne, pending, tableCalls, pcCalls, hpc, if_true, add_zero]
      exact add_le_add (Multiset.le_add_right _ _) le_rfl
    | false =>
      have hkept := (tableCalls_erase s.requests r.request.id).subperm
      simp only [registerOne, pending, tableCalls, pcCalls, hpc, hone, Bool.false_eq_true, if_false,
        AList.entries_insert, List.map_cons, ← Multiset.cons_coe, ← Multiset.singleton_add, add_zero,
        ← add_assoc]
      exact add_le_add le_rfl (Multiset.coe_le.mpr hkept)
  | push p => exact pending_le rfl rfl rfl rfl
  | response r => exact pending_le rfl rfl rfl rfl

theorem consume_pending (s : Client) (x : Incoming) : (s.consumeOne x).pending ≤ s.pending := by
  unfold consumeOne
  split
  · exact le_rfl
  · exact le_rfl
  next a =>
    split
    · have hkept := (tableCalls_erase s.requests a.response.id).subperm
      exact add_le_add le_rfl (Multiset.coe_le.mpr hkept)
    · split <;> exact le_rfl

theorem receive_pending (s : Client) (x : Incoming) (full : Bool) :
    (s.receiveOne x full).pending ≤ s.pending := by
  unfold receiveOne
  cases full <;> dsimp only <;> repeat' split
  all_goals first
    | exact le_rfl
    | exact pending_le rfl rfl rfl rfl

/-- Only a new call adds to the calls under way, and each call is new once. -/
theorem step_pending (hs : step prost conf s e = some s') :
    (s'.pending ≤ s.pending ∧ s'.nextCall = s.nextCall) ∨
      (s'.pending = s.nextCall ::ₘ s.pending ∧ s'.nextCall = s.nextCall + 1) := by
  cases step_cases hs with
  | call cmd body h => exact Or.inr ⟨call_pending h, rfl⟩
  | enqueue k r hk hpc => exact Or.inl ⟨le_of_eq (enqueue_pending hk), rfl⟩
  | sendFailed k r hk => exact Or.inl ⟨sendFailed_pending hk, rfl⟩
  | sendPush p hpc => exact Or.inl ⟨le_of_eq (queueOther_pending rfl), rfl⟩
  | sendResponse r hpc => exact Or.inl ⟨le_of_eq (queueOther_pending rfl), rfl⟩
  | take q rest hpc hrx => exact Or.inl ⟨le_of_eq (take_pending hpc hrx), rfl⟩
  | forwarded q hpc =>
    have hheld : pcCalls (.registering q) = pcCalls s.pc := by rw [hpc]; rfl
    exact Or.inl ⟨le_of_eq (pending_eq rfl rfl hheld rfl), rfl⟩
  | register q timedOut hpc =>
    refine Or.inl ⟨register_pending hpc, ?_⟩
    obtain ⟨_, heq⟩ := registerOne_frame s q timedOut
    rw [heq]
  | deliver x rest lost hx =>
    obtain ⟨_, heq⟩ := deliverOne_frame s x rest lost
    rw [heq]
    exact Or.inl ⟨le_rfl, rfl⟩
  | receive x rest full hpc hx =>
    refine Or.inl ⟨receive_pending { s with conn := { s.conn with replies := rest } } x full, ?_⟩
    obtain ⟨_, _, _, heq⟩ := receiveOne_frame { s with conn := { s.conn with replies := rest } } x full
    rw [heq]
  | consume x rest hx =>
    refine Or.inl ⟨consume_pending { s with packetProcessRx := rest } x, ?_⟩
    obtain ⟨_, _, heq⟩ := consumeOne_frame { s with packetProcessRx := rest } x
    rw [heq]
  | stop hcan => exact Or.inl ⟨stop_pending, rfl⟩
  | ret | handshake | answer | serverRequest | serverPush => exact Or.inl ⟨le_rfl, rfl⟩
  -- the link task holds no call where it goes
  | _ => exact Or.inl ⟨pending_le rfl rfl rfl rfl, rfl⟩

theorem mem_pending {c : Nat} : c ∈ s.pending ↔ c ∈ s.oneshots := by
  have hdrawn : collect CallRequest.call? s.drawn = (s.drawn.map (·.call) : List Nat) := by
    rw [collect, ← List.filterMap_eq_map]
    rfl
  have hpc : pcCalls s.pc = (s.pc.call?.toList : List Nat) := by
    cases hpc : s.pc with
    | forwarding q => exact collect_singleton Queued.call? q
    | registering q => exact collect_singleton Queued.call? q
    | _ => rfl
  rw [pending, hdrawn, hpc, collect, Multiset.coe_add, Multiset.coe_add, Multiset.coe_add, Multiset.mem_coe]
  exact Iff.rfl

/-- The calls whose oneshot waits for a response, and those that have got one. -/
def account (s : Client) : Multiset Nat := s.pending + (s.handedCalls : Multiset Nat)

theorem tableCalls_of_lookup {m : AList fun _ : UInt32 => Nat} {i : UInt32} {c : Nat} (h : m.lookup i = some c) :
    ((m.entries.map (·.2) : List Nat) : Multiset Nat) = c ::ₘ ((m.erase i).entries.map (·.2) : List Nat) := by
  have hkey : i ∈ m.entries.keys := AList.lookup_isSome.mp (by rw [h]; rfl)
  obtain ⟨d, before, after, _, hentries, herase⟩ := List.exists_of_kerase hkey
  have hd : d ∈ m.lookup i := List.mem_dlookup m.nodupKeys (by rw [hentries]; simp)
  rw [h] at hd
  cases hd
  show ((m.entries.map (·.2) : List Nat) : Multiset Nat) = c ::ₘ ((m.entries.kerase i).map (·.2) : List Nat)
  rw [herase, hentries, List.map_append, List.map_append, List.map_cons, Multiset.cons_coe, Multiset.coe_eq_coe]
  exact List.perm_middle

/-- The consumer task passes a oneshot on to its call. -/
theorem consume_account (s : Client) (x : Incoming) : (s.consumeOne x).account ≤ s.account := by
  have hquiet : ∀ out : Outcome, out.call? = none →
      account { s with consumed := s.consumed ++ [(x, out)] } ≤ s.account := by
    intro out hout
    simp only [account, handedCalls, pending, tableCalls, List.filterMap_append, List.filterMap_cons, hout,
      List.filterMap_nil, List.append_nil]
    exact le_rfl
  unfold consumeOne
  split
  · exact hquiet .onRequest rfl
  · exact hquiet .onPush rfl
  next a =>
    split
    next c hlook =>
      refine le_of_eq ?_
      simp only [account, handedCalls, pending, tableCalls, List.filterMap_append, List.filterMap_cons,
        Outcome.call?, List.filterMap_nil, tableCalls_of_lookup hlook, ← Multiset.coe_add, Multiset.coe_singleton,
        ← Multiset.singleton_add]
      abel
    next =>
      split
      · exact hquiet .onConnected rfl
      · exact hquiet .onResponse rfl

theorem step_account (hs : step prost conf s e = some s') :
    (s'.account ≤ s.account ∧ s'.nextCall = s.nextCall) ∨
      (s'.account = s.nextCall ::ₘ s.account ∧ s'.nextCall = s.nextCall + 1) := by
  rcases step_consumed hs with hsame | ⟨x, rest, hx, rfl⟩
  · have hhanded : s'.handedCalls = s.handedCalls := by rw [handedCalls, hsame, handedCalls]
    simp only [account, hhanded]
    rcases step_pending hs with ⟨hle, hnext⟩ | ⟨hcons, hnext⟩
    · exact Or.inl ⟨add_le_add hle le_rfl, hnext⟩
    · exact Or.inr ⟨by rw [hcons, Multiset.cons_add], hnext⟩
  · refine Or.inl ⟨consume_account { s with packetProcessRx := rest } x, ?_⟩
    obtain ⟨_, _, heq⟩ := consumeOne_frame { s with packetProcessRx := rest } x
    rw [heq]

/-- Each call has one oneshot, wherever it is, and it is gone once the call has returned. -/
structure Awaited (s : Client) : Prop where
  nodup : s.account.Nodup
  lt : ∀ c ∈ s.account, c < s.nextCall
  returned : ∀ c ∈ s.returned, c < s.nextCall ∧ c ∉ s.pending

theorem new_awaited : new.Awaited where
  nodup := Multiset.nodup_zero
  lt := fun c hc => absurd hc (Multiset.notMem_zero c)
  returned := fun _ hc => absurd hc List.not_mem_nil

theorem Awaited.not_pending (h : s.Awaited) {c : Nat} (hc : c ∈ s.handedCalls) : c ∉ s.pending := fun hpending =>
  Multiset.disjoint_left.mp (Multiset.nodup_add.mp h.nodup).2.2 hpending (Multiset.mem_coe.mpr hc)

/-- A call that returns in time leaves no oneshot behind. -/
theorem Awaited.not_pending_of_ret (h : s.Awaited) {c : Nat} {cause : ReturnCause} (hcause : s.canReturn c cause)
    (htime : s.InTime (.ret c cause)) : c ∉ s.pending := by
  cases cause with
  | answered => exact h.not_pending hcause
  | dropped => exact fun hpending => hcause.1 (mem_pending.mp hpending)
  | timedOut => exact h.not_pending htime

/-- Only `ret` adds to the calls that have returned. -/
theorem step_returned (hs : step prost conf s e = some s') (he : ∀ c cause, e ≠ .ret c cause) :
    s'.returned = s.returned := by
  cases step_cases hs with
  | ret c cause h => exact absurd rfl (he c cause)
  | register q timedOut hpc =>
    obtain ⟨_, heq⟩ := registerOne_frame s q timedOut
    rw [heq]
  | deliver x rest lost hx =>
    obtain ⟨_, heq⟩ := deliverOne_frame s x rest lost
    rw [heq]
  | receive x rest full hpc hx =>
    obtain ⟨_, _, _, heq⟩ := receiveOne_frame { s with conn := { s.conn with replies := rest } } x full
    rw [heq]
  | consume x rest hx =>
    obtain ⟨_, _, heq⟩ := consumeOne_frame { s with packetProcessRx := rest } x
    rw [heq]
  | _ => rfl

theorem Awaited.step (h : s.Awaited) (htime : s.InTime e) (hs : step prost conf s e = some s') : s'.Awaited := by
  have hmove := step_account hs
  have hgone : ∀ c, c < s.nextCall → c ∉ s.pending → c < s'.nextCall ∧ c ∉ s'.pending := by
    intro c hlt hc
    rcases step_pending hs with ⟨hle, hnext⟩ | ⟨hcons, hnext⟩
    · exact ⟨hnext ▸ hlt, fun hmem => hc (Multiset.mem_of_le hle hmem)⟩
    · refine ⟨by omega, ?_⟩
      rw [hcons, Multiset.mem_cons]
      rintro (rfl | hmem)
      · exact Nat.lt_irrefl _ hlt
      · exact hc hmem
  refine ⟨?_, ?_, ?_⟩
  · rcases hmove with ⟨hle, _⟩ | ⟨hcons, _⟩
    · exact Multiset.nodup_of_le hle h.nodup
    · rw [hcons]
      exact Multiset.nodup_cons.mpr ⟨fun hmem => Nat.lt_irrefl _ (h.lt _ hmem), h.nodup⟩
  · rcases hmove with ⟨hle, hnext⟩ | ⟨hcons, hnext⟩
    · rw [hnext]
      exact fun c hc => h.lt c (Multiset.mem_of_le hle hc)
    · rw [hcons, hnext]
      intro c hc
      rcases Multiset.mem_cons.mp hc with rfl | hc
      · exact Nat.lt_succ_self _
      · exact Nat.lt_succ_of_lt (h.lt c hc)
  · by_cases hret : ∃ c cause, e = .ret c cause
    · obtain ⟨c, cause, rfl⟩ := hret
      cases step_cases hs with
      | ret c cause hguard =>
        intro d hd
        rcases List.mem_append.mp hd with hd | hd
        · exact hgone d (h.returned d hd).1 (h.returned d hd).2
        · rw [List.mem_singleton.mp hd]
          exact hgone c hguard.1 (h.not_pending_of_ret hguard.2.2.2 htime)
    · rw [step_returned hs fun c cause he => hret ⟨c, cause, he⟩]
      exact fun d hd => hgone d (h.returned d hd).1 (h.returned d hd).2

/-- The bound on the size follows from the entries. -/
theorem Awaited.noLeak (h : s.Awaited) : s.NoLeak := by
  have hle : (s.tableCalls : Multiset Nat) ≤ s.account :=
    le_trans (Multiset.le_add_left _ _) (Multiset.le_add_right _ _)
  have hpending : ∀ c ∈ s.tableCalls, c ∈ s.pending := fun c hc =>
    Multiset.mem_of_le (Multiset.le_add_left _ _) (Multiset.mem_coe.mpr hc)
  have hopen : ∀ c ∈ s.tableCalls, c ∉ s.returned := fun c hc hret => (h.returned c hret).2 (hpending c hc)
  refine ⟨hopen, ?_⟩
  have hnodup : s.tableCalls.Nodup := Multiset.coe_nodup.mp (Multiset.nodup_of_le hle h.nodup)
  have hsubset : s.tableCalls ⊆ s.inProgress := by
    intro c hc
    have hlt := h.lt c (Multiset.mem_of_le hle (Multiset.mem_coe.mpr hc))
    exact List.mem_filter.mpr ⟨List.mem_range.mpr hlt, decide_eq_true (hopen c hc)⟩
  have hlen := (List.subperm_of_subset hnodup hsubset).length_le
  rwa [tableCalls, List.length_map] at hlen

/-- If no call runs into its response timeout before the consumer task has handed it its
response, the map holds oneshots of calls in progress only, in every state of the run. -/
theorem no_leak_in_time (prost : Prost) (conf : LinkClientConfig) (events : List ClientEvent)
    (htime : Machine.Meets (step prost conf) InTime new events) (past : List ClientEvent) (t : Client)
    (hpast : past <+: events) (hrun : Machine.run (step prost conf) new past = some t) : t.NoLeak := by
  have hstep : ∀ (s : Client) e s', s.Awaited → s.InTime e → Client.step prost conf s e = some s' → s'.Awaited :=
    fun _ _ _ h htime hs => h.step htime hs
  exact (Machine.run_invariant_of_meets hstep new_awaited (htime.front hpast) hrun).noLeak

/-- Two calls: the consumer task hands the one its response before it returns; the other's
oneshot is dropped with its request, as the connection is gone. -/
def answeredRun : List ClientEvent :=
  [.call .cmdSubDepth [], .enqueue 0, .connect, .take, .forwarded true, .register false, .deliver false,
    .answer 0 .success [], .receive false, .consume, .ret 0 .answered, .call .cmdSubDepth [], .enqueue 0, .take,
    .forwarded false, .ret 1 .dropped]

theorem no_leak_in_time_answered :
    ∃ s, Machine.run (step plainProst plainConfig) new answeredRun = some s ∧ s.returned = [0, 1] ∧
      s.requestRx = [] ∧ s.NoLeak := by
  have hout : (Machine.run (step plainProst plainConfig) new answeredRun).map
      (fun s => (s.returned, s.requestRx)) = some ([0, 1], []) := by
    decide +kernel
  obtain ⟨s, hrun, hs⟩ := Option.map_eq_some_iff.mp hout
  obtain ⟨hret, hrx⟩ := Prod.mk.inj hs
  exact ⟨s, hrun, hret, hrx,
    no_leak_in_time plainProst plainConfig answeredRun (by decide +kernel) answeredRun s (List.prefix_refl _) hrun⟩

/-- The transport loses the request, the call gives up, and its oneshot stays in the
map over the next connection. -/
def lostRun : List ClientEvent :=
  [.call .cmdSubDepth [], .enqueue 0, .connect, .take, .forwarded true, .register false, .deliver true,
    .ret 0 .timedOut, .fail, .reset, .connect]

theorem no_leak_counterexample :
    ∃ s, Machine.run (step plainProst plainConfig) new lostRun = some s ∧
      s.drawn = [] ∧ s.requestRx = [] ∧ s.pc = .idle ∧
      s.tableCalls = [0] ∧ s.returned = [0] ∧ s.inProgress = [] ∧ ¬s.NoLeak := by
  have hout : (Machine.run (step plainProst plainConfig) new lostRun).map
      (fun s => (s.tableCalls, s.returned, s.inProgress)) = some ([0], [0], []) := by
    decide +kernel
  have hdone : (Machine.run (step plainProst plainConfig) new lostRun).map
      (fun s => (s.drawn, s.requestRx, s.pc)) = some ([], [], .idle) := by
    decide +kernel
  obtain ⟨s, hrun, hs⟩ := Option.map_eq_some_iff.mp hout
  rw [hrun, Option.map_some, Option.some.injEq] at hdone
  have htable : s.tableCalls = [0] := congrArg (·.1) hs
  have hret : s.returned = [0] := congrArg (·.2.1) hs
  refine ⟨s, hrun, congrArg (·.1) hdone, congrArg (·.2.1) hdone, congrArg (·.2.2) hdone,
    htable, hret, congrArg (·.2.2) hs, ?_⟩
  intro hleak
  apply hleak.1 0
  · rw [htable]
    exact List.mem_singleton_self 0
  · rw [hret]
    exact List.mem_singleton_self 0

end Client

end QuoteLink

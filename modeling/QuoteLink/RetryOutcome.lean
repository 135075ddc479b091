import QuoteLink.ClientRetry
import QuoteLink.Progress

namespace QuoteLink

section Connect

theorem tryJoin_cons_ok_iff {handle : Option Joined} {handles : List (Option Joined)}
    {rs : List TaskResult} :
    tryJoin (handle :: handles) = some (.ok rs) ↔
      ∃ r rest, handle = some (.ok r) ∧ tryJoin handles = some (.ok rest) ∧ rs = r :: rest := by
  constructor
  · intro h
    unfold tryJoin at h
    split at h
    next => cases h
    next => cases h
    next r rest hrest =>
      cases h
      exact ⟨r, rest, rfl, hrest, rfl⟩
    next => cases h
  · rintro ⟨r, rest, rfl, hrest, rfl⟩
    simp only [tryJoin, hrest]

/-- `try_join!` succeeds when all tasks have returned, whatever they returned. -/
theorem tryJoin_ok_iff {handles : List (Option Joined)} :
    (∃ rs, tryJoin handles = some (.ok rs)) ↔ ∀ handle ∈ handles, ∃ r, handle = some (.ok r) := by
  induction handles with
  | nil => exact ⟨fun _ handle h => absurd h List.not_mem_nil, fun _ => ⟨[], rfl⟩⟩
  | cons handle handles ih =>
    rw [List.forall_mem_cons, ← ih]
    constructor
    · rintro ⟨rs, h⟩
      obtain ⟨r, rest, hr, hrest, _⟩ := tryJoin_cons_ok_iff.mp h
      exact ⟨⟨r, hr⟩, rest, hrest⟩
    · rintro ⟨⟨r, hr⟩, rest, hrest⟩
      exact ⟨r :: rest, tryJoin_cons_ok_iff.mpr ⟨r, rest, hr, hrest, rfl⟩⟩

theorem tryJoin_error {handles : List (Option Joined)} {e : JoinError}
    (h : tryJoin handles = some (.error e)) : some (.error e) ∈ handles := by
  induction handles with
  | nil => cases h
  | cons handle handles ih =>
    unfold tryJoin at h
    split at h
    next => cases h; exact List.mem_cons_self
    next hrest => cases h; exact List.mem_cons_of_mem _ (ih hrest)
    next => cases h
    next => cases h

namespace Attempt

variable {c c' : Attempt}

theorem forall_handles_iff {p : Option Joined → Prop} :
    (∀ handle ∈ c.handles, p handle) ↔ ∀ l, p (c.loops l) := by
  constructor
  · intro h l
    exact h (c.loops l) (List.mem_map_of_mem (TransportLoop.mem_all l))
  · intro h handle hmem
    obtain ⟨l, _, rfl⟩ := List.mem_map.mp hmem
    exact h l

/-- `connect` returns `Ok(())` when all loops have returned, also with errors. -/
theorem connectReturn_ok_iff : c.connectReturn = some .ok ↔ c.AllReturned := by
  have hjoin : (∃ rs, tryJoin c.handles = some (.ok rs)) ↔ c.AllReturned :=
    tryJoin_ok_iff.trans forall_handles_iff
  rw [← hjoin]
  constructor
  · intro h
    obtain ⟨rest, hrest, hres⟩ := Option.map_eq_some_iff.mp h
    cases rest with
    | ok rs => exact ⟨rs, hrest⟩
    | error e => cases hres
  · rintro ⟨rs, hrs⟩
    exact Option.map_eq_some_iff.mpr ⟨_, hrs, rfl⟩

theorem connectReturn_err (h : c.connectReturn = some .err) :
    ∃ l e, c.loops l = some (.error e) := by
  obtain ⟨rest, hrest, hres⟩ := Option.map_eq_some_iff.mp h
  cases rest with
  | ok rs => cases hres
  | error e =>
    obtain ⟨l, _, hl⟩ := List.mem_map.mp (tryJoin_error hrest)
    exact ⟨l, e, hl⟩

/-- What `conn_task` yields agrees with what the loops have done. -/
structure WellJoined (c : Attempt) : Prop where
  unspawned : c.spawned = false → (∀ l, c.loops l = none) ∧ c.connTask ≠ some (.ok .ok)
  joined : c.spawned = true → ∀ j, c.connTask = some j →
    j = .ok .ok ∧ c.AllReturned ∨ ∃ l e, c.loops l = some (.error e)

theorem new_wellJoined (now : Nat) : (new now).WellJoined :=
  ⟨fun _ => ⟨fun _ => rfl, nofun⟩, nofun⟩

theorem WellJoined.spawned_of_allReturned (hc : c.WellJoined) (h : c.AllReturned) :
    c.spawned = true := by
  cases hs : c.spawned with
  | true => rfl
  | false =>
    obtain ⟨r, hr⟩ := h .udpRead
    rw [(hc.unspawned hs).1 .udpRead] at hr
    cases hr

theorem AllReturned.not_error (h : c.AllReturned) (l : TransportLoop) (e : JoinError) :
    c.loops l ≠ some (.error e) := by
  intro he
  obtain ⟨r, hr⟩ := h l
  rw [he] at hr
  cases hr

theorem AllOk.allReturned (h : c.AllOk) : c.AllReturned := fun l => ⟨.ok, h l⟩

theorem WellJoined.connTask_of_allReturned (hc : c.WellJoined) (h : c.AllReturned) {j : Joined}
    (hj : c.connTask = some j) : j = .ok .ok := by
  rcases hc.joined (hc.spawned_of_allReturned h) j hj with ⟨hok, _⟩ | ⟨l, e, he⟩
  · exact hok
  · exact absurd he (h.not_error l e)

theorem update_loops_of_some {l l' : TransportLoop} {j j' : Joined} (hl : c.loops l = none)
    (hl' : c.loops l' = some j') : Function.update c.loops l (some j) l' = some j' := by
  have hne : l' ≠ l := by
    rintro rfl
    rw [hl] at hl'
    cases hl'
  rw [Function.update_of_ne hne, hl']

theorem connectReturn_wellJoined {r : TaskResult} (hs : c.spawned = true)
    (hr : c.connectReturn = some r) : { c with connTask := some (.ok r) }.WellJoined := by
  refine ⟨fun h => absurd (hs.symm.trans h) nofun, fun _ j hj => ?_⟩
  cases hj
  cases r with
  | ok => exact .inl ⟨rfl, connectReturn_ok_iff.mp hr⟩
  | err => exact .inr (connectReturn_err hr)

theorem step_wellJoined {e : TransportEvent} (hc : c.WellJoined) (h : c.step e = some c') :
    c'.WellJoined := by
  cases step_cases h with
  | spawned hs hj =>
    refine ⟨nofun, fun _ j hj' => ?_⟩
    exact absurd (hj.symm.trans hj') nofun
  | connectFails j hs hne =>
    refine ⟨fun hs => ⟨(hc.unspawned hs).1, fun hj => hne (Option.some.inj hj)⟩, fun h => ?_⟩
    rw [hs] at h
    cases h
  | loopEnds l j hs hl =>
    refine ⟨fun h => absurd (hs.symm.trans h) nofun, fun _ j' hj' => ?_⟩
    rcases hc.joined hs j' hj' with ⟨_, hall⟩ | ⟨l', e, he⟩
    · obtain ⟨r, hr⟩ := hall l
      rw [hl] at hr
      cases hr
    · exact .inr ⟨l', e, update_loops_of_some hl he⟩
  | connectReturns r hs hr => exact connectReturn_wellJoined hs hr
  | deliver packet hs => exact ⟨hc.unspawned, hc.joined⟩

theorem SameTasks.wellJoined (h : c.SameTasks c') (hc : c.WellJoined) : c'.WellJoined := by
  constructor
  · rw [h.spawned, h.loops, h.connTask]
    exact hc.unspawned
  · unfold AllReturned
    rw [h.spawned, h.loops, h.connTask]
    exact hc.joined

/-- `connect` has returned `Ok(())` only if all loops have. -/
def ConnectOk (c : Attempt) : Prop := c.connTask = some (.ok .ok) → c.AllOk

/-- `try_join!` does not complete over an error that a loop has returned. -/
def Unmasked (c : Attempt) (e : TransportEvent) : Prop :=
  e = .connectReturns → c.AllReturned → c.AllOk

theorem SameTasks.connectOk (h : c.SameTasks c') (hok : c.ConnectOk) : c'.ConnectOk := by
  unfold ConnectOk AllOk
  rw [h.loops, h.connTask]
  exact hok

theorem step_connectOk_iff {e : TransportEvent} (hok : c.ConnectOk) (h : c.step e = some c') :
    c'.ConnectOk ↔ c.Unmasked e := by
  cases step_cases h with
  | spawned hs hj => exact ⟨fun _ => nofun, fun _ => hok⟩
  | connectFails j hs hne =>
    exact ⟨fun _ => nofun, fun _ hj => absurd (Option.some.inj hj) hne⟩
  | loopEnds l j hs hl =>
    refine ⟨fun _ => nofun, fun _ hj => ?_⟩
    exact absurd (hl.symm.trans (hok hj l)) nofun
  | connectReturns r hs hr =>
    constructor
    · intro hok' _ hall
      have hr' := connectReturn_ok_iff.mpr hall
      rw [hr] at hr'
      cases hr'
      exact hok' rfl
    · intro hun hj
      cases hj
      exact hun rfl (connectReturn_ok_iff.mp hr)
  | deliver packet hs => exact ⟨fun _ => nofun, fun _ => hok⟩

end Attempt

end Connect

namespace ClientRetry

/-- No step lets a failure of the loops pass for a clean end: `connect` does not
return over the error of a loop, and the data loop does not end on five loops
that have all returned `Ok`. -/
def Unmasked (s : ClientRetry) : RetryEvent → Prop
  | .transport e => s.attempt.Unmasked e
  | .connTask => ¬s.attempt.AllOk
  | _ => True

instance (s : ClientRetry) : ∀ e, Decidable (s.Unmasked e)
  | .transport e => inferInstanceAs
      (Decidable (e = .connectReturns → s.attempt.AllReturned → s.attempt.AllOk))
  | .connTask => inferInstanceAs (Decidable (¬s.attempt.AllOk))
  | .processEnds | .connect _ _ | .ctrlC | .tick _ | .exitSignal | .request | .response _
  | .responseClosed | .sent | .sendFailed | .retry | .eventDone | .slept | .disconnect => isTrue trivial

/-- The last call of `on_conn_event` was a `DisconnectedForever`. -/
def Told (s : ClientRetry) : Prop :=
  ∃ reason, s.events.getLast? = some (.disconnectedForever reason)

/-- After `n` attempts: the next one is under way, or the task has ended with its
error after a `DisconnectedForever`. -/
def Resolved (n : Nat) (s : ClientRetry) : Prop :=
  s.pc = .data ∧ s.attempts = n + 1 ∨ s.pc = .returned .err ∧ s.Told

variable {decode : DecodeHeartbeat} {subscribes : List Subscribe} {conf : HealthyConfig}
  {s s' : ClientRetry} {e : RetryEvent}

/-- What holds in every state, however the loops end. -/
structure Orderly (s : ClientRetry) : Prop where
  attempt : s.attempt.WellJoined
  interrupted : s.interrupted = true → s.pc = .exiting ∨ s.pc = .returned .ok
  exiting : s.pc = .exiting → s.interrupted = true
  told : s.pc = .disconnecting ∨ s.pc = .returned .err → s.Told

theorem new_orderly : Orderly new :=
  ⟨Attempt.new_wellJoined 0, nofun, nofun, fun h => h.elim nofun nofun⟩

theorem Orderly.not_interrupted {pc : RetryPc} (hs : s.Orderly) (hpc : s.pc = pc)
    (hexiting : pc ≠ .exiting) (hreturned : pc ≠ .returned .ok) : s.interrupted = false := by
  cases hi : s.interrupted with
  | false => rfl
  | true =>
    rcases hs.interrupted hi with h | h
    · exact absurd (hpc.symm.trans h) hexiting
    · exact absurd (hpc.symm.trans h) hreturned

theorem orderly_of_not_interrupted (ha : s.attempt.WellJoined) (hi : s.interrupted = false)
    (hpc : s.pc ≠ .exiting) (ht : s.pc = .disconnecting ∨ s.pc = .returned .err → s.Told) :
    s.Orderly :=
  ⟨ha, fun h => absurd (hi.symm.trans h) nofun, fun h => absurd h hpc, ht⟩

/-- The points at which the task owes nothing to an interruption or an event. -/
def plain : RetryPc → Bool
  | .disconnecting | .exiting | .returned _ => false
  | _ => true

theorem Orderly.moveOn (hs : s.Orderly) (hpc : plain s.pc = true) (hpc' : plain s'.pc = true)
    (ha : s'.attempt.WellJoined) (hi : s'.interrupted = s.interrupted) : s'.Orderly := by
  have hnot : ∀ {pc : RetryPc}, plain pc = true → pc ≠ .exiting ∧ pc ≠ .returned .ok := by
    rintro pc hplain
    constructor <;> rintro rfl <;> cases hplain
  refine orderly_of_not_interrupted ha ?_ (hnot hpc').1 ?_
  · rw [hi]
    exact hs.not_interrupted rfl (hnot hpc).1 (hnot hpc).2
  · rintro (h | h) <;> rw [h] at hpc' <;> cases hpc'

theorem plain_of_fromLoop {pc : RetryPc} (h : pc.fromLoop = true) : plain pc = true := by
  cases pc with
  | data | sending w | failed err => rfl
  | _ => cases h

theorem told_of_append {events : List ClientConnEvent} {reason : ExitReason}
    (h : s.events = events ++ [.disconnectedForever reason]) : s.Told :=
  ⟨reason, h ▸ List.getLast?_concat⟩

theorem retry_pc (conf : HealthyConfig) (s : ClientRetry) (err : DataError) :
    (s.retry conf err).pc = .reporting ∨ ∃ reason, (s.retry conf err).pc = .exceeded reason := by
  unfold retry
  dsimp only
  split
  next => exact .inr ⟨_, rfl⟩
  next => exact .inl rfl

theorem retry_pc_ne {pc : RetryPc} {err : DataError} (hreporting : pc ≠ .reporting)
    (hexceeded : ∀ reason, pc ≠ .exceeded reason) : (s.retry conf err).pc ≠ pc := by
  rintro rfl
  rcases retry_pc conf s err with h | ⟨reason, h⟩
  · exact hreporting h
  · exact hexceeded reason h

theorem retry_other (conf : HealthyConfig) (s : ClientRetry) (err : DataError) :
    (s.retry conf err).attempt = s.attempt ∧ (s.retry conf err).attempts = s.attempts ∧
    (s.retry conf err).interrupted = s.interrupted := by
  unfold retry
  dsimp only
  split <;> exact ⟨rfl, rfl, rfl⟩

theorem retry_orderly {err : DataError} (hs : s.Orderly) (hpc : s.pc = .failed err) :
    (s.retry conf err).Orderly := by
  obtain ⟨hattempt, _, hinterrupted⟩ := retry_other conf s err
  refine hs.moveOn (by rw [hpc]; rfl) ?_ (hattempt ▸ hs.attempt) hinterrupted
  rcases retry_pc conf s err with h | ⟨reason, h⟩ <;> rw [h] <;> rfl

theorem step_orderly (hs : s.Orderly) (h : step decode subscribes conf s e = some s') :
    s'.Orderly := by
  cases step_cases h with
  | transport e c hc =>
    exact ⟨Attempt.step_wellJoined hs.attempt hc, hs.interrupted, hs.exiting, hs.told⟩
  | processEnds => exact ⟨hs.attempt, hs.interrupted, hs.exiting, hs.told⟩
  | connect now hpc => exact hs.moveOn (by rw [hpc]; rfl) rfl (Attempt.new_wellJoined now) rfl
  | noCid now hpc | connTaskErr j err hpc hj hne | reported hpc | slept hpc =>
    exact hs.moveOn (by rw [hpc]; rfl) rfl hs.attempt rfl
  | branch e pc hpc hpc' he hne hnot =>
    have hfrom := RetryPc.fromLoop_of_inLoop hpc
    exact hs.moveOn (plain_of_fromLoop hfrom) (plain_of_fromLoop hpc') hs.attempt rfl
  | response now packet rest c pc hpc hr hrest hc hpc' =>
    exact hs.moveOn (by rw [hpc]; rfl) (plain_of_fromLoop hpc') (hc.wellJoined hs.attempt) rfl
  | ctrlC hpc | exited hpc =>
    exact ⟨hs.attempt, fun _ => .inr rfl, nofun, fun h => h.elim nofun nofun⟩
  | connTaskOk hpc hj =>
    have hi := hs.not_interrupted hpc nofun nofun
    exact orderly_of_not_interrupted hs.attempt hi nofun fun h => h.elim nofun nofun
  | exitSignal hpc =>
    exact ⟨hs.attempt, fun _ => .inl rfl, fun _ => rfl, fun h => h.elim nofun nofun⟩
  | retry err hpc => exact retry_orderly hs hpc
  | disconnected hpc =>
    have hi := hs.not_interrupted hpc nofun nofun
    exact orderly_of_not_interrupted hs.attempt hi nofun fun _ => hs.told (.inl hpc)
  | disconnect reason hpc =>
    have hi := hs.not_interrupted hpc nofun nofun
    exact orderly_of_not_interrupted hs.attempt hi nofun fun _ => told_of_append rfl

/-- What depends on how the loops end. -/
structure Honest (s : ClientRetry) : Prop where
  connect_ok : s.attempt.ConnectOk
  ok_end : s.pc = .returned .ok → s.interrupted = true

theorem new_honest : Honest new := ⟨nofun, nofun⟩

theorem RetryPc.returned_ne_of_fromLoop {pc : RetryPc} {r : TaskResult} (h : pc.fromLoop = true) :
    pc ≠ .returned r := by
  rintro rfl
  cases h

theorem unmasked_of_byLink (he : e.byLink = true) (hne : e ≠ .connTask) : s.Unmasked e := by
  cases e with
  | transport e => cases he
  | connTask => exact absurd rfl hne
  | _ => trivial

theorem step_honest_iff (hs : s.Orderly) (hh : s.Honest)
    (h : step decode subscribes conf s e = some s') : s'.Honest ↔ s.Unmasked e := by
  cases step_cases h with
  | transport e c hc =>
    have hiff := Attempt.step_connectOk_iff hh.connect_ok hc
    exact ⟨fun h => hiff.mp h.connect_ok, fun h => ⟨hiff.mpr h, hh.ok_end⟩⟩
  | processEnds => exact ⟨fun _ => trivial, fun _ => ⟨hh.connect_ok, hh.ok_end⟩⟩
  | connect now hpc => exact ⟨fun _ => trivial, fun _ => ⟨nofun, nofun⟩⟩
  | noCid now hpc | exitSignal hpc | reported hpc | disconnected hpc | slept hpc
  | disconnect reason hpc =>
    exact ⟨fun _ => trivial, fun _ => ⟨hh.connect_ok, nofun⟩⟩
  | ctrlC hpc => exact ⟨fun _ => trivial, fun _ => ⟨hh.connect_ok, fun _ => rfl⟩⟩
  | connTaskOk hpc hj =>
    have hi := hs.not_interrupted hpc nofun nofun
    constructor
    · intro h
      exact absurd (hi.symm.trans (h.ok_end rfl)) nofun
    · intro h
      exact absurd (hh.connect_ok hj) h
  | connTaskErr j err hpc hj hne =>
    refine ⟨fun _ hall => ?_, fun _ => ⟨hh.connect_ok, nofun⟩⟩
    exact hne (hs.attempt.connTask_of_allReturned hall.allReturned hj)
  | branch e pc hpc hpc' he hne hnot =>
    have hun : s.Unmasked e := unmasked_of_byLink he hne
    refine ⟨fun _ => hun, fun _ => ⟨hh.connect_ok, fun h => ?_⟩⟩
    exact absurd h (RetryPc.returned_ne_of_fromLoop hpc')
  | response now packet rest c pc hpc hr hrest hc hpc' =>
    refine ⟨fun _ => trivial, fun _ => ⟨hc.connectOk hh.connect_ok, fun h => ?_⟩⟩
    exact absurd h (RetryPc.returned_ne_of_fromLoop hpc')
  | retry err hpc =>
    obtain ⟨hattempt, _, _⟩ := retry_other conf s err
    refine ⟨fun _ => trivial, fun _ => ⟨hattempt ▸ hh.connect_ok, fun h => ?_⟩⟩
    exact absurd h (retry_pc_ne nofun nofun)
  | exited hpc =>
    exact ⟨fun _ => trivial, fun _ => ⟨hh.connect_ok, fun _ => hs.exiting hpc⟩⟩

/-- On the way to the next attempt or to the end of the task. -/
def leaving : RetryPc → Bool
  | .connect => true
  | .failed _ => true
  | .reporting => true
  | .sleeping => true
  | .exceeded _ => true
  | .disconnecting => true
  | _ => false

/-- How many steps of its own the link task is away from `Resolved` at most. -/
def rank : RetryPc → Nat
  | .failed _ => 5
  | .reporting => 4
  | .sleeping => 3
  | .connect => 2
  | .exceeded _ => 1
  | _ => 0

/-- Behind the data loop of attempt `n`, and not by an interruption. -/
structure Leaving (n : Nat) (s : ClientRetry) : Prop where
  pc : leaving s.pc = true
  attempts : s.attempts = n
  told : s.pc = .disconnecting → s.Told

theorem Leaving.ne {n : Nat} {pc : RetryPc} (hs : s.Leaving n) (hpc : leaving pc = false) :
    s.pc ≠ pc := by
  rintro rfl
  exact absurd (hpc.symm.trans hs.pc) nofun

theorem Leaving.not_inLoop {n : Nat} (hs : s.Leaving n) : s.pc.inLoop ≠ true := by
  intro hpc
  cases h : s.pc with
  | data => exact hs.ne rfl h
  | sending w => exact hs.ne rfl h
  | _ => rw [h] at hpc; cases hpc

theorem leaving_enabled {n : Nat} (hs : s.Leaving n) :
    ∃ e t, e.prompt = true ∧ step decode subscribes conf s e = some t := by
  cases hpc : s.pc with
  | connect => exact ⟨.connect true 0, _, rfl, by simp only [step, hpc]; rfl⟩
  | failed err => exact ⟨.retry, _, rfl, by simp only [step, hpc]; rfl⟩
  | reporting => exact ⟨.eventDone, _, rfl, by simp only [step, hpc]; rfl⟩
  | sleeping => exact ⟨.slept, _, rfl, by simp only [step, hpc]; rfl⟩
  | exceeded reason => exact ⟨.disconnect, _, rfl, by simp only [step, hpc]; rfl⟩
  | disconnecting => exact ⟨.eventDone, _, rfl, by simp only [step, hpc]; rfl⟩
  | data => exact absurd hpc (hs.ne rfl)
  | sending w => exact absurd hpc (hs.ne rfl)
  | exiting => exact absurd hpc (hs.ne rfl)
  | returned r => exact absurd hpc (hs.ne rfl)

theorem leaving_other {n : Nat} (hs : s.Leaving n) (he : ¬e.prompt = true)
    (h : step decode subscribes conf s e = some s') : s'.Leaving n ∧ rank s'.pc = rank s.pc := by
  cases step_cases h with
  | transport e c hc => exact ⟨⟨hs.pc, hs.attempts, hs.told⟩, rfl⟩
  | processEnds => exact ⟨⟨hs.pc, hs.attempts, hs.told⟩, rfl⟩
  | branch e pc hpc hpc' hlink hne hnot => exact absurd hpc hs.not_inLoop
  | ctrlC hpc | connTaskOk hpc hj | connTaskErr j err hpc hj hne | exitSignal hpc
  | response now packet rest c pc hpc hr hrest hc hpc' => exact absurd hpc (hs.ne rfl)
  | _ => exact absurd rfl he

theorem leaving_retry {n : Nat} {err : DataError} (hs : s.Leaving n) (hpc : s.pc = .failed err) :
    (s.retry conf err).Leaving n ∧ rank (s.retry conf err).pc < rank s.pc := by
  obtain ⟨_, hattempts, _⟩ := retry_other conf s err
  have htold : (s.retry conf err).pc = .disconnecting → (s.retry conf err).Told :=
    fun h => absurd h (retry_pc_ne nofun nofun)
  rw [hpc]
  rcases retry_pc conf s err with h | ⟨reason, h⟩
  · refine ⟨⟨by rw [h]; rfl, hattempts.trans hs.attempts, htold⟩, ?_⟩
    rw [h]
    exact Nat.lt_succ_self 4
  · refine ⟨⟨by rw [h]; rfl, hattempts.trans hs.attempts, htold⟩, ?_⟩
    rw [h]
    change 1 < 5
    omega

/-- A step of the link task that is not in its data loop. -/
theorem leaving_own {n : Nat} (hs : s.Leaving n) (he : e.prompt = true)
    (h : step decode subscribes conf s e = some s') :
    s'.Resolved n ∨ s'.Leaving n ∧ rank s'.pc < rank s.pc := by
  cases step_cases h with
  | transport e c hc => cases he
  | processEnds => cases he
  | connect now hpc => exact .inl (.inl ⟨rfl, congrArg (· + 1) hs.attempts⟩)
  | noCid now hpc =>
    rw [hpc]
    exact .inr ⟨⟨rfl, hs.attempts, nofun⟩, Nat.one_lt_two⟩
  | retry err hpc => exact .inr (leaving_retry hs hpc)
  | reported hpc =>
    rw [hpc]
    exact .inr ⟨⟨rfl, hs.attempts, nofun⟩, Nat.lt_succ_self 3⟩
  | slept hpc =>
    rw [hpc]
    exact .inr ⟨⟨rfl, hs.attempts, nofun⟩, Nat.lt_succ_self 2⟩
  | disconnect reason hpc =>
    rw [hpc]
    exact .inr ⟨⟨rfl, hs.attempts, fun _ => told_of_append rfl⟩, Nat.zero_lt_one⟩
  | disconnected hpc => exact .inl (.inr ⟨rfl, hs.told hpc⟩)
  | exited hpc => exact absurd hpc (hs.ne rfl)
  | ctrlC hpc => exact absurd hpc (hs.ne rfl)
  | connTaskOk hpc hj => exact absurd hpc (hs.ne rfl)
  | connTaskErr j err hpc hj hne => exact absurd hpc (hs.ne rfl)
  | exitSignal hpc => exact absurd hpc (hs.ne rfl)
  | branch e pc hpc hpc' he hne hnot => exact absurd hpc hs.not_inLoop
  | response now packet rest c pc hpc hr hrest hc hpc' => exact absurd hpc (hs.ne rfl)

theorem leaving_inevitable {n : Nat} (hs : s.Leaving n) :
    Machine.Inevitable (step decode subscribes conf) (fun e => e.prompt = true) (Resolved n) s :=
  have henabled : ∀ s : ClientRetry, s.Leaving n →
      ∃ e t, e.prompt = true ∧ step decode subscribes conf s e = some t :=
    fun _ hs => leaving_enabled hs
  Machine.inevitable_of_rank henabled (fun _ _ _ hs he h => leaving_other hs he h)
    (fun _ _ _ hs he h => leaving_own hs he h) hs

end ClientRetry

end QuoteLink

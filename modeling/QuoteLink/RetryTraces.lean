import QuoteLink.RetryOutcome
import QuoteLink.Traces

namespace QuoteLink

open Machine (Trace)

namespace Attempt

variable {c c' : Attempt} {e : TransportEvent}

/-- A loop has ended with an error or a panic. -/
def LoopFailed (c : Attempt) : Prop := ∃ l j, c.loops l = some j ∧ j ≠ .ok .ok

/-- Datagrams of the peer no longer get in, or those for the peer no longer get out. -/
def Cut (c : Attempt) : Prop :=
  (c.loops .udpRead).isSome ∨ (c.loops .quicProcess).isSome ∨ (c.loops .udpWrite).isSome

/-- A loop that has ended stays so. -/
structure Later (c c' : Attempt) : Prop where
  spawned : c.spawned = true → c'.spawned = true
  loops : ∀ l j, c.loops l = some j → c'.loops l = some j

theorem Later.refl (c : Attempt) : c.Later c := ⟨id, fun _ _ h => h⟩

theorem Later.loopFailed (h : c.Later c') (hc : c.LoopFailed) : c'.LoopFailed := by
  obtain ⟨l, j, hl, hj⟩ := hc
  exact ⟨l, j, h.loops l j hl, hj⟩

theorem SameTasks.later (h : c.SameTasks c') : c.Later c' := by
  refine ⟨fun hs => h.spawned.trans hs, fun l j hl => ?_⟩
  rw [h.loops]
  exact hl

theorem step_later (h : c.step e = some c') : c.Later c' := by
  cases step_cases h with
  | spawned hs hj => exact ⟨fun _ => rfl, fun _ _ h => h⟩
  | loopEnds l j hs hl => exact ⟨id, fun _ _ h => update_loops_of_some hl h⟩
  | _ => exact ⟨id, fun _ _ h => h⟩

/-- What the data loop reads of an attempt, the tasks apart. -/
structure SameLocals (c c' : Attempt) : Prop where
  responses : c'.responses = c.responses
  isAuthed : c'.isAuthed = c.isAuthed
  connCreatedAt : c'.connCreatedAt = c.connCreatedAt
  lastPongAt : c'.lastPongAt = c.lastPongAt

theorem SameLocals.refl (c : Attempt) : c.SameLocals c := ⟨rfl, rfl, rfl, rfl⟩

theorem SameLocals.trans {c'' : Attempt} (h : c.SameLocals c') (h' : c'.SameLocals c'') :
    c.SameLocals c'' :=
  ⟨h'.responses.trans h.responses, h'.isAuthed.trans h.isAuthed,
    h'.connCreatedAt.trans h.connCreatedAt, h'.lastPongAt.trans h.lastPongAt⟩

theorem step_sameLocals (h : c.step e = some c') (he : ∀ packet, e ≠ .deliver packet) :
    c.SameLocals c' := by
  cases step_cases h with
  | deliver packet hs => exact absurd rfl (he packet)
  | _ => exact ⟨rfl, rfl, rfl, rfl⟩

end Attempt

namespace ClientRetry

variable {decode : DecodeHeartbeat} {subscribes : List Subscribe} {conf : HealthyConfig}
  {s s' : ClientRetry} {e : RetryEvent}

/-- What the scheduler, the timers and the peer owe to a trace of the link task. -/
structure Fair (T : Trace (step decode subscribes conf)) : Prop where
  /-- A step that waits for nothing is taken; `on_conn_event` returns. -/
  prompt : T.WeakFair fun e => e.prompt = true
  /-- Time goes on, and `select!` does not pass over the ticker for ever. -/
  ticks : ∀ n start, (∀ m, n ≤ m → (T.state m).pc.inLoop = true) →
    (∀ m, n ≤ m → ∃ k, m ≤ k ∧ (T.state k).pc = .data) →
    ∃ k now, n ≤ k ∧ start ≤ now ∧ T.event k = some (.tick now)
  /-- Without datagrams there are in the end no more packets. -/
  quiet : ∀ n, (T.state n).attempt.Cut → ∃ m, n ≤ m ∧ ∀ k, m ≤ k →
    (T.state k).attempts = (T.state n).attempts → ∀ packet, T.event k ≠ some (.transport (.deliver packet))

/-- What a failing transport leads to. -/
structure Reconnects (T : Trace (step decode subscribes conf)) : Prop where
  connect_ok : ∀ n, (T.state n).attempt.ConnectOk
  ok_end : ∀ n, (T.state n).pc = .returned .ok → (T.state n).interrupted = true
  err_end : ∀ n, (T.state n).pc = .returned .err → (T.state n).Told
  way_out : ∀ n, (T.state n).attempt.LoopFailed →
    ∃ m, n ≤ m ∧ ((T.state m).Resolved (T.state n).attempts ∨ (T.state m).interrupted = true)

/-- Once a loop has failed, no send of the data loop waits for ever. -/
def Unblocked (T : Trace (step decode subscribes conf)) : Prop :=
  ∀ n, (T.state n).attempt.LoopFailed → (T.state n).pc.isSending = true →
    ∃ m, n ≤ m ∧ (T.state m).pc.isSending = false

theorem step_later (hpc : s.pc ≠ .connect) (h : step decode subscribes conf s e = some s') :
    s'.attempts = s.attempts ∧ s.attempt.Later s'.attempt := by
  cases step_cases h with
  | transport e c hc => exact ⟨rfl, Attempt.step_later hc⟩
  | connect now hconnect => exact absurd hconnect hpc
  | response now packet rest c pc _ _ _ hc _ => exact ⟨rfl, hc.later⟩
  | retry err _ =>
    obtain ⟨hattempt, hattempts, _⟩ := retry_other conf s err
    rw [hattempt, hattempts]
    exact ⟨rfl, .refl _⟩
  | _ => exact ⟨rfl, .refl _⟩

theorem step_sameLocals (hpc : s.pc.inLoop = true) (h : step decode subscribes conf s e = some s')
    (hdeliver : ∀ packet, e ≠ .transport (.deliver packet)) (hresponse : ∀ now, e ≠ .response now) :
    s.attempt.SameLocals s'.attempt := by
  cases step_cases h with
  | transport e c hc =>
    exact Attempt.step_sameLocals hc fun packet he => hdeliver packet (congrArg _ he)
  | connect now hconnect =>
    rw [hconnect] at hpc
    cases hpc
  | response now packet rest c pc _ _ _ _ _ => exact absurd rfl (hresponse now)
  | retry err hfailed =>
    rw [hfailed] at hpc
    cases hpc
  | _ => exact .refl _

theorem response_shortens {now : Nat} (h : step decode subscribes conf s (.response now) = some s') :
    s'.attempt.responses.length < s.attempt.responses.length := by
  cases step_cases h with
  | branch e pc hpc hpc' he hne hnot => exact absurd rfl (hnot now)
  | response now packet rest c pc hpc hr hrest hc hpc' =>
    rw [hr, ← hrest]
    exact Nat.lt_succ_self _

/-- A tick that leaves the task in the data loop is in time, and goes on to the heartbeat. -/
theorem tick_stays {now : Nat} (h : step decode subscribes conf s (.tick now) = some s')
    (hpc' : s'.pc.inLoop = true) :
    s'.pc = .sending .heartbeat ∧
      (s.attempt.isAuthed = false → now - s.attempt.connCreatedAt ≤ conf.authTimeout) ∧
      (s.attempt.isAuthed = true → now - s.attempt.lastPongAt ≤ conf.heartbeatTimeout) := by
  simp only [step, Option.ite_none_right_eq_some] at h
  obtain ⟨_, h⟩ := h
  split at h
  next err _ =>
    cases h
    cases hpc'
  next hnone =>
    cases h
    refine ⟨rfl, fun hauthed => ?_, fun hauthed => ?_⟩
    · by_contra hlate
      simp [tickError, hauthed, Nat.lt_of_not_le hlate] at hnone
    · by_contra hlate
      simp [tickError, hauthed, Nat.lt_of_not_le hlate] at hnone

/-- A heartbeat for a closed channel is not sent. -/
theorem heartbeat_stays (hpc : s.pc = .sending .heartbeat) (hclosed : s.attempt.requestClosed = true)
    (h : step decode subscribes conf s e = some s') (hpc' : s'.pc.inLoop = true) :
    s'.pc = .sending .heartbeat := by
  have hsend : s.sendClosed .heartbeat = true := hclosed
  cases e with
  | transport e =>
    simp only [step, Option.ite_none_right_eq_some, Option.map_eq_some_iff] at h
    obtain ⟨_, c, _, rfl⟩ := h
    exact hpc
  | processEnds =>
    cases h
    exact hpc
  | sendFailed =>
    simp only [step, hpc, hsend, if_true, Sending.error, Option.some.injEq] at h
    subst h
    cases hpc'
  | _ => simp [step, hpc, hsend] at h

section Trace

variable {T : Trace (step decode subscribes conf)} {n : Nat}

theorem later_of_inLoop {m : Nat} (hm : n ≤ m)
    (hin : ∀ i, n ≤ i → i < m → (T.state i).pc.inLoop = true) :
    (T.state m).attempts = (T.state n).attempts ∧ (T.state n).attempt.Later (T.state m).attempt := by
  refine T.keeps (fun s => s.attempts = (T.state n).attempts ∧ (T.state n).attempt.Later s.attempt) hm ?_
    ⟨rfl, .refl _⟩
  rintro i e hi him ⟨hattempts, hlater⟩ he
  have hpc : (T.state i).pc ≠ .connect := by
    intro hconnect
    have hin := hin i hi him
    rw [hconnect] at hin
    cases hin
  obtain ⟨hsame, hstep⟩ := step_later hpc (T.next_some he)
  exact ⟨hsame.trans hattempts, fun hs => hstep.spawned (hlater.spawned hs),
    fun l j hl => hstep.loops l j (hlater.loops l j hl)⟩

/-- A loop has failed, and from then on the task never leaves the data loop. -/
structure Stuck (T : Trace (step decode subscribes conf)) (n : Nat) : Prop where
  failed : (T.state n).attempt.LoopFailed
  pc : ∀ m, n ≤ m → (T.state m).pc.inLoop = true

theorem Stuck.attempts {m : Nat} (h : Stuck T n) (hm : n ≤ m) : (T.state m).attempts = (T.state n).attempts :=
  (later_of_inLoop hm fun i hi _ => h.pc i hi).1

theorem Stuck.later {m : Nat} (h : Stuck T n) (hm : n ≤ m) :
    (T.state n).attempt.Later (T.state m).attempt :=
  (later_of_inLoop hm fun i hi _ => h.pc i hi).2

theorem Stuck.drop {m : Nat} (h : Stuck T n) (hm : n ≤ m) : Stuck T m :=
  ⟨(h.later hm).loopFailed h.failed, fun k hk => h.pc k (hm.trans hk)⟩

theorem Stuck.recurs (h : Stuck T n) (hun : Unblocked T) {m : Nat} (hm : n ≤ m) :
    ∃ k, m ≤ k ∧ (T.state k).pc = .data := by
  have hback : ∃ k, m ≤ k ∧ (T.state k).pc.isSending = false := by
    cases hsending : (T.state m).pc.isSending with
    | false => exact ⟨m, Nat.le_refl m, hsending⟩
    | true => exact hun m (h.drop hm).failed hsending
  obtain ⟨k, hk, hnot⟩ := hback
  refine ⟨k, hk, ?_⟩
  have hin := h.pc k (hm.trans hk)
  cases hpc : (T.state k).pc with
  | data => rfl
  | sending w =>
    rw [hpc] at hnot
    cases hnot
  | _ =>
    rw [hpc] at hin
    cases hin

theorem Stuck.tick (h : Stuck T n) (hfair : Fair T) (hun : Unblocked T) (start : Nat) :
    ∃ k now, n ≤ k ∧ start ≤ now ∧ T.event k = some (.tick now) :=
  hfair.ticks n start h.pc fun _ hm => h.recurs hun hm

/-- Where the writer has ended the heartbeat of the next tick fails. -/
theorem Stuck.writer_runs (h : Stuck T n) (hfair : Fair T) (hun : Unblocked T)
    (hspawned : (T.state n).attempt.spawned = true) : (T.state n).attempt.loops .linkWrite = none := by
  cases hl : (T.state n).attempt.loops .linkWrite with
  | none => rfl
  | some j =>
    exfalso
    have hclosed : ∀ m, n ≤ m → (T.state m).attempt.requestClosed = true := by
      intro m hm
      have hlater := h.later hm
      simp [Attempt.requestClosed, hlater.spawned hspawned, hlater.loops _ j hl]
    obtain ⟨k, now, hk, _, he⟩ := h.tick hfair hun 0
    have hk' : n ≤ k + 1 := Nat.le_succ_of_le hk
    obtain ⟨hpc, _⟩ := tick_stays (T.next_some he) (h.pc (k + 1) hk')
    have hwaits : ∀ m, k + 1 ≤ m → (T.state m).pc = .sending .heartbeat := by
      intro m hm
      refine T.keeps (fun s => s.pc = .sending .heartbeat) hm ?_ hpc
      intro i e hi _ hwait he
      have hi' : n ≤ i := hk'.trans hi
      exact heartbeat_stays hwait (hclosed i hi') (T.next_some he) (h.pc (i + 1) (Nat.le_succ_of_le hi'))
    obtain ⟨m, hm, hdata⟩ := h.recurs hun hk'
    exact absurd (hdata.symm.trans (hwaits m hm)) nofun

/-- Without new packets a tick comes too late in the end. The induction is on the
packets that wait. -/
theorem Stuck.not_quiet (h : Stuck T n) (hfair : Fair T) (hun : Unblocked T)
    (hquiet : ∀ m, n ≤ m → ∀ packet, T.event m ≠ some (.transport (.deliver packet))) : False := by
  induction hlen : (T.state n).attempt.responses.length using Nat.strongRecOn generalizing n with
  | ind len ih =>
    have hlocals : ∀ m, n ≤ m → (∀ i, n ≤ i → i < m → ∀ now, T.event i ≠ some (.response now)) →
        (T.state n).attempt.SameLocals (T.state m).attempt := by
      intro m hm hnone
      refine T.keeps (fun s => (T.state n).attempt.SameLocals s.attempt) hm ?_ (.refl _)
      intro i e hi him hbefore he
      refine hbefore.trans (step_sameLocals (h.pc i hi) (T.next_some he) ?_ ?_)
      · rintro packet rfl
        exact hquiet i hi packet he
      · rintro now rfl
        exact hnone i hi him now he
    by_cases htaken : ∃ k, n ≤ k ∧ ∃ now, T.event k = some (.response now)
    · classical
      obtain ⟨hk, now, he⟩ := Nat.find_spec htaken
      have hsame := hlocals _ hk fun i hi hik now hei => Nat.find_min htaken hik ⟨hi, now, hei⟩
      have hshort := response_shortens (T.next_some he)
      rw [hsame.responses, hlen] at hshort
      have hk' : n ≤ Nat.find htaken + 1 := Nat.le_succ_of_le hk
      exact ih _ hshort (h.drop hk') (fun m hm => hquiet m (hk'.trans hm)) rfl
    · have hnone : ∀ i, n ≤ i → ∀ now, T.event i ≠ some (.response now) :=
        fun i hi now hei => htaken ⟨i, hi, now, hei⟩
      obtain ⟨k, now, hk, hlate, he⟩ := h.tick hfair hun
        (max ((T.state n).attempt.connCreatedAt + conf.authTimeout + 1)
          ((T.state n).attempt.lastPongAt + conf.heartbeatTimeout + 1))
      have hsame := hlocals k hk fun i hi _ => hnone i hi
      obtain ⟨_, hauth, hpong⟩ := tick_stays (T.next_some he) (h.pc (k + 1) (Nat.le_succ_of_le hk))
      rw [hsame.connCreatedAt] at hauth
      rw [hsame.lastPongAt] at hpong
      cases hauthed : (T.state k).attempt.isAuthed with
      | false =>
        have hin := hauth hauthed
        omega
      | true =>
        have hin := hpong hauthed
        omega

theorem spawned_of_loopFailed (hs : s.Orderly) (h : s.attempt.LoopFailed) : s.attempt.spawned = true := by
  cases hspawned : s.attempt.spawned with
  | true => rfl
  | false =>
    obtain ⟨l, j, hl, _⟩ := h
    rw [(hs.attempt.unspawned hspawned).1 l] at hl
    cases hl

/-- A failed loop is noticed: over the closed channel of the writer or the timeouts. -/
theorem not_stuck (hfair : Fair T) (hun : Unblocked T) (horderly : (T.state n).Orderly) : ¬Stuck T n := by
  intro h
  have hspawned := spawned_of_loopFailed horderly h.failed
  have hwriter := h.writer_runs hfair hun hspawned
  obtain ⟨l, j, hl, _⟩ := h.failed
  by_cases hcut : (T.state n).attempt.Cut
  · obtain ⟨m, hm, hquiet⟩ := hfair.quiet n hcut
    refine (h.drop hm).not_quiet hfair hun fun k hk => hquiet k hk ?_
    exact h.attempts (hm.trans hk)
  · -- the reader has ended, and nothing is delivered any more
    have hread : l = .linkRead := by
      cases l with
      | udpRead => exact absurd (.inl (by rw [hl]; rfl)) hcut
      | quicProcess => exact absurd (.inr (.inl (by rw [hl]; rfl))) hcut
      | linkRead => rfl
      | linkWrite => exact absurd (hwriter.symm.trans hl) nofun
      | udpWrite => exact absurd (.inr (.inr (by rw [hl]; rfl))) hcut
    subst hread
    refine h.not_quiet hfair hun fun m hm packet he => ?_
    have hended := (h.later hm).loops _ j hl
    have hstep := T.next_some he
    simp [step, Attempt.step, hended] at hstep

theorem stuck_or_leaves (hfailed : (T.state n).attempt.LoopFailed) : Stuck T n ∨
    ∃ m, n ≤ m ∧ (T.state m).pc.inLoop = false ∧ (T.state m).attempts = (T.state n).attempts := by
  by_cases hout : ∃ m, n ≤ m ∧ (T.state m).pc.inLoop = false
  · classical
    obtain ⟨hm, hpc⟩ := Nat.find_spec hout
    have hin : ∀ i, n ≤ i → i < Nat.find hout → (T.state i).pc.inLoop = true := by
      intro i hi him
      by_contra hnot
      exact Nat.find_min hout him ⟨hi, Bool.eq_false_iff.mpr hnot⟩
    exact .inr ⟨_, hm, hpc, (later_of_inLoop hm hin).1⟩
  · refine .inl ⟨hfailed, fun m hm => ?_⟩
    by_contra hnot
    exact hout ⟨m, hm, Bool.eq_false_iff.mpr hnot⟩

/-- Out of the data loop the task is done, or on its way to the next attempt or its end. -/
theorem resolves_of_not_inLoop (hfair : Fair T) (hs : (T.state n).Orderly) (hh : (T.state n).Honest)
    (hpc : (T.state n).pc.inLoop = false) :
    ∃ m, n ≤ m ∧ ((T.state m).Resolved (T.state n).attempts ∨ (T.state m).interrupted = true) := by
  cases hp : (T.state n).pc with
  | data | sending w =>
    rw [hp] at hpc
    cases hpc
  | exiting => exact ⟨n, Nat.le_refl n, .inr (hs.exiting hp)⟩
  | returned r =>
    cases r with
    | ok => exact ⟨n, Nat.le_refl n, .inr (hh.ok_end hp)⟩
    | err => exact ⟨n, Nat.le_refl n, .inl (.inr ⟨hp, hs.told (.inr hp)⟩)⟩
  | _ =>
    have hleaving : (T.state n).Leaving (T.state n).attempts :=
      ⟨by rw [hp]; rfl, rfl, fun h => hs.told (.inl h)⟩
    obtain ⟨m, hm, hresolved⟩ := T.reaches_of_inevitable hfair.prompt (leaving_inevitable hleaving)
    exact ⟨m, hm, .inl hresolved⟩

theorem not_isSending_of_resolved {k : Nat} (hs : s.Orderly) (h : s.Resolved k ∨ s.interrupted = true) :
    s.pc.isSending = false := by
  rcases h with (⟨hpc, _⟩ | ⟨hpc, _⟩) | hi
  · rw [hpc]
    rfl
  · rw [hpc]
    rfl
  · rcases hs.interrupted hi with hpc | hpc <;> rw [hpc] <;> rfl

theorem failing_transport_reconnects_iff (decode : DecodeHeartbeat) (subscribes : List Subscribe)
    (conf : HealthyConfig) (T : Trace (step decode subscribes conf)) (hnew : T.state 0 = new)
    (hfair : Fair T) : Reconnects T ↔ T.Meets Unmasked ∧ Unblocked T := by
  have horderly : ∀ n, (T.state n).Orderly :=
    T.invariant (fun _ _ _ hs h => step_orderly hs h) (hnew ▸ new_orderly)
  have hhonest : (∀ n, (T.state n).Honest) ↔ T.Meets Unmasked :=
    T.forall_iff_meets (fun _ _ _ hs h => step_orderly hs h) (fun _ _ _ hs hh h => step_honest_iff hs hh h)
      (hnew ▸ new_orderly) (hnew ▸ new_honest)
  constructor
  · intro h
    refine ⟨hhonest.mp fun n => ⟨h.connect_ok n, h.ok_end n⟩, fun n hfailed _ => ?_⟩
    obtain ⟨m, hm, hresolved⟩ := h.way_out n hfailed
    exact ⟨m, hm, not_isSending_of_resolved (horderly m) hresolved⟩
  · rintro ⟨hunmasked, hun⟩
    have hh := hhonest.mpr hunmasked
    refine ⟨fun n => (hh n).connect_ok, fun n => (hh n).ok_end,
      fun n hpc => (horderly n).told (.inr hpc), fun n hfailed => ?_⟩
    rcases stuck_or_leaves hfailed with hstuck | ⟨m, hm, hpc, hattempts⟩
    · exact absurd hstuck (not_stuck hfair hun (horderly n))
    · obtain ⟨k, hk, hresolved⟩ := resolves_of_not_inLoop hfair (horderly m) (hh m) hpc
      rw [hattempts] at hresolved
      exact ⟨k, hm.trans hk, hresolved⟩

end Trace

theorem returned_none {r : TaskResult} (hpc : s.pc = .returned r) (he : e.prompt = true) :
    step decode subscribes conf s e = none := by
  cases e <;> first | (cases he; done) | simp [step, hpc]

/-- A run that ends at rest is fair. -/
theorem ofRun_fair {events : List RetryEvent} {t : ClientRetry}
    (h : Machine.run (step decode subscribes conf) s events = some t) (hpc : t.pc ≠ .data)
    (hend : ∀ e, e.prompt = true → step decode subscribes conf t e = none) : Fair (Trace.ofRun h) where
  prompt := Trace.ofRun_weakFair h hend
  ticks := by
    intro n start _ hdata
    obtain ⟨k, hk, hk'⟩ := hdata (max n events.length) (Nat.le_max_left _ _)
    rw [Trace.ofRun_state_end h ((Nat.le_max_right _ _).trans hk)] at hk'
    exact absurd hk' hpc
  quiet := by
    intro n _
    refine ⟨max n events.length, Nat.le_max_left _ _, fun k hk _ packet => ?_⟩
    rw [Trace.ofRun_event h ((Nat.le_max_right _ _).trans hk)]
    exact nofun

theorem ofRun_unblocked {events : List RetryEvent} {t : ClientRetry}
    (h : Machine.run (step decode subscribes conf) s events = some t) (hend : t.pc.isSending = false) :
    Unblocked (Trace.ofRun h) := by
  intro n _ _
  refine ⟨max n events.length, Nat.le_max_left _ _, ?_⟩
  rw [Trace.ofRun_state_end h (Nat.le_max_right _ _)]
  exact hend

/-- The writer of the first connection fails, the second one is not established. -/
def twoAttemptsRun : List RetryEvent :=
  [.connect true 0, .transport .spawned, .transport (.loopEnds .linkWrite (.ok .err)), .tick 5,
    .sendFailed, .retry, .eventDone, .slept, .connect true 9, .transport (.connectFails (.ok .err)),
    .connTask, .retry, .disconnect, .eventDone]

theorem failing_transport_reconnects_iff_two_attempts :
    ∃ T : Trace (step (fun _ => none) [] ⟨30, 10, 2⟩), T.state 0 = new ∧ Fair T ∧
      (T.state 3).attempt.LoopFailed ∧ (T.state 9).pc = .data ∧ (T.state 9).attempts = 2 ∧
      (T.state 14).pc = .returned .err ∧
      (T.state 14).events = [.error .sendHeartbeat,
        .disconnectedForever (.exceedRetryTimes .connectFailed 2)] ∧
      Reconnects T := by
  have h : Machine.run (step (fun _ => none) [] ⟨30, 10, 2⟩) new twoAttemptsRun = some _ := rfl
  have hfair : Fair (Trace.ofRun h) := ofRun_fair h nofun fun _ he => returned_none rfl he
  refine ⟨Trace.ofRun h, rfl, hfair, ⟨.linkWrite, .ok .err, rfl, nofun⟩, rfl, rfl, rfl, rfl, ?_⟩
  have hunmasked : (Trace.ofRun h).Meets Unmasked := Trace.ofRun_meets h (by decide)
  exact (failing_transport_reconnects_iff (fun _ => none) [] ⟨30, 10, 2⟩ (Trace.ofRun h) rfl hfair).mpr
    ⟨hunmasked, ofRun_unblocked h rfl⟩

/-- The socket fails and takes one loop after the other with it, the writer with
the next heartbeat; then `select!` takes the branch of `conn_task`. -/
def silentRun : List RetryEvent :=
  [.connect true 0, .transport .spawned, .transport (.loopEnds .udpRead (.ok .err)),
    .transport (.loopEnds .quicProcess (.ok .err)), .transport (.loopEnds .udpWrite (.ok .err)),
    .transport (.loopEnds .linkRead (.ok .err)), .tick 5, .sent,
    .transport (.loopEnds .linkWrite (.ok .err)), .transport .connectReturns, .connTask]

/-- The reader of the socket fails while the data loop waits for room for a heartbeat. -/
def blockedRun : List RetryEvent :=
  [.connect true 0, .transport .spawned, .tick 5, .transport (.loopEnds .udpRead (.ok .err))]

theorem failing_transport_reconnects_counterexample :
    (∃ T : Trace (step (fun _ => none) [] ⟨30, 10, 0⟩), T.state 0 = new ∧ Fair T ∧ Unblocked T ∧
      (∀ l, (T.state 11).attempt.loops l = some (.ok .err)) ∧
      (T.state 11).attempt.connTask = some (.ok .ok) ∧ (T.state 11).pc = .returned .ok ∧
      (T.state 11).interrupted = false ∧ (T.state 11).events = [] ∧ (T.state 11).attempts = 1 ∧
      ¬Reconnects T) ∧
    ∃ T : Trace (step (fun _ => none) [] ⟨30, 10, 0⟩), T.state 0 = new ∧ Fair T ∧ T.Meets Unmasked ∧
      (T.state 4).attempt.loops .udpRead = some (.ok .err) ∧
      (∀ n, 4 ≤ n → (T.state n).pc = .sending .heartbeat) ∧ ¬Reconnects T := by
  constructor
  · have h : Machine.run (step (fun _ => none) [] ⟨30, 10, 0⟩) new silentRun = some _ := rfl
    have hfair : Fair (Trace.ofRun h) := ofRun_fair h nofun fun _ he => returned_none rfl he
    refine ⟨Trace.ofRun h, rfl, hfair, ofRun_unblocked h rfl, ?_, rfl, rfl, rfl, rfl, rfl, ?_⟩
    · intro l
      cases l <;> rfl
    · intro hr
      exact absurd (hr.ok_end 11 rfl) nofun
  · have h : Machine.run (step (fun _ => none) [] ⟨30, 10, 0⟩) new blockedRun = some _ := rfl
    have hfair : Fair (Trace.ofRun h) := ofRun_fair h nofun fun e he => by
      cases e <;> first | rfl | cases he
    have hwaits : ∀ n, 4 ≤ n → ((Trace.ofRun h).state n).pc = .sending .heartbeat := by
      intro n hn
      rw [Trace.ofRun_state_end h hn]
    refine ⟨Trace.ofRun h, rfl, hfair, Trace.ofRun_meets h (by decide), rfl, hwaits, fun hr => ?_⟩
    obtain ⟨m, hm, (⟨hpc, _⟩ | ⟨hpc, _⟩) | hi⟩ := hr.way_out 4 ⟨.udpRead, .ok .err, rfl, nofun⟩
    · exact absurd ((hwaits m hm).symm.trans hpc) nofun
    · exact absurd ((hwaits m hm).symm.trans hpc) nofun
    · have hnot := congrArg ClientRetry.interrupted (Trace.ofRun_state_end h hm)
      exact absurd (hnot.symm.trans hi) nofun

end ClientRetry

end QuoteLink

import QuoteLink.ClientRetry

namespace QuoteLink

def ClientConnEvent.error? : ClientConnEvent → Option DataError
  | .error err => some err
  | .disconnectedForever _ => none

def ClientConnEvent.reason? : ClientConnEvent → Option ExitReason
  | .error _ => none
  | .disconnectedForever reason => some reason

/-- The attempts that are not among the reported failures yet, while the link task
is on its way from one attempt to the next. -/
def RetryPc.unreported : RetryPc → Option Nat
  | .connect => some 0
  | .reporting => some 0
  | .sleeping => some 0
  | .data => some 1
  | .sending _ => some 1
  | .failed _ => some 1
  | _ => none

theorem RetryPc.unreported_of_fromLoop {pc : RetryPc} (h : pc.fromLoop = true) :
    pc.unreported = some 1 ∧ ∀ reason, pc ≠ .exceeded reason := by
  cases pc with
  | data | sending w | failed err => exact ⟨rfl, nofun⟩
  | _ => cases h

namespace ClientRetry

variable {decode : DecodeHeartbeat} {subscribes : List Subscribe} {conf : HealthyConfig} {s s' : ClientRetry}
  {e : RetryEvent} {k : UInt32}

/-- The failures reported to the consumer so far. -/
def errors (s : ClientRetry) : List DataError := s.events.filterMap ClientConnEvent.error?

def goodbyes (s : ClientRetry) : List ExitReason := s.events.filterMap ClientConnEvent.reason?

/-- There was a reason to give up: the last attempt that was allowed has failed. -/
def Justified (k : UInt32) (s : ClientRetry) : ExitReason → Prop
  | .exceedRetryTimes _ n => 0 < k ∧ n = k ∧ s.attempts = k.toNat ∧ s.errors.length + 1 = k.toNat
  | _ => True

/-- The attempts and the reports against the allowed number `k` of attempts, where 0
stands for no limit. -/
structure Budget (k : UInt32) (s : ClientRetry) : Prop where
  order : s.events = s.errors.map .error ++ s.goodbyes.map .disconnectedForever
  once : s.goodbyes.length ≤ 1
  justified : ∀ reason ∈ s.goodbyes, s.Justified k reason
  reported : s.errors.length ≤ s.attempts
  unreported : s.attempts ≤ s.errors.length + 1
  within : 0 < k → s.errors.length < k.toNat
  running : ∀ n, s.pc.unreported = some n →
    s.goodbyes = [] ∧ s.attempts = s.errors.length + n ∧ s.retryTimes = UInt32.ofNat s.errors.length
  exceeded : ∀ reason, s.pc = .exceeded reason → s.goodbyes = [] ∧ s.Justified k reason

theorem new_budget (k : UInt32) : new.Budget k where
  order := rfl
  once := Nat.zero_le _
  justified := fun _ h => absurd h List.not_mem_nil
  reported := Nat.le_refl _
  unreported := Nat.zero_le _
  within := fun h => UInt32.lt_iff_toNat_lt.mp h
  running := by
    intro n hn
    cases hn
    exact ⟨rfl, rfl, rfl⟩
  exceeded := fun _ h => by cases h

/-- A step that makes no attempt and reports nothing. -/
theorem Budget.quiet (h : s.Budget k) (hevents : s'.events = s.events) (hattempts : s'.attempts = s.attempts)
    (hrunning : ∀ n, s'.pc.unreported = some n →
      s.pc.unreported = some n ∧ s'.retryTimes = s.retryTimes)
    (hexceeded : ∀ reason, s'.pc = .exceeded reason → s.goodbyes = [] ∧ s.Justified k reason) : s'.Budget k := by
  have herrors : s'.errors = s.errors := by rw [errors, hevents, errors]
  have hgoodbyes : s'.goodbyes = s.goodbyes := by rw [goodbyes, hevents, goodbyes]
  have hjustified : ∀ reason, s.Justified k reason → s'.Justified k reason := by
    intro reason hr
    cases reason with
    | exceedRetryTimes err n =>
      rw [Justified, hattempts, herrors]
      exact hr
    | _ => trivial
  refine ⟨?_, ?_, ?_, ?_, ?_, ?_, ?_, ?_⟩
  · rw [hevents, herrors, hgoodbyes]
    exact h.order
  · rw [hgoodbyes]
    exact h.once
  · rw [hgoodbyes]
    exact fun reason hr => hjustified reason (h.justified reason hr)
  · rw [herrors, hattempts]
    exact h.reported
  · rw [herrors, hattempts]
    exact h.unreported
  · rw [herrors]
    exact h.within
  · intro n hn
    obtain ⟨hold, htimes⟩ := hrunning n hn
    rw [hgoodbyes, herrors, hattempts, htimes]
    exact h.running n hold
  · intro reason hr
    obtain ⟨hnone, hold⟩ := hexceeded reason hr
    rw [hgoodbyes]
    exact ⟨hnone, hjustified reason hold⟩

/-- The last report, after which there is no attempt. -/
theorem Budget.goodbye {reason : ExitReason} (h : s.Budget k) (hnone : s.goodbyes = [])
    (hreason : s.Justified k reason) (hevents : s'.events = s.events ++ [.disconnectedForever reason])
    (hattempts : s'.attempts = s.attempts) (hpc : s'.pc.unreported = none)
    (hexceeded : ∀ r, s'.pc ≠ .exceeded r) : s'.Budget k := by
  have herrors : s'.errors = s.errors := by
    rw [errors, hevents, List.filterMap_append, errors]
    exact List.append_nil _
  have hgoodbyes : s'.goodbyes = [reason] := by
    rw [goodbyes, hevents, List.filterMap_append, show s.events.filterMap ClientConnEvent.reason? = [] from hnone]
    rfl
  refine ⟨?_, ?_, ?_, ?_, ?_, ?_, ?_, ?_⟩
  · have horder := h.order
    rw [hnone, List.map_nil, List.append_nil] at horder
    rw [hevents, herrors, hgoodbyes, List.map_singleton, ← horder]
  · rw [hgoodbyes]
    exact Nat.le_refl 1
  · rw [hgoodbyes]
    intro r hr
    obtain rfl := List.mem_singleton.mp hr
    cases r with
    | exceedRetryTimes err n =>
      rw [Justified, hattempts, herrors]
      exact hreason
    | _ => trivial
  · rw [herrors, hattempts]
    exact h.reported
  · rw [herrors, hattempts]
    exact h.unreported
  · rw [herrors]
    exact h.within
  · intro n hn
    rw [hpc] at hn
    cases hn
  · exact fun r hr => absurd hr (hexceeded r)

/-- A failure is reported as long as another attempt is allowed. -/
theorem Budget.retry {err : DataError} (h : s.Budget conf.retryTimes) (hpc : s.pc = .failed err) :
    (s.retry conf err).Budget conf.retryTimes := by
  obtain ⟨hnone, hattempts, htimes⟩ := h.running 1 (by rw [hpc]; rfl)
  have hnext : s.retryTimes + 1 = UInt32.ofNat (s.errors.length + 1) := by
    rw [htimes]
    exact (UInt32.ofNat_add _ _).symm
  have hlimit := conf.retryTimes.toNat_lt
  -- the counter does not wrap around where there is a limit
  have hcount : 0 < conf.retryTimes → (s.retryTimes + 1).toNat = s.errors.length + 1 := by
    intro hk
    have hlt := h.within hk
    rw [hnext, UInt32.toNat_ofNat']
    exact Nat.mod_eq_of_lt (by omega)
  unfold ClientRetry.retry
  by_cases hstop : 0 < conf.retryTimes ∧ conf.retryTimes ≤ s.retryTimes + 1
  · obtain ⟨hk, hle⟩ := hstop
    have hlast : s.errors.length + 1 = conf.retryTimes.toNat := by
      have hlt := h.within hk
      have hcount := hcount hk
      have hle := UInt32.le_iff_toNat_le.mp hle
      omega
    rw [if_pos ⟨hk, hle⟩]
    refine h.quiet rfl rfl (fun n hn => by cases hn) ?_
    intro reason hr
    cases hr
    refine ⟨hnone, hk, ?_, hattempts.trans hlast, hlast⟩
    exact UInt32.toNat_inj.mp ((hcount hk).trans hlast)
  · rw [if_neg hstop]
    have herrors : ({ s with retryTimes := s.retryTimes + 1, pc := .reporting,
                             events := s.events ++ [.error err] } : ClientRetry).errors = s.errors ++ [err] :=
      List.filterMap_append
    have hgoodbyes : ({ s with retryTimes := s.retryTimes + 1, pc := .reporting,
                               events := s.events ++ [.error err] } : ClientRetry).goodbyes = [] := by
      rw [goodbyes, List.filterMap_append, show s.events.filterMap ClientConnEvent.reason? = [] from hnone]
      rfl
    refine ⟨?_, ?_, ?_, ?_, ?_, ?_, ?_, fun r hr => by cases hr⟩
    · have horder := h.order
      rw [hnone, List.map_nil, List.append_nil] at horder
      rw [herrors, hgoodbyes, List.map_append, List.map_nil, List.append_nil, ← horder]
      rfl
    · rw [hgoodbyes]
      exact Nat.zero_le 1
    · rw [hgoodbyes]
      exact fun _ hr => absurd hr List.not_mem_nil
    · rw [herrors, List.length_append]
      exact Nat.le_of_eq hattempts.symm
    · rw [herrors, List.length_append]
      exact Nat.le_succ_of_le (Nat.le_of_eq hattempts)
    · intro hk
      have hlt := h.within hk
      have hcount := hcount hk
      have hmore : ¬conf.retryTimes ≤ s.retryTimes + 1 := fun hle => hstop ⟨hk, hle⟩
      rw [UInt32.le_iff_toNat_le] at hmore
      rw [herrors, List.length_append, List.length_singleton]
      omega
    · intro n hn
      cases hn
      rw [hgoodbyes, herrors, List.length_append, List.length_singleton]
      exact ⟨rfl, hattempts, hnext⟩

theorem step_budget (h : s.Budget conf.retryTimes) (hs : step decode subscribes conf s e = some s') :
    s'.Budget conf.retryTimes := by
  have hjustified : ∀ reason, s.pc = .exceeded reason → s.goodbyes = [] ∧ s.Justified conf.retryTimes reason :=
    h.exceeded
  cases step_cases hs with
  | transport e c hc => exact h.quiet rfl rfl (fun n hn => ⟨hn, rfl⟩) hjustified
  | processEnds => exact h.quiet rfl rfl (fun n hn => ⟨hn, rfl⟩) hjustified
  | connect now hpc =>
    obtain ⟨hnone, hattempts, htimes⟩ := h.running 0 (by rw [hpc]; rfl)
    refine ⟨h.order, h.once, ?_, ?_, ?_, h.within, ?_, fun r hr => by cases hr⟩
    · exact fun reason hr => absurd (hnone ▸ hr) List.not_mem_nil
    · exact Nat.le_succ_of_le h.reported
    · exact Nat.succ_le_succ (Nat.le_of_eq hattempts)
    · intro n hn
      cases hn
      exact ⟨hnone, congrArg (· + 1) hattempts, htimes⟩
  | noCid now hpc =>
    obtain ⟨hnone, _, _⟩ := h.running 0 (by rw [hpc]; rfl)
    refine h.quiet rfl rfl (fun n hn => by cases hn) ?_
    intro reason hr
    cases hr
    exact ⟨hnone, trivial⟩
  | ctrlC hpc => exact h.quiet rfl rfl (fun n hn => by cases hn) (fun r hr => by cases hr)
  | connTaskOk hpc hj => exact h.quiet rfl rfl (fun n hn => by cases hn) (fun r hr => by cases hr)
  | connTaskErr j err hpc hj hne =>
    exact h.quiet rfl rfl (fun n hn => ⟨by rw [hpc]; exact hn, rfl⟩) (fun r hr => by cases hr)
  | exitSignal hpc =>
    obtain ⟨hnone, _, _⟩ := h.running 1 (by rw [hpc]; rfl)
    have hreason : s.Justified conf.retryTimes .exitSignal := trivial
    exact h.goodbye hnone hreason rfl rfl rfl (fun r hr => by cases hr)
  | branch e pc hpc hpc' _ _ _ =>
    obtain ⟨hone, _⟩ := RetryPc.unreported_of_fromLoop (RetryPc.fromLoop_of_inLoop hpc)
    obtain ⟨hone', hnot⟩ := RetryPc.unreported_of_fromLoop hpc'
    exact h.quiet rfl rfl (fun n hn => ⟨by rw [hone, ← hone']; exact hn, rfl⟩) (fun r hr => absurd hr (hnot r))
  | response now packet rest c pc hpc _ _ _ hpc' =>
    obtain ⟨hone', hnot⟩ := RetryPc.unreported_of_fromLoop hpc'
    exact h.quiet rfl rfl (fun n hn => ⟨by rw [hpc, ← hn]; exact hone'.symm, rfl⟩)
      (fun r hr => absurd hr (hnot r))
  | retry err hpc => exact h.retry hpc
  | reported hpc => exact h.quiet rfl rfl (fun n hn => ⟨by rw [hpc]; exact hn, rfl⟩) (fun r hr => by cases hr)
  | disconnected hpc => exact h.quiet rfl rfl (fun n hn => by cases hn) (fun r hr => by cases hr)
  | exited hpc => exact h.quiet rfl rfl (fun n hn => by cases hn) (fun r hr => by cases hr)
  | slept hpc => exact h.quiet rfl rfl (fun n hn => ⟨by rw [hpc]; exact hn, rfl⟩) (fun r hr => by cases hr)
  | disconnect reason hpc =>
    obtain ⟨hnone, hreason⟩ := h.exceeded reason hpc
    exact h.goodbye hnone hreason rfl rfl rfl (fun r hr => by cases hr)

/-- The consumer hears of each failed attempt but the last, and then at most once that
the client has given up. With a limit there are no more attempts than it allows, and the
client gives up over it exactly after that many; without a limit it never does. -/
theorem retry_budget (decode : DecodeHeartbeat) (subscribes : List Subscribe) (conf : HealthyConfig)
    (events : List RetryEvent) (s : ClientRetry)
    (hrun : Machine.run (step decode subscribes conf) new events = some s) :
    s.events = s.errors.map .error ++ s.goodbyes.map .disconnectedForever ∧ s.goodbyes.length ≤ 1 ∧
      s.errors.length ≤ s.attempts ∧ s.attempts ≤ s.errors.length + 1 ∧
      (0 < conf.retryTimes → s.attempts ≤ conf.retryTimes.toNat) ∧
      ∀ err n, .exceedRetryTimes err n ∈ s.goodbyes →
        0 < conf.retryTimes ∧ n = conf.retryTimes ∧ s.attempts = conf.retryTimes.toNat := by
  have h : s.Budget conf.retryTimes :=
    Machine.run_invariant (fun _ _ _ => step_budget) (new_budget conf.retryTimes) hrun
  refine ⟨h.order, h.once, h.reported, h.unreported, fun hk => ?_, fun err n hmem => ?_⟩
  · have hlt := h.within hk
    have hle := h.unreported
    omega
  · obtain ⟨hk, hn, hattempts, _⟩ := h.justified _ hmem
    exact ⟨hk, hn, hattempts⟩

/-- Both attempts of a client that is allowed two run out of time. -/
def givesUpRun : List RetryEvent :=
  [.connect true 0, .tick 11, .retry, .eventDone, .slept, .connect true 20, .tick 31, .retry, .disconnect,
    .eventDone]

theorem retry_budget_two :
    ∃ s, Machine.run (step (fun _ => none) [] ⟨30, 10, 2⟩) new givesUpRun = some s ∧
      s.pc = .returned .err ∧ s.goodbyes = [.exceedRetryTimes .authTimeout 2] ∧
      (s.events = s.errors.map .error ++ s.goodbyes.map .disconnectedForever ∧ s.goodbyes.length ≤ 1 ∧
        s.errors.length ≤ s.attempts ∧ s.attempts ≤ s.errors.length + 1 ∧
        ((0 : UInt32) < 2 → s.attempts ≤ (2 : UInt32).toNat) ∧
        ∀ err n, .exceedRetryTimes err n ∈ s.goodbyes →
          (0 : UInt32) < 2 ∧ n = 2 ∧ s.attempts = (2 : UInt32).toNat) := by
  have hout : (Machine.run (step (fun _ => none) [] ⟨30, 10, 2⟩) new givesUpRun).map
      (fun s => (s.pc, s.goodbyes)) = some (.returned .err, [.exceedRetryTimes .authTimeout 2]) := by
    decide +kernel
  obtain ⟨s, hrun, hs⟩ := Option.map_eq_some_iff.mp hout
  obtain ⟨hpc, hgoodbyes⟩ := Prod.mk.inj hs
  exact ⟨s, hrun, hpc, hgoodbyes, retry_budget (fun _ => none) [] ⟨30, 10, 2⟩ givesUpRun s hrun⟩

end ClientRetry

end QuoteLink

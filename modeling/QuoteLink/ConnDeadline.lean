import QuoteLink.Machine
import QuoteLink.ServerConn

namespace QuoteLink

/-- The timestamp an event carries. -/
def ConnEvent.time : ConnEvent → Option Nat
  | .tick now => some now
  | .recv _ now => some now
  | _ => none

namespace ConnLoop

variable {decode : DecodeAuth} {conf : HealthyConfig}

/-- When the last packet was taken, after one more event. -/
def refresh (last : Nat) : ConnEvent → Nat
  | .recv _ now => now
  | _ => last

/-- When the last packet was taken from `recv_rx`; before the first, when the
connection was accepted. -/
def lastRecvAt (acceptedAt : Nat) (events : List ConnEvent) : Nat := events.foldl refresh acceptedAt

theorem next_lastPingAt {l l' : ConnLoop} {e : ConnEvent} (h : l.next decode conf e = some l') :
    l'.lastPingAt = refresh l.lastPingAt e := by
  obtain ⟨out, hcase, rfl⟩ := next_cases h
  cases hcase <;> simp [refresh]

theorem run_lastPingAt {peerAddr : String} {acceptedAt : Nat} {events : List ConnEvent} {l : ConnLoop}
    (h : Machine.run (next decode conf) (new peerAddr acceptedAt) events = some l) :
    l.lastPingAt = lastRecvAt acceptedAt events :=
  Machine.run_foldl (fun _ _ _ hs => next_lastPingAt hs) h

/-- Only an accepted Auth request sets `is_auth_ok`. -/
theorem next_isAuthOk {l l' : ConnLoop} {e : ConnEvent} (hok : l.isAuthOk = false)
    (he : e ≠ .authResult true) (h : l.next decode conf e = some l') : l'.isAuthOk = false := by
  obtain ⟨out, hcase, rfl⟩ := next_cases h
  cases hcase with
  | authOk r hpc => exact absurd rfl he
  | _ => simpa using hok

theorem run_isAuthOk {peerAddr : String} {acceptedAt : Nat} {events : List ConnEvent} {l : ConnLoop}
    (hnever : ConnEvent.authResult true ∉ events)
    (h : Machine.run (next decode conf) (new peerAddr acceptedAt) events = some l) :
    l.isAuthOk = false := by
  have hmeets : ∀ e ∈ events, e ≠ ConnEvent.authResult true := by
    rintro e he rfl
    exact hnever he
  have hstep : ∀ (l : ConnLoop) e l', l.isAuthOk = false → e ≠ ConnEvent.authResult true →
      l.next decode conf e = some l' → l'.isAuthOk = false := fun _ _ _ => next_isAuthOk
  exact Machine.run_invariant_of_meets hstep rfl (Machine.meets_of_forall_mem hmeets) h

/-- A tick ends the loop if and only if the timeout that holds is exceeded. -/
theorem tick_ended_iff {l l' : ConnLoop} {now : Nat} (h : l.next decode conf (.tick now) = some l') :
    l'.ended = true ↔ l.timeout conf < now - l.lastPingAt := by
  obtain ⟨out, hcase, rfl⟩ := next_cases h
  cases hcase with
  | tick _ hpc ht => simp [ended, hpc, ht]
  | tickLeave _ hpc ht => simp [ht]

/-- A connection that never authenticates is closed by every tick that comes
more than `auth_timeout` after it was accepted, if and only if every such tick
comes more than `auth_timeout` after the last packet as well. -/
theorem auth_deadline_iff (decode : DecodeAuth) (conf : HealthyConfig) (peerAddr : String)
    (acceptedAt : Nat) (events : List ConnEvent) (last : ConnLoop)
    (hrun : Machine.run (next decode conf) (new peerAddr acceptedAt) events = some last)
    (hnever : ConnEvent.authResult true ∉ events) :
    (∀ past now l, past ++ [.tick now] <+: events → acceptedAt + conf.authTimeout < now →
      Machine.run (next decode conf) (new peerAddr acceptedAt) (past ++ [.tick now]) = some l →
      l.ended = true) ↔
    ∀ past now, past ++ [.tick now] <+: events → acceptedAt + conf.authTimeout < now →
      lastRecvAt acceptedAt past + conf.authTimeout < now := by
  -- at each tick of the run the one is the other
  have hpoint : ∀ past now, past ++ [.tick now] <+: events → ∃ l,
      Machine.run (next decode conf) (new peerAddr acceptedAt) (past ++ [.tick now]) = some l ∧
      (l.ended = true ↔ lastRecvAt acceptedAt past + conf.authTimeout < now) := by
    intro past now hpast
    have hfront : past <+: events := (List.prefix_append past _).trans hpast
    obtain ⟨l, hl⟩ := Machine.run_prefix hrun hfront
    obtain ⟨l', hl'⟩ := Machine.run_prefix hrun hpast
    have hnot : l.isAuthOk = false := run_isAuthOk (fun hmem => hnever (hfront.subset hmem)) hl
    have htick : l.next decode conf (.tick now) = some l' := Machine.run_snoc hl hl'
    refine ⟨l', hl', ?_⟩
    rw [tick_ended_iff htick, timeout, hnot, run_lastPingAt hl, if_neg Bool.false_ne_true]
    omega
  constructor
  · intro h past now hpast hlate
    obtain ⟨l, hl, hiff⟩ := hpoint past now hpast
    exact hiff.mp (h past now l hpast hlate hl)
  · intro h past now l hpast hlate hl
    obtain ⟨l', hl', hiff⟩ := hpoint past now hpast
    cases hl.symm.trans hl'
    exact hiff.mpr (h past now hpast hlate)

/-- One heartbeat, then silence: the tick at 20 ends the loop. -/
def silentRun : List ConnEvent :=
  [.tick 0, .recv (.request ⟨0, .heartbeat, 1, 5, 0, []⟩) 3, .replied, .tick 20]

theorem auth_deadline_iff_silent :
    ∃ l, Machine.run (next (fun _ => none) ⟨30, 10, 3⟩) (new "10.0.0.7:4001" 0) silentRun = some l ∧ l.ended = true ∧
      ∀ past now l, past ++ [ConnEvent.tick now] <+: silentRun → 0 + 10 < now →
        Machine.run (next (fun _ => none) ⟨30, 10, 3⟩) (new "10.0.0.7:4001" 0) (past ++ [ConnEvent.tick now]) =
          some l → l.ended = true := by
  have hrun : Machine.run (next (fun _ => none) ⟨30, 10, 3⟩) (new "10.0.0.7:4001" 0) silentRun =
      some ⟨"10.0.0.7:4001", false, "waitAuth@10.0.0.7:4001", 3, .default, .sendExit⟩ := by decide
  have hiff := auth_deadline_iff (fun _ => none) ⟨30, 10, 3⟩ "10.0.0.7:4001" 0 silentRun _ hrun (by decide)
  refine ⟨_, hrun, rfl, hiff.mpr ?_⟩
  intro past now hpast hlate
  have hlen : past.length < 4 := by
    have hle : (past ++ [ConnEvent.tick now]).length ≤ 4 := hpast.length_le
    rw [List.length_append, List.length_singleton] at hle
    omega
  have htake := List.prefix_iff_eq_take.mp hpast
  rw [List.length_append, List.length_singleton] at htake
  have hlast : (silentRun.take (past.length + 1)).getLast? = some (.tick now) := by
    rw [← htake, List.getLast?_concat]
  have hfirst : past = (silentRun.take (past.length + 1)).dropLast := by
    rw [← htake, List.dropLast_concat]
  rw [hfirst]
  -- of the two ticks only the one at 20 is late
  generalize past.length = n at hlen hlast
  match n with
  | 0 => cases hlast; omega
  | 1 | 2 => cases hlast
  | 3 => cases hlast; decide

/-- Heartbeats alone keep a connection open for longer than `auth_timeout`. -/
theorem auth_deadline_counterexample :
    ¬∀ (decode : DecodeAuth) (conf : HealthyConfig) (peerAddr : String) (acceptedAt : Nat)
      (events : List ConnEvent) (now : Nat) (l : ConnLoop),
      ConnEvent.authResult true ∉ events → (events.filterMap ConnEvent.time).Pairwise (· ≤ ·) →
      (∀ t ∈ events.filterMap ConnEvent.time, acceptedAt ≤ t ∧ t ≤ now) →
      acceptedAt + conf.authTimeout < now →
      Machine.run (next decode conf) (new peerAddr acceptedAt) (events ++ [.tick now]) = some l →
      l.ended = true := by
  intro h
  have hended := h (fun _ => none) ⟨30, 10, 3⟩ "10.0.0.7:4001" 0
    [.tick 0, .recv (.request ⟨0, .heartbeat, 1, 5, 0, []⟩) 5, .replied,
      .recv (.request ⟨0, .heartbeat, 2, 5, 0, []⟩) 10, .replied] 12
    ⟨"10.0.0.7:4001", false, "waitAuth@10.0.0.7:4001", 10, .default, .select⟩
    (by decide) (by decide) (by decide) (by decide) (by decide)
  cases hended

end ConnLoop

end QuoteLink

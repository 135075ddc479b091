import QuoteLink.Machine
import QuoteLink.ServerLink

namespace QuoteLink

/-- The `auth_info` an event brings: that of an Auth request that decodes. -/
def ConnEvent.brings (decode : DecodeAuth) : ConnEvent → Option AuthInfo
  | .recv (.request r) _ =>
    if r.command = .auth then (decode r.body).map fun auth => auth.authInfo.getD .default else none
  | _ => none

/-- The `auth_info` that `on_disconnect` is called with. -/
def ConnEffect.disconnected : ConnEffect → Option AuthInfo
  | .onDisconnect info => some info
  | _ => none

/-- The loop with its history: what `on_auth` was last asked about, what it last
accepted, and the calls of `on_disconnect`. -/
structure ConnRecord where
  loop : ConnLoop
  asked : Option AuthInfo
  accepted : Option AuthInfo
  disconnects : List AuthInfo
  deriving DecidableEq, Repr

namespace ConnRecord

def new (peerAddr : String) (now : Nat) : ConnRecord := ⟨.new peerAddr now, none, none, []⟩

def step (decode : DecodeAuth) (conf : HealthyConfig) (s : ConnRecord) (e : ConnEvent) :
    Option ConnRecord :=
  (s.loop.step decode conf e).map fun out =>
    { loop := out.1
      asked := (e.brings decode).or s.asked
      accepted := if e = .authResult true then s.asked else s.accepted
      disconnects := s.disconnects ++ out.2.filterMap ConnEffect.disconnected }

/-- The locals of the loop follow the history: `auth_info` is what was asked
last, `is_auth_ok` tells whether something was accepted, and the end of the loop
is the only time `on_disconnect` is called, then with `auth_info`. -/
structure Paired (s : ConnRecord) : Prop where
  authInfo : s.loop.authInfo = s.asked.getD .default
  onAuth : ∀ r, s.loop.pc = .onAuth r → s.asked.isSome = true
  isAuthOk : s.loop.isAuthOk = s.accepted.isSome
  accepted : s.accepted.isSome = true → s.asked.isSome = true
  disconnects : s.disconnects =
    if s.loop.ended = true ∧ s.loop.isAuthOk = true then [s.loop.authInfo] else []

theorem new_paired (peerAddr : String) (now : Nat) : (new peerAddr now).Paired where
  authInfo := rfl
  onAuth := by
    intro r hr
    cases hr
  isAuthOk := rfl
  accepted := nofun
  disconnects := rfl

variable {decode : DecodeAuth} {conf : HealthyConfig} {s : ConnRecord}

/-- The loop is left: `on_disconnect` is called if something was accepted. -/
theorem leave_paired (h : s.Paired) {l : ConnLoop} (hpc : s.loop.pc = .select)
    (hinfo : l.authInfo = s.loop.authInfo) (hok : l.isAuthOk = s.loop.isAuthOk) :
    Paired { s with
      loop := l.leave.1
      disconnects := s.disconnects ++ l.leave.2.filterMap ConnEffect.disconnected } := by
  have hbefore : s.disconnects = [] := by
    have hrunning : s.loop.ended = false := by simp [ConnLoop.ended, hpc]
    rw [h.disconnects, hrunning]
    rfl
  have hcalls : l.leave.2.filterMap ConnEffect.disconnected =
      if l.isAuthOk = true then [l.authInfo] else [] := by
    unfold ConnLoop.leave
    split <;> rfl
  refine ⟨?_, ?_, ?_, h.accepted, ?_⟩
  · show l.leave.1.authInfo = _
    rw [ConnLoop.leave_authInfo, hinfo, h.authInfo]
  · intro r hr
    have hended := l.leave_ended
    rw [ConnLoop.ended, hr] at hended
    cases hended
  · show l.leave.1.isAuthOk = _
    rw [ConnLoop.leave_isAuthOk, hok, h.isAuthOk]
  · show s.disconnects ++ _ =
      if l.leave.1.ended = true ∧ l.leave.1.isAuthOk = true then [l.leave.1.authInfo] else []
    rw [hbefore, hcalls, ConnLoop.leave_ended, ConnLoop.leave_isAuthOk, ConnLoop.leave_authInfo]
    simp

/-- The loop goes on, or is over already, with its identity unchanged. -/
theorem same_paired (h : s.Paired) {l : ConnLoop} {effects : List ConnEffect}
    (hinfo : l.authInfo = s.loop.authInfo) (hok : l.isAuthOk = s.loop.isAuthOk)
    (hended : l.ended = s.loop.ended) (hpc : ∀ r, l.pc ≠ .onAuth r)
    (heffects : effects.filterMap ConnEffect.disconnected = []) :
    Paired { s with
      loop := l
      disconnects := s.disconnects ++ effects.filterMap ConnEffect.disconnected } := by
  refine ⟨hinfo.trans h.authInfo, ?_, hok.trans h.isAuthOk, h.accepted, ?_⟩
  · intro r hr
    exact absurd hr (hpc r)
  · show s.disconnects ++ _ = if l.ended = true ∧ l.isAuthOk = true then [l.authInfo] else []
    rw [heffects, List.append_nil, h.disconnects, hended, hok, hinfo]

theorem step_paired {s' : ConnRecord} {e : ConnEvent} (h : s.Paired)
    (hs : s.step decode conf e = some s') : s'.Paired := by
  obtain ⟨out, hout, rfl⟩ := Option.map_eq_some_iff.mp hs
  cases ConnLoop.step_cases hout with
  | tick now hpc ht => exact same_paired h rfl rfl rfl (by simp [hpc]) rfl
  | tickLeave now hpc ht => exact leave_paired h hpc rfl rfl
  | exitSignal hpc => exact leave_paired h hpc rfl rfl
  | recvClosed hpc => exact leave_paired h hpc rfl rfl
  | heartbeat r now hpc hr =>
    have hbrings : (ConnEvent.recv (.request r) now).brings decode = none := by
      simp [ConnEvent.brings, hr]
    have hended : s.loop.ended = false := by simp [ConnLoop.ended, hpc]
    simp only [hbrings, Option.none_or, reduceCtorEq, if_false]
    refine same_paired h rfl rfl hended.symm ?_ rfl
    intro r' hr'
    cases hr'
  | authInvalid r now hpc hr hdecode =>
    have hbrings : (ConnEvent.recv (.request r) now).brings decode = none := by
      simp [ConnEvent.brings, hr, hdecode]
    simp only [hbrings, Option.none_or, reduceCtorEq, if_false]
    exact leave_paired h hpc rfl rfl
  | auth r now hpc hr auth hdecode =>
    have hbrings : (ConnEvent.recv (.request r) now).brings decode = some (auth.authInfo.getD .default) := by
      simp [ConnEvent.brings, hr, hdecode]
    have hended : s.loop.ended = false := by simp [ConnLoop.ended, hpc]
    have hbefore := h.disconnects
    simp only [hbrings, Option.some_or, reduceCtorEq, if_false]
    refine ⟨rfl, fun _ _ => rfl, h.isAuthOk, fun _ => rfl, ?_⟩
    rw [hbefore, hended]
    simp [ConnLoop.ended, ConnEffect.disconnected]
  | packet p now hpc hp =>
    have hbrings : (ConnEvent.recv p now).brings decode = none := by
      cases p with
      | request r => simp [ConnEvent.brings, (hp r rfl).2]
      | response r => rfl
      | push p => rfl
    simp only [hbrings, Option.none_or, reduceCtorEq, if_false]
    exact same_paired h rfl rfl rfl (by simp [hpc]) rfl
  | authOk r hpc =>
    have hasked := h.onAuth r hpc
    have hended : s.loop.ended = false := by simp [ConnLoop.ended, hpc]
    have hbefore := h.disconnects
    refine ⟨h.authInfo, ?_, hasked.symm, fun _ => hasked, ?_⟩
    · intro r' hr'
      cases hr'
    · show s.disconnects ++ [] = _
      rw [hbefore, hended]
      simp [ConnLoop.ended]
  | replied r hpc | replyFailed r hpc | authRejected r hpc | newSent r hpc | authForwarded r hpc | disconnected hpc
  | exitSent hpc =>
    -- the loop is running before and after the step, or it is over
    refine same_paired h rfl rfl ?_ ?_ rfl
    · simp [ConnLoop.ended, hpc]
    · intro r' hr'
      cases hr'

/-- `on_disconnect` is called once the loop has ended, exactly once if something
was accepted and never otherwise; it gets the accepted `auth_info` if and only
if the last Auth request on the connection carried that one. -/
theorem on_disconnect_identity_iff (decode : DecodeAuth) (conf : HealthyConfig) (peerAddr : String)
    (acceptedAt : Nat) (events : List ConnEvent) (s : ConnRecord)
    (hrun : Machine.run (step decode conf) (new peerAddr acceptedAt) events = some s) :
    s.disconnects.length = (if s.loop.ended = true ∧ s.accepted.isSome = true then 1 else 0) ∧
    (s.disconnects = (if s.loop.ended = true then s.accepted.toList else []) ↔
      (s.loop.ended = true → s.accepted.isSome = true → s.asked = s.accepted)) := by
  have hstep : ∀ (s : ConnRecord) e s', s.Paired → s.step decode conf e = some s' → s'.Paired :=
    fun _ _ _ => step_paired
  have h := Machine.run_invariant hstep (new_paired peerAddr acceptedAt) hrun
  have hcalls := h.disconnects
  rw [h.isAuthOk, h.authInfo] at hcalls
  cases hended : s.loop.ended with
  | false => simp [hcalls, hended]
  | true =>
    cases haccepted : s.accepted with
    | none => simp [hcalls, hended, haccepted]
    | some accepted =>
      obtain ⟨asked, hasked⟩ := Option.isSome_iff_exists.mp (h.accepted (by rw [haccepted]; rfl))
      simp [hcalls, hended, haccepted, hasked]

/-- Auth as 'a' is accepted, the peer leaves. -/
def acceptedRun : List ConnEvent :=
  [.recv (authLetter 1 97) 1, .authResult true, .newSent, .authForwarded, .recvClosed]

theorem on_disconnect_identity_iff_accepted :
    ∃ s, Machine.run (step decodeLetter ⟨30, 10, 3⟩) (new "10.0.0.7:4001" 0) acceptedRun = some s ∧
      s.loop.ended = true ∧ s.accepted = some ⟨"", "", "a"⟩ ∧ s.asked = s.accepted ∧
      s.disconnects.length = 1 ∧ s.disconnects = [⟨"", "", "a"⟩] := by
  have hrun : Machine.run (step decodeLetter ⟨30, 10, 3⟩) (new "10.0.0.7:4001" 0) acceptedRun =
      some ⟨⟨"10.0.0.7:4001", true, "a@10.0.0.7:4001", 1, ⟨"", "", "a"⟩, .onDisconnect⟩,
        some ⟨"", "", "a"⟩, some ⟨"", "", "a"⟩, [⟨"", "", "a"⟩]⟩ := by decide
  obtain ⟨hlen, hiff⟩ := on_disconnect_identity_iff decodeLetter ⟨30, 10, 3⟩ "10.0.0.7:4001" 0 acceptedRun _ hrun
  exact ⟨_, hrun, rfl, rfl, rfl, hlen, hiff.mpr fun _ _ => rfl⟩

/-- Auth as 'a' is accepted and Auth as 'b' rejected; the peer leaves as 'b'. -/
theorem on_disconnect_identity_counterexample :
    ¬∀ (decode : DecodeAuth) (conf : HealthyConfig) (peerAddr : String) (acceptedAt : Nat)
      (events : List ConnEvent) (s : ConnRecord),
      Machine.run (step decode conf) (new peerAddr acceptedAt) events = some s →
      s.disconnects = if s.loop.ended = true then s.accepted.toList else [] := by
  intro h
  have hcalls := h decodeLetter ⟨30, 10, 3⟩ "10.0.0.7:4001" 0
    [.recv (authLetter 1 97) 1, .authResult true, .newSent, .authForwarded,
      .recv (authLetter 2 98) 5, .authResult false, .recvClosed]
    ⟨⟨"10.0.0.7:4001", true, "b@10.0.0.7:4001", 5, ⟨"", "", "b"⟩, .onDisconnect⟩,
      some ⟨"", "", "b"⟩, some ⟨"", "", "a"⟩, [⟨"", "", "b"⟩]⟩ (by decide)
  revert hcalls
  decide

end ConnRecord

end QuoteLink

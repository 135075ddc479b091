import QuoteLink.Config
import QuoteLink.Machine
import Mathlib.Logic.Function.Basic

namespace QuoteLink

/-- The loops that `Transport::connect` spawns. -/
inductive TransportLoop
  | udpRead
  | quicProcess
  | linkRead
  | linkWrite
  | udpWrite
  deriving DecidableEq, Repr

/-- The loops in the order `connect` joins them. -/
def TransportLoop.all : List TransportLoop := [udpRead, quicProcess, linkRead, linkWrite, udpWrite]

theorem TransportLoop.mem_all (l : TransportLoop) : l ∈ all := by
  cases l <;> decide

instance {p : TransportLoop → Prop} [DecidablePred p] : Decidable (∀ l, p l) :=
  decidable_of_iff (∀ l ∈ TransportLoop.all, p l)
    ⟨fun h l => h l (TransportLoop.mem_all l), fun h l _ => h l⟩

/-- A `Result<()>`, without the text of its error. -/
inductive TaskResult
  | ok
  | err
  deriving DecidableEq, Repr

inductive JoinError
  | panicked
  deriving DecidableEq, Repr

/-- What the `JoinHandle` of a task yields once the task is over. -/
abbrev Joined := Except JoinError TaskResult

/-- `try_join!` over `JoinHandle`s: the first `JoinError` ends it, otherwise it
waits for all tasks. -/
def tryJoin : List (Option Joined) → Option (Except JoinError (List TaskResult))
  | [] => some (.ok [])
  | handle :: handles =>
    match handle, tryJoin handles with
    | some (.error e), _ => some (.error e)
    | _, some (.error e) => some (.error e)
    | some (.ok r), some (.ok rs) => some (.ok (r :: rs))
    | _, _ => none

/-- The end of `Transport::connect`, which looks only at the outer result. -/
def connectResult : Except JoinError (List TaskResult) → TaskResult
  | .ok _ => .ok
  | .error _ => .err

/-- `Heartbeat::decode`, which yields the timestamp. -/
abbrev DecodeHeartbeat := Bytes → Option Int

/-- Why the data loop was left. -/
inductive DataError
  | connectFailed
  | joinFailed
  | authTimeout
  | heartbeatTimeout
  | sendHeartbeat
  | decodeHeartbeat
  | authFailed
  | forwardAuth
  | sendSubscribe
  | processClosed
  | responseClosed
  deriving DecidableEq, Repr

/-- What a `DisconnectedForever` is about. -/
inductive ExitReason
  | exitSignal
  | randomCid
  | exceedRetryTimes (err : DataError) (retryTimes : UInt32)
  deriving DecidableEq, Repr

inductive ClientConnEvent
  | error (err : DataError)
  | disconnectedForever (reason : ExitReason)
  deriving DecidableEq, Repr

/-- One connection attempt: what has become of `connect` and its loops, the
packets in `inner_response_rx`, and the locals of the data loop. -/
structure Attempt where
  spawned : Bool
  loops : TransportLoop → Option Joined
  connTask : Option Joined
  responses : List Packet
  isAuthed : Bool
  connCreatedAt : Nat
  lastPongAt : Nat

/-- What a branch of the data loop waits to send. -/
inductive Sending
  | heartbeat
  | request
  | forwardAuth
  | subscribe (rest : List Subscribe)
  deriving DecidableEq, Repr

/-- Where a send into a closed channel takes the data loop; that of a user packet is
only logged. -/
def Sending.error : Sending → Option DataError
  | .heartbeat => some .sendHeartbeat
  | .request => none
  | .forwardAuth => some .forwardAuth
  | .subscribe _ => some .sendSubscribe

/-- Where the link task stands: before an attempt, at the `select!` of the data loop
or in the body of one of its branches, on its way to the next attempt, or on its way
out. -/
inductive RetryPc
  | connect
  | data
  | sending (w : Sending)
  | failed (err : DataError)
  | reporting
  | sleeping
  | exceeded (reason : ExitReason)
  | disconnecting
  | exiting
  | returned (result : TaskResult)
  deriving DecidableEq, Repr

def RetryPc.inLoop : RetryPc → Bool
  | .data | .sending _ => true
  | _ => false

/-- In the data loop, or just out of it. -/
def RetryPc.fromLoop : RetryPc → Bool
  | .data | .sending _ | .failed _ => true
  | _ => false

theorem RetryPc.fromLoop_of_inLoop {pc : RetryPc} (h : pc.inLoop = true) : pc.fromLoop = true := by
  cases pc with
  | data | sending w => rfl
  | _ => cases h

def RetryPc.isSending : RetryPc → Bool
  | .sending _ => true
  | _ => false

/-- The link task of a client. `events` lists the calls of `on_conn_event`, and
`interrupted` is set by ctrl-c and the exit signal. -/
structure ClientRetry where
  retryTimes : UInt32
  pc : RetryPc
  attempt : Attempt
  attempts : Nat
  processClosed : Bool
  events : List ClientConnEvent
  interrupted : Bool

/-- A step of `connect` or of a loop it has spawned. -/
inductive TransportEvent
  | spawned
  | connectFails (joined : Joined)
  | loopEnds (l : TransportLoop) (joined : Joined)
  | connectReturns
  | deliver (packet : Packet)
  deriving DecidableEq

/-- The loops run on when `conn_task` is aborted. -/
def TransportEvent.byLoop : TransportEvent → Bool
  | .loopEnds _ _ => true
  | .deliver _ => true
  | _ => false

inductive RetryEvent
  | transport (e : TransportEvent)
  | processEnds
  | connect (cid : Bool) (now : Nat)
  | ctrlC
  | connTask
  | tick (now : Nat)
  | exitSignal
  | request
  | response (now : Nat)
  | responseClosed
  | sent
  | sendFailed
  | retry
  | eventDone
  | slept
  | disconnect
  deriving DecidableEq

/-- The branches and awaits of the link task. -/
def RetryEvent.byLink : RetryEvent → Bool
  | .transport _ => false
  | .processEnds => false
  | _ => true

/-- The steps of the link task that wait for nothing but a timer of their own or the
return of `on_conn_event`. -/
def RetryEvent.prompt : RetryEvent → Bool
  | .connect _ _ | .sendFailed | .retry | .eventDone | .slept | .disconnect => true
  | _ => false

namespace Attempt

def new (now : Nat) : Attempt := ⟨false, fun _ => none, none, [], false, now, now⟩

/-- The `JoinHandle`s of `connect`. -/
def handles (c : Attempt) : List (Option Joined) := TransportLoop.all.map c.loops

/-- The task that holds `inner_request_rx` is over. -/
def requestClosed (c : Attempt) : Bool :=
  if c.spawned then (c.loops .linkWrite).isSome else c.connTask.isSome

/-- The task that holds the sender of `inner_response_rx` is over. -/
def responseClosed (c : Attempt) : Bool :=
  if c.spawned then (c.loops .linkRead).isSome else c.connTask.isSome

/-- All loops have returned, none has panicked. -/
def AllReturned (c : Attempt) : Prop := ∀ l, ∃ r, c.loops l = some (.ok r)

def AllOk (c : Attempt) : Prop := ∀ l, c.loops l = some (.ok .ok)

instance (c : Attempt) : Decidable c.AllReturned :=
  decidable_of_iff (∀ l, c.loops l = some (.ok .ok) ∨ c.loops l = some (.ok .err))
    (forall_congr' fun _ =>
      ⟨fun h => h.elim (fun h => ⟨_, h⟩) (fun h => ⟨_, h⟩),
        fun ⟨r, h⟩ => match r with | .ok => .inl h | .err => .inr h⟩)

instance (c : Attempt) : Decidable c.AllOk :=
  inferInstanceAs (Decidable (∀ l, c.loops l = some (.ok .ok)))

/-- The two differ at most in the locals of the data loop. -/
structure SameTasks (c c' : Attempt) : Prop where
  spawned : c'.spawned = c.spawned
  loops : c'.loops = c.loops
  connTask : c'.connTask = c.connTask

theorem SameTasks.refl (c : Attempt) : c.SameTasks c := ⟨rfl, rfl, rfl⟩

/-- What `connect` returns after its `try_join!`, once that is complete. -/
def connectReturn (c : Attempt) : Option TaskResult := (tryJoin c.handles).map connectResult

def step (c : Attempt) : TransportEvent → Option Attempt
  | .spawned =>
    if c.spawned = false ∧ c.connTask = none then some { c with spawned := true } else none
  | .connectFails joined =>
    if c.spawned = false ∧ c.connTask = none ∧ joined ≠ .ok .ok then
      some { c with connTask := some joined }
    else none
  | .loopEnds l joined =>
    if c.spawned ∧ c.loops l = none then
      some { c with loops := Function.update c.loops l (some joined) }
    else none
  | .connectReturns =>
    if c.spawned ∧ c.connTask = none then
      c.connectReturn.map fun r => { c with connTask := some (.ok r) }
    else none
  | .deliver packet =>
    if c.spawned ∧ c.loops .linkRead = none then
      some { c with responses := c.responses ++ [packet] }
    else none

/-- All that a step of the transport can be. -/
inductive StepCase (c : Attempt) : TransportEvent → Attempt → Prop
  | spawned (hs : c.spawned = false) (hj : c.connTask = none) :
    StepCase c .spawned { c with spawned := true }
  | connectFails (j : Joined) (hs : c.spawned = false) (hne : j ≠ .ok .ok) :
    StepCase c (.connectFails j) { c with connTask := some j }
  | loopEnds (l : TransportLoop) (j : Joined) (hs : c.spawned = true) (hl : c.loops l = none) :
    StepCase c (.loopEnds l j) { c with loops := Function.update c.loops l (some j) }
  | connectReturns (r : TaskResult) (hs : c.spawned = true) (hr : c.connectReturn = some r) :
    StepCase c .connectReturns { c with connTask := some (.ok r) }
  | deliver (packet : Packet) (hs : c.spawned = true) :
    StepCase c (.deliver packet) { c with responses := c.responses ++ [packet] }

theorem step_cases {c c' : Attempt} {e : TransportEvent} (h : c.step e = some c') :
    StepCase c e c' := by
  cases e with
  | spawned =>
    simp only [step, Option.ite_none_right_eq_some, Option.some.injEq] at h
    obtain ⟨⟨hs, hj⟩, rfl⟩ := h
    exact .spawned hs hj
  | connectFails j =>
    simp only [step, Option.ite_none_right_eq_some, Option.some.injEq] at h
    obtain ⟨⟨hs, _, hne⟩, rfl⟩ := h
    exact .connectFails j hs hne
  | loopEnds l j =>
    simp only [step, Option.ite_none_right_eq_some, Option.some.injEq] at h
    obtain ⟨⟨hs, hl⟩, rfl⟩ := h
    exact .loopEnds l j hs hl
  | connectReturns =>
    simp only [step, Option.ite_none_right_eq_some, Option.map_eq_some_iff] at h
    obtain ⟨⟨hs, _⟩, r, hr, rfl⟩ := h
    exact .connectReturns r hs hr
  | deliver packet =>
    simp only [step, Option.ite_none_right_eq_some, Option.some.injEq] at h
    obtain ⟨⟨hs, _⟩, rfl⟩ := h
    exact .deliver packet hs

end Attempt

namespace ClientRetry

def new : ClientRetry := ⟨0, .connect, .new 0, 0, false, [], false⟩

/-- `break 'data` -/
def fail (s : ClientRetry) (err : DataError) : ClientRetry := { s with pc := .failed err }

/-- What the data loop runs into at a tick, if anything. -/
def tickError (conf : HealthyConfig) (s : ClientRetry) (now : Nat) : Option DataError :=
  if s.attempt.isAuthed = false ∧ conf.authTimeout < now - s.attempt.connCreatedAt then
    some .authTimeout
  else if s.attempt.isAuthed ∧ conf.heartbeatTimeout < now - s.attempt.lastPongAt then
    some .heartbeatTimeout
  else none

/-- A packet that is neither a heartbeat nor an auth response goes to the consumer task. -/
def forward (s : ClientRetry) : ClientRetry :=
  if s.processClosed then s.fail .processClosed else s

def onAuth (s : ClientRetry) (response : Response) : ClientRetry :=
  if response.status ≠ .success then s.fail .authFailed
  else { s with pc := .sending .forwardAuth, attempt := { s.attempt with isAuthed := true } }

def onPacket (decode : DecodeHeartbeat) (s : ClientRetry) (packet : Packet) : ClientRetry :=
  match packet with
  | .response response =>
    if response.command = .heartbeat then
      match decode response.body with
      | some _ => s
      | none => s.fail .decodeHeartbeat
    else if response.command = .auth then s.onAuth response
    else s.forward
  | _ => s.forward

/-- The receiver of the channel that the data loop sends into is gone. -/
def sendClosed (s : ClientRetry) : Sending → Bool
  | .forwardAuth => s.processClosed
  | _ => s.attempt.requestClosed

/-- The subscribe requests go out one by one. -/
def subscribing : List Subscribe → RetryPc
  | [] => .data
  | rest => .sending (.subscribe rest)

/-- Where the data loop goes on when a send is done. -/
def afterSent (subscribes : List Subscribe) : Sending → RetryPc
  | .heartbeat => .data
  | .request => .data
  | .forwardAuth => subscribing subscribes
  | .subscribe rest => subscribing rest.tail

/-- Behind the data loop: `conn_task` is aborted, and the failure is counted. -/
def retry (conf : HealthyConfig) (s : ClientRetry) (err : DataError) : ClientRetry :=
  let retryTimes := s.retryTimes + 1
  if 0 < conf.retryTimes ∧ conf.retryTimes ≤ retryTimes then
    { s with retryTimes := retryTimes, pc := .exceeded (.exceedRetryTimes err retryTimes) }
  else
    { s with retryTimes := retryTimes, pc := .reporting, events := s.events ++ [.error err] }

/-- A step of the link task, or of the tasks around it. Outside the data loop
`conn_task` is aborted. A send waits until there is room in its channel, or until the
channel is closed. -/
def step (decode : DecodeHeartbeat) (subscribes : List Subscribe) (conf : HealthyConfig)
    (s : ClientRetry) : RetryEvent → Option ClientRetry
  | .transport e =>
    if s.pc.inLoop ∨ e.byLoop then
      (s.attempt.step e).map fun c => { s with attempt := c }
    else none
  | .processEnds => some { s with processClosed := true }
  | .connect cid now =>
    if s.pc = .connect then
      if cid then
        some { s with pc := .data, attempt := .new now, attempts := s.attempts + 1 }
      else some { s with pc := .exceeded .randomCid }
    else none
  | .ctrlC =>
    if s.pc = .data then some { s with pc := .returned .ok, interrupted := true } else none
  | .connTask =>
    match s.pc, s.attempt.connTask with
    | .data, some (.ok .ok) => some { s with pc := .returned .ok }
    | .data, some (.ok .err) => some (s.fail .connectFailed)
    | .data, some (.error _) => some (s.fail .joinFailed)
    | _, _ => none
  | .tick now =>
    if s.pc = .data then
      match s.tickError conf now with
      | some err => some (s.fail err)
      | none => some { s with pc := .sending .heartbeat }
    else none
  | .exitSignal =>
    if s.pc = .data then
      some { s with
        pc := .exiting
        events := s.events ++ [.disconnectedForever .exitSignal]
        interrupted := true }
    else none
  | .request => if s.pc = .data then some { s with pc := .sending .request } else none
  | .response now =>
    match s.pc, s.attempt.responses with
    | .data, packet :: rest =>
      some (onPacket decode
        { s with attempt := { s.attempt with responses := rest, lastPongAt := now } } packet)
    | _, _ => none
  | .responseClosed =>
    if s.pc = .data ∧ s.attempt.responses = [] ∧ s.attempt.responseClosed then
      some (s.fail .responseClosed)
    else none
  | .sent =>
    match s.pc with
    | .sending w =>
      if s.sendClosed w then none else some { s with pc := afterSent subscribes w }
    | _ => none
  | .sendFailed =>
    match s.pc with
    | .sending w =>
      if s.sendClosed w then
        match w.error with
        | some err => some (s.fail err)
        | none => some { s with pc := .data }
      else none
    | _ => none
  | .retry =>
    match s.pc with
    | .failed err => some (s.retry conf err)
    | _ => none
  | .eventDone =>
    match s.pc with
    | .reporting => some { s with pc := .sleeping }
    | .disconnecting => some { s with pc := .returned .err }
    | .exiting => some { s with pc := .returned .ok }
    | _ => none
  | .slept => if s.pc = .sleeping then some { s with pc := .connect } else none
  | .disconnect =>
    match s.pc with
    | .exceeded reason =>
      some { s with
        pc := .disconnecting
        events := s.events ++ [.disconnectedForever reason] }
    | _ => none

/-- All that a step can be. In the data loop a branch either stays in the loop or
leaves it; only a packet from the peer changes the locals of the loop. -/
inductive StepCase (conf : HealthyConfig) (s : ClientRetry) : RetryEvent → ClientRetry → Prop
  | transport (e : TransportEvent) (c : Attempt) (hc : s.attempt.step e = some c) :
    StepCase conf s (.transport e) { s with attempt := c }
  | processEnds : StepCase conf s .processEnds { s with processClosed := true }
  | connect (now : Nat) (hpc : s.pc = .connect) :
    StepCase conf s (.connect true now)
      { s with pc := .data, attempt := .new now, attempts := s.attempts + 1 }
  | noCid (now : Nat) (hpc : s.pc = .connect) :
    StepCase conf s (.connect false now) { s with pc := .exceeded .randomCid }
  | ctrlC (hpc : s.pc = .data) :
    StepCase conf s .ctrlC { s with pc := .returned .ok, interrupted := true }
  | connTaskOk (hpc : s.pc = .data) (hj : s.attempt.connTask = some (.ok .ok)) :
    StepCase conf s .connTask { s with pc := .returned .ok }
  | connTaskErr (j : Joined) (err : DataError) (hpc : s.pc = .data)
    (hj : s.attempt.connTask = some j) (hne : j ≠ .ok .ok) :
    StepCase conf s .connTask (s.fail err)
  | exitSignal (hpc : s.pc = .data) :
    StepCase conf s .exitSignal
      { s with
        pc := .exiting
        events := s.events ++ [.disconnectedForever .exitSignal]
        interrupted := true }
  | branch (e : RetryEvent) (pc : RetryPc) (hpc : s.pc.inLoop = true) (hpc' : pc.fromLoop = true)
    (he : e.byLink = true) (hne : e ≠ .connTask) (hnot : ∀ now, e ≠ .response now) :
    StepCase conf s e { s with pc := pc }
  | response (now : Nat) (packet : Packet) (rest : List Packet) (c : Attempt) (pc : RetryPc)
    (hpc : s.pc = .data) (hr : s.attempt.responses = packet :: rest) (hrest : c.responses = rest)
    (hc : s.attempt.SameTasks c) (hpc' : pc.fromLoop = true) :
    StepCase conf s (.response now) { s with pc := pc, attempt := c }
  | retry (err : DataError) (hpc : s.pc = .failed err) : StepCase conf s .retry (s.retry conf err)
  | reported (hpc : s.pc = .reporting) : StepCase conf s .eventDone { s with pc := .sleeping }
  | disconnected (hpc : s.pc = .disconnecting) :
    StepCase conf s .eventDone { s with pc := .returned .err }
  | exited (hpc : s.pc = .exiting) : StepCase conf s .eventDone { s with pc := .returned .ok }
  | slept (hpc : s.pc = .sleeping) : StepCase conf s .slept { s with pc := .connect }
  | disconnect (reason : ExitReason) (hpc : s.pc = .exceeded reason) :
    StepCase conf s .disconnect
      { s with
        pc := .disconnecting
        events := s.events ++ [.disconnectedForever reason] }

theorem onPacket_shape (decode : DecodeHeartbeat) (s : ClientRetry) (packet : Packet)
    (hpc : s.pc = .data) :
    ∃ pc c, onPacket decode s packet = { s with pc := pc, attempt := c } ∧
      pc.fromLoop = true ∧ c.responses = s.attempt.responses ∧ s.attempt.SameTasks c := by
  have hstay : s = { s with pc := .data, attempt := s.attempt } := by rw [← hpc]
  have hforward : ∃ pc c, s.forward = { s with pc := pc, attempt := c } ∧
      pc.fromLoop = true ∧ c.responses = s.attempt.responses ∧ s.attempt.SameTasks c := by
    unfold forward
    split
    next => exact ⟨.failed .processClosed, s.attempt, rfl, rfl, rfl, .refl _⟩
    next => exact ⟨.data, s.attempt, hstay, rfl, rfl, .refl _⟩
  cases packet with
  | request r => exact hforward
  | push p => exact hforward
  | response r =>
    simp only [onPacket]
    split
    next =>
      split
      next => exact ⟨.data, s.attempt, hstay, rfl, rfl, .refl _⟩
      next => exact ⟨.failed .decodeHeartbeat, s.attempt, rfl, rfl, rfl, .refl _⟩
    next =>
      split
      next =>
        unfold onAuth
        split
        next => exact ⟨.failed .authFailed, s.attempt, rfl, rfl, rfl, .refl _⟩
        next =>
          exact ⟨.sending .forwardAuth, { s.attempt with isAuthed := true }, rfl, rfl, rfl,
            rfl, rfl, rfl⟩
      next => exact hforward

theorem subscribing_inLoop (rest : List Subscribe) : (subscribing rest).inLoop = true := by
  cases rest <;> rfl

theorem afterSent_inLoop (subscribes : List Subscribe) (w : Sending) :
    (afterSent subscribes w).inLoop = true := by
  cases w with
  | heartbeat => rfl
  | request => rfl
  | forwardAuth => exact subscribing_inLoop subscribes
  | subscribe rest => exact subscribing_inLoop rest.tail

theorem step_cases {decode : DecodeHeartbeat} {subscribes : List Subscribe} {conf : HealthyConfig}
    {s s' : ClientRetry} {e : RetryEvent} (h : step decode subscribes conf s e = some s') :
    StepCase conf s e s' := by
  cases e with
  | transport e =>
    simp only [step, Option.ite_none_right_eq_some, Option.map_eq_some_iff] at h
    obtain ⟨_, c, hc, rfl⟩ := h
    exact .transport e c hc
  | processEnds =>
    cases h
    exact .processEnds
  | connect cid now =>
    simp only [step, Option.ite_none_right_eq_some] at h
    obtain ⟨hpc, h⟩ := h
    cases cid with
    | true =>
      cases h
      exact .connect now hpc
    | false =>
      cases h
      exact .noCid now hpc
  | ctrlC =>
    simp only [step, Option.ite_none_right_eq_some, Option.some.injEq] at h
    obtain ⟨hpc, rfl⟩ := h
    exact .ctrlC hpc
  | connTask =>
    simp only [step] at h
    split at h
    next hpc hj =>
      cases h
      exact .connTaskOk hpc hj
    next hpc hj =>
      cases h
      exact .connTaskErr _ .connectFailed hpc hj (by decide)
    next hpc hj =>
      cases h
      exact .connTaskErr _ .joinFailed hpc hj nofun
    next => cases h
  | tick now =>
    simp only [step, Option.ite_none_right_eq_some] at h
    obtain ⟨hpc, h⟩ := h
    split at h
    next err _ =>
      cases h
      exact .branch (.tick now) (.failed err) (by rw [hpc]; rfl) rfl rfl nofun nofun
    next =>
      cases h
      exact .branch (.tick now) (.sending .heartbeat) (by rw [hpc]; rfl) rfl rfl nofun nofun
  | exitSignal =>
    simp only [step, Option.ite_none_right_eq_some, Option.some.injEq] at h
    obtain ⟨hpc, rfl⟩ := h
    exact .exitSignal hpc
  | request =>
    simp only [step, Option.ite_none_right_eq_some, Option.some.injEq] at h
    obtain ⟨hpc, rfl⟩ := h
    exact .branch .request (.sending .request) (by rw [hpc]; rfl) rfl rfl nofun nofun
  | response now =>
    simp only [step] at h
    split at h
    next packet rest hpc hr =>
      obtain ⟨pc, c, hshape, hpc', hrest, hc⟩ := onPacket_shape decode
        { s with attempt := { s.attempt with responses := rest, lastPongAt := now } } packet hpc
      rw [hshape] at h
      cases h
      exact .response now packet rest c pc hpc hr hrest ⟨hc.spawned, hc.loops, hc.connTask⟩ hpc'
    next => cases h
  | responseClosed =>
    simp only [step, Option.ite_none_right_eq_some, Option.some.injEq] at h
    obtain ⟨⟨hpc, _⟩, rfl⟩ := h
    exact .branch .responseClosed (.failed .responseClosed) (by rw [hpc]; rfl) rfl rfl nofun nofun
  | sent =>
    simp only [step] at h
    split at h
    next w hpc =>
      split at h
      next => cases h
      next =>
        cases h
        have hin := afterSent_inLoop subscribes w
        exact .branch .sent _ (by rw [hpc]; rfl) (RetryPc.fromLoop_of_inLoop hin) rfl nofun nofun
    next => cases h
  | sendFailed =>
    simp only [step] at h
    split at h
    next w hpc =>
      simp only [Option.ite_none_right_eq_some] at h
      obtain ⟨_, h⟩ := h
      split at h
      next err _ =>
        cases h
        exact .branch .sendFailed (.failed err) (by rw [hpc]; rfl) rfl rfl nofun nofun
      next =>
        cases h
        exact .branch .sendFailed .data (by rw [hpc]; rfl) rfl rfl nofun nofun
    next => cases h
  | retry =>
    simp only [step] at h
    split at h
    next err hpc =>
      cases h
      exact .retry err hpc
    next => cases h
  | eventDone =>
    simp only [step] at h
    split at h
    next hpc =>
      cases h
      exact .reported hpc
    next hpc =>
      cases h
      exact .disconnected hpc
    next hpc =>
      cases h
      exact .exited hpc
    next => cases h
  | slept =>
    simp only [step, Option.ite_none_right_eq_some, Option.some.injEq] at h
    obtain ⟨hpc, rfl⟩ := h
    exact .slept hpc
  | disconnect =>
    simp only [step] at h
    split at h
    next reason hpc =>
      cases h
      exact .disconnect reason hpc
    next => cases h

end ClientRetry

end QuoteLink

import QuoteLink.Machine
import QuoteLink.SimpleBuf

namespace QuoteLink

/-- What `conn.stream_send` returns. -/
inductive StreamSend
  | ok (n : Nat)
  | done
  | err
  deriving DecidableEq, Repr

/-- The bytes `stream_send` took for stream 0. After a `Done` the connection
stays `blocked` until another call on it. -/
structure Conn where
  written : Bytes
  blocked : Bool
  deriving DecidableEq, Repr

namespace Conn

/-- A call of `send`, `recv` or `on_timeout`. -/
def call (c : Conn) : Conn := { c with blocked := false }

def streamSend (c : Conn) (b : Bytes) : StreamSend → Option Conn
  | .ok n =>
    if c.blocked = false ∧ 1 ≤ n ∧ n ≤ b.length then
      some { c with written := c.written ++ b.take n }
    else none
  | .done => some { c with blocked := true }
  | .err => if c.blocked then none else some c

theorem streamSend_cases {c c' : Conn} {b : Bytes} {r : StreamSend}
    (h : c.streamSend b r = some c') :
    (∃ n, r = .ok n ∧ c.blocked = false ∧ 1 ≤ n ∧ n ≤ b.length ∧
      c' = { c with written := c.written ++ b.take n }) ∨
    (r = .done ∧ c' = { c with blocked := true }) ∨ (r = .err ∧ c' = c) := by
  cases r with
  | ok n =>
    simp only [Conn.streamSend, Option.ite_none_right_eq_some, Option.some.injEq] at h
    obtain ⟨⟨hb, hn, hle⟩, rfl⟩ := h
    exact Or.inl ⟨n, rfl, hb, hn, hle, rfl⟩
  | done =>
    simp only [Conn.streamSend, Option.some.injEq] at h
    exact Or.inr (Or.inl ⟨rfl, h.symm⟩)
  | err =>
    simp only [Conn.streamSend, Option.ite_none_left_eq_some, Option.some.injEq] at h
    exact Or.inr (Or.inr ⟨rfl, h.2.symm⟩)

end Conn

inductive QuicExit
  | otherBranch
  | free (e : BufError)
  | streamSend
  | connSend
  | maxLen (maxLen len : Nat)
  | pushSlice (e : BufError)
  | timedOut
  | closed
  deriving DecidableEq, Repr

/-- Where `quic_process_loop` stands: in `select!`, in the ticker branch, or in
the send branch with the frame `b` in hand. -/
inductive QuicPc
  | select
  | tickFlush
  | tickTail
  | frameFlush (b : Bytes)
  | offer (b : Bytes) (sent : Nat)
  | exited (e : QuicExit)
  deriving DecidableEq, Repr

/-- `frames` lists the frames decided on so far, each with whether it was kept
or dropped at the `continue`. -/
structure QuicSend where
  conn : Conn
  streamSendBuffer : SimpleBuf
  pc : QuicPc
  frames : List (Bytes × Bool)
  deriving DecidableEq, Repr

inductive QuicEvent
  | otherBranch (leave : Bool)
  | tick
  | recv (b : Bytes)
  | streamSend (r : StreamSend) (connSend : Bool)
  | loopEnd
  | tickEnd (onTimeout : Option Bool) (timedOut closed : Bool)
  deriving DecidableEq, Repr

/-- The frame an event takes from `quic_data_send_rx`. -/
def QuicEvent.received : QuicEvent → List Bytes
  | .recv b => [b]
  | _ => []

namespace QuicSend

def new (streamSendBufferSize : Nat) : QuicSend :=
  ⟨⟨[], false⟩, SimpleBuf.new streamSendBufferSize, .select, []⟩

/-- `conn_send_loop!`, which returns from the loop on an error. -/
def connSendLoop (s : QuicSend) (ok : Bool) : QuicSend :=
  if ok then { s with conn := s.conn.call } else { s with pc := .exited .connSend }

/-- A pass of the loop that sends the leftovers; `next` follows a `Done`. -/
def flush (s : QuicSend) (next : QuicSend → QuicSend) (r : StreamSend) (connSend : Bool) :
    Option QuicSend :=
  if s.streamSendBuffer.isEmpty then none
  else (s.conn.streamSend s.streamSendBuffer.occupiedSlice r).map fun conn =>
    match r with
    | .ok n =>
      match s.streamSendBuffer.free n with
      | (buf, .ok ()) => connSendLoop { s with conn := conn, streamSendBuffer := buf } connSend
      | (buf, .error e) =>
        { s with conn := conn, streamSendBuffer := buf, pc := .exited (.free e) }
    | .done => next { s with conn := conn }
    | .err => { s with conn := conn, pc := .exited .streamSend }

/-- After the leftovers: the frame is dropped, or the loop turns to its bytes. -/
def takeOrDrop (b : Bytes) (s : QuicSend) : QuicSend :=
  let buf := s.streamSendBuffer.reuseIf.1
  if buf.len < b.length then
    if buf.maxLen < b.length then
      { s with streamSendBuffer := buf, pc := .select, frames := s.frames ++ [(b, false)] }
    else
      { s with streamSendBuffer := buf.reuse, pc := .offer b 0, frames := s.frames ++ [(b, true)] }
  else { s with streamSendBuffer := buf, pc := .offer b 0, frames := s.frames ++ [(b, true)] }

def pushRest (s : QuicSend) (buf : SimpleBuf) (rest : Bytes) : QuicSend :=
  match buf.pushSlice rest with
  | (buf, .ok ()) => { s with streamSendBuffer := buf, pc := .select }
  | (buf, .error e) => { s with streamSendBuffer := buf, pc := .exited (.pushSlice e) }

/-- After the frame's own loop: what it could not send is buffered. -/
def keepRest (s : QuicSend) (b : Bytes) (sent : Nat) : QuicSend :=
  let buf := s.streamSendBuffer
  if sent = b.length then { s with pc := .select }
  else if buf.len < b.length then
    if buf.maxLen < b.length then { s with pc := .exited (.maxLen buf.maxLen b.length) }
    else s.pushRest buf.reuse (b.drop sent)
  else s.pushRest buf (b.drop sent)

/-- A pass of the loop that sends the frame's own bytes. -/
def offer (s : QuicSend) (b : Bytes) (sent : Nat) (r : StreamSend) (connSend : Bool) :
    Option QuicSend :=
  if b.length ≤ sent then none
  else (s.conn.streamSend (b.drop sent) r).map fun conn =>
    match r with
    | .ok n => connSendLoop { s with conn := conn, pc := .offer b (sent + n) } connSend
    | .done => keepRest { s with conn := conn } b sent
    | .err => { s with conn := conn, pc := .exited .streamSend }

def tickEnd (s : QuicSend) (onTimeout : Option Bool) (timedOut closed : Bool) : QuicSend :=
  let conn := if onTimeout.isSome then s.conn.call else s.conn
  if onTimeout = some false then { s with conn := conn, pc := .exited .connSend }
  else if timedOut then { s with conn := conn, pc := .exited .timedOut }
  else if closed then { s with conn := conn, pc := .exited .closed }
  else { s with conn := conn, pc := .select }

def toTickTail (s : QuicSend) : QuicSend := { s with pc := .tickTail }

/-- One step of `quic_process_loop`, as far as its sending is concerned. The
timeout and receive branches only call the connection, or leave. -/
def step (s : QuicSend) : QuicEvent → Option QuicSend
  | .otherBranch leave =>
    if s.pc = .select then
      some { s with
        conn := s.conn.call
        pc := if leave then .exited .otherBranch else .select }
    else none
  | .tick => if s.pc = .select then some { s with pc := .tickFlush } else none
  | .recv b => if s.pc = .select then some { s with pc := .frameFlush b } else none
  | .streamSend r connSend =>
    match s.pc with
    | .tickFlush => s.flush toTickTail r connSend
    | .frameFlush b => s.flush (takeOrDrop b) r connSend
    | .offer b sent => s.offer b sent r connSend
    | _ => none
  | .loopEnd =>
    match s.pc with
    | .tickFlush => if s.streamSendBuffer.isEmpty then some s.toTickTail else none
    | .frameFlush b => if s.streamSendBuffer.isEmpty then some (s.takeOrDrop b) else none
    | .offer b sent => if b.length ≤ sent then some (s.keepRest b sent) else none
    | _ => none
  | .tickEnd onTimeout timedOut closed =>
    if s.pc = .tickTail then some (s.tickEnd onTimeout timedOut closed) else none

/-- The frames that were not dropped, in the order they were taken. -/
def kept (s : QuicSend) : List Bytes := (s.frames.filter (·.2)).map (·.1)

/-- The frame taken but not decided on yet. -/
def undecided (s : QuicSend) : List Bytes :=
  match s.pc with
  | .frameFlush b => [b]
  | _ => []

def running (s : QuicSend) : Bool :=
  match s.pc with
  | .exited _ => false
  | _ => true

/-- All that a step can be. -/
inductive StepCase (s : QuicSend) : QuicEvent → QuicSend → Prop
  | otherBranch (leave : Bool) (hpc : s.pc = .select) :
    StepCase s (.otherBranch leave)
      { s with conn := s.conn.call, pc := if leave then .exited .otherBranch else .select }
  | tick (hpc : s.pc = .select) : StepCase s .tick { s with pc := .tickFlush }
  | recv (b : Bytes) (hpc : s.pc = .select) : StepCase s (.recv b) { s with pc := .frameFlush b }
  | tickFlush (r : StreamSend) (k : Bool) {s' : QuicSend} (hpc : s.pc = .tickFlush)
    (h : s.flush toTickTail r k = some s') : StepCase s (.streamSend r k) s'
  | tickEmpty (hpc : s.pc = .tickFlush) (h : s.streamSendBuffer.isEmpty = true) :
    StepCase s .loopEnd s.toTickTail
  | frameFlush (b : Bytes) (r : StreamSend) (k : Bool) {s' : QuicSend}
    (hpc : s.pc = .frameFlush b) (h : s.flush (takeOrDrop b) r k = some s') :
    StepCase s (.streamSend r k) s'
  | frameEmpty (b : Bytes) (hpc : s.pc = .frameFlush b) (h : s.streamSendBuffer.isEmpty = true) :
    StepCase s .loopEnd (s.takeOrDrop b)
  | offer (b : Bytes) (sent : Nat) (r : StreamSend) (k : Bool) {s' : QuicSend}
    (hpc : s.pc = .offer b sent) (h : s.offer b sent r k = some s') :
    StepCase s (.streamSend r k) s'
  | offerEnd (b : Bytes) (sent : Nat) (hpc : s.pc = .offer b sent) (h : b.length ≤ sent) :
    StepCase s .loopEnd (s.keepRest b sent)
  | tickEnd (onTimeout : Option Bool) (timedOut closed : Bool) (hpc : s.pc = .tickTail) :
    StepCase s (.tickEnd onTimeout timedOut closed) (s.tickEnd onTimeout timedOut closed)

theorem step_cases {s s' : QuicSend} {e : QuicEvent} (h : s.step e = some s') :
    StepCase s e s' := by
  cases e with
  | otherBranch leave =>
    simp only [step, Option.ite_none_right_eq_some, Option.some.injEq] at h
    obtain ⟨hpc, rfl⟩ := h
    exact .otherBranch leave hpc
  | tick =>
    simp only [step, Option.ite_none_right_eq_some, Option.some.injEq] at h
    obtain ⟨hpc, rfl⟩ := h
    exact .tick hpc
  | recv b =>
    simp only [step, Option.ite_none_right_eq_some, Option.some.injEq] at h
    obtain ⟨hpc, rfl⟩ := h
    exact .recv b hpc
  | streamSend r k =>
    simp only [step] at h
    split at h
    next hpc => exact .tickFlush r k hpc h
    next b hpc => exact .frameFlush b r k hpc h
    next b sent hpc => exact .offer b sent r k hpc h
    next => cases h
  | loopEnd =>
    simp only [step] at h
    split at h
    next hpc =>
      simp only [Option.ite_none_right_eq_some, Option.some.injEq] at h
      obtain ⟨hempty, rfl⟩ := h
      exact .tickEmpty hpc hempty
    next b hpc =>
      simp only [Option.ite_none_right_eq_some, Option.some.injEq] at h
      obtain ⟨hempty, rfl⟩ := h
      exact .frameEmpty b hpc hempty
    next b sent hpc =>
      simp only [Option.ite_none_right_eq_some, Option.some.injEq] at h
      obtain ⟨hle, rfl⟩ := h
      exact .offerEnd b sent hpc hle
    next => cases h
  | tickEnd onTimeout timedOut closed =>
    simp only [step, Option.ite_none_right_eq_some, Option.some.injEq] at h
    obtain ⟨hpc, rfl⟩ := h
    exact .tickEnd onTimeout timedOut closed hpc

end QuicSend

end QuoteLink

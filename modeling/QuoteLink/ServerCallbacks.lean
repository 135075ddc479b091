import QuoteLink.ServerLink

namespace QuoteLink

/-- A heartbeat or an Auth request, which the main process loop handles itself. -/
def Packet.isControl : Packet → Bool
  | .request r => r.command == .heartbeat || r.command == .auth
  | _ => false

/-- The packet an effect hands to the callback task. -/
def ConnEffect.callback? : ConnEffect → Option Packet
  | .callback packet => some packet
  | _ => none

/-- The callback task of one connection, its two channels and the spawned tasks
that wait to send on a full `recved_packet_tx`. A packet is kept with whether
the connection was authenticated when it was received. `calls` lists those taken
for `on_request`, `on_response` and `on_push`, each of which is then called in a
task of its own; `sends` lists the calls of `on_send` with whether the connection
was authenticated then. -/
structure CallbackTask where
  recvedPacket : List (Packet × Bool)
  requeued : List (Packet × Bool)
  broadcastRx : List Packet
  sending : Option Packet
  exited : Bool
  calls : List (Packet × Bool)
  sends : List (Packet × Bool)
  deriving DecidableEq, Repr

namespace CallbackTask

def new : CallbackTask := ⟨[], [], [], none, false, [], []⟩

/-- `recved_packet_tx.try_send`, and the spawned `send` if the channel is full. -/
def trySend (size : Nat) (t : CallbackTask) (x : Packet × Bool) : CallbackTask :=
  if t.exited then t
  else if t.recvedPacket.length < size then { t with recvedPacket := t.recvedPacket ++ [x] }
  else { t with requeued := t.requeued ++ [x] }

/-- The `i`th of the spawned sends finds a place, or the channel closed. -/
def requeue (size : Nat) (t : CallbackTask) (i : Nat) : Option CallbackTask :=
  match t.requeued[i]? with
  | none => none
  | some x =>
    if t.exited then some { t with requeued := t.requeued.eraseIdx i }
    else if t.recvedPacket.length < size then
      some { t with recvedPacket := t.recvedPacket ++ [x], requeued := t.requeued.eraseIdx i }
    else none

/-- `select!` is reached: the task lives and no `on_send` is awaited. -/
def polls (t : CallbackTask) : Bool := !t.exited && t.sending.isNone

/-- `recved_packet_rx.recv`: an Auth request only changes the name, any other
packet is handed to its callback in a task of its own. -/
def takePacket (decode : DecodeAuth) (t : CallbackTask) : Option CallbackTask :=
  match t.polls, t.recvedPacket with
  | true, (.request r, authed) :: rest =>
    if r.command = .auth then
      match decode r.body with
      | none => some { t with recvedPacket := rest, exited := true }
      | some _ => some { t with recvedPacket := rest }
    else some { t with recvedPacket := rest, calls := t.calls ++ [(.request r, authed)] }
  | true, x :: rest => some { t with recvedPacket := rest, calls := t.calls ++ [x] }
  | _, _ => none

/-- A broadcast channel keeps its last `capacity` packets; a receiver that lags
behind skips the others. -/
def deliver (capacity : Nat) (packet : Packet) (t : CallbackTask) : CallbackTask :=
  if t.exited then t
  else { t with broadcastRx := (t.broadcastRx ++ [packet]).drop (t.broadcastRx.length + 1 - capacity) }

/-- `on_send_broadcast_rx.recv` and the call of `on_send`, which is awaited. -/
def takeBroadcast (authed : Bool) (t : CallbackTask) : Option CallbackTask :=
  match t.polls, t.broadcastRx with
  | true, packet :: rest =>
    some { t with broadcastRx := rest, sending := some packet, sends := t.sends ++ [(packet, authed)] }
  | _, _ => none

def onSendDone (t : CallbackTask) : Option CallbackTask :=
  if t.sending.isSome then some { t with sending := none } else none

end CallbackTask

/-- The server with the callback tasks of its connections. -/
structure ServerTasks where
  server : Server
  tasks : List CallbackTask

inductive TaskEvent
  | server (e : ServerEvent)
  | takePacket (conn : Nat)
  | requeue (conn i : Nat)
  | takeBroadcast (conn : Nat)
  | onSendDone (conn : Nat)
  | closed (conn : Nat)
  deriving DecidableEq, Repr

/-- An `on_auth` was accepted on connection `c`. -/
def Server.authed (s : Server) (c : Nat) : Bool := s.conns[c]?.any (·.isAuthOk)

namespace ServerTasks

def new : ServerTasks := ⟨.new, []⟩

/-- What a step of the loop hands to the callback task. -/
def handed (decode : DecodeAuth) (conf : HealthyConfig) (s : ServerTasks) (c : Nat) (e : ConnEvent) :
    List (Packet × Bool) :=
  match s.server.conns[c]? with
  | some l => ((l.step decode conf e).elim [] fun out => out.2.filterMap ConnEffect.callback?).map
      fun packet => (packet, l.isAuthOk)
  | none => []

/-- The accepted Auth request is sent with `send`, which waits for a free place. -/
def canHand (size : Nat) (s : ServerTasks) : ServerEvent → Bool
  | .conn c .authForwarded => s.tasks[c]?.all fun t => t.exited || decide (t.recvedPacket.length < size)
  | _ => true

def afterServer (decode : DecodeAuth) (conf : HealthyConfig) (size capacity : Nat) (s : ServerTasks) :
    ServerEvent → List CallbackTask
  | .accept _ _ => s.tasks ++ [.new]
  | .conn c e => s.tasks.modify c fun t => (s.handed decode conf c e).foldl (CallbackTask.trySend size) t
  | .broadcast packet =>
    s.server.recipients.foldl (fun tasks c => tasks.modify c (CallbackTask.deliver capacity packet)) s.tasks
  | _ => s.tasks

/-- All senders of one of the task's channels are gone: those of `recved_packet_tx`
are the loop and the spawned sends, those of the broadcast channel the loop, a
queued `New` and the entries of `clients`. -/
def canClose (s : ServerTasks) (c : Nat) (t : CallbackTask) : Bool :=
  s.server.conns[c]?.any (·.pc == .done) && t.polls &&
    (t.recvedPacket.isEmpty && t.requeued.isEmpty ||
      t.broadcastRx.isEmpty && !s.server.recipients.contains c &&
        s.server.signals.all fun x => match x with
          | .new _ d => d != c
          | .exit _ _ => true)

def modifyTask (s : ServerTasks) (c : Nat) (f : CallbackTask → Option CallbackTask) : Option ServerTasks :=
  match s.tasks[c]? with
  | none => none
  | some t => (f t).map fun t' => { s with tasks := s.tasks.set c t' }

/-- One step of the connection loops, the connection management or a callback
task; `size` is `process_chan_size`, and `capacity` that of the broadcast channels,
`size` rounded up to a power of two. -/
def step (decode : DecodeAuth) (conf : HealthyConfig) (size capacity : Nat) (s : ServerTasks) :
    TaskEvent → Option ServerTasks
  | .server e =>
    if s.canHand size e then
      (s.server.step decode conf e).map fun server => ⟨server, s.afterServer decode conf size capacity e⟩
    else none
  | .takePacket c => s.modifyTask c (CallbackTask.takePacket decode)
  | .requeue c i => s.modifyTask c fun t => t.requeue size i
  | .takeBroadcast c => s.modifyTask c (CallbackTask.takeBroadcast (s.server.authed c))
  | .onSendDone c => s.modifyTask c CallbackTask.onSendDone
  | .closed c => s.modifyTask c fun t => if s.canClose c t then some { t with exited := true } else none

end ServerTasks

end QuoteLink

import QuoteLink.ServerCallbacks
import QuoteLink.ServerClients

namespace QuoteLink

theorem Packet.isControl_of_ne {p : Packet}
    (h : ∀ r, p = .request r → r.command ≠ .heartbeat ∧ r.command ≠ .auth) : p.isControl = false := by
  cases p with
  | request r => simp [isControl, h r rfl]
  | response r => rfl
  | push p => rfl

namespace ConnLoop

variable {decode : DecodeAuth} {conf : HealthyConfig} {l : ConnLoop} {e : ConnEvent}
  {out : ConnLoop × List ConnEffect}

/-- The awaits behind an accepted Auth request are those of an authenticated loop. -/
def Accepted (l : ConnLoop) : Prop :=
  (∀ r, l.pc = .sendNew r → l.isAuthOk = true) ∧ ∀ r, l.pc = .forwardAuth r → l.isAuthOk = true

theorem accepted_of_pc (hsend : ∀ r, l.pc ≠ .sendNew r) (hforward : ∀ r, l.pc ≠ .forwardAuth r) :
    l.Accepted :=
  ⟨fun r h => absurd h (hsend r), fun r h => absurd h (hforward r)⟩

theorem leave_accepted (l : ConnLoop) : l.leave.1.Accepted := by
  unfold leave
  split
  · exact accepted_of_pc (by simp) (by simp)
  · exact accepted_of_pc (by simp) (by simp)

theorem step_accepted (hl : l.Accepted) (h : l.step decode conf e = some out) :
    out.1.Accepted ∧ (l.isAuthOk = true → out.1.isAuthOk = true) := by
  cases step_cases h with
  | tick now hpc _ => exact ⟨hl, id⟩
  | tickLeave now hpc _ => exact ⟨leave_accepted _, by simp⟩
  | exitSignal hpc => exact ⟨leave_accepted _, by simp⟩
  | recvClosed hpc => exact ⟨leave_accepted _, by simp⟩
  | authInvalid r now hpc _ _ => exact ⟨leave_accepted _, by simp⟩
  | packet p now hpc _ => exact ⟨hl, id⟩
  | authOk r hpc => exact ⟨⟨fun _ _ => rfl, fun _ _ => rfl⟩, fun _ => rfl⟩
  | newSent r hpc =>
    have hok := hl.1 r hpc
    exact ⟨⟨fun _ _ => hok, fun _ _ => hok⟩, id⟩
  | _ => exact ⟨accepted_of_pc (by simp) (by simp), id⟩

/-- The effects that a peer may have before it is authenticated: calls of
`on_auth`, heartbeat replies, and the `Exit` once the connection has ended. -/
def beforeAuth : ConnEffect → Bool
  | .onAuth _ _ => true
  | .reply _ => true
  | .signalExit _ => true
  | _ => false

/-- A step of a loop that is not authenticated has no other effects, unless it
takes a packet that is neither a heartbeat nor an Auth request. -/
theorem beforeAuth_iff (hl : l.Accepted) (hok : l.isAuthOk = false)
    (h : l.step decode conf e = some out) :
    (∀ effect ∈ out.2, beforeAuth effect = true) ↔
      ∀ packet now, e = .recv packet now → packet.isControl = true := by
  have hleave : ∀ m : ConnLoop, m.isAuthOk = false → m.leave.2 = [] := by
    intro m hm
    simp [leave, hm]
  cases step_cases h with
  | tickLeave now hpc _ => simp [hleave l hok]
  | exitSignal hpc => simp [hleave l hok]
  | recvClosed hpc => simp [hleave l hok]
  | authInvalid r now hpc hr _ =>
    rw [hleave { l with lastPingAt := now } hok]
    simp [Packet.isControl, hr]
  | heartbeat r now hpc hr => simp [Packet.isControl, hr]
  | auth r now hpc hr auth _ => simp [Packet.isControl, hr, beforeAuth]
  | packet p now hpc hp =>
    have hdata := Packet.isControl_of_ne hp
    simp [beforeAuth, hdata]
  | newSent r hpc => exact absurd (hl.1 r hpc) (by simp [hok])
  | authForwarded r hpc => exact absurd (hl.2 r hpc) (by simp [hok])
  | _ => simp [beforeAuth]

/-- A packet handed to the callback task is one just received, or the accepted
Auth request. -/
theorem callback_cases (h : l.step decode conf e = some out) {packet : Packet}
    (hp : packet ∈ out.2.filterMap ConnEffect.callback?) :
    (∃ now, e = .recv packet now ∧ packet.isControl = false) ∨ ∃ r, l.pc = .forwardAuth r := by
  have hleave : ∀ m : ConnLoop, m.leave.2.filterMap ConnEffect.callback? = [] := by
    intro m
    unfold leave
    split <;> rfl
  cases step_cases h with
  | tickLeave now hpc _ => simp [hleave] at hp
  | exitSignal hpc => simp [hleave] at hp
  | recvClosed hpc => simp [hleave] at hp
  | authInvalid r now hpc hr _ => simp [hleave] at hp
  | packet p now hpc hdata =>
    obtain rfl : packet = p := List.mem_singleton.mp hp
    exact Or.inl ⟨now, rfl, Packet.isControl_of_ne hdata⟩
  | authForwarded r hpc => exact Or.inr ⟨r, hpc⟩
  | _ => simp [ConnEffect.callback?] at hp

end ConnLoop

namespace Server

variable {decode : DecodeAuth} {conf : HealthyConfig} {s s' : Server}

/-- Whoever is registered, or about to be, has been authenticated. -/
structure Admitted (s : Server) : Prop where
  loops : ∀ l ∈ s.conns, l.Accepted
  clients : ∀ k c, s.clients.lookup k = some c → s.authed c = true
  signals : ∀ k c, .new k c ∈ s.signals → s.authed c = true

theorem new_admitted : new.Admitted where
  loops := fun _ h => absurd h List.not_mem_nil
  clients := by
    intro k c h
    rw [show new.clients = ∅ from rfl, AList.lookup_empty] at h
    cases h
  signals := fun _ _ h => absurd h List.not_mem_nil

theorem authed_iff {c : Nat} : s.authed c = true ↔ ∃ l, s.conns[c]? = some l ∧ l.isAuthOk = true := by
  simp [authed, Option.any_eq_true]

/-- A step of the connection management leaves the loops as they are. -/
theorem Admitted.of_conns (h : s.Admitted) (hconns : s'.conns = s.conns)
    (hclients : ∀ k c, s'.clients.lookup k = some c → s.clients.lookup k = some c ∨ s.authed c = true)
    (hsignals : ∀ x ∈ s'.signals, x ∈ s.signals) :
    s'.Admitted ∧ ∀ c, s.authed c = true → s'.authed c = true := by
  have hsame : ∀ c, s'.authed c = s.authed c := by
    intro c
    rw [authed, hconns, authed]
  refine ⟨⟨?_, ?_, ?_⟩, ?_⟩
  · rw [hconns]
    exact h.loops
  · intro k c hk
    rw [hsame]
    rcases hclients k c hk with hold | hauthed
    · exact h.clients k c hold
    · exact hauthed
  · intro k c hk
    rw [hsame]
    exact h.signals k c (hsignals _ hk)
  · intro c hc
    rw [hsame]
    exact hc

theorem stepConn_admitted {c : Nat} {e : ConnEvent} {l : ConnLoop} (h : s.Admitted)
    (hl : s.conns[c]? = some l) (hs : s.stepConn decode conf c e l = some s') :
    s'.Admitted ∧ ∀ d, s.authed d = true → s'.authed d = true := by
  obtain ⟨out, hout, rfl⟩ := Option.map_eq_some_iff.mp hs
  obtain ⟨haccepted, hkeeps⟩ := ConnLoop.step_accepted (h.loops l (List.mem_of_getElem? hl)) hout
  have hlt : c < s.conns.length := (List.getElem?_eq_some_iff.mp hl).1
  have hself : (s.conns.set c out.1)[c]? = some out.1 := List.getElem?_set_self hlt
  have hkept : ∀ d, s.authed d = true →
      ∃ m, (s.conns.set c out.1)[d]? = some m ∧ m.isAuthOk = true := by
    intro d hd
    obtain ⟨m, hm, hok⟩ := authed_iff.mp hd
    by_cases hcd : c = d
    · subst hcd
      cases hl.symm.trans hm
      exact ⟨out.1, hself, hkeeps hok⟩
    · exact ⟨m, (List.getElem?_set_ne hcd).trans hm, hok⟩
  refine ⟨⟨?_, ?_, ?_⟩, fun d hd => authed_iff.mpr (hkept d hd)⟩
  · intro m hm
    rcases List.mem_or_eq_of_mem_set hm with hm | rfl
    · exact h.loops m hm
    · exact haccepted
  · intro k d hk
    exact authed_iff.mpr (hkept d (h.clients k d hk))
  · intro k d hk
    refine authed_iff.mpr ?_
    rcases List.mem_append.mp hk with hk | hk
    · exact hkept d (h.signals k d hk)
    · obtain ⟨_, _, hsig⟩ := ConnLoop.step_signals c hout
      generalize hqueue : out.2.filterMap (ConnEffect.signal? c) = queue at hsig hk
      cases hsig with
      | registers r hold _ hauth _ =>
        cases List.mem_singleton.mp hk
        refine ⟨out.1, hself, hauth.trans ?_⟩
        exact (h.loops l (List.mem_of_getElem? hl)).1 r hold
      | ends _ _ _ => cases List.mem_singleton.mp hk
      | _ => cases hk

theorem step_admitted {e : ServerEvent} (h : s.Admitted) (hs : step decode conf s e = some s') :
    s'.Admitted ∧ ∀ c, s.authed c = true → s'.authed c = true := by
  cases step_cases hs with
  | accept peerAddr now hcan =>
    have hkept : ∀ c, s.authed c = true →
        ∃ l, (s.conns ++ [ConnLoop.new peerAddr now])[c]? = some l ∧ l.isAuthOk = true := by
      intro c hc
      obtain ⟨l, hl, hok⟩ := authed_iff.mp hc
      have hlt : c < s.conns.length := (List.getElem?_eq_some_iff.mp hl).1
      exact ⟨l, (List.getElem?_append_left hlt).trans hl, hok⟩
    refine ⟨⟨?_, ?_, ?_⟩, fun c hc => authed_iff.mpr (hkept c hc)⟩
    · intro l hl
      rcases List.mem_append.mp hl with hl | hl
      · exact h.loops l hl
      · rw [List.mem_singleton.mp hl]
        exact ConnLoop.accepted_of_pc (by simp [ConnLoop.new]) (by simp [ConnLoop.new])
    · intro k c hk
      exact authed_iff.mpr (hkept c (h.clients k c hk))
    · intro k c hk
      exact authed_iff.mpr (hkept c (h.signals k c hk))
  | transportClosed c hc => exact h.of_conns rfl (fun _ _ => Or.inl) fun _ => id
  | conn c e l hl he hconn => exact stepConn_admitted h hl hconn
  | takeSignal x rest hup hx =>
    have hrest : ∀ y ∈ rest, y ∈ s.signals := by
      intro y hy
      rw [hx]
      exact List.mem_cons_of_mem _ hy
    cases x with
    | new k c =>
      have hauthed : s.authed c = true := h.signals k c (by rw [hx]; exact List.mem_cons_self)
      refine h.of_conns rfl ?_ hrest
      intro k' d hd
      rcases lookup_insert_eq_some hd with ⟨_, rfl⟩ | hd
      · exact Or.inr hauthed
      · exact Or.inl hd
    | exit k c =>
      refine h.of_conns rfl ?_ hrest
      intro k' d hd
      exact Or.inl (lookup_erase_eq_some hd).2
  | closeClient k c hup hc =>
    refine h.of_conns rfl ?_ fun _ => id
    intro k' d hd
    exact Or.inl (lookup_erase_eq_some hd).2
  | closeUnknown k hup hnone => exact h.of_conns rfl (fun _ _ => Or.inl) fun _ => id
  | broadcast packet hup => exact h.of_conns rfl (fun _ _ => Or.inl) fun _ => id
  | shutdown => exact h.of_conns rfl (fun _ _ => Or.inl) fun _ => id

end Server

namespace CallbackTask

variable {P : Packet × Bool → Prop} {authed : Bool} {t t' : CallbackTask}

/-- What holds of all packets handed to the task holds of those it has called a
callback for; and broadcasts reach it on an authenticated connection only. -/
structure Kept (P : Packet × Bool → Prop) (authed : Bool) (t : CallbackTask) : Prop where
  recved : ∀ x ∈ t.recvedPacket, P x
  requeued : ∀ x ∈ t.requeued, P x
  calls : ∀ x ∈ t.calls, P x
  broadcast : t.broadcastRx ≠ [] → authed = true
  sends : ∀ x ∈ t.sends, x.2 = true

theorem new_kept : new.Kept P authed where
  recved := fun _ h => absurd h List.not_mem_nil
  requeued := fun _ h => absurd h List.not_mem_nil
  calls := fun _ h => absurd h List.not_mem_nil
  broadcast := fun h => absurd rfl h
  sends := fun _ h => absurd h List.not_mem_nil

theorem Kept.mono (h : t.Kept P authed) {later : Bool} (hle : authed = true → later = true) :
    t.Kept P later :=
  { h with broadcast := fun hne => hle (h.broadcast hne) }

theorem forall_mem_snoc {xs : List (Packet × Bool)} {x : Packet × Bool} (hxs : ∀ y ∈ xs, P y)
    (hx : P x) : ∀ y ∈ xs ++ [x], P y := by
  intro y hy
  rcases List.mem_append.mp hy with hy | hy
  · exact hxs y hy
  · rw [List.mem_singleton.mp hy]
    exact hx

theorem Kept.trySend (h : t.Kept P authed) (size : Nat) {x : Packet × Bool} (hx : P x) :
    (t.trySend size x).Kept P authed := by
  unfold CallbackTask.trySend
  split
  · exact h
  · split
    · exact { h with recved := forall_mem_snoc h.recved hx }
    · exact { h with requeued := forall_mem_snoc h.requeued hx }

theorem Kept.foldl_trySend (size : Nat) {xs : List (Packet × Bool)} (hxs : ∀ x ∈ xs, P x)
    (h : t.Kept P authed) : (xs.foldl (CallbackTask.trySend size) t).Kept P authed := by
  induction xs generalizing t with
  | nil => exact h
  | cons x xs ih =>
    have hx := hxs x List.mem_cons_self
    exact ih (fun y hy => hxs y (List.mem_cons_of_mem x hy)) (h.trySend size hx)

theorem Kept.requeue {size i : Nat} (h : t.Kept P authed) (hs : t.requeue size i = some t') :
    t'.Kept P authed := by
  unfold CallbackTask.requeue at hs
  split at hs
  next => cases hs
  next x hx =>
    have hmem : x ∈ t.requeued := List.mem_of_getElem? hx
    have hrest : ∀ y ∈ t.requeued.eraseIdx i, P y := fun y hy => h.requeued y (List.mem_of_mem_eraseIdx hy)
    split at hs
    next =>
      cases hs
      exact { h with requeued := hrest }
    next =>
      split at hs
      next =>
        cases hs
        exact { h with recved := forall_mem_snoc h.recved (h.requeued x hmem), requeued := hrest }
      next => cases hs

theorem Kept.takePacket {decode : DecodeAuth} (h : t.Kept P authed)
    (hs : t.takePacket decode = some t') : t'.Kept P authed := by
  have hhead : ∀ {x rest}, t.recvedPacket = x :: rest → P x ∧ ∀ y ∈ rest, P y := by
    intro x rest hx
    have hall := h.recved
    rw [hx] at hall
    exact List.forall_mem_cons.mp hall
  unfold CallbackTask.takePacket at hs
  split at hs
  next r ok rest _ hx =>
    obtain ⟨hfirst, hrest⟩ := hhead hx
    split at hs
    next =>
      split at hs
      · cases hs
        exact { h with recved := hrest }
      · cases hs
        exact { h with recved := hrest }
    next =>
      cases hs
      exact { h with recved := hrest, calls := forall_mem_snoc h.calls hfirst }
  next x rest _ _ hx =>
    obtain ⟨hfirst, hrest⟩ := hhead hx
    cases hs
    exact { h with recved := hrest, calls := forall_mem_snoc h.calls hfirst }
  next => cases hs

theorem Kept.deliver (h : t.Kept P true) (size : Nat) (packet : Packet) :
    (t.deliver size packet).Kept P true := by
  unfold CallbackTask.deliver
  split
  · exact h
  · exact { h with broadcast := fun _ => rfl }

theorem Kept.takeBroadcast (h : t.Kept P authed) (hs : t.takeBroadcast authed = some t') :
    t'.Kept P authed := by
  unfold CallbackTask.takeBroadcast at hs
  split at hs
  next packet rest _ hx =>
    cases hs
    have hauthed : authed = true := h.broadcast (by rw [hx]; simp)
    exact { h with broadcast := fun _ => hauthed, sends := forall_mem_snoc h.sends hauthed }
  next => cases hs

theorem Kept.onSendDone (h : t.Kept P authed) (hs : t.onSendDone = some t') : t'.Kept P authed := by
  simp only [CallbackTask.onSendDone, Option.ite_none_right_eq_some, Option.some.injEq] at hs
  obtain ⟨_, rfl⟩ := hs
  exact { h with }

end CallbackTask

namespace ServerTasks

variable {decode : DecodeAuth} {conf : HealthyConfig} {size capacity : Nat} {s s' : ServerTasks}
  {P : Packet × Bool → Prop}

structure Kept (P : Packet × Bool → Prop) (s : ServerTasks) : Prop where
  admitted : s.server.Admitted
  tasks : ∀ c (t : CallbackTask), s.tasks[c]? = some t → t.Kept P (s.server.authed c)

theorem new_kept : new.Kept P where
  admitted := Server.new_admitted
  tasks := by
    intro c t ht
    cases List.mem_of_getElem? ht

theorem modifyTask_kept {c : Nat} {f : CallbackTask → Option CallbackTask} (h : s.Kept P)
    (hf : ∀ t t', t.Kept P (s.server.authed c) → f t = some t' → t'.Kept P (s.server.authed c))
    (hs : s.modifyTask c f = some s') : s'.Kept P := by
  unfold modifyTask at hs
  split at hs
  next => cases hs
  next t ht =>
    obtain ⟨t', ht', rfl⟩ := Option.map_eq_some_iff.mp hs
    refine ⟨h.admitted, ?_⟩
    intro d u hu
    by_cases hcd : c = d
    · subst hcd
      have hlt : c < s.tasks.length := (List.getElem?_eq_some_iff.mp ht).1
      rw [List.getElem?_set_self hlt] at hu
      cases hu
      exact hf t t' (h.tasks c t ht) ht'
    · rw [List.getElem?_set_ne hcd] at hu
      exact h.tasks d u hu

theorem getElem?_modify_kept {tasks : List CallbackTask} {authed : Nat → Bool} {c : Nat}
    {f : CallbackTask → CallbackTask} (h : ∀ d (t : CallbackTask), tasks[d]? = some t → t.Kept P (authed d))
    (hf : ∀ t, t.Kept P (authed c) → (f t).Kept P (authed c)) :
    ∀ d (t : CallbackTask), (tasks.modify c f)[d]? = some t → t.Kept P (authed d) := by
  intro d t ht
  by_cases hcd : c = d
  · subst hcd
    rw [List.getElem?_modify_eq] at ht
    obtain ⟨u, hu, rfl⟩ := Option.map_eq_some_iff.mp ht
    exact hf u (h c u hu)
  · rw [List.getElem?_modify_ne _ _ hcd] at ht
    exact h d t ht

/-- A packet is put on the channels of authenticated connections. -/
theorem foldl_deliver_kept {authed : Nat → Bool} {packet : Packet} {recipients : List Nat}
    (hrecipients : ∀ c ∈ recipients, authed c = true) {tasks : List CallbackTask}
    (h : ∀ d (t : CallbackTask), tasks[d]? = some t → t.Kept P (authed d)) :
    ∀ d (t : CallbackTask),
      (recipients.foldl (fun tasks c => tasks.modify c (CallbackTask.deliver capacity packet)) tasks)[d]? = some t →
        t.Kept P (authed d) := by
  induction recipients generalizing tasks with
  | nil => exact h
  | cons c recipients ih =>
    have hc := hrecipients c List.mem_cons_self
    refine ih (fun d hd => hrecipients d (List.mem_cons_of_mem c hd)) (getElem?_modify_kept h ?_)
    intro t ht
    rw [hc] at ht ⊢
    exact ht.deliver capacity packet

theorem afterServer_kept {e : ServerEvent} (h : s.Kept P)
    (hhand : ∀ c ev, e = .conn c ev → ∀ x ∈ s.handed decode conf c ev, P x) :
    ∀ c (t : CallbackTask), (s.afterServer decode conf size capacity e)[c]? = some t →
      t.Kept P (s.server.authed c) := by
  cases e with
  | accept peerAddr now =>
    intro c t ht
    by_cases hc : c < s.tasks.length
    · exact h.tasks c t ((List.getElem?_append_left hc).symm.trans ht)
    · have hlast : [CallbackTask.new][c - s.tasks.length]? = some t :=
        (List.getElem?_append_right (Nat.not_lt.mp hc)).symm.trans ht
      rw [List.mem_singleton.mp (List.mem_of_getElem? hlast)]
      exact CallbackTask.new_kept
  | conn c e =>
    refine getElem?_modify_kept h.tasks ?_
    intro t ht
    exact ht.foldl_trySend size (hhand c e rfl)
  | broadcast packet =>
    refine foldl_deliver_kept ?_ h.tasks
    intro c hc
    obtain ⟨k, hk⟩ := Server.mem_recipients_iff.mp hc
    exact h.admitted.clients k c hk
  | _ => exact h.tasks

theorem step_kept {e : TaskEvent} (h : s.Kept P)
    (hhand : ∀ c ev, e = .server (.conn c ev) → ∀ x ∈ s.handed decode conf c ev, P x)
    (hs : step decode conf size capacity s e = some s') : s'.Kept P := by
  cases e with
  | server e =>
    simp only [step, Option.ite_none_right_eq_some] at hs
    obtain ⟨server, hserver, rfl⟩ := Option.map_eq_some_iff.mp hs.2
    obtain ⟨hadmitted, hmono⟩ := Server.step_admitted h.admitted hserver
    refine ⟨hadmitted, ?_⟩
    intro c t ht
    have hkept := afterServer_kept h (fun c ev hev => hhand c ev (by rw [hev])) c t ht
    exact hkept.mono (hmono c)
  | takePacket c => exact modifyTask_kept h (fun t t' ht hf => ht.takePacket hf) hs
  | requeue c i => exact modifyTask_kept h (fun t t' ht hf => ht.requeue hf) hs
  | takeBroadcast c => exact modifyTask_kept h (fun t t' ht hf => ht.takeBroadcast hf) hs
  | onSendDone c => exact modifyTask_kept h (fun t t' ht hf => ht.onSendDone hf) hs
  | closed c =>
    refine modifyTask_kept h ?_ hs
    intro t t' ht hf
    simp only [Option.ite_none_right_eq_some, Option.some.injEq] at hf
    obtain ⟨_, rfl⟩ := hf
    exact { ht with }

/-- A packet other than a heartbeat or an Auth request is received only on an
authenticated connection. -/
def ReceivesAfterAuth (s : ServerTasks) : TaskEvent → Prop
  | .server (.conn c (.recv packet _)) => s.server.authed c = true ∨ packet.isControl = true
  | _ => True

instance (s : ServerTasks) (e : TaskEvent) : Decidable (s.ReceivesAfterAuth e) := by
  unfold ReceivesAfterAuth
  split <;> infer_instance

/-- A step of a loop that is not authenticated calls `on_auth`, replies to a
heartbeat or ends, and does nothing else to the world. -/
def QuietBefore (decode : DecodeAuth) (conf : HealthyConfig) (s : ServerTasks) : TaskEvent → Prop
  | .server (.conn c e) => ∀ l out, s.server.conns[c]? = some l → l.isAuthOk = false →
      l.step decode conf e = some out → ∀ effect ∈ out.2, ConnLoop.beforeAuth effect = true
  | _ => True

/-- The callbacks were called for packets received after an accepted Auth only,
and `on_send` on authenticated connections only. -/
def Gate (s : ServerTasks) : Prop :=
  ∀ t ∈ s.tasks, (∀ x ∈ t.calls, x.2 = true) ∧ ∀ x ∈ t.sends, x.2 = true

theorem gate_of_kept (h : s.Kept fun x => x.2 = true) : s.Gate := by
  intro t ht
  obtain ⟨c, hc⟩ := List.mem_iff_getElem?.mp ht
  have hkept := h.tasks c t hc
  exact ⟨hkept.calls, hkept.sends⟩

theorem quietBefore_iff {e : TaskEvent} (h : s.server.Admitted)
    (hs : step decode conf size capacity s e = some s') :
    s.QuietBefore decode conf e ↔ s.ReceivesAfterAuth e := by
  cases e with
  | server e =>
    cases e with
    | conn c e =>
      simp only [step, Option.ite_none_right_eq_some] at hs
      obtain ⟨server, hserver, _⟩ := Option.map_eq_some_iff.mp hs.2
      cases Server.step_cases hserver with
      | conn c e l hl he hconn =>
        obtain ⟨out, hout, _⟩ := Option.map_eq_some_iff.mp hconn
        have hloop := h.loops l (List.mem_of_getElem? hl)
        have hauthed : s.server.authed c = l.isAuthOk := by rw [Server.authed, hl]; rfl
        constructor
        · intro hquiet
          cases e with
          | recv packet now =>
            by_cases hok : l.isAuthOk = true
            · exact Or.inl (hauthed.trans hok)
            · have hfalse : l.isAuthOk = false := by simpa using hok
              have hbefore := hquiet l out hl hfalse hout
              exact Or.inr ((ConnLoop.beforeAuth_iff hloop hfalse hout).mp hbefore packet now rfl)
          | _ => trivial
        · intro hreceives m out' hm hok hout'
          cases hl.symm.trans hm
          refine (ConnLoop.beforeAuth_iff hloop hok hout').mpr ?_
          rintro packet now rfl
          rcases hreceives with hauth | hcontrol
          · rw [hauthed, hok] at hauth
            cases hauth
          · exact hcontrol
    | _ => exact Iff.rfl
  | _ => exact Iff.rfl

/-- Under the condition all packets handed on are received after the Auth. -/
theorem handed_authed {c : Nat} {ev : ConnEvent} (h : s.server.Admitted)
    (hreceives : s.ReceivesAfterAuth (.server (.conn c ev))) :
    ∀ x ∈ s.handed decode conf c ev, x.2 = true := by
  intro x hx
  unfold handed at hx
  split at hx
  next l hl =>
    obtain ⟨packet, hpacket, rfl⟩ := List.mem_map.mp hx
    show l.isAuthOk = true
    cases hout : l.step decode conf ev with
    | none =>
      rw [hout] at hpacket
      cases hpacket
    | some out =>
      rw [hout] at hpacket
      rcases ConnLoop.callback_cases hout hpacket with ⟨now, rfl, hdata⟩ | ⟨r, hpc⟩
      · have hauth := hreceives.resolve_right (by simp [hdata])
        simpa [Server.authed, hl] using hauth
      · exact (h.loops l (List.mem_of_getElem? hl)).2 r hpc
  next => cases hx

/-- `on_send` is called on authenticated connections only; and the callbacks are
called for packets received after an accepted Auth only, with no effect of the
peer before it but `on_auth` and heartbeat replies, if and only if the peer
sends nothing but heartbeats and Auth requests until then. -/
theorem callbacks_gated_iff (decode : DecodeAuth) (conf : HealthyConfig) (size capacity : Nat)
    (events : List TaskEvent) (s : ServerTasks)
    (hrun : Machine.run (step decode conf size capacity) new events = some s) :
    (∀ t ∈ s.tasks, ∀ x ∈ t.sends, x.2 = true) ∧
      ((∀ past e u u', past ++ [e] <+: events → Machine.run (step decode conf size capacity) new past = some u →
        step decode conf size capacity u e = some u' → u'.Gate ∧ u.QuietBefore decode conf e) ↔
      Machine.Meets (step decode conf size capacity) ReceivesAfterAuth new events) := by
  have hany : ∀ (u : ServerTasks) e u', u.Kept (fun _ => True) → step decode conf size capacity u e = some u' →
      u'.Kept fun _ => True :=
    fun u e u' h hs => step_kept h (fun _ _ _ _ _ => trivial) hs
  have hkept : ∀ past u, Machine.run (step decode conf size capacity) new past = some u →
      u.Kept fun _ => True :=
    fun past u hu => Machine.run_invariant hany new_kept hu
  have hgated : ∀ (u : ServerTasks) e u', (u.Kept fun x => x.2 = true) → u.ReceivesAfterAuth e →
      step decode conf size capacity u e = some u' →
      (u'.Kept fun x => x.2 = true) ∧ u'.Gate ∧ u.QuietBefore decode conf e := by
    intro u e u' h hreceives hs
    have hnext : u'.Kept fun x => x.2 = true := by
      refine step_kept h ?_ hs
      rintro c ev rfl
      exact handed_authed h.admitted hreceives
    exact ⟨hnext, gate_of_kept hnext, (quietBefore_iff h.admitted hs).mpr hreceives⟩
  refine ⟨?_, ?_, ?_⟩
  · intro t ht
    obtain ⟨c, hc⟩ := List.mem_iff_getElem?.mp ht
    exact ((hkept events s hrun).tasks c t hc).sends
  · intro hall
    refine Machine.meets_iff.mpr ?_
    intro past e u hpast hu
    obtain ⟨u', hu'⟩ := Machine.run_prefix hrun hpast
    have hs := Machine.run_snoc hu hu'
    exact (quietBefore_iff (hkept past u hu).admitted hs).mp (hall past e u u' hpast hu hs).2
  · intro hmeets past e u u' hpast hu hs
    exact Machine.step_of_meets hgated new_kept hmeets hpast hu hs

/-- Auth, then a request, which reaches `on_request`. -/
def authFirstRun : List TaskEvent :=
  [.server (.accept "10.0.0.7:4001" 0), .server (.conn 0 (.recv (authLetter 1 97) 1)),
    .server (.conn 0 (.authResult true)), .server (.conn 0 .newSent), .server (.conn 0 .authForwarded),
    .server (.conn 0 (.recv (.request (newRequest .cmdSubDepth 2 [])) 2)), .takePacket 0, .takePacket 0]

theorem callbacks_gated_iff_auth_first :
    ∃ s, Machine.run (step decodeLetter ⟨30, 10, 0⟩ 4 4) new authFirstRun = some s ∧
      s.tasks.map (·.calls) = [[(.request (newRequest .cmdSubDepth 2 []), true)]] ∧
      (∀ t ∈ s.tasks, ∀ x ∈ t.sends, x.2 = true) ∧
      ∀ past e u u', past ++ [e] <+: authFirstRun →
        Machine.run (step decodeLetter ⟨30, 10, 0⟩ 4 4) new past = some u →
        step decodeLetter ⟨30, 10, 0⟩ 4 4 u e = some u' →
        u'.Gate ∧ u.QuietBefore decodeLetter ⟨30, 10, 0⟩ e := by
  have hout : (Machine.run (step decodeLetter ⟨30, 10, 0⟩ 4 4) new authFirstRun).map
      (fun s => s.tasks.map (·.calls)) = some [[(.request (newRequest .cmdSubDepth 2 []), true)]] := by
    decide +kernel
  obtain ⟨s, hrun, hcalls⟩ := Option.map_eq_some_iff.mp hout
  obtain ⟨hsends, hiff⟩ := callbacks_gated_iff decodeLetter ⟨30, 10, 0⟩ 4 4 authFirstRun s hrun
  exact ⟨s, hrun, hcalls, hsends, hiff.mpr (by decide +kernel)⟩

/-- A request on a connection that never authenticates reaches `on_request`. -/
theorem callbacks_gated_counterexample :
    ¬∀ (decode : DecodeAuth) (conf : HealthyConfig) (size capacity : Nat) (events : List TaskEvent)
      (s : ServerTasks), Machine.run (step decode conf size capacity) new events = some s →
      ∀ t ∈ s.tasks, ∀ x ∈ t.calls, x.2 = true := by
  intro h
  have hout : (Machine.run (step decodeLetter ⟨30, 10, 0⟩ 4 4) new
      [.server (.accept "10.0.0.7:4001" 0),
        .server (.conn 0 (.recv (.request (newRequest .cmdSubDepth 2 [])) 1)), .takePacket 0]).map
      (fun s => s.tasks.map (·.calls)) = some [[(.request (newRequest .cmdSubDepth 2 []), false)]] := by
    decide +kernel
  obtain ⟨s, hrun, hcalls⟩ := Option.map_eq_some_iff.mp hout
  obtain ⟨t, rest, htasks, ht, _⟩ := List.map_eq_cons_iff.mp hcalls
  have hgated := h decodeLetter ⟨30, 10, 0⟩ 4 4 _ s hrun t (by rw [htasks]; exact List.mem_cons_self)
    (.request (newRequest .cmdSubDepth 2 []), false) (by rw [ht]; exact List.mem_cons_self)
  cases hgated

end ServerTasks

end QuoteLink

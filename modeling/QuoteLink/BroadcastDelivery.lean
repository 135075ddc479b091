import QuoteLink.CallbackGate
import Mathlib.Data.List.Perm.Basic
import Mathlib.Logic.Function.Iterate

namespace QuoteLink

namespace CallbackTask

section Broadcast

variable {size : Nat} {t t' : CallbackTask} {xs : List Packet} {p : Packet}

/-- The broadcasts of a task, out of those put on its channel: `on_send` was called for
some of them in order, and the receiver still has the latest ones. -/
structure Fed (size : Nat) (t : CallbackTask) (xs : List Packet) : Prop where
  inOrder : (t.sends.map (·.1) ++ t.broadcastRx).Sublist xs
  latest : t.exited = false → t.broadcastRx <:+ xs
  bound : t.broadcastRx.length ≤ size

theorem new_fed (size : Nat) (xs : List Packet) : new.Fed size xs where
  inOrder := List.nil_sublist xs
  latest := fun _ => List.nil_suffix
  bound := Nat.zero_le size

theorem Fed.deliver (h : t.Fed size xs) (p : Packet) : (t.deliver size p).Fed size (xs ++ [p]) := by
  unfold CallbackTask.deliver
  by_cases hexit : t.exited = true
  · rw [if_pos hexit]
    refine ⟨h.inOrder.trans (List.sublist_append_left xs [p]), fun hlive => ?_, h.bound⟩
    rw [hlive] at hexit
    cases hexit
  · rw [if_neg hexit]
    refine ⟨?_, fun _ => ?_, ?_⟩
    · have hskip : ((t.broadcastRx ++ [p]).drop (t.broadcastRx.length + 1 - size)).Sublist
          (t.broadcastRx ++ [p]) := List.drop_sublist _ _
      have hall := h.inOrder.append (List.Sublist.refl [p])
      rw [List.append_assoc] at hall
      exact (hskip.append_left (t.sends.map (·.1))).trans hall
    · have hlatest := h.latest (Bool.eq_false_of_not_eq_true hexit)
      obtain ⟨front, hfront⟩ := hlatest
      refine (List.drop_suffix _ _).trans ⟨front, ?_⟩
      rw [← List.append_assoc, hfront]
    · show ((t.broadcastRx ++ [p]).drop (t.broadcastRx.length + 1 - size)).length ≤ size
      rw [List.length_drop, List.length_append, List.length_singleton]
      omega

theorem Fed.deliver_iterate (h : t.Fed size xs) (p : Packet) (n : Nat) :
    (((CallbackTask.deliver size p)^[n]) t).Fed size (xs ++ List.replicate n p) := by
  induction n with
  | zero =>
    rw [List.replicate_zero, List.append_nil]
    exact h
  | succ n ih =>
    have hnext := ih.deliver p
    rw [List.append_assoc, ← List.replicate_succ'] at hnext
    rw [Function.iterate_succ_apply']
    exact hnext

theorem Fed.takeBroadcast {authed : Bool} (h : t.Fed size xs) (hs : t.takeBroadcast authed = some t') :
    t'.Fed size xs := by
  unfold CallbackTask.takeBroadcast at hs
  split at hs
  next packet rest _ hrx =>
    cases hs
    have horder := h.inOrder
    have hlatest := h.latest
    have hbound := h.bound
    rw [hrx] at horder hlatest hbound
    refine ⟨?_, fun hlive => ?_, ?_⟩
    · show ((t.sends ++ [(packet, authed)]).map (·.1) ++ rest).Sublist xs
      rw [List.map_append, List.append_assoc]
      exact horder
    · exact (List.suffix_cons packet rest).trans (hlatest hlive)
    · rw [List.length_cons] at hbound
      show rest.length ≤ size
      omega
  next => cases hs

/-- A task that has the same broadcasts as before. -/
theorem Fed.of_same (h : t.Fed size xs) (hsends : t'.sends = t.sends) (hrx : t'.broadcastRx = t.broadcastRx)
    (hexit : t'.exited = false → t.exited = false) : t'.Fed size xs := by
  refine ⟨?_, fun hlive => ?_, ?_⟩
  · rw [hsends, hrx]
    exact h.inOrder
  · rw [hrx]
    exact h.latest (hexit hlive)
  · rw [hrx]
    exact h.bound

/-- `on_send` was called for every broadcast put on the channel, or will be. -/
def Complete (t : CallbackTask) (xs : List Packet) : Prop := t.sends.map (·.1) ++ t.broadcastRx = xs

theorem Complete.deliver_iterate (h : t.Complete xs) (hlive : t.exited = false) (p : Packet) (n : Nat)
    (hroom : t.broadcastRx.length + n ≤ size) :
    (((CallbackTask.deliver size p)^[n]) t).Complete (xs ++ List.replicate n p) := by
  have hgo : ((CallbackTask.deliver size p)^[n]) t =
      { t with broadcastRx := t.broadcastRx ++ List.replicate n p } := by
    clear h
    induction n with
    | zero => rw [List.replicate_zero, List.append_nil]; rfl
    | succ n ih =>
      have hdrop : t.broadcastRx.length + n + 1 - size = 0 := by omega
      rw [Function.iterate_succ_apply', ih (by omega), CallbackTask.deliver, if_neg (by simp [hlive])]
      simp only [List.length_append, List.length_replicate, hdrop, List.drop_zero, List.append_assoc,
        List.replicate_succ']
  rw [hgo, Complete, ← List.append_assoc, h]

theorem sends_deliver_iterate (t : CallbackTask) (p : Packet) (n : Nat) :
    (((CallbackTask.deliver size p)^[n]) t).sends = t.sends := by
  induction n generalizing t with
  | zero => rfl
  | succ n ih =>
    rw [Function.iterate_succ_apply, ih]
    unfold CallbackTask.deliver
    split <;> rfl

theorem length_deliver_iterate (hbound : t.broadcastRx.length ≤ size) (p : Packet) (n : Nat) :
    (((CallbackTask.deliver size p)^[n]) t).broadcastRx.length =
      if t.exited then t.broadcastRx.length else min (t.broadcastRx.length + n) size := by
  induction n generalizing t with
  | zero =>
    rw [Function.iterate_zero_apply]
    split
    · rfl
    · omega
  | succ n ih =>
    rw [Function.iterate_succ_apply]
    unfold CallbackTask.deliver at ih ⊢
    by_cases hexit : t.exited = true
    · rw [if_pos hexit, ih hbound, if_pos hexit, if_pos hexit]
    · have hlen : ((t.broadcastRx ++ [p]).drop (t.broadcastRx.length + 1 - size)).length =
          min (t.broadcastRx.length + 1) size := by
        rw [List.length_drop, List.length_append, List.length_singleton]
        omega
      rw [if_neg hexit, ih (by rw [hlen]; omega), if_neg hexit, if_neg hexit, hlen]
      omega

/-- Nothing is skipped only where there was a place for everything. -/
theorem Complete.room_of_deliver {n : Nat} (h : t.Complete xs) (hbound : t.broadcastRx.length ≤ size)
    (hn : 0 < n) (h' : (((CallbackTask.deliver size p)^[n]) t).Complete (xs ++ List.replicate n p)) :
    t.exited = false ∧ t.broadcastRx.length + n ≤ size := by
  have hlen := congrArg List.length h'
  have hold := congrArg List.length h
  rw [List.length_append, List.length_map, sends_deliver_iterate, length_deliver_iterate hbound,
    List.length_append, List.length_replicate] at hlen
  rw [List.length_append, List.length_map] at hold
  split at hlen
  next => omega
  next hexit => exact ⟨Bool.eq_false_of_not_eq_true hexit, by omega⟩

theorem Complete.takeBroadcast {authed : Bool} (h : t.Complete xs) (hs : t.takeBroadcast authed = some t') :
    t'.Complete xs := by
  unfold CallbackTask.takeBroadcast at hs
  split at hs
  next packet rest _ hrx =>
    cases hs
    show (t.sends ++ [(packet, authed)]).map (·.1) ++ rest = xs
    rw [List.map_append, List.append_assoc, ← h, hrx]
    rfl
  next => cases hs

end Broadcast

/-- The step leaves what is broadcast to the task as it is. -/
structure SameBroadcasts (t t' : CallbackTask) : Prop where
  sends : t'.sends = t.sends
  broadcastRx : t'.broadcastRx = t.broadcastRx
  exited : t'.exited = false → t.exited = false

section Same

variable {decode : DecodeAuth} {size i : Nat} {t t' : CallbackTask}

theorem SameBroadcasts.refl (t : CallbackTask) : t.SameBroadcasts t := ⟨rfl, rfl, id⟩

theorem trySend_broadcasts (size : Nat) (t : CallbackTask) (x : Packet × Bool) :
    t.SameBroadcasts (t.trySend size x) := by
  unfold trySend
  split
  · exact .refl t
  · split
    · exact ⟨rfl, rfl, id⟩
    · exact ⟨rfl, rfl, id⟩

theorem foldl_trySend_broadcasts (xs : List (Packet × Bool)) (t : CallbackTask) :
    t.SameBroadcasts (xs.foldl (trySend size) t) := by
  induction xs generalizing t with
  | nil => exact .refl t
  | cons x xs ih =>
    have hfirst := trySend_broadcasts size t x
    have hrest := ih (t.trySend size x)
    exact ⟨hrest.sends.trans hfirst.sends, hrest.broadcastRx.trans hfirst.broadcastRx,
      fun h => hfirst.exited (hrest.exited h)⟩

theorem requeue_broadcasts (hs : t.requeue size i = some t') : t.SameBroadcasts t' := by
  unfold requeue at hs
  split at hs
  next => cases hs
  next x _ =>
    split at hs
    next =>
      cases hs
      exact ⟨rfl, rfl, id⟩
    next =>
      split at hs
      next =>
        cases hs
        exact ⟨rfl, rfl, id⟩
      next => cases hs

theorem live_of_polls (h : t.polls = true) : t.exited = false := by
  simp only [polls, Bool.and_eq_true, Bool.not_eq_true'] at h
  exact h.1

theorem takePacket_broadcasts (hs : t.takePacket decode = some t') : t.SameBroadcasts t' := by
  unfold takePacket at hs
  split at hs
  next r ok rest hpolls _ =>
    split at hs
    next =>
      split at hs
      next =>
        cases hs
        exact ⟨rfl, rfl, fun _ => live_of_polls hpolls⟩
      next =>
        cases hs
        exact ⟨rfl, rfl, id⟩
    next =>
      cases hs
      exact ⟨rfl, rfl, id⟩
  next =>
    cases hs
    exact ⟨rfl, rfl, id⟩
  next => cases hs

theorem onSendDone_broadcasts (hs : t.onSendDone = some t') : t.SameBroadcasts t' := by
  simp only [onSendDone, Option.ite_none_right_eq_some, Option.some.injEq] at hs
  obtain ⟨_, rfl⟩ := hs
  exact ⟨rfl, rfl, id⟩

end Same

end CallbackTask

/-- The packets put on the broadcast channel of a connection. -/
def Server.addressed (s : Server) (c : Nat) : List Packet :=
  s.broadcasts.flatMap fun b => List.replicate (b.2.count c) b.1

namespace ServerTasks

variable {decode : DecodeAuth} {conf : HealthyConfig} {size capacity : Nat} {s s' : ServerTasks} {e : TaskEvent}

theorem getElem?_foldl_modify (f : CallbackTask → CallbackTask) (recipients : List Nat)
    (tasks : List CallbackTask) (c : Nat) :
    (recipients.foldl (fun tasks d => tasks.modify d f) tasks)[c]? =
      (tasks[c]?).map (f^[recipients.count c]) := by
  induction recipients generalizing tasks with
  | nil =>
    rw [List.foldl_nil, List.count_nil, Function.iterate_zero, Option.map_id]
    rfl
  | cons d recipients ih =>
    rw [List.foldl_cons, ih]
    by_cases heq : d = c
    · subst heq
      rw [List.getElem?_modify_eq, List.count_cons_self, Function.iterate_succ]
      exact Option.map_map ..
    · rw [List.getElem?_modify_ne f tasks heq, List.count_cons_of_ne heq]

theorem modifyTask_cases {d : Nat} {f : CallbackTask → Option CallbackTask} (hs : s.modifyTask d f = some s')
    {c : Nat} {t' : CallbackTask} (ht' : s'.tasks[c]? = some t') :
    s'.server = s.server ∧ (c ≠ d ∧ s.tasks[c]? = some t' ∨
      c = d ∧ ∃ t, s.tasks[c]? = some t ∧ f t = some t') := by
  unfold modifyTask at hs
  split at hs
  next => cases hs
  next t ht =>
    obtain ⟨u, hu, rfl⟩ := Option.map_eq_some_iff.mp hs
    refine ⟨rfl, ?_⟩
    by_cases heq : c = d
    · subst heq
      have hlt := (List.getElem?_eq_some_iff.mp ht).1
      have hsame : u = t' := Option.some.inj ((List.getElem?_set_self hlt).symm.trans ht')
      subst hsame
      exact Or.inr ⟨rfl, t, ht, hu⟩
    · have hne : d ≠ c := fun h => heq h.symm
      exact Or.inl ⟨heq, (List.getElem?_set_ne hne).symm.trans ht'⟩

/-- What a step does to the broadcasts of the task of connection `c`. -/
inductive BroadcastCase (capacity : Nat) (s s' : ServerTasks) (c : Nat) (t' : CallbackTask) : TaskEvent → Prop
  | accepted (e : TaskEvent) (hnew : t' = .new) (hnone : s.tasks[c]? = none)
    (hserver : s'.server.broadcasts = s.server.broadcasts) : BroadcastCase capacity s s' c t' e
  | same (e : TaskEvent) (t : CallbackTask) (ht : s.tasks[c]? = some t) (h : t.SameBroadcasts t')
    (hserver : s'.server.broadcasts = s.server.broadcasts) : BroadcastCase capacity s s' c t' e
  | delivered (p : Packet) (t : CallbackTask) (ht : s.tasks[c]? = some t)
    (h : t' = ((CallbackTask.deliver capacity p)^[s.server.recipients.count c]) t)
    (hserver : s'.server.broadcasts = s.server.broadcasts ++ [(p, s.server.recipients)]) :
    BroadcastCase capacity s s' c t' (.server (.broadcast p))
  | taken (e : TaskEvent) (t : CallbackTask) (authed : Bool) (ht : s.tasks[c]? = some t)
    (h : t.takeBroadcast authed = some t') (hserver : s'.server.broadcasts = s.server.broadcasts) :
    BroadcastCase capacity s s' c t' e

theorem broadcast_cases {c : Nat} {t' : CallbackTask} (hs : step decode conf size capacity s e = some s')
    (ht' : s'.tasks[c]? = some t') : BroadcastCase capacity s s' c t' e := by
  cases e with
  | server e =>
    simp only [step, Option.ite_none_right_eq_some] at hs
    obtain ⟨server, hserver, rfl⟩ := Option.map_eq_some_iff.mp hs.2
    cases Server.step_cases hserver with
    | accept peerAddr now _ =>
      have htask : (s.tasks ++ [CallbackTask.new])[c]? = some t' := ht'
      rcases getElem?_snoc_cases htask with hold | ⟨rfl, rfl⟩
      · exact .same _ t' hold (.refl t') rfl
      · exact .accepted _ rfl (List.getElem?_eq_none (Nat.le_refl _)) rfl
    | conn d ev l hl _ hconn =>
      obtain ⟨out, _, rfl⟩ := Option.map_eq_some_iff.mp hconn
      have htask : (s.tasks.modify d fun t =>
          (s.handed decode conf d ev).foldl (CallbackTask.trySend size) t)[c]? = some t' := ht'
      by_cases heq : d = c
      · subst heq
        rw [List.getElem?_modify_eq] at htask
        obtain ⟨t, ht, rfl⟩ := Option.map_eq_some_iff.mp htask
        exact .same _ t ht (CallbackTask.foldl_trySend_broadcasts _ t) rfl
      · rw [List.getElem?_modify_ne _ _ heq] at htask
        exact .same _ t' htask (.refl t') rfl
    | broadcast packet _ =>
      have hmodify := getElem?_foldl_modify (CallbackTask.deliver capacity packet) s.server.recipients s.tasks c
      have htask := hmodify.symm.trans ht'
      obtain ⟨t, ht, rfl⟩ := Option.map_eq_some_iff.mp htask
      exact .delivered packet t ht rfl rfl
    | takeSignal x rest _ _ => cases x <;> exact .same _ t' ht' (.refl t') rfl
    | _ => exact .same _ t' ht' (.refl t') rfl
  | takePacket d =>
    obtain ⟨hserver, ⟨_, ht⟩ | ⟨_, t, ht, hf⟩⟩ := modifyTask_cases hs ht'
    · exact .same _ t' ht (.refl t') (by rw [hserver])
    · exact .same _ t ht (CallbackTask.takePacket_broadcasts hf) (by rw [hserver])
  | requeue d i =>
    obtain ⟨hserver, ⟨_, ht⟩ | ⟨_, t, ht, hf⟩⟩ := modifyTask_cases hs ht'
    · exact .same _ t' ht (.refl t') (by rw [hserver])
    · exact .same _ t ht (CallbackTask.requeue_broadcasts hf) (by rw [hserver])
  | takeBroadcast d =>
    obtain ⟨hserver, ⟨_, ht⟩ | ⟨_, t, ht, hf⟩⟩ := modifyTask_cases hs ht'
    · exact .same _ t' ht (.refl t') (by rw [hserver])
    · exact .taken _ t _ ht hf (by rw [hserver])
  | onSendDone d =>
    obtain ⟨hserver, ⟨_, ht⟩ | ⟨_, t, ht, hf⟩⟩ := modifyTask_cases hs ht'
    · exact .same _ t' ht (.refl t') (by rw [hserver])
    · exact .same _ t ht (CallbackTask.onSendDone_broadcasts hf) (by rw [hserver])
  | closed d =>
    obtain ⟨hserver, ⟨_, ht⟩ | ⟨_, t, ht, hf⟩⟩ := modifyTask_cases hs ht'
    · exact .same _ t' ht (.refl t') (by rw [hserver])
    · simp only [Option.ite_none_right_eq_some, Option.some.injEq] at hf
      obtain ⟨_, rfl⟩ := hf
      exact .same _ t ht ⟨rfl, rfl, fun h => Bool.noConfusion h⟩ (by rw [hserver])

theorem addressed_of_same {a b : Server} (h : b.broadcasts = a.broadcasts) (c : Nat) :
    b.addressed c = a.addressed c := by
  rw [Server.addressed, h, Server.addressed]

theorem addressed_of_broadcast {a b : Server} {p : Packet}
    (h : b.broadcasts = a.broadcasts ++ [(p, a.recipients)]) (c : Nat) :
    b.addressed c = a.addressed c ++ List.replicate (a.recipients.count c) p := by
  rw [Server.addressed, h, List.flatMap_append, List.flatMap_singleton, Server.addressed]

/-- The callback tasks get what is put on their channels. -/
def Fed (capacity : Nat) (s : ServerTasks) : Prop :=
  ∀ c (t : CallbackTask), s.tasks[c]? = some t → t.Fed capacity (s.server.addressed c)

theorem step_fed (h : s.Fed capacity) (hs : step decode conf size capacity s e = some s') : s'.Fed capacity := by
  intro c t' ht'
  cases broadcast_cases hs ht' with
  | accepted _ hnew _ _ =>
    subst hnew
    exact CallbackTask.new_fed capacity _
  | same _ t ht hsame hserver =>
    rw [addressed_of_same hserver]
    exact (h c t ht).of_same hsame.sends hsame.broadcastRx hsame.exited
  | delivered p t ht hdeliver hserver =>
    rw [addressed_of_broadcast hserver, hdeliver]
    exact (h c t ht).deliver_iterate p _
  | taken _ t authed ht htake hserver =>
    rw [addressed_of_same hserver]
    exact (h c t ht).takeBroadcast htake

/-- Nothing was put on the channel of a task that does not exist yet. -/
structure Numbered (capacity : Nat) (s : ServerTasks) : Prop where
  fed : s.Fed capacity
  kept : s.Kept fun _ => True
  tasks : s.tasks.length = s.server.conns.length
  fresh : ∀ c, s.tasks.length ≤ c → s.server.addressed c = []

theorem new_numbered (capacity : Nat) : new.Numbered capacity where
  fed := fun c t ht => by cases ht
  kept := new_kept
  tasks := rfl
  fresh := fun _ _ => rfl

theorem length_foldl_modify (f : CallbackTask → CallbackTask) (recipients : List Nat) (tasks : List CallbackTask) :
    (recipients.foldl (fun tasks d => tasks.modify d f) tasks).length = tasks.length := by
  induction recipients generalizing tasks with
  | nil => rfl
  | cons d recipients ih => rw [List.foldl_cons, ih, List.length_modify]

theorem length_modifyTask {d : Nat} {f : CallbackTask → Option CallbackTask} (hs : s.modifyTask d f = some s') :
    s'.server = s.server ∧ s'.tasks.length = s.tasks.length := by
  unfold modifyTask at hs
  split at hs
  next => cases hs
  next t _ =>
    obtain ⟨u, _, rfl⟩ := Option.map_eq_some_iff.mp hs
    exact ⟨rfl, List.length_set⟩

/-- A connection is accepted with its task, and tasks are not taken away. -/
theorem step_length (hlen : s.tasks.length = s.server.conns.length)
    (hs : step decode conf size capacity s e = some s') :
    s'.tasks.length = s'.server.conns.length ∧ s.tasks.length ≤ s'.tasks.length := by
  have hsame : ∀ {d f}, s.modifyTask d f = some s' →
      s'.tasks.length = s'.server.conns.length ∧ s.tasks.length ≤ s'.tasks.length := by
    intro d f hd
    obtain ⟨hserver, htasks⟩ := length_modifyTask hd
    rw [hserver, htasks]
    exact ⟨hlen, Nat.le_refl _⟩
  cases e with
  | server e =>
    simp only [step, Option.ite_none_right_eq_some] at hs
    obtain ⟨server, hserver, rfl⟩ := Option.map_eq_some_iff.mp hs.2
    cases Server.step_cases hserver with
    | accept peerAddr now _ =>
      show (s.tasks ++ [CallbackTask.new]).length = (s.server.conns ++ [_]).length ∧
        s.tasks.length ≤ (s.tasks ++ [CallbackTask.new]).length
      rw [List.length_append, List.length_append, hlen]
      exact ⟨rfl, Nat.le_add_right _ _⟩
    | conn d ev l _ _ hconn =>
      obtain ⟨out, _, rfl⟩ := Option.map_eq_some_iff.mp hconn
      show (s.tasks.modify d _).length = (s.server.conns.set d out.1).length ∧
        s.tasks.length ≤ (s.tasks.modify d _).length
      rw [List.length_modify, List.length_set]
      exact ⟨hlen, Nat.le_refl _⟩
    | broadcast packet _ =>
      have htasks := length_foldl_modify (CallbackTask.deliver capacity packet) s.server.recipients s.tasks
      exact ⟨htasks.trans hlen, Nat.le_of_eq htasks.symm⟩
    | takeSignal x rest _ _ => cases x <;> exact ⟨hlen, Nat.le_refl _⟩
    | _ => exact ⟨hlen, Nat.le_refl _⟩
  | _ => exact hsame hs

theorem step_addressed (hs : step decode conf size capacity s e = some s') (c : Nat) (hc : c ∉ s.server.recipients) :
    s'.server.addressed c = s.server.addressed c := by
  have hsame : ∀ {d f}, s.modifyTask d f = some s' → s'.server.addressed c = s.server.addressed c := by
    intro d f hd
    rw [(length_modifyTask hd).1]
  cases e with
  | server e =>
    simp only [step, Option.ite_none_right_eq_some] at hs
    obtain ⟨server, hserver, rfl⟩ := Option.map_eq_some_iff.mp hs.2
    cases Server.step_cases hserver with
    | conn d ev l _ _ hconn =>
      obtain ⟨out, _, rfl⟩ := Option.map_eq_some_iff.mp hconn
      rfl
    | broadcast packet _ =>
      have hnone : s.server.recipients.count c = 0 := List.count_eq_zero.mpr hc
      rw [addressed_of_broadcast (a := s.server) rfl, hnone, List.replicate_zero, List.append_nil]
    | takeSignal x rest _ _ => cases x <;> rfl
    | _ => rfl
  | _ => exact hsame hs

theorem step_numbered (h : s.Numbered capacity) (hs : step decode conf size capacity s e = some s') :
    s'.Numbered capacity := by
  obtain ⟨htasks, hle⟩ := step_length h.tasks hs
  refine ⟨step_fed h.fed hs, step_kept h.kept (fun _ _ _ _ _ => trivial) hs, htasks, ?_⟩
  intro c hc
  have hold : s.tasks.length ≤ c := Nat.le_trans hle hc
  have hout : c ∉ s.server.recipients := by
    intro hmem
    obtain ⟨k, hk⟩ := Server.mem_recipients_iff.mp hmem
    obtain ⟨l, hl, _⟩ := Server.authed_iff.mp (h.kept.admitted.clients k c hk)
    have hlt := (List.getElem?_eq_some_iff.mp hl).1
    have htasks := h.tasks
    omega
  rw [step_addressed hs c hout]
  exact h.fresh c hold

/-- No broadcast finds a task that has ended or that cannot hold it beside those it
has not taken yet. -/
def NoLag (capacity : Nat) (s : ServerTasks) : TaskEvent → Prop
  | .server (.broadcast _) => ∀ c ∈ s.server.recipients, ∀ t ∈ s.tasks[c]?,
      t.exited = false ∧ t.broadcastRx.length + s.server.recipients.count c ≤ capacity
  | _ => True

instance (s : ServerTasks) (e : TaskEvent) : Decidable (s.NoLag capacity e) := by
  unfold NoLag
  split <;> infer_instance

/-- `on_send` was called for each packet put on the channel of a task, or the
packet is still there. -/
def Complete (s : ServerTasks) : Prop :=
  ∀ c (t : CallbackTask), s.tasks[c]? = some t → t.Complete (s.server.addressed c)

theorem step_complete_iff (h : s.Numbered capacity) (hc : s.Complete)
    (hs : step decode conf size capacity s e = some s') : s'.Complete ↔ s.NoLag capacity e := by
  constructor
  · intro hc'
    cases e with
    | server e =>
      cases e with
      | broadcast p =>
        intro c hmem t ht
        simp only [step, Option.ite_none_right_eq_some] at hs
        obtain ⟨server, hserver, rfl⟩ := Option.map_eq_some_iff.mp hs.2
        cases Server.step_cases hserver with
        | broadcast packet _ =>
          have htask := getElem?_foldl_modify (CallbackTask.deliver capacity p) s.server.recipients s.tasks c
          rw [ht, Option.map_some] at htask
          have hall := hc' c _ htask
          rw [addressed_of_broadcast (a := s.server) rfl] at hall
          exact (hc c t ht).room_of_deliver (h.fed c t ht).bound (List.count_pos_iff.mpr hmem) hall
      | _ => trivial
    | _ => trivial
  · intro hroom c t' ht'
    cases broadcast_cases hs ht' with
    | accepted _ hnew hnone hserver =>
      subst hnew
      rw [addressed_of_same hserver, h.fresh c (List.getElem?_eq_none_iff.mp hnone)]
      rfl
    | same _ t ht hsame hserver =>
      rw [addressed_of_same hserver, CallbackTask.Complete, hsame.sends, hsame.broadcastRx]
      exact hc c t ht
    | delivered p t ht hdeliver hserver =>
      rw [addressed_of_broadcast hserver, hdeliver]
      by_cases hmem : c ∈ s.server.recipients
      · obtain ⟨hlive, hle⟩ := hroom c hmem t ht
        exact (hc c t ht).deliver_iterate hlive p _ hle
      · rw [List.count_eq_zero.mpr hmem, List.replicate_zero, List.append_nil]
        exact hc c t ht
    | taken _ t authed ht htake hserver =>
      rw [addressed_of_same hserver]
      exact (hc c t ht).takeBroadcast htake

/-- `on_send` is called for a part of the packets put on the channel of a task and in
their order; what a live task has not taken yet are the latest of them. -/
theorem broadcasts_in_order (decode : DecodeAuth) (conf : HealthyConfig) (size capacity : Nat)
    (events : List TaskEvent) (s : ServerTasks)
    (hrun : Machine.run (step decode conf size capacity) new events = some s) (c : Nat)
    (t : CallbackTask) (ht : s.tasks[c]? = some t) :
    (t.sends.map (·.1) ++ t.broadcastRx).Sublist (s.server.addressed c) ∧
      (t.exited = false → t.broadcastRx <:+ s.server.addressed c) ∧ t.broadcastRx.length ≤ capacity := by
  have hfed : s.Fed capacity := (Machine.run_invariant (fun _ _ _ => step_numbered) (new_numbered capacity) hrun).fed
  have hc := hfed c t ht
  exact ⟨hc.inOrder, hc.latest, hc.bound⟩

/-- Two packets for an authenticated client, of which `on_send` has seen the first. -/
def broadcastRun : List TaskEvent :=
  [.server (.accept "10.0.0.7:4001" 0), .server (.conn 0 (.recv (authLetter 1 97) 1)),
    .server (.conn 0 (.authResult true)), .server (.conn 0 .newSent), .server .takeSignal,
    .server (.broadcast (.push ⟨0, .cmdSubAllType, .brokers, 0, []⟩)), .takeBroadcast 0,
    .server (.broadcast (.push ⟨0, .cmdSubAllType, .depths, 0, []⟩))]

/-- A third packet and a fourth one for a client that takes none of them. -/
def laggingRun : List TaskEvent :=
  broadcastRun ++ [.server (.broadcast (.push ⟨0, .cmdSubAllType, .trade, 0, []⟩)),
    .server (.broadcast (.push ⟨0, .cmdSubAllType, .kline, 0, []⟩))]

theorem broadcasts_in_order_lagging :
    ∃ s t, Machine.run (step decodeLetter ⟨30, 10, 0⟩ 2 2) new laggingRun = some s ∧ s.tasks[0]? = some t ∧
      (t.sends ++ t.broadcastRx.map (·, true)).length = 3 ∧ (s.server.addressed 0).length = 4 ∧
      (t.sends.map (·.1) ++ t.broadcastRx).Sublist (s.server.addressed 0) ∧
      (t.exited = false → t.broadcastRx <:+ s.server.addressed 0) ∧ t.broadcastRx.length ≤ 2 := by
  have hout : (Machine.run (step decodeLetter ⟨30, 10, 0⟩ 2 2) new laggingRun).any (fun s =>
      (s.tasks[0]?).any fun t => decide ((t.sends ++ t.broadcastRx.map (·, true)).length = 3 ∧
        (s.server.addressed 0).length = 4)) = true := by
    decide +kernel
  obtain ⟨s, hrun, hany⟩ := (Option.any_eq_true _ _).mp hout
  obtain ⟨t, ht, hlen⟩ := (Option.any_eq_true _ _).mp hany
  obtain ⟨hthree, hfour⟩ := of_decide_eq_true hlen
  exact ⟨s, t, hrun, ht, hthree, hfour,
    broadcasts_in_order decodeLetter ⟨30, 10, 0⟩ 2 2 laggingRun s hrun 0 t ht⟩

end ServerTasks

end QuoteLink

import QuoteLink.BroadcastDelivery
import Mathlib.Data.List.Perm.Basic

namespace QuoteLink

/-- The Auth request that the loop is about. -/
def ConnPc.authRequest? : ConnPc → Option Request
  | .onAuth r => some r
  | .sendNew r => some r
  | .forwardAuth r => some r
  | _ => none

namespace ConnLoop

variable {decode : DecodeAuth} {conf : HealthyConfig} {l : ConnLoop} {e : ConnEvent}
  {out : ConnLoop × List ConnEffect}

/-- The request behind the awaits of an Auth is one, and its body decodes. -/
def HoldsAuth (decode : DecodeAuth) (l : ConnLoop) : Prop :=
  ∀ r, l.pc.authRequest? = some r → r.command = .auth ∧ (decode r.body).isSome = true

theorem holdsAuth_of_none (h : l.pc.authRequest? = none) : l.HoldsAuth decode := by
  intro r hr
  rw [h] at hr
  cases hr

theorem leave_holdsAuth (l : ConnLoop) : l.leave.1.HoldsAuth decode := by
  refine holdsAuth_of_none ?_
  unfold leave
  split <;> rfl

theorem step_holdsAuth (hl : l.HoldsAuth decode) (h : l.step decode conf e = some out) :
    out.1.HoldsAuth decode := by
  cases step_cases h with
  | tick now hpc _ => exact hl
  | tickLeave now hpc _ => exact leave_holdsAuth l
  | exitSignal hpc => exact leave_holdsAuth l
  | recvClosed hpc => exact leave_holdsAuth l
  | authInvalid r now hpc _ _ => exact leave_holdsAuth _
  | packet p now hpc _ => exact hl
  | auth r now hpc hr auth hdecode =>
    intro q hq
    cases hq
    exact ⟨hr, by rw [hdecode]; rfl⟩
  | authOk r hpc =>
    intro q hq
    cases hq
    exact hl r (by rw [hpc]; rfl)
  | newSent r hpc =>
    intro q hq
    cases hq
    exact hl r (by rw [hpc]; rfl)
  | _ => exact holdsAuth_of_none rfl

/-- What a step of the loop hands to the callback task. -/
inductive HandedCase (decode : DecodeAuth) : ConnEvent → List Packet → Prop
  | quiet (e : ConnEvent) (h : ∀ p now, e = .recv p now → p.isControl = true) : HandedCase decode e []
  | data (p : Packet) (now : Nat) (h : p.isControl = false) : HandedCase decode (.recv p now) [p]
  | auth (r : Request) (hr : r.command = .auth) (hdecode : (decode r.body).isSome = true) :
    HandedCase decode .authForwarded [.request r]

theorem handed_cases (hl : l.HoldsAuth decode) (h : l.step decode conf e = some out) :
    HandedCase decode e (out.2.filterMap ConnEffect.callback?) := by
  have hleave : ∀ m : ConnLoop, m.leave.2.filterMap ConnEffect.callback? = [] := by
    intro m
    unfold leave
    split <;> rfl
  have hcontrol : ∀ r : Request, r.command = .heartbeat ∨ r.command = .auth →
      Packet.isControl (.request r) = true := by
    intro r hr
    rcases hr with hr | hr <;> simp [Packet.isControl, hr]
  cases step_cases h with
  | tickLeave now hpc _ =>
    rw [hleave]
    exact .quiet _ (fun p t he => by cases he)
  | exitSignal hpc =>
    rw [hleave]
    exact .quiet _ (fun p t he => by cases he)
  | recvClosed hpc =>
    rw [hleave]
    exact .quiet _ (fun p t he => by cases he)
  | heartbeat r now hpc hr => exact .quiet _ (fun p t he => by cases he; exact hcontrol r (Or.inl hr))
  | authInvalid r now hpc hr _ =>
    rw [hleave]
    exact .quiet _ (fun p t he => by cases he; exact hcontrol r (Or.inr hr))
  | auth r now hpc hr _ _ => exact .quiet _ (fun p t he => by cases he; exact hcontrol r (Or.inr hr))
  | packet p now hpc hdata => exact .data p now (Packet.isControl_of_ne hdata)
  | authForwarded r hpc =>
    obtain ⟨hr, hdecode⟩ := hl r (by rw [hpc]; rfl)
    exact .auth r hr hdecode
  | _ => exact .quiet _ (fun p t he => by cases he)

end ConnLoop

namespace CallbackTask

variable {decode : DecodeAuth} {size : Nat} {t t' : CallbackTask} {x : Packet × Bool} {xs : List Packet}
  {closed requeues : Prop}

/-- The packets for the callbacks that the task has not taken yet. -/
def waiting (t : CallbackTask) : List Packet :=
  ((t.recvedPacket ++ t.requeued).map (·.1)).filter fun p => !p.isControl

/-- The task against the packets received for its callbacks, and against whether its
channels closed and whether a spawned send found a place. -/
structure Tracked (decode : DecodeAuth) (t : CallbackTask) (xs : List Packet) (closed requeues : Prop) : Prop where
  decodes : ∀ x ∈ t.recvedPacket, x.1.isControl = true →
    ∃ r, x.1 = .request r ∧ r.command = .auth ∧ (decode r.body).isSome = true
  requeued : ∀ x ∈ t.requeued, x.1.isControl = false
  atMost : (t.calls.map (·.1) ++ t.waiting).Subperm xs
  live : t.exited = false → (t.calls.map (·.1) ++ t.waiting).Perm xs
  ordered : ¬requeues → t.requeued = [] → t.exited = false → t.calls.map (·.1) ++ t.waiting = xs
  ended : t.exited = true ↔ closed

theorem new_tracked (hclosed : ¬closed) : new.Tracked decode [] closed requeues where
  decodes := fun x hx => by cases hx
  requeued := fun x hx => by cases hx
  atMost := List.nil_subperm
  live := fun _ => .nil
  ordered := fun _ _ _ => rfl
  ended := ⟨fun h => Bool.noConfusion h, fun h => absurd h hclosed⟩

theorem Tracked.mono {closed' requeues' : Prop} (h : t.Tracked decode xs closed requeues)
    (hclosed : closed ↔ closed') (hrequeues : requeues → requeues') : t.Tracked decode xs closed' requeues' :=
  { h with
    ordered := fun hno => h.ordered (mt hrequeues hno)
    ended := h.ended.trans hclosed }

theorem filter_snoc (hx : x.1.isControl = false) (ys : List (Packet × Bool)) :
    ((ys ++ [x]).map (·.1)).filter (fun p => !p.isControl) =
      (ys.map (·.1)).filter (fun p => !p.isControl) ++ [x.1] := by
  rw [List.map_append, List.filter_append, List.map_singleton,
    List.filter_cons_of_pos (by rw [hx]; rfl), List.filter_nil]

/-- One packet more waits, wherever it is put. -/
theorem Tracked.perm_snoc (h : t.Tracked decode xs closed requeues) (hlive : t.exited = false)
    (hx : x.1.isControl = false) (hcalls : t'.calls = t.calls)
    (hperm : (t'.recvedPacket ++ t'.requeued).Perm (t.recvedPacket ++ t.requeued ++ [x])) :
    (t'.calls.map (·.1) ++ t'.waiting).Perm (xs ++ [x.1]) := by
  have hwait : t'.waiting.Perm (t.waiting ++ [x.1]) := by
    have hmap := (hperm.map (·.1)).filter (fun p => !p.isControl)
    rw [filter_snoc hx] at hmap
    exact hmap
  have hall := hwait.append_left (t.calls.map (·.1))
  rw [← List.append_assoc] at hall
  rw [hcalls]
  exact hall.trans ((h.live hlive).append_right [x.1])

/-- A packet for the callbacks waits at the end of the channel, or behind it when
the channel is full. -/
theorem Tracked.trySend_data (h : t.Tracked decode xs closed requeues) (hx : x.1.isControl = false) :
    (t.trySend size x).Tracked decode (xs ++ [x.1]) closed requeues := by
  unfold trySend
  by_cases hexit : t.exited = true
  · rw [if_pos hexit]
    refine { h with atMost := ?_, live := ?_, ordered := ?_ }
    · exact h.atMost.trans (List.sublist_append_left xs [x.1]).subperm
    · exact fun hlive => absurd hexit (by simp [hlive])
    · exact fun _ _ hlive => absurd hexit (by simp [hlive])
  · have hlive : t.exited = false := Bool.eq_false_of_not_eq_true hexit
    rw [if_neg hexit]
    by_cases hroom : t.recvedPacket.length < size
    · rw [if_pos hroom]
      have hperm : (({ t with recvedPacket := t.recvedPacket ++ [x] } : CallbackTask).calls.map (·.1) ++
          ({ t with recvedPacket := t.recvedPacket ++ [x] } : CallbackTask).waiting).Perm (xs ++ [x.1]) := by
        refine h.perm_snoc hlive hx rfl ?_
        show ((t.recvedPacket ++ [x]) ++ t.requeued).Perm _
        rw [List.append_assoc, List.append_assoc]
        exact List.perm_append_comm.append_left t.recvedPacket
      refine ⟨?_, h.requeued, hperm.subperm, fun _ => hperm, fun hno hnone hl => ?_, h.ended⟩
      · intro y hy hcontrol
        rcases List.mem_append.mp hy with hy | hy
        · exact h.decodes y hy hcontrol
        · rw [List.mem_singleton.mp hy, hx] at hcontrol
          cases hcontrol
      · have hold := h.ordered hno hnone hl
        have hempty : t.requeued = [] := hnone
        rw [waiting, hempty, List.append_nil] at hold
        rw [waiting, hnone, List.append_nil, filter_snoc hx, ← List.append_assoc, hold]
    · rw [if_neg hroom]
      have hperm : (({ t with requeued := t.requeued ++ [x] } : CallbackTask).calls.map (·.1) ++
          ({ t with requeued := t.requeued ++ [x] } : CallbackTask).waiting).Perm (xs ++ [x.1]) := by
        refine h.perm_snoc hlive hx rfl ?_
        show (t.recvedPacket ++ (t.requeued ++ [x])).Perm _
        rw [List.append_assoc]
      refine ⟨h.decodes, ?_, hperm.subperm, fun _ => hperm, fun _ hnone _ => ?_, h.ended⟩
      · intro y hy
        rcases List.mem_append.mp hy with hy | hy
        · exact h.requeued y hy
        · rw [List.mem_singleton.mp hy]
          exact hx
      · exact absurd hnone (List.append_ne_nil_of_right_ne_nil _ (List.cons_ne_nil _ _))

/-- An Auth request is put on the channel only, and waits for no callback. -/
theorem Tracked.trySend_auth {r : Request} {authed : Bool} (h : t.Tracked decode xs closed requeues)
    (hr : r.command = .auth) (hdecode : (decode r.body).isSome = true)
    (hroom : t.exited = true ∨ t.recvedPacket.length < size) :
    (t.trySend size (.request r, authed)).Tracked decode xs closed requeues := by
  unfold trySend
  by_cases hexit : t.exited = true
  · rw [if_pos hexit]
    exact h
  · rw [if_neg hexit, if_pos (hroom.resolve_left hexit)]
    have hcontrol : Packet.isControl (.request r) = true := by simp [Packet.isControl, hr]
    have hwait : ({ t with recvedPacket := t.recvedPacket ++ [(.request r, authed)] } : CallbackTask).waiting =
        t.waiting := by
      simp only [waiting, List.map_append, List.filter_append, List.map_cons, List.map_nil,
        List.filter_cons, hcontrol, Bool.not_true, Bool.false_eq_true, if_false, List.filter_nil, List.append_nil]
    refine ⟨?_, h.requeued, ?_, ?_, ?_, h.ended⟩
    · intro y hy hycontrol
      rcases List.mem_append.mp hy with hy | hy
      · exact h.decodes y hy hycontrol
      · rw [List.mem_singleton.mp hy]
        exact ⟨r, rfl, hr, hdecode⟩
    · rw [hwait]
      exact h.atMost
    · rw [hwait]
      exact h.live
    · rw [hwait]
      exact h.ordered

/-- A spawned send that finds a place does so behind what was sent meanwhile. -/
theorem Tracked.requeue {i : Nat} (h : t.Tracked decode xs closed requeues) (hs : t.requeue size i = some t') :
    t'.Tracked decode xs closed True := by
  unfold CallbackTask.requeue at hs
  split at hs
  next => cases hs
  next y hy =>
    have hmem : y ∈ t.requeued := List.mem_of_getElem? hy
    have hrest : ∀ z ∈ t.requeued.eraseIdx i, z.1.isControl = false :=
      fun z hz => h.requeued z (List.mem_of_mem_eraseIdx hz)
    split at hs
    next hexit =>
      cases hs
      have hsub : (t.recvedPacket ++ t.requeued.eraseIdx i).Sublist (t.recvedPacket ++ t.requeued) :=
        (List.eraseIdx_sublist t.requeued i).append_left t.recvedPacket
      have hwait := ((hsub.map (·.1)).filter fun p => !p.isControl).append_left (t.calls.map (·.1))
      refine ⟨h.decodes, hrest, hwait.subperm.trans h.atMost, ?_, fun hno => absurd trivial hno, h.ended⟩
      exact fun hlive => absurd hexit (by simp [show t.exited = false from hlive])
    next =>
      split at hs
      next =>
        cases hs
        obtain ⟨hlt, rfl⟩ := List.getElem?_eq_some_iff.mp hy
        have hperm : ((t.recvedPacket ++ [t.requeued[i]]) ++ t.requeued.eraseIdx i).Perm
            (t.recvedPacket ++ t.requeued) := by
          rw [List.append_assoc]
          exact (List.getElem_cons_eraseIdx_perm hlt).append_left t.recvedPacket
        have hwait := ((hperm.map (·.1)).filter fun p => !p.isControl).append_left (t.calls.map (·.1))
        refine ⟨?_, hrest, hwait.subperm.trans h.atMost, fun hlive => hwait.trans (h.live hlive),
          fun hno => absurd trivial hno, h.ended⟩
        intro z hz hcontrol
        rcases List.mem_append.mp hz with hz | hz
        · exact h.decodes z hz hcontrol
        · rw [List.mem_singleton.mp hz, h.requeued _ hmem] at hcontrol
          cases hcontrol
      next => cases hs

/-- The first packet of the channel is handed to its callback, or it is an Auth
request, whose body the loop has decoded before. -/
theorem Tracked.takePacket (h : t.Tracked decode xs closed requeues) (hs : t.takePacket decode = some t') :
    t'.Tracked decode xs closed requeues := by
  have hdecodes : ∀ {y rest}, t.recvedPacket = y :: rest → ∀ z ∈ rest, z.1.isControl = true →
      ∃ r, z.1 = .request r ∧ r.command = .auth ∧ (decode r.body).isSome = true :=
    fun hy z hz => h.decodes z (by rw [hy]; exact List.mem_cons_of_mem _ hz)
  -- the data packet at the front moves from the waiting ones to the calls
  have hcall : ∀ {y rest}, t.recvedPacket = y :: rest → y.1.isControl = false →
      (t.calls ++ [y]).map (·.1) ++ ((rest ++ t.requeued).map (·.1)).filter (fun p => !p.isControl) =
        t.calls.map (·.1) ++ t.waiting := by
    intro y rest hy hdata
    rw [waiting, hy, List.cons_append, List.map_cons, List.filter_cons_of_pos (by rw [hdata]; rfl),
      List.map_append, List.map_singleton, List.append_assoc, List.singleton_append]
  have hdrop : ∀ {y rest}, t.recvedPacket = y :: rest → y.1.isControl = true →
      ((rest ++ t.requeued).map (·.1)).filter (fun p => !p.isControl) = t.waiting := by
    intro y rest hy hcontrol
    rw [waiting, hy, List.cons_append, List.map_cons, List.filter_cons_of_neg (by rw [hcontrol]; simp)]
  have hauth : ∀ {y rest}, t.recvedPacket = y :: rest → y.1.isControl = true →
      ({ t with recvedPacket := rest } : CallbackTask).Tracked decode xs closed requeues := by
    intro y rest hy hcontrol
    have hwait : ({ t with recvedPacket := rest } : CallbackTask).waiting = t.waiting := hdrop hy hcontrol
    refine ⟨hdecodes hy, h.requeued, ?_, ?_, ?_, h.ended⟩
    · rw [hwait]
      exact h.atMost
    · rw [hwait]
      exact h.live
    · rw [hwait]
      exact h.ordered
  have hdata : ∀ {y rest}, t.recvedPacket = y :: rest → y.1.isControl = false →
      ({ t with recvedPacket := rest, calls := t.calls ++ [y] } : CallbackTask).Tracked decode xs closed requeues := by
    intro y rest hy hdata
    have hall : (t.calls ++ [y]).map (·.1) ++
        ({ t with recvedPacket := rest, calls := t.calls ++ [y] } : CallbackTask).waiting =
          t.calls.map (·.1) ++ t.waiting := hcall hy hdata
    refine ⟨hdecodes hy, h.requeued, ?_, ?_, ?_, h.ended⟩
    · rw [hall]
      exact h.atMost
    · rw [hall]
      exact h.live
    · rw [hall]
      exact h.ordered
  unfold CallbackTask.takePacket at hs
  split at hs
  next r authed rest _ hrx =>
    split at hs
    next hr =>
      have hcontrol : Packet.isControl (.request r) = true := by simp [Packet.isControl, hr]
      obtain ⟨q, hq, _, hdecode⟩ := h.decodes (.request r, authed) (by rw [hrx]; exact List.mem_cons_self) hcontrol
      cases hq
      split at hs
      next hnone =>
        rw [hnone] at hdecode
        cases hdecode
      next =>
        cases hs
        exact hauth hrx hcontrol
    next hr =>
      cases hs
      refine hdata hrx (Bool.eq_false_of_not_eq_true fun hcontrol => hr ?_)
      obtain ⟨q, hq, hcommand, _⟩ := h.decodes (.request r, authed) (by rw [hrx]; exact List.mem_cons_self) hcontrol
      cases hq
      exact hcommand
  next y rest hrequest _ hrx =>
    cases hs
    refine hdata hrx (Bool.eq_false_of_not_eq_true fun hcontrol => ?_)
    obtain ⟨q, hq, _, _⟩ := h.decodes y (by rw [hrx]; exact List.mem_cons_self) hcontrol
    exact hrequest q y.2 (by rw [← hq])
  next => cases hs

/-- A task that has the same packets as before. -/
theorem Tracked.of_same (h : t.Tracked decode xs closed requeues) (hcalls : t'.calls = t.calls)
    (hrecved : t'.recvedPacket = t.recvedPacket) (hrequeued : t'.requeued = t.requeued)
    (hexit : t'.exited = t.exited) : t'.Tracked decode xs closed requeues := by
  obtain ⟨hd, hr, ha, hl, ho, he⟩ := h
  refine ⟨?_, ?_, ?_, ?_, ?_, ?_⟩
  · rw [hrecved]
    exact hd
  · rw [hrequeued]
    exact hr
  · rw [waiting, hcalls, hrecved, hrequeued]
    exact ha
  · rw [waiting, hcalls, hrecved, hrequeued, hexit]
    exact hl
  · rw [waiting, hcalls, hrecved, hrequeued, hexit]
    exact ho
  · rw [hexit]
    exact he

theorem Tracked.close (h : t.Tracked decode xs closed requeues) :
    ({ t with exited := true } : CallbackTask).Tracked decode xs True requeues where
  decodes := h.decodes
  requeued := h.requeued
  atMost := h.atMost
  live := fun hlive => Bool.noConfusion hlive
  ordered := fun _ _ hlive => Bool.noConfusion hlive
  ended := ⟨fun _ => trivial, fun _ => rfl⟩

theorem deliver_same (size : Nat) (p : Packet) (n : Nat) (t : CallbackTask) :
    (((deliver size p)^[n]) t).calls = t.calls ∧ (((deliver size p)^[n]) t).recvedPacket = t.recvedPacket ∧
      (((deliver size p)^[n]) t).requeued = t.requeued ∧ (((deliver size p)^[n]) t).exited = t.exited := by
  induction n generalizing t with
  | zero => exact ⟨rfl, rfl, rfl, rfl⟩
  | succ n ih =>
    rw [Function.iterate_succ_apply]
    obtain ⟨hcalls, hrecved, hrequeued, hexit⟩ := ih (t.deliver size p)
    rw [hcalls, hrecved, hrequeued, hexit]
    unfold deliver
    split
    · exact ⟨rfl, rfl, rfl, rfl⟩
    · exact ⟨rfl, rfl, rfl, rfl⟩

theorem takeBroadcast_same {authed : Bool} (hs : t.takeBroadcast authed = some t') :
    t'.calls = t.calls ∧ t'.recvedPacket = t.recvedPacket ∧ t'.requeued = t.requeued ∧ t'.exited = t.exited := by
  unfold takeBroadcast at hs
  split at hs
  next =>
    cases hs
    exact ⟨rfl, rfl, rfl, rfl⟩
  next => cases hs

end CallbackTask

/-- The packets for the callbacks of connection `c` that an event brings. -/
def TaskEvent.received (c : Nat) : TaskEvent → List Packet
  | .server (.conn d (.recv p _)) => if d = c ∧ p.isControl = false then [p] else []
  | _ => []

/-- The connection whose channels an event closes. -/
def TaskEvent.closes? : TaskEvent → Option Nat
  | .closed c => some c
  | _ => none

namespace ServerTasks

variable {decode : DecodeAuth} {conf : HealthyConfig} {size capacity c : Nat} {s s' : ServerTasks} {e : TaskEvent}
  {past : List TaskEvent} {t t' : CallbackTask}

/-- The task of connection `c` against the events so far. -/
def TrackedAt (decode : DecodeAuth) (past : List TaskEvent) (c : Nat) (t : CallbackTask) : Prop :=
  t.Tracked decode (past.flatMap (TaskEvent.received c)) (.closed c ∈ past) (∃ i, .requeue c i ∈ past)

theorem TrackedAt.snoc (h : TrackedAt decode past c t) (hclosed : e ≠ .closed c) (hreceived : e.received c = []) :
    TrackedAt decode (past ++ [e]) c t := by
  rw [TrackedAt, List.flatMap_append, List.flatMap_singleton, hreceived, List.append_nil]
  refine CallbackTask.Tracked.mono h ?_ ?_
  · rw [List.mem_append, List.mem_singleton]
    exact ⟨Or.inl, fun hmem => hmem.resolve_right fun heq => hclosed heq.symm⟩
  · rintro ⟨i, hi⟩
    exact ⟨i, List.mem_append_left _ hi⟩

theorem TrackedAt.kept (h : TrackedAt decode past c t) (hclosed : e.closes? = none) (hreceived : e.received c = []) :
    TrackedAt decode (past ++ [e]) c t := by
  refine h.snoc ?_ hreceived
  rintro rfl
  cases hclosed

/-- The state against the events that led to it. -/
structure Recorded (decode : DecodeAuth) (past : List TaskEvent) (s : ServerTasks) : Prop where
  loops : ∀ l ∈ s.server.conns, l.HoldsAuth decode
  tasks : s.tasks.length = s.server.conns.length
  tracked : ∀ c (t : CallbackTask), s.tasks[c]? = some t → TrackedAt decode past c t
  fresh : ∀ c, s.tasks.length ≤ c → past.flatMap (TaskEvent.received c) = [] ∧ .closed c ∉ past

theorem new_recorded : new.Recorded decode [] where
  loops := fun l hl => by cases hl
  tasks := rfl
  tracked := fun c t ht => by cases ht
  fresh := fun _ _ => ⟨rfl, List.not_mem_nil⟩

theorem step_loops (h : ∀ l ∈ s.server.conns, l.HoldsAuth decode) (hs : step decode conf size capacity s e = some s') :
    ∀ l ∈ s'.server.conns, l.HoldsAuth decode := by
  have hsame : ∀ {d f}, s.modifyTask d f = some s' → ∀ l ∈ s'.server.conns, l.HoldsAuth decode := by
    intro d f hd
    rw [(length_modifyTask hd).1]
    exact h
  cases e with
  | server e =>
    simp only [step, Option.ite_none_right_eq_some] at hs
    obtain ⟨server, hserver, rfl⟩ := Option.map_eq_some_iff.mp hs.2
    cases Server.step_cases hserver with
    | accept peerAddr now _ =>
      intro l hl
      rcases List.mem_append.mp hl with hl | hl
      · exact h l hl
      · rw [List.mem_singleton.mp hl]
        exact ConnLoop.holdsAuth_of_none rfl
    | conn d ev m hm _ hconn =>
      obtain ⟨out, hout, rfl⟩ := Option.map_eq_some_iff.mp hconn
      intro l hl
      rcases List.mem_or_eq_of_mem_set hl with hl | rfl
      · exact h l hl
      · exact ConnLoop.step_holdsAuth (h m (List.mem_of_getElem? hm)) hout
    | takeSignal x rest _ _ => cases x <;> exact h
    | _ => exact h
  | _ => exact hsame hs

theorem handed_eq {d : Nat} {ev : ConnEvent} {l : ConnLoop} {out : ConnLoop × List ConnEffect}
    (hl : s.server.conns[d]? = some l) (hout : l.step decode conf ev = some out) :
    s.handed decode conf d ev = (out.2.filterMap ConnEffect.callback?).map fun p => (p, l.isAuthOk) := by
  simp only [handed, hl, hout, Option.elim_some]

/-- The task of a connection whose loop takes a step. -/
theorem step_conn_tracked {ev : ConnEvent} {l : ConnLoop} {out : ConnLoop × List ConnEffect}
    (h : TrackedAt decode past c t) (hl : s.server.conns[c]? = some l) (hholds : l.HoldsAuth decode)
    (hout : l.step decode conf ev = some out) (hroom : ev = .authForwarded →
      t.exited = true ∨ t.recvedPacket.length < size) :
    TrackedAt decode (past ++ [.server (.conn c ev)]) c
      ((s.handed decode conf c ev).foldl (CallbackTask.trySend size) t) := by
  rw [handed_eq hl hout]
  have hcase := ConnLoop.handed_cases hholds hout
  generalize out.2.filterMap ConnEffect.callback? = packets at hcase
  cases hcase with
  | quiet _ hcontrol =>
    refine h.kept rfl ?_
    cases ev with
    | recv p now => simp [TaskEvent.received, hcontrol p now rfl]
    | _ => rfl
  | data p now hdata =>
    have hnext : (t.trySend size (p, l.isAuthOk)).Tracked decode _ _ _ :=
      CallbackTask.Tracked.trySend_data h hdata
    have hreceived : TaskEvent.received c (.server (.conn c (.recv p now))) = [p] := if_pos ⟨rfl, hdata⟩
    rw [TrackedAt, List.flatMap_append, List.flatMap_singleton, hreceived]
    refine hnext.mono ?_ ?_
    · simp
    · rintro ⟨i, hi⟩
      exact ⟨i, List.mem_append_left _ hi⟩
  | auth r hr hdecode =>
    exact TrackedAt.kept (CallbackTask.Tracked.trySend_auth h hr hdecode (hroom rfl)) rfl rfl

theorem step_tracked (h : s.Recorded decode past) (hs : step decode conf size capacity s e = some s')
    (ht' : s'.tasks[c]? = some t') : TrackedAt decode (past ++ [e]) c t' := by
  cases e with
  | server e =>
    simp only [step, Option.ite_none_right_eq_some] at hs
    obtain ⟨hhand, hmap⟩ := hs
    obtain ⟨server, hserver, rfl⟩ := Option.map_eq_some_iff.mp hmap
    cases Server.step_cases hserver with
    | accept peerAddr now _ =>
      have htask : (s.tasks ++ [CallbackTask.new])[c]? = some t' := ht'
      rcases getElem?_snoc_cases htask with hold | ⟨hlast, rfl⟩
      · exact (h.tracked c t' hold).kept rfl rfl
      · obtain ⟨hnone, hclosed⟩ := h.fresh c (Nat.le_of_eq hlast.symm)
        have hnew : TrackedAt decode past c .new := by
          rw [TrackedAt, hnone]
          exact CallbackTask.new_tracked hclosed
        exact hnew.kept rfl rfl
    | conn d ev l hl _ hconn =>
      obtain ⟨out, hout, rfl⟩ := Option.map_eq_some_iff.mp hconn
      have htask : (s.tasks.modify d fun t =>
          (s.handed decode conf d ev).foldl (CallbackTask.trySend size) t)[c]? = some t' := ht'
      by_cases heq : d = c
      · subst heq
        rw [List.getElem?_modify_eq] at htask
        obtain ⟨t, ht, rfl⟩ := Option.map_eq_some_iff.mp htask
        refine step_conn_tracked (h.tracked d t ht) hl (h.loops l (List.mem_of_getElem? hl)) hout ?_
        rintro rfl
        simpa [canHand, ht] using hhand
      · rw [List.getElem?_modify_ne _ _ heq] at htask
        refine (h.tracked c t' htask).kept rfl ?_
        cases ev with
        | recv p now => exact if_neg fun hc => heq hc.1
        | _ => rfl
    | broadcast packet _ =>
      have hmodify := getElem?_foldl_modify (CallbackTask.deliver capacity packet) s.server.recipients s.tasks c
      have htask := hmodify.symm.trans ht'
      obtain ⟨t, ht, rfl⟩ := Option.map_eq_some_iff.mp htask
      obtain ⟨hcalls, hrecved, hrequeued, hexit⟩ :=
        CallbackTask.deliver_same capacity packet (s.server.recipients.count c) t
      have hsame : TrackedAt decode past c (((CallbackTask.deliver capacity packet)^[s.server.recipients.count c]) t) :=
        CallbackTask.Tracked.of_same (h.tracked c t ht) hcalls hrecved hrequeued hexit
      exact hsame.kept rfl rfl
    | takeSignal x rest _ _ => cases x <;> exact (h.tracked c t' ht').kept rfl rfl
    | _ => exact (h.tracked c t' ht').kept rfl rfl
  | takePacket d =>
    obtain ⟨_, ⟨_, ht⟩ | ⟨_, t, ht, hf⟩⟩ := modifyTask_cases hs ht'
    · exact (h.tracked c t' ht).kept rfl rfl
    · exact TrackedAt.kept (CallbackTask.Tracked.takePacket (h.tracked c t ht) hf) rfl rfl
  | requeue d i =>
    obtain ⟨_, ⟨_, ht⟩ | ⟨rfl, t, ht, hf⟩⟩ := modifyTask_cases hs ht'
    · exact (h.tracked c t' ht).kept rfl rfl
    · have hnext := CallbackTask.Tracked.requeue (h.tracked c t ht) hf
      rw [TrackedAt, List.flatMap_append, List.flatMap_singleton,
        show TaskEvent.received c (.requeue c i) = [] from rfl,
        List.append_nil]
      refine hnext.mono ?_ fun _ => ⟨i, List.mem_append_right _ List.mem_cons_self⟩
      simp
  | takeBroadcast d =>
    obtain ⟨_, ⟨_, ht⟩ | ⟨_, t, ht, hf⟩⟩ := modifyTask_cases hs ht'
    · exact (h.tracked c t' ht).kept rfl rfl
    · obtain ⟨hcalls, hrecved, hrequeued, hexit⟩ := CallbackTask.takeBroadcast_same hf
      have hsame : TrackedAt decode past c t' :=
        CallbackTask.Tracked.of_same (h.tracked c t ht) hcalls hrecved hrequeued hexit
      exact hsame.kept rfl rfl
  | onSendDone d =>
    obtain ⟨_, ⟨_, ht⟩ | ⟨_, t, ht, hf⟩⟩ := modifyTask_cases hs ht'
    · exact (h.tracked c t' ht).kept rfl rfl
    · simp only [CallbackTask.onSendDone, Option.ite_none_right_eq_some, Option.some.injEq] at hf
      obtain ⟨_, rfl⟩ := hf
      have hsame : TrackedAt decode past c { t with sending := none } :=
        CallbackTask.Tracked.of_same (h.tracked c t ht) rfl rfl rfl rfl
      exact hsame.kept rfl rfl
  | closed d =>
    obtain ⟨_, ⟨hne, ht⟩ | ⟨rfl, t, ht, hf⟩⟩ := modifyTask_cases hs ht'
    · exact (h.tracked c t' ht).snoc (fun heq => hne (TaskEvent.closed.inj heq).symm) rfl
    · simp only [Option.ite_none_right_eq_some, Option.some.injEq] at hf
      obtain ⟨_, rfl⟩ := hf
      rw [TrackedAt, List.flatMap_append, List.flatMap_singleton, show TaskEvent.received c (.closed c) = [] from rfl,
        List.append_nil]
      refine (CallbackTask.Tracked.close (h.tracked c t ht)).mono ?_ ?_
      · simp
      · rintro ⟨i, hi⟩
        exact ⟨i, List.mem_append_left _ hi⟩

theorem step_recorded (past : List TaskEvent) (s : ServerTasks) (e : TaskEvent) (s' : ServerTasks)
    (h : s.Recorded decode past) (hs : step decode conf size capacity s e = some s') :
    s'.Recorded decode (past ++ [e]) := by
  obtain ⟨htasks, hle⟩ := step_length h.tasks hs
  refine ⟨step_loops h.loops hs, htasks, fun c t' => step_tracked h hs, fun c hc => ?_⟩
  have hout : s.tasks.length ≤ c := Nat.le_trans hle hc
  obtain ⟨hnone, hclosed⟩ := h.fresh c hout
  have hfree : ∀ {d f}, s.modifyTask d f = some s' → d ≠ c := by
    rintro d f hd rfl
    unfold modifyTask at hd
    rw [List.getElem?_eq_none hout] at hd
    cases hd
  have hreceived : e.received c = [] := by
    cases e with
    | server e =>
      cases e with
      | conn d ev =>
        cases ev with
        | recv p now =>
          refine if_neg fun hd => ?_
          obtain ⟨rfl, _⟩ := hd
          simp only [step, Option.ite_none_right_eq_some] at hs
          obtain ⟨server, hserver, _⟩ := Option.map_eq_some_iff.mp hs.2
          cases Server.step_cases hserver with
          | conn _ _ l hl _ _ =>
            have hlt := (List.getElem?_eq_some_iff.mp hl).1
            have hlen := h.tasks
            omega
        | _ => rfl
      | _ => rfl
    | _ => rfl
  rw [List.flatMap_append, List.flatMap_singleton, hreceived, List.append_nil]
  refine ⟨hnone, fun hmem => ?_⟩
  rcases List.mem_append.mp hmem with hmem | hmem
  · exact hclosed hmem
  · cases List.mem_singleton.mp hmem
    exact hfree hs rfl

theorem recorded_of_run {events : List TaskEvent}
    (hrun : Machine.run (step decode conf size capacity) new events = some s) : s.Recorded decode events :=
  Machine.run_history step_recorded new_recorded hrun

/-- Every packet received for a callback, from any peer and in any order of steps, was
handed to its callback once or still waits while the task lives, and never twice. -/
theorem callbacks_conserved (decode : DecodeAuth) (conf : HealthyConfig) (size capacity : Nat) (events : List TaskEvent)
    (s : ServerTasks) (hrun : Machine.run (step decode conf size capacity) new events = some s) (c : Nat)
    (t : CallbackTask) (ht : s.tasks[c]? = some t) :
    (t.exited = false → (t.calls.map (·.1) ++ t.waiting).Perm (events.flatMap (TaskEvent.received c))) ∧
      (t.calls.map (·.1) ++ t.waiting).Subperm (events.flatMap (TaskEvent.received c)) := by
  have htracked := (recorded_of_run hrun).tracked c t ht
  exact ⟨htracked.live, htracked.atMost⟩

/-- As long as no packet found the channel full, the packets are taken for their callbacks
in the order in which they were received. -/
theorem callbacks_in_order (decode : DecodeAuth) (conf : HealthyConfig) (size capacity : Nat) (events : List TaskEvent)
    (s : ServerTasks) (hrun : Machine.run (step decode conf size capacity) new events = some s) (c : Nat)
    (t : CallbackTask) (ht : s.tasks[c]? = some t) (hlive : t.exited = false)
    (hnone : ∀ i, TaskEvent.requeue c i ∉ events) (hempty : t.requeued = []) :
    t.calls.map (·.1) ++ t.waiting = events.flatMap (TaskEvent.received c) := by
  have htracked := (recorded_of_run hrun).tracked c t ht
  refine htracked.ordered ?_ hempty hlive
  rintro ⟨i, hi⟩
  exact hnone i hi

/-- A callback task ends when its channels close and for no other reason: the Auth
requests it gets all decode. -/
theorem callback_task_ends (decode : DecodeAuth) (conf : HealthyConfig) (size capacity : Nat) (events : List TaskEvent)
    (s : ServerTasks) (hrun : Machine.run (step decode conf size capacity) new events = some s) (c : Nat)
    (t : CallbackTask) (ht : s.tasks[c]? = some t) : t.exited = true ↔ .closed c ∈ events :=
  ((recorded_of_run hrun).tracked c t ht).ended

/-- Two requests on an authenticated connection. -/
def requestsRun : List TaskEvent :=
  [.server (.accept "10.0.0.7:4001" 0), .server (.conn 0 (.recv (authLetter 1 97) 1)),
    .server (.conn 0 (.authResult true)), .server (.conn 0 .newSent), .server (.conn 0 .authForwarded),
    .server (.conn 0 (.recv (.request (newRequest .cmdSubDepth 2 [])) 2)),
    .server (.conn 0 (.recv (.request (newRequest .cmdSubBrokers 3 [])) 3)), .takePacket 0]

/-- With one place in the channel both wait for the Auth request, and the second
request is the first to find a place. -/
def overtakenRun : List TaskEvent := requestsRun ++ [.requeue 0 1, .takePacket 0]

def onRequestRun : List TaskEvent := requestsRun ++ [.takePacket 0]

theorem callbacks_conserved_overtaken :
    ∃ s t, Machine.run (step decodeLetter ⟨30, 10, 0⟩ 1 1) new overtakenRun = some s ∧
      s.tasks[0]? = some t ∧ t.exited = false ∧
      t.calls.map (·.1) = [.request (newRequest .cmdSubBrokers 3 [])] ∧
      t.waiting = [.request (newRequest .cmdSubDepth 2 [])] ∧
      (t.exited = false → (t.calls.map (·.1) ++ t.waiting).Perm
        (overtakenRun.flatMap (TaskEvent.received 0))) ∧
      (t.calls.map (·.1) ++ t.waiting).Subperm
        (overtakenRun.flatMap (TaskEvent.received 0)) := by
  have hout : (Machine.run (step decodeLetter ⟨30, 10, 0⟩ 1 1) new overtakenRun).any
      (fun s => (s.tasks[0]?).any fun t => decide (t.exited = false ∧
        t.calls.map (·.1) = [.request (newRequest .cmdSubBrokers 3 [])] ∧
        t.waiting = [.request (newRequest .cmdSubDepth 2 [])])) = true := by
    decide +kernel
  obtain ⟨s, hrun, hany⟩ := (Option.any_eq_true _ _).mp hout
  obtain ⟨t, ht, hdecide⟩ := (Option.any_eq_true _ _).mp hany
  obtain ⟨hlive, hcalls, hwaiting⟩ := of_decide_eq_true hdecide
  exact ⟨s, t, hrun, ht, hlive, hcalls, hwaiting, callbacks_conserved decodeLetter ⟨30, 10, 0⟩ 1 1 _ s hrun 0 t ht⟩

theorem callbacks_in_order_two :
    ∃ s t, Machine.run (step decodeLetter ⟨30, 10, 0⟩ 4 4) new onRequestRun = some s ∧
      s.tasks[0]? = some t ∧ t.calls.map (·.1) = [.request (newRequest .cmdSubDepth 2 [])] ∧
      t.calls.map (·.1) ++ t.waiting = onRequestRun.flatMap (TaskEvent.received 0) := by
  have hout : (Machine.run (step decodeLetter ⟨30, 10, 0⟩ 4 4) new onRequestRun).any
      (fun s => (s.tasks[0]?).any fun t => decide (t.exited = false ∧ t.requeued = [] ∧
        t.calls.map (·.1) = [.request (newRequest .cmdSubDepth 2 [])])) = true := by
    decide +kernel
  obtain ⟨s, hrun, hany⟩ := (Option.any_eq_true _ _).mp hout
  obtain ⟨t, ht, hdecide⟩ := (Option.any_eq_true _ _).mp hany
  obtain ⟨hlive, hempty, hcalls⟩ := of_decide_eq_true hdecide
  have hnone : ∀ i, TaskEvent.requeue 0 i ∉ onRequestRun := by
    intro i
    simp [onRequestRun, requestsRun]
  exact ⟨s, t, hrun, ht, hcalls,
    callbacks_in_order decodeLetter ⟨30, 10, 0⟩ 4 4 _ s hrun 0 t ht hlive hnone hempty⟩

/-- The transport of a connection ends and its task with it. -/
def endedRun : List TaskEvent :=
  [.server (.accept "10.0.0.7:4001" 0), .server (.transportClosed 0), .server (.conn 0 .recvClosed),
    .server (.conn 0 .exitSent), .closed 0]

theorem callback_task_ends_closed :
    ∃ s t, Machine.run (step decodeLetter ⟨30, 10, 0⟩ 4 4) new endedRun = some s ∧ s.tasks[0]? = some t ∧
      t.exited = true ∧ (t.exited = true ↔ .closed 0 ∈ endedRun) := by
  have hout : (Machine.run (step decodeLetter ⟨30, 10, 0⟩ 4 4) new endedRun).any
      (fun s => (s.tasks[0]?).any (·.exited)) = true := by
    decide +kernel
  obtain ⟨s, hrun, hany⟩ := (Option.any_eq_true _ _).mp hout
  obtain ⟨t, ht, hexit⟩ := (Option.any_eq_true _ _).mp hany
  exact ⟨s, t, hrun, ht, hexit, callback_task_ends decodeLetter ⟨30, 10, 0⟩ 4 4 endedRun s hrun 0 t ht⟩

end ServerTasks

end QuoteLink

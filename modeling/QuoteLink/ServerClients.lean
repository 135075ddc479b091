import QuoteLink.ServerLink

namespace QuoteLink

namespace ConnLoop

/-- A step of the loop as connection management sees it. -/
inductive SignalCase (decode : DecodeAuth) (l : ConnLoop) (c : Nat) (e : ConnEvent)
    (l' : ConnLoop) : List ClientSignal → Prop
  | quiet (hname : l'.clientName = l.clientName) (hauth : l.isAuthOk = true → l'.isAuthOk = true)
    (hpc : l'.pc ≠ .done) (hnew : ∀ r, l'.pc = .sendNew r → l'.isAuthOk = true) :
    SignalCase decode l c e l' []
  | renames (r : Request) (now : Nat) (auth : AuthRequest) (he : e = .recv (.request r) now)
    (hr : r.command = .auth) (hdecode : decode r.body = some auth)
    (hname : l'.clientName = nameAt (auth.authInfo.getD .default).clientName l.peerAddr)
    (hauth : l'.isAuthOk = l.isAuthOk) (hpc : l'.pc = .onAuth r) : SignalCase decode l c e l' []
  | registers (r : Request) (hold : l.pc = .sendNew r) (hname : l'.clientName = l.clientName)
    (hauth : l'.isAuthOk = l.isAuthOk) (hpc : l'.pc = .forwardAuth r) :
    SignalCase decode l c e l' [.new l.clientName c]
  | ends (hname : l'.clientName = l.clientName) (hauth : l'.isAuthOk = l.isAuthOk)
    (hpc : l'.pc = .done) : SignalCase decode l c e l' [.exit l.clientName c]

variable {decode : DecodeAuth} {conf : HealthyConfig} {l : ConnLoop} {e : ConnEvent}
  {out : ConnLoop × List ConnEffect}

theorem leave_signals (c : Nat) (m : ConnLoop) (hname : m.clientName = l.clientName)
    (hauth : m.isAuthOk = l.isAuthOk) (haddr : m.peerAddr = l.peerAddr) :
    m.leave.1.peerAddr = l.peerAddr ∧ SignalCase decode l c e m.leave.1
      (m.leave.2.filterMap (ConnEffect.signal? c)) := by
  unfold leave
  split
  · refine ⟨haddr, .quiet hname (fun h => hauth.trans h) ?_ ?_⟩
    · simp
    · simp
  · refine ⟨haddr, .quiet hname (fun h => hauth.trans h) ?_ ?_⟩
    · simp
    · simp

theorem step_signals (c : Nat) (h : l.step decode conf e = some out) :
    l.pc ≠ .done ∧ out.1.peerAddr = l.peerAddr ∧
      SignalCase decode l c e out.1 (out.2.filterMap (ConnEffect.signal? c)) := by
  cases step_cases h with
  | tick now hpc _ => exact ⟨by simp [hpc], rfl, .quiet rfl id (by simp [hpc]) (by simp [hpc])⟩
  | tickLeave now hpc _ => exact ⟨by simp [hpc], leave_signals c l rfl rfl rfl⟩
  | exitSignal hpc => exact ⟨by simp [hpc], leave_signals c l rfl rfl rfl⟩
  | recvClosed hpc => exact ⟨by simp [hpc], leave_signals c l rfl rfl rfl⟩
  | heartbeat r now hpc _ => exact ⟨by simp [hpc], rfl, .quiet rfl id (by simp) (by simp)⟩
  | authInvalid r now hpc _ _ =>
    exact ⟨by simp [hpc], leave_signals c { l with lastPingAt := now } rfl rfl rfl⟩
  | auth r now hpc hr auth hdecode =>
    exact ⟨by simp [hpc], rfl, .renames r now auth rfl hr hdecode rfl rfl rfl⟩
  | packet p now hpc _ =>
    exact ⟨by simp [hpc], rfl, .quiet rfl id (by simp [hpc]) (by simp [hpc])⟩
  | replied r hpc | replyFailed r hpc => exact ⟨by simp [hpc], rfl, .quiet rfl id (by simp) (by simp)⟩
  | authOk r hpc => exact ⟨by simp [hpc], rfl, .quiet rfl (fun _ => rfl) (by simp) (by simp)⟩
  | authRejected r hpc => exact ⟨by simp [hpc], rfl, .quiet rfl id (by simp) (by simp)⟩
  | newSent r hpc => exact ⟨by simp [hpc], rfl, .registers r hpc rfl rfl rfl⟩
  | authForwarded r hpc => exact ⟨by simp [hpc], rfl, .quiet rfl id (by simp) (by simp)⟩
  | disconnected hpc => exact ⟨by simp [hpc], rfl, .quiet rfl id (by simp) (by simp)⟩
  | exitSent hpc => exact ⟨by simp [hpc], rfl, .ends rfl rfl rfl⟩

end ConnLoop

namespace Server

/-- An entry that outlives a removal. -/
theorem lookup_erase_eq_some {m : AList fun _ : String => Nat} {k k' : String} {c : Nat}
    (h : (m.erase k).lookup k' = some c) : k' ≠ k ∧ m.lookup k' = some c := by
  by_cases heq : k' = k
  · rw [heq, AList.lookup_erase] at h
    cases h
  · rw [AList.lookup_erase_ne heq] at h
    exact ⟨heq, h⟩

/-- An entry after an insertion is the new one or an old one. -/
theorem lookup_insert_eq_some {m : AList fun _ : String => Nat} {k k' : String} {c d : Nat}
    (h : (m.insert k c).lookup k' = some d) : k' = k ∧ d = c ∨ m.lookup k' = some d := by
  by_cases heq : k' = k
  · subst heq
    have hval : some c = some d := (AList.lookup_insert _).symm.trans h
    exact Or.inl ⟨rfl, (Option.some.inj hval).symm⟩
  · rw [AList.lookup_insert_ne heq] at h
    exact Or.inr h

/-- The signals of one connection that are still queued. -/
def pending (s : Server) (c : Nat) : List ClientSignal := s.signals.filter fun x => x.conn = c

/-- Connection management knows nothing of a connection. -/
structure Absent (s : Server) (c : Nat) : Prop where
  pending : s.pending c = []
  entries : ∀ k, s.clients.lookup k ≠ some c
  exited : c ∉ s.exited

/-- What is registered for a connection, or is about to be, is its current name,
and its `Exit` is the last of its signals. -/
structure Tidy (s : Server) (c : Nat) (l : ConnLoop) : Prop where
  sendNew : ∀ r, l.pc = .sendNew r → l.isAuthOk = true
  entries : ∀ k, s.clients.lookup k = some c → l.isAuthOk = true ∧ k = l.clientName
  queued : ∀ k, .new k c ∈ s.pending c → l.isAuthOk = true ∧ k = l.clientName
  running : l.pc ≠ .done → c ∉ s.exited ∧ ∀ k, .exit k c ∉ s.pending c
  finished : l.pc = .done → c ∉ s.exited → ∃ news,
    s.pending c = news ++ [.exit l.clientName c] ∧ ∀ k, .exit k c ∉ news
  gone : c ∈ s.exited → s.pending c = [] ∧ ∀ k, s.clients.lookup k ≠ some c

/-- The state of a connection, accepted or not. -/
def TidyAt (s : Server) (c : Nat) : Prop :=
  match s.conns[c]? with
  | some l => s.Tidy c l
  | none => s.Absent c

/-- Once an Auth of the connection was accepted, its later ones name the same client. -/
def KeepsName (decode : DecodeAuth) (c : Nat) (s : Server) : ServerEvent → Prop
  | .conn d (.recv (.request r) _) =>
    d = c → r.command = .auth → (s.conns[c]?).all fun l => !l.isAuthOk ||
      (decode r.body).all fun auth =>
        nameAt (auth.authInfo.getD .default).clientName l.peerAddr = l.clientName
  | _ => True

instance (decode : DecodeAuth) (c : Nat) (s : Server) :
    ∀ e, Decidable (s.KeepsName decode c e)
  | .conn _ (.recv (.request _) _) => inferInstanceAs (Decidable (_ → _ → _))
  | .conn _ (.recv (.response _) _) | .conn _ (.recv (.push _) _) | .conn _ (.tick _)
  | .conn _ .exitSignal | .conn _ .recvClosed | .conn _ .replied | .conn _ .replyFailed | .conn _ (.authResult _)
  | .conn _ .newSent | .conn _ .authForwarded | .conn _ .disconnected | .conn _ .exitSent
  | .accept _ _ | .transportClosed _ | .takeSignal | .closeClient _ | .broadcast _
  | .shutdown => inferInstanceAs (Decidable True)

section Steps

variable {decode : DecodeAuth} {conf : HealthyConfig} {s s' : Server} {c : Nat} {l l' : ConnLoop}

/-- Nothing that concerns the connection has changed. -/
theorem Tidy.of_same (h : s.Tidy c l) (hpending : s'.pending c = s.pending c)
    (hexited : c ∈ s'.exited ↔ c ∈ s.exited)
    (hentries : ∀ k, s'.clients.lookup k = some c → s.clients.lookup k = some c) : s'.Tidy c l where
  sendNew := h.sendNew
  entries := fun k hk => h.entries k (hentries k hk)
  queued := by
    rw [hpending]
    exact h.queued
  running := by
    rw [hpending, hexited]
    exact h.running
  finished := by
    rw [hpending, hexited]
    exact h.finished
  gone := by
    rw [hpending, hexited]
    intro hc
    exact ⟨(h.gone hc).1, fun k hk => (h.gone hc).2 k (hentries k hk)⟩

theorem Absent.of_same (h : s.Absent c) (hpending : s'.pending c = s.pending c)
    (hexited : c ∈ s'.exited ↔ c ∈ s.exited)
    (hentries : ∀ k, s'.clients.lookup k = some c → s.clients.lookup k = some c) : s'.Absent c where
  pending := hpending.trans h.pending
  entries := fun k hk => h.entries k (hentries k hk)
  exited := fun hc => h.exited (hexited.mp hc)

theorem TidyAt.of_same (h : s.TidyAt c) (hconns : s'.conns[c]? = s.conns[c]?)
    (hpending : s'.pending c = s.pending c) (hexited : c ∈ s'.exited ↔ c ∈ s.exited)
    (hentries : ∀ k, s'.clients.lookup k = some c → s.clients.lookup k = some c) : s'.TidyAt c := by
  unfold TidyAt at *
  rw [hconns]
  split
  next l hl =>
    rw [hl] at h
    exact Tidy.of_same h hpending hexited hentries
  next hl =>
    rw [hl] at h
    exact Absent.of_same h hpending hexited hentries

theorem Absent.accept (h : s.Absent c) (peerAddr : String) (now : Nat)
    (hpending : s'.pending c = s.pending c) (hexited : c ∈ s'.exited ↔ c ∈ s.exited)
    (hentries : ∀ k, s'.clients.lookup k = some c → s.clients.lookup k = some c) :
    s'.Tidy c (.new peerAddr now) := by
  have habsent := h.of_same hpending hexited hentries
  refine ⟨?_, ?_, ?_, ?_, ?_, ?_⟩
  · intro r hr
    cases hr
  · intro k hk
    exact absurd hk (habsent.entries k)
  · intro k hk
    rw [habsent.pending] at hk
    cases hk
  · intro _
    refine ⟨habsent.exited, fun k hk => ?_⟩
    rw [habsent.pending] at hk
    cases hk
  · intro hdone
    cases hdone
  · intro hc
    exact absurd hc habsent.exited

/-- The connection's own loop takes a step. -/
theorem Tidy.step_self {e : ConnEvent} {sig : List ClientSignal} (h : s.Tidy c l)
    (hpc : l.pc ≠ .done) (hsig : l.SignalCase decode c e l' sig)
    (hkeep : ∀ r now auth, e = .recv (.request r) now → r.command = .auth →
      decode r.body = some auth → l.isAuthOk = true →
      nameAt (auth.authInfo.getD .default).clientName l.peerAddr = l.clientName)
    (hpending : s'.pending c = s.pending c ++ sig) (hexited : s'.exited = s.exited)
    (hclients : s'.clients = s.clients) : s'.Tidy c l' := by
  obtain ⟨hnot, hnoexit⟩ := h.running hpc
  cases hsig with
  | quiet hname hauth hpc' hnew =>
    rw [List.append_nil] at hpending
    refine ⟨hnew, ?_, ?_, ?_, fun hdone => absurd hdone hpc', ?_⟩
    · intro k hk
      rw [hclients] at hk
      exact ⟨hauth (h.entries k hk).1, (h.entries k hk).2.trans hname.symm⟩
    · intro k hk
      rw [hpending] at hk
      exact ⟨hauth (h.queued k hk).1, (h.queued k hk).2.trans hname.symm⟩
    · rw [hpending, hexited]
      exact fun _ => ⟨hnot, hnoexit⟩
    · rw [hexited]
      exact fun hc => absurd hc hnot
  | renames r now auth he hr hdecode hname hauth hpc' =>
    rw [List.append_nil] at hpending
    have hsame : l.isAuthOk = true → l'.clientName = l.clientName :=
      fun hok => hname.trans (hkeep r now auth he hr hdecode hok)
    refine ⟨?_, ?_, ?_, ?_, ?_, ?_⟩
    · intro q hq
      rw [hpc'] at hq
      cases hq
    · intro k hk
      rw [hclients] at hk
      obtain ⟨hok, hk⟩ := h.entries k hk
      exact ⟨hauth.trans hok, hk.trans (hsame hok).symm⟩
    · intro k hk
      rw [hpending] at hk
      obtain ⟨hok, hk⟩ := h.queued k hk
      exact ⟨hauth.trans hok, hk.trans (hsame hok).symm⟩
    · rw [hpending, hexited]
      exact fun _ => ⟨hnot, hnoexit⟩
    · intro hdone
      rw [hpc'] at hdone
      cases hdone
    · rw [hexited]
      exact fun hc => absurd hc hnot
  | registers r hold hname hauth hpc' =>
    have hok := h.sendNew r hold
    refine ⟨?_, ?_, ?_, ?_, ?_, ?_⟩
    · intro q hq
      rw [hpc'] at hq
      cases hq
    · intro k hk
      rw [hclients] at hk
      exact ⟨hauth.trans hok, (h.entries k hk).2.trans hname.symm⟩
    · intro k hk
      rw [hpending] at hk
      refine ⟨hauth.trans hok, ?_⟩
      rcases List.mem_append.mp hk with hk | hk
      · exact (h.queued k hk).2.trans hname.symm
      · cases List.mem_singleton.mp hk
        exact hname.symm
    · rw [hpending, hexited]
      refine fun _ => ⟨hnot, fun k hk => ?_⟩
      rcases List.mem_append.mp hk with hk | hk
      · exact hnoexit k hk
      · cases List.mem_singleton.mp hk
    · intro hdone
      rw [hpc'] at hdone
      cases hdone
    · rw [hexited]
      exact fun hc => absurd hc hnot
  | ends hname hauth hpc' =>
    refine ⟨?_, ?_, ?_, fun hrun => absurd hpc' hrun, ?_, ?_⟩
    · intro q hq
      rw [hpc'] at hq
      cases hq
    · intro k hk
      rw [hclients] at hk
      exact ⟨hauth.trans (h.entries k hk).1, (h.entries k hk).2.trans hname.symm⟩
    · intro k hk
      rw [hpending] at hk
      rcases List.mem_append.mp hk with hk | hk
      · exact ⟨hauth.trans (h.queued k hk).1, (h.queued k hk).2.trans hname.symm⟩
      · cases List.mem_singleton.mp hk
    · intro _ _
      rw [hname]
      exact ⟨s.pending c, hpending, hnoexit⟩
    · rw [hexited]
      exact fun hc => absurd hc hnot

/-- The connection's own `New` is processed. -/
theorem Tidy.processNew {k : String} {rest : List ClientSignal} (h : s.Tidy c l)
    (hhead : s.pending c = .new k c :: rest) (hpending : s'.pending c = rest)
    (hexited : s'.exited = s.exited) (hclients : s'.clients = s.clients.insert k c) :
    s'.Tidy c l := by
  obtain ⟨hok, hk⟩ := h.queued k (hhead ▸ List.mem_cons_self)
  refine ⟨h.sendNew, ?_, ?_, ?_, ?_, ?_⟩
  · intro k' hk'
    rw [hclients] at hk'
    rcases lookup_insert_eq_some hk' with ⟨heq, _⟩ | hold
    · exact ⟨hok, heq.trans hk⟩
    · exact h.entries k' hold
  · intro k' hk'
    rw [hpending] at hk'
    exact h.queued k' (hhead ▸ List.mem_cons_of_mem _ hk')
  · intro hrun
    obtain ⟨hnot, hnoexit⟩ := h.running hrun
    rw [hpending, hexited]
    exact ⟨hnot, fun k' hk' => hnoexit k' (hhead ▸ List.mem_cons_of_mem _ hk')⟩
  · intro hdone hnot
    rw [hexited] at hnot
    obtain ⟨news, hlast, hnews⟩ := h.finished hdone hnot
    rw [hhead] at hlast
    cases news with
    | nil => cases hlast
    | cons x news =>
      obtain ⟨rfl, hrest⟩ := List.cons.inj hlast
      exact ⟨news, hpending.trans hrest, fun k' hk' => hnews k' (List.mem_cons_of_mem _ hk')⟩
  · rw [hexited]
    intro hc
    have hnil := (h.gone hc).1
    rw [hhead] at hnil
    cases hnil

/-- The connection's own `Exit` is processed: it names the only entry there can be. -/
theorem Tidy.processExit {k : String} {rest : List ClientSignal} (h : s.Tidy c l)
    (hhead : s.pending c = .exit k c :: rest) (hpending : s'.pending c = rest)
    (hexited : s'.exited = s.exited ++ [c]) (hclients : s'.clients = s.clients.erase k) :
    s'.Tidy c l := by
  have hmem : .exit k c ∈ s.pending c := hhead ▸ List.mem_cons_self
  have hdone : l.pc = .done := by
    by_contra hrun
    exact (h.running hrun).2 k hmem
  have hnot : c ∉ s.exited := by
    intro hc
    rw [(h.gone hc).1] at hmem
    cases hmem
  obtain ⟨news, hlast, hnews⟩ := h.finished hdone hnot
  have hsplit : k = l.clientName ∧ rest = [] := by
    rw [hhead] at hlast
    cases news with
    | nil =>
      cases hlast
      exact ⟨rfl, rfl⟩
    | cons x news =>
      obtain ⟨rfl, _⟩ := List.cons.inj hlast
      exact absurd List.mem_cons_self (hnews k)
  have hnone : ∀ k', s'.clients.lookup k' ≠ some c := by
    intro k' hk'
    rw [hclients] at hk'
    obtain ⟨hne, hold⟩ := lookup_erase_eq_some hk'
    exact hne ((h.entries k' hold).2.trans hsplit.1.symm)
  have hmine : c ∈ s'.exited := by
    rw [hexited]
    exact List.mem_append_right _ (List.mem_singleton_self c)
  refine ⟨h.sendNew, fun k' hk' => absurd hk' (hnone k'), ?_, fun hrun => absurd hdone hrun,
    fun _ hc => absurd hmine hc, fun _ => ⟨hpending.trans hsplit.2, hnone⟩⟩
  intro k' hk'
  rw [hpending, hsplit.2] at hk'
  cases hk'

theorem pending_append_signals {effects : List ConnEffect} {d : Nat} (c : Nat)
    (h : s'.signals = s.signals ++ effects.filterMap (ConnEffect.signal? d)) :
    s'.pending c = s.pending c ++
      if d = c then effects.filterMap (ConnEffect.signal? d) else [] := by
  have hconn : ∀ x ∈ effects.filterMap (ConnEffect.signal? d), x.conn = d := by
    intro x hx
    obtain ⟨effect, _, heffect⟩ := List.mem_filterMap.mp hx
    cases effect <;> simp only [ConnEffect.signal?, reduceCtorEq, Option.some.injEq] at heffect <;>
      rw [← heffect] <;> rfl
  rw [pending, h, List.filter_append]
  congr 1
  split
  next hd =>
    refine List.filter_eq_self.mpr fun x hx => ?_
    rw [hconn x hx, hd]
    exact decide_eq_true rfl
  next hd =>
    refine List.filter_eq_nil_iff.mpr fun x hx => ?_
    rw [hconn x hx, decide_eq_true_eq]
    exact hd

theorem stepConn_tidyAt {d : Nat} {e : ConnEvent} {m : ConnLoop} (h : s.TidyAt c)
    (hm : s.conns[d]? = some m) (hk : s.KeepsName decode c (.conn d e))
    (hs : s.stepConn decode conf d e m = some s') : s'.TidyAt c := by
  obtain ⟨out, hout, rfl⟩ := Option.map_eq_some_iff.mp hs
  have hpending : pending { s with
      conns := s.conns.set d out.1
      signals := s.signals ++ out.2.filterMap (ConnEffect.signal? d)
      exitSignals := if e = .exitSignal then s.exitSignals.erase d else s.exitSignals } c =
      s.pending c ++ if d = c then out.2.filterMap (ConnEffect.signal? d) else [] :=
    pending_append_signals c rfl
  by_cases hd : d = c
  · subst hd
    obtain ⟨hpc, _, hsig⟩ := ConnLoop.step_signals d hout
    have htidy : s.Tidy d m := by
      unfold TidyAt at h
      rw [hm] at h
      exact h
    have hlt : d < s.conns.length := (List.getElem?_eq_some_iff.mp hm).1
    have hself : (s.conns.set d out.1)[d]? = some out.1 := List.getElem?_set_self hlt
    rw [if_pos rfl] at hpending
    unfold TidyAt
    rw [hself]
    refine htidy.step_self hpc hsig ?_ hpending rfl rfl
    rintro r now auth rfl hr hdecode hok
    have hall := hk rfl hr
    rw [hm, Option.all_some, hok, hdecode, Option.all_some] at hall
    exact of_decide_eq_true hall
  · rw [if_neg hd, List.append_nil] at hpending
    exact h.of_same (List.getElem?_set_ne hd) hpending Iff.rfl fun k hk => hk

theorem pending_own {x : ClientSignal} {rest : List ClientSignal} (hx : s.signals = x :: rest)
    (hc : x.conn = c) : s.pending c = x :: rest.filter fun y => y.conn = c := by
  simp only [pending, hx, List.filter_cons, hc, decide_true, if_true]

theorem pending_other {x : ClientSignal} {rest : List ClientSignal} (hx : s.signals = x :: rest)
    (hc : x.conn ≠ c) : rest.filter (fun y => y.conn = c) = s.pending c := by
  simp only [pending, hx, List.filter_cons, hc, decide_false, Bool.false_eq_true, if_false]

theorem processSignal_tidyAt {x : ClientSignal} {rest : List ClientSignal} (h : s.TidyAt c)
    (hx : s.signals = x :: rest) : (({ s with signals := rest } : Server).processSignal x).TidyAt c := by
  cases x with
  | new k d =>
    by_cases hd : d = c
    · subst hd
      have hpending : s.pending d = .new k d :: rest.filter fun y => y.conn = d := pending_own hx rfl
      cases hl : s.conns[d]? with
      | some l =>
        have htidy : s.Tidy d l := by simpa only [TidyAt, hl] using h
        have hnew : (({ s with signals := rest } : Server).processSignal (.new k d)).Tidy d l :=
          htidy.processNew hpending rfl rfl rfl
        simpa only [TidyAt, processSignal, hl] using hnew
      | none =>
        have habsent : s.Absent d := by simpa only [TidyAt, hl] using h
        rw [habsent.pending] at hpending
        cases hpending
    · refine h.of_same rfl (pending_other hx hd) Iff.rfl fun k' hk' => ?_
      rcases lookup_insert_eq_some hk' with ⟨_, heq⟩ | hold
      · exact absurd heq.symm hd
      · exact hold
  | exit k d =>
    by_cases hd : d = c
    · subst hd
      have hpending : s.pending d = .exit k d :: rest.filter fun y => y.conn = d := pending_own hx rfl
      cases hl : s.conns[d]? with
      | some l =>
        have htidy : s.Tidy d l := by simpa only [TidyAt, hl] using h
        have hexit : (({ s with signals := rest } : Server).processSignal (.exit k d)).Tidy d l :=
          htidy.processExit hpending rfl rfl rfl
        simpa only [TidyAt, processSignal, hl] using hexit
      | none =>
        have habsent : s.Absent d := by simpa only [TidyAt, hl] using h
        rw [habsent.pending] at hpending
        cases hpending
    · refine h.of_same rfl (pending_other hx hd) ?_ fun k' hk' => (lookup_erase_eq_some hk').2
      simp only [processSignal, List.mem_append, List.mem_singleton, or_iff_left_iff_imp]
      exact fun hc => absurd hc.symm hd

theorem step_tidyAt {e : ServerEvent} (h : s.TidyAt c) (hk : s.KeepsName decode c e)
    (hs : step decode conf s e = some s') : s'.TidyAt c := by
  cases step_cases hs with
  | accept peerAddr now hcan =>
    rcases Nat.lt_trichotomy c s.conns.length with hlt | heq | hgt
    · exact h.of_same (List.getElem?_append_left hlt) rfl Iff.rfl fun k hk => hk
    · have hold : s.conns[c]? = none := List.getElem?_eq_none heq.ge
      have hnew : (s.conns ++ [ConnLoop.new peerAddr now])[c]? = some (.new peerAddr now) := by
        rw [heq, List.getElem?_append_right (Nat.le_refl _), Nat.sub_self]
        rfl
      unfold TidyAt at *
      rw [hold] at h
      rw [hnew]
      exact h.accept peerAddr now rfl Iff.rfl fun k hk => hk
    · have hold : s.conns[c]? = none := List.getElem?_eq_none hgt.le
      have hnew : (s.conns ++ [ConnLoop.new peerAddr now])[c]? = none := by
        apply List.getElem?_eq_none
        rw [List.length_append, List.length_singleton]
        omega
      exact h.of_same (hnew.trans hold.symm) rfl Iff.rfl fun k hk => hk
  | transportClosed d hd => exact h.of_same rfl rfl Iff.rfl fun k hk => hk
  | conn d e l hl he hconn => exact stepConn_tidyAt h hl hk hconn
  | takeSignal x rest hup hx => exact processSignal_tidyAt h hx
  | closeClient name d hup hd => exact h.of_same rfl rfl Iff.rfl fun k hk => (lookup_erase_eq_some hk).2
  | closeUnknown name hup hnone => exact h
  | broadcast packet hup => exact h.of_same rfl rfl Iff.rfl fun k hk => hk
  | shutdown => exact h.of_same rfl rfl Iff.rfl fun k hk => hk

end Steps

section Recipients

variable {s : Server} {c : Nat}

theorem mem_recipients_iff : c ∈ s.recipients ↔ ∃ k, s.clients.lookup k = some c := by
  simp only [recipients, List.mem_map]
  constructor
  · rintro ⟨⟨k, d⟩, hmem, rfl⟩
    exact ⟨k, AList.mem_lookup_iff.mpr hmem⟩
  · rintro ⟨k, hk⟩
    exact ⟨⟨k, c⟩, AList.mem_lookup_iff.mp hk, rfl⟩

/-- A connection whose entries are all under one name has at most one entry. -/
theorem count_recipients_le_one (h : ∀ k k', s.clients.lookup k = some c →
    s.clients.lookup k' = some c → k = k') : s.recipients.count c ≤ 1 := by
  have hnodup : s.clients.entries.Nodup := s.clients.nodupKeys.nodup
  have hentry : ∀ k, (⟨k, c⟩ : Sigma fun _ : String => Nat) ∈ s.clients.entries →
      s.clients.lookup k = some c := fun k hk => AList.mem_lookup_iff.mpr hk
  rw [recipients, List.count_eq_countP, List.countP_map, List.countP_eq_length_filter]
  have hfilter : (s.clients.entries.filter ((· == c) ∘ fun entry => entry.2)).Nodup :=
    hnodup.filter _
  generalize hl : s.clients.entries.filter ((· == c) ∘ fun entry => entry.2) = l at hfilter
  match l, hl, hfilter with
  | [], _, _ => exact Nat.zero_le _
  | [_], _, _ => exact Nat.le_refl _
  | x :: y :: rest, hl, hfilter =>
    exfalso
    have hx : x ∈ s.clients.entries ∧ x.2 = c := by
      have hmem : x ∈ x :: y :: rest := List.mem_cons_self
      rw [← hl, List.mem_filter] at hmem
      exact ⟨hmem.1, beq_iff_eq.mp hmem.2⟩
    have hy : y ∈ s.clients.entries ∧ y.2 = c := by
      have hmem : y ∈ x :: y :: rest := List.mem_cons_of_mem _ List.mem_cons_self
      rw [← hl, List.mem_filter] at hmem
      exact ⟨hmem.1, beq_iff_eq.mp hmem.2⟩
    obtain ⟨k, d⟩ := x
    obtain ⟨k', d'⟩ := y
    obtain ⟨hx, rfl⟩ := hx
    obtain ⟨hy, rfl⟩ := hy
    have hkey := h k k' (hentry k hx) (hentry k' hy)
    subst hkey
    exact (List.nodup_cons.mp hfilter).1 List.mem_cons_self

theorem TidyAt.entries (h : s.TidyAt c) :
    s.recipients.count c ≤ 1 ∧ (c ∈ s.exited → c ∉ s.recipients) := by
  unfold TidyAt at h
  split at h
  next l hl =>
    refine ⟨count_recipients_le_one ?_, ?_⟩
    · intro k k' hk hk'
      rw [(h.entries k hk).2, (h.entries k' hk').2]
    · intro hc hmem
      obtain ⟨k, hk⟩ := mem_recipients_iff.mp hmem
      exact (h.gone hc).2 k hk
  next =>
    refine ⟨count_recipients_le_one ?_, fun hc => absurd hc h.exited⟩
    intro k k' hk
    exact absurd hk (h.entries k)

end Recipients

theorem new_tidyAt (c : Nat) : new.TidyAt c := by
  have hnone : ∀ k, new.clients.lookup k ≠ some c := by
    intro k hk
    rw [show new.clients = ∅ from rfl, AList.lookup_empty] at hk
    cases hk
  have habsent : new.Absent c := ⟨rfl, hnone, List.not_mem_nil⟩
  exact habsent

theorem step_broadcasts {decode : DecodeAuth} {conf : HealthyConfig} {s s' : Server}
    {e : ServerEvent} (hs : step decode conf s e = some s') :
    s'.broadcasts = s.broadcasts ∨ ∃ p, s'.broadcasts = s.broadcasts ++ [(p, s.recipients)] := by
  cases step_cases hs with
  | broadcast packet hup => exact Or.inr ⟨packet, rfl⟩
  | conn d e l hl he hconn =>
    obtain ⟨out, _, rfl⟩ := Option.map_eq_some_iff.mp hconn
    exact Or.inl rfl
  | takeSignal x rest hup hx => cases x <;> exact Or.inl rfl
  | _ => exact Or.inl rfl

/-- In every run in which the connection keeps its name, at most one entry of
`clients` carries its broadcast sender, every packet is put on its channel at
most once, and after its `Exit` no entry carries it. -/
theorem clients_at_most_one_entry (decode : DecodeAuth) (conf : HealthyConfig) (c : Nat)
    (events : List ServerEvent) (s : Server)
    (h : Machine.run (step decode conf) new events = some s)
    (hkeep : Machine.Meets (step decode conf) (KeepsName decode c) new events) :
    s.recipients.count c ≤ 1 ∧ (∀ b ∈ s.broadcasts, b.2.count c ≤ 1) ∧
      (c ∈ s.exited → c ∉ s.recipients) := by
  have hstep : ∀ (s : Server) (e : ServerEvent) (s' : Server),
      (s.TidyAt c ∧ ∀ b ∈ s.broadcasts, b.2.count c ≤ 1) → s.KeepsName decode c e →
      step decode conf s e = some s' → s'.TidyAt c ∧ ∀ b ∈ s'.broadcasts, b.2.count c ≤ 1 := by
    intro s e s' ⟨htidy, hsent⟩ hk hs
    refine ⟨step_tidyAt htidy hk hs, ?_⟩
    rcases step_broadcasts hs with hsame | ⟨p, hnew⟩
    · rw [hsame]
      exact hsent
    · rw [hnew]
      intro b hb
      rcases List.mem_append.mp hb with hb | hb
      · exact hsent b hb
      · rw [List.mem_singleton.mp hb]
        exact htidy.entries.1
  have hnil : ∀ b ∈ new.broadcasts, b.2.count c ≤ 1 := fun b hb => absurd hb List.not_mem_nil
  obtain ⟨htidy, hsent⟩ := Machine.run_invariant_of_meets hstep ⟨new_tidyAt c, hnil⟩ hkeep h
  exact ⟨htidy.entries.1, hsent, htidy.entries.2⟩

/-- A connection that authenticates twice under one name and then ends. -/
def sameNameRun : List ServerEvent :=
  [.accept "10.0.0.7:4001" 0, .conn 0 (.recv (authLetter 1 97) 1), .conn 0 (.authResult true),
    .conn 0 .newSent, .conn 0 .authForwarded, .takeSignal, .conn 0 (.recv (authLetter 2 97) 2),
    .conn 0 (.authResult false), .broadcast (.push ⟨0, .cmdSubDepth, .depths, 0, []⟩),
    .transportClosed 0, .conn 0 .recvClosed, .conn 0 .disconnected, .conn 0 .exitSent, .takeSignal]

theorem clients_at_most_one_entry_same_name :
    ∃ s, Machine.run (step decodeLetter ⟨30, 10, 0⟩) new sameNameRun = some s ∧ s.exited = [0] ∧
      s.recipients.count 0 ≤ 1 ∧ (∀ b ∈ s.broadcasts, b.2.count 0 ≤ 1) ∧
      (0 ∈ s.exited → 0 ∉ s.recipients) := by
  have hout : (Machine.run (step decodeLetter ⟨30, 10, 0⟩) new sameNameRun).map (·.exited) =
      some [0] := by
    decide +kernel
  obtain ⟨s, hrun, hexited⟩ := Option.map_eq_some_iff.mp hout
  exact ⟨s, hrun, hexited,
    clients_at_most_one_entry decodeLetter ⟨30, 10, 0⟩ 0 sameNameRun s hrun (by decide +kernel)⟩

/-- A connection that authenticates under two names: it is registered twice,
gets each packet twice, and its `Exit` leaves the first entry behind. -/
def twoNamesRun : List ServerEvent :=
  [.accept "10.0.0.7:4001" 0, .conn 0 (.recv (authLetter 1 97) 1), .conn 0 (.authResult true),
    .conn 0 .newSent, .conn 0 .authForwarded, .conn 0 (.recv (authLetter 2 98) 2),
    .conn 0 (.authResult true), .conn 0 .newSent, .conn 0 .authForwarded, .takeSignal, .takeSignal,
    .broadcast (.push ⟨0, .cmdSubDepth, .depths, 0, []⟩), .transportClosed 0, .conn 0 .recvClosed,
    .conn 0 .disconnected, .conn 0 .exitSent, .takeSignal]

theorem clients_at_most_one_entry_counterexample :
    ∃ s, Machine.run (step decodeLetter ⟨30, 10, 0⟩) new twoNamesRun = some s ∧
      (∃ b ∈ s.broadcasts, b.2.count 0 = 2) ∧ 0 ∈ s.exited ∧ 0 ∈ s.recipients := by
  have hout : (Machine.run (step decodeLetter ⟨30, 10, 0⟩) new twoNamesRun).map
      (fun s => (s.broadcasts.map (·.2), s.exited, s.recipients)) = some ([[0, 0]], [0], [0]) := by
    decide +kernel
  obtain ⟨s, hrun, hfinal⟩ := Option.map_eq_some_iff.mp hout
  obtain ⟨hsent, hrest⟩ := Prod.mk.inj hfinal
  obtain ⟨hexited, hrecipients⟩ := Prod.mk.inj hrest
  refine ⟨s, hrun, ?_, by rw [hexited]; decide, by rw [hrecipients]; decide⟩
  obtain ⟨b, rest, hb, hb2, _⟩ := List.map_eq_cons_iff.mp hsent
  exact ⟨b, hb ▸ List.mem_cons_self, by rw [hb2]; decide⟩

end Server

end QuoteLink

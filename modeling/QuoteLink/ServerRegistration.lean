import QuoteLink.ServerClients

namespace QuoteLink

def ClientSignal.isExit : ClientSignal → Bool
  | .new _ _ => false
  | .exit _ _ => true

namespace Server

/-- An unfinished connection uses a name as its own, in a queued signal, or as a
key of `clients`. -/
def Uses (s : Server) (d : Nat) (k : String) : Prop :=
  d ∉ s.exited ∧ (s.conns[d]?.map (·.clientName) = some k ∨
    (∃ x ∈ s.signals, x.conn = d ∧ x.name = k) ∨ s.clients.lookup k = some d)

instance (s : Server) (d : Nat) (k : String) : Decidable (s.Uses d k) :=
  inferInstanceAs (Decidable (_ ∧ (_ ∨ _ ∨ _)))

/-- No connection but `c` uses the name. -/
def NameFree (s : Server) (c : Nat) (k : String) : Prop :=
  ∀ d < s.conns.length, d ≠ c → ¬s.Uses d k

instance (s : Server) (c : Nat) (k : String) : Decidable (s.NameFree c k) :=
  inferInstanceAs (Decidable (∀ d < s.conns.length, d ≠ c → ¬s.Uses d k))

/-- A connection takes a name only while no other unfinished one uses it. -/
def OwnName (decode : DecodeAuth) (s : Server) : ServerEvent → Prop
  | .accept peerAddr _ => s.NameFree s.conns.length (nameAt "waitAuth" peerAddr)
  | .conn c (.recv (.request r) _) =>
    r.command = .auth → (s.conns[c]?).all fun l => (decode r.body).all fun auth =>
      s.NameFree c (nameAt (auth.authInfo.getD .default).clientName l.peerAddr)
  | _ => True

instance (decode : DecodeAuth) (s : Server) : ∀ e, Decidable (s.OwnName decode e)
  | .accept _ _ => inferInstanceAs (Decidable (NameFree _ _ _))
  | .conn _ (.recv (.request _) _) => inferInstanceAs (Decidable (_ → _))
  | .conn _ (.recv (.response _) _) | .conn _ (.recv (.push _) _) | .conn _ (.tick _)
  | .conn _ .exitSignal | .conn _ .recvClosed | .conn _ .replied | .conn _ .replyFailed | .conn _ (.authResult _)
  | .conn _ .newSent | .conn _ .authForwarded | .conn _ .disconnected | .conn _ .exitSent
  | .transportClosed _ | .takeSignal | .closeClient _ | .broadcast _
  | .shutdown => inferInstanceAs (Decidable True)

def DoneAt (s : Server) (d : Nat) : Prop := s.conns[d]?.map (·.pc) = some .done

/-- Signals come from accepted connections, and an `Exit` is the last of them. -/
structure Orderly (s : Server) : Prop where
  last : s.signals.Pairwise fun x y => x.isExit = true → y.conn ≠ x.conn
  exit_done : ∀ x ∈ s.signals, x.isExit = true → s.DoneAt x.conn
  exited_done : ∀ d ∈ s.exited, s.DoneAt d
  exited_silent : ∀ d ∈ s.exited, ∀ x ∈ s.signals, x.conn ≠ d
  signals_lt : ∀ x ∈ s.signals, x.conn < s.conns.length
  clients_lt : ∀ k d, s.clients.lookup k = some d → d < s.conns.length

section Orderly

variable {decode : DecodeAuth} {conf : HealthyConfig} {s s' : Server}

theorem Orderly.of_same (h : s.Orderly) (hconns : s'.conns = s.conns)
    (hsignals : s'.signals = s.signals) (hexited : s'.exited = s.exited)
    (hclients : ∀ k d, s'.clients.lookup k = some d → s.clients.lookup k = some d) :
    s'.Orderly where
  last := hsignals ▸ h.last
  exit_done := by
    rw [hsignals]
    intro x hx hexit
    have hdone := h.exit_done x hx hexit
    rwa [DoneAt, hconns]
  exited_done := by
    rw [hexited]
    intro d hd
    have hdone := h.exited_done d hd
    rwa [DoneAt, hconns]
  exited_silent := by
    rw [hexited, hsignals]
    exact h.exited_silent
  signals_lt := by
    rw [hsignals, hconns]
    exact h.signals_lt
  clients_lt := by
    rw [hconns]
    exact fun k d hk => h.clients_lt k d (hclients k d hk)

theorem Orderly.accept (h : s.Orderly) (l : ConnLoop) :
    ({ s with conns := s.conns ++ [l] } : Server).Orderly := by
  have hdone : ∀ d, s.DoneAt d → ({ s with conns := s.conns ++ [l] } : Server).DoneAt d := by
    intro d hd
    obtain ⟨m, hm, _⟩ := Option.map_eq_some_iff.mp hd
    have hlt := (List.getElem?_eq_some_iff.mp hm).1
    show (s.conns ++ [l])[d]?.map (·.pc) = some .done
    rw [List.getElem?_append_left hlt]
    exact hd
  have hlen : ∀ d, d < s.conns.length → d < (s.conns ++ [l]).length := by
    intro d hd
    rw [List.length_append]
    omega
  exact ⟨h.last, fun x hx hexit => hdone _ (h.exit_done x hx hexit),
    fun d hd => hdone d (h.exited_done d hd), h.exited_silent,
    fun x hx => hlen _ (h.signals_lt x hx), fun k d hk => hlen d (h.clients_lt k d hk)⟩

theorem SignalCase.signals_spec {l l' : ConnLoop} {c : Nat} {e : ConnEvent}
    {sig : List ClientSignal} (h : l.SignalCase decode c e l' sig) :
    (∀ x ∈ sig, x.conn = c) ∧ (∀ x ∈ sig, x.name = l.clientName) ∧
      (∀ x ∈ sig, x.isExit = true → l'.pc = .done) ∧
      sig.Pairwise fun x y => x.isExit = true → y.conn ≠ x.conn := by
  cases h with
  | quiet => simp
  | renames => simp
  | registers => simp [ClientSignal.conn, ClientSignal.name, ClientSignal.isExit]
  | ends hname hauth hpc => simp [ClientSignal.conn, ClientSignal.name, hpc]

theorem SignalCase.name_spec {l l' : ConnLoop} {c : Nat} {e : ConnEvent}
    {sig : List ClientSignal} (h : l.SignalCase decode c e l' sig) :
    l'.clientName = l.clientName ∨ ∃ r now auth, e = .recv (.request r) now ∧ r.command = .auth ∧
      decode r.body = some auth ∧
      l'.clientName = nameAt (auth.authInfo.getD .default).clientName l.peerAddr := by
  cases h with
  | quiet hname => exact Or.inl hname
  | renames r now auth he hr hdecode hname => exact Or.inr ⟨r, now, auth, he, hr, hdecode, hname⟩
  | registers _ _ hname => exact Or.inl hname
  | ends hname => exact Or.inl hname

/-- The connection whose loop steps is not done, so no `Exit` of it is queued. -/
theorem Orderly.stepConn {c : Nat} {e : ConnEvent} {l : ConnLoop} (h : s.Orderly)
    (hl : s.conns[c]? = some l) (hs : s.stepConn decode conf c e l = some s') : s'.Orderly := by
  obtain ⟨out, hout, rfl⟩ := Option.map_eq_some_iff.mp hs
  obtain ⟨hpc, _, hcase⟩ := ConnLoop.step_signals c hout
  obtain ⟨hconn, _, hexit, hpair⟩ := SignalCase.signals_spec hcase
  have hlt : c < s.conns.length := (List.getElem?_eq_some_iff.mp hl).1
  have hnotdone : ¬s.DoneAt c := by
    intro hdone
    rw [DoneAt, hl] at hdone
    exact hpc (Option.some.inj hdone)
  have hdone : ∀ d, s.DoneAt d → (s.conns.set c out.1)[d]?.map (·.pc) = some .done := by
    intro d hd
    have hne : c ≠ d := by
      rintro rfl
      exact hnotdone hd
    rw [List.getElem?_set_ne hne]
    exact hd
  refine ⟨?_, ?_, fun d hd => hdone d (h.exited_done d hd), ?_, ?_, ?_⟩
  · refine List.pairwise_append.mpr ⟨h.last, hpair, ?_⟩
    intro x hx y hy hxexit heq
    rw [hconn y hy] at heq
    exact hnotdone (heq ▸ h.exit_done x hx hxexit)
  · intro x hx hxexit
    rcases List.mem_append.mp hx with hx | hx
    · exact hdone _ (h.exit_done x hx hxexit)
    · show (s.conns.set c out.1)[x.conn]?.map (·.pc) = some .done
      rw [hconn x hx, List.getElem?_set_self hlt, Option.map_some, hexit x hx hxexit]
  · intro d hd x hx
    rcases List.mem_append.mp hx with hx | hx
    · exact h.exited_silent d hd x hx
    · rintro rfl
      rw [hconn x hx] at hd
      exact hnotdone (h.exited_done c hd)
  · intro x hx
    rw [List.length_set]
    rcases List.mem_append.mp hx with hx | hx
    · exact h.signals_lt x hx
    · rw [hconn x hx]
      exact hlt
  · intro k d hk
    rw [List.length_set]
    exact h.clients_lt k d hk

theorem Orderly.processSignal {x : ClientSignal} {rest : List ClientSignal} (h : s.Orderly)
    (hx : s.signals = x :: rest) : (({ s with signals := rest } : Server).processSignal x).Orderly := by
  have hlast := List.pairwise_cons.mp (hx ▸ h.last)
  have hmem : ∀ y ∈ rest, y ∈ s.signals := fun y hy => hx ▸ List.mem_cons_of_mem x hy
  have hhead : x ∈ s.signals := hx ▸ List.mem_cons_self
  cases x with
  | new k c =>
    refine ⟨hlast.2, fun y hy => h.exit_done y (hmem y hy), h.exited_done,
      fun d hd y hy => h.exited_silent d hd y (hmem y hy), fun y hy => h.signals_lt y (hmem y hy), ?_⟩
    intro k' d hk'
    rcases lookup_insert_eq_some hk' with ⟨_, rfl⟩ | hold
    · exact h.signals_lt _ hhead
    · exact h.clients_lt k' d hold
  | exit k c =>
    refine ⟨hlast.2, fun y hy => h.exit_done y (hmem y hy), ?_, ?_,
      fun y hy => h.signals_lt y (hmem y hy),
      fun k' d hk' => h.clients_lt k' d (lookup_erase_eq_some hk').2⟩
    · intro d hd
      rcases List.mem_append.mp hd with hd | hd
      · exact h.exited_done d hd
      · rw [List.mem_singleton.mp hd]
        exact h.exit_done _ hhead rfl
    · intro d hd y hy
      rcases List.mem_append.mp hd with hd | hd
      · exact h.exited_silent d hd y (hmem y hy)
      · rw [List.mem_singleton.mp hd]
        exact hlast.1 y hy rfl

end Orderly

/-- No two unfinished connections use one name, and what was registered is in
`clients`. -/
structure Owned (s : Server) : Prop where
  orderly : s.Orderly
  unique : ∀ k d e, s.Uses d k → s.Uses e k → d = e
  kept : ∀ r ∈ s.registered, r.1 ∉ s.exited ∧ s.clients.lookup r.2 = some r.1

section Owned

variable {decode : DecodeAuth} {conf : HealthyConfig} {s s' : Server}

theorem Orderly.lt_of_uses (h : s.Orderly) {d : Nat} {k : String} (hu : s.Uses d k) :
    d < s.conns.length := by
  obtain ⟨_, hname | ⟨x, hx, rfl, _⟩ | hentry⟩ := hu
  · obtain ⟨l, hl, _⟩ := Option.map_eq_some_iff.mp hname
    exact (List.getElem?_eq_some_iff.mp hl).1
  · exact h.signals_lt x hx
  · exact h.clients_lt k d hentry

theorem Orderly.of_nameFree (h : s.Orderly) {c d : Nat} {k : String} (hfree : s.NameFree c k)
    (hu : s.Uses d k) : d = c := by
  by_contra hne
  exact hfree d (h.lt_of_uses hu) hne hu

/-- One connection may take a name that no other one uses. -/
theorem Owned.unique_of_take (h : s.Owned) (c : Nat) (k : String)
    (htake : ∀ d k', s'.Uses d k' → s.Uses d k' ∨ d = c ∧ k' = k) (hfree : ∀ d, s.Uses d k → d = c) :
    ∀ k' d e, s'.Uses d k' → s'.Uses e k' → d = e := by
  intro k' d e hd he
  rcases htake d k' hd with hd | ⟨rfl, rfl⟩
  · rcases htake e k' he with he | ⟨rfl, rfl⟩
    · exact h.unique k' d e hd he
    · exact hfree d hd
  · rcases htake e k' he with he | ⟨rfl, _⟩
    · exact (hfree e he).symm
    · rfl

theorem Owned.accept (h : s.Owned) (l : ConnLoop) (hfree : s.NameFree s.conns.length l.clientName) :
    ({ s with conns := s.conns ++ [l] } : Server).Owned := by
  refine ⟨h.orderly.accept l, ?_, h.kept⟩
  refine h.unique_of_take s.conns.length l.clientName ?_ fun d hd => h.orderly.of_nameFree hfree hd
  rintro d k ⟨hexited, hname | hrest⟩
  · rcases Nat.lt_or_ge d s.conns.length with hlt | hge
    · left
      have hold : s.conns[d]?.map (·.clientName) = some k := by
        rw [← List.getElem?_append_left hlt]
        exact hname
      exact ⟨hexited, Or.inl hold⟩
    · right
      obtain ⟨m, hm, rfl⟩ := Option.map_eq_some_iff.mp hname
      have hlt := (List.getElem?_eq_some_iff.mp hm).1
      rw [List.length_append, List.length_singleton] at hlt
      have hd : d = s.conns.length := by omega
      subst hd
      have hm' : (s.conns ++ [l])[s.conns.length]? = some m := hm
      rw [List.getElem?_append_right (Nat.le_refl _), Nat.sub_self] at hm'
      cases hm'
      exact ⟨rfl, rfl⟩
  · exact Or.inl ⟨hexited, Or.inr hrest⟩

theorem Owned.stepConn {c : Nat} {e : ConnEvent} {l : ConnLoop} (h : s.Owned)
    (hl : s.conns[c]? = some l) (hown : s.OwnName decode (.conn c e))
    (hs : s.stepConn decode conf c e l = some s') : s'.Owned := by
  have horderly := h.orderly.stepConn hl hs
  obtain ⟨out, hout, rfl⟩ := Option.map_eq_some_iff.mp hs
  obtain ⟨hpc, _, hcase⟩ := ConnLoop.step_signals c hout
  obtain ⟨hconn, hname, _, _⟩ := SignalCase.signals_spec hcase
  have hlt : c < s.conns.length := (List.getElem?_eq_some_iff.mp hl).1
  have hrunning : c ∉ s.exited := by
    intro hc
    have hdone := h.orderly.exited_done c hc
    rw [DoneAt, hl] at hdone
    exact hpc (Option.some.inj hdone)
  have hold : s.Uses c l.clientName := ⟨hrunning, Or.inl (by rw [hl]; rfl)⟩
  have hfree : ∀ d, s.Uses d out.1.clientName → d = c := by
    intro d hd
    rcases SignalCase.name_spec hcase with heq | ⟨r, now, auth, rfl, hr, hdecode, heq⟩
    · rw [heq] at hd
      exact h.unique _ d c hd hold
    · have hall := hown hr
      rw [hl, Option.all_some, hdecode, Option.all_some, ← heq] at hall
      exact h.orderly.of_nameFree (of_decide_eq_true hall) hd
  refine ⟨horderly, h.unique_of_take c out.1.clientName ?_ hfree, h.kept⟩
  rintro d k ⟨hexited, hcur | ⟨x, hx, rfl, rfl⟩ | hentry⟩
  · by_cases hd : c = d
    · subst hd
      right
      have hset : (s.conns.set c out.1)[c]?.map (·.clientName) = some k := hcur
      rw [List.getElem?_set_self hlt] at hset
      exact ⟨rfl, (Option.some.inj hset).symm⟩
    · left
      have hset : (s.conns.set c out.1)[d]?.map (·.clientName) = some k := hcur
      rw [List.getElem?_set_ne hd] at hset
      exact ⟨hexited, Or.inl hset⟩
  · left
    rcases List.mem_append.mp hx with hx | hx
    · exact ⟨hexited, Or.inr (Or.inl ⟨x, hx, rfl, rfl⟩)⟩
    · rw [hconn x hx, hname x hx]
      exact hold
  · exact Or.inl ⟨hexited, Or.inr (Or.inr hentry)⟩

/-- A signal is about the connection that sent it, since no other uses its name. -/
theorem Owned.processSignal {x : ClientSignal} {rest : List ClientSignal} (h : s.Owned)
    (hx : s.signals = x :: rest) : (({ s with signals := rest } : Server).processSignal x).Owned := by
  have horderly := h.orderly.processSignal hx
  have hmem : ∀ y ∈ rest, y ∈ s.signals := fun y hy => hx ▸ List.mem_cons_of_mem x hy
  have hhead : x ∈ s.signals := hx ▸ List.mem_cons_self
  have hrunning : x.conn ∉ s.exited := fun hc => h.orderly.exited_silent _ hc x hhead rfl
  have hsender : s.Uses x.conn x.name := ⟨hrunning, Or.inr (Or.inl ⟨x, hhead, rfl, rfl⟩)⟩
  cases x with
  | new k c =>
    have hshrink : ∀ d k', (({ s with signals := rest } : Server).processSignal (.new k c)).Uses d k' →
        s.Uses d k' := by
      rintro d k' ⟨hexited, hname | ⟨y, hy, hyd, hyk⟩ | hentry⟩
      · exact ⟨hexited, Or.inl hname⟩
      · exact ⟨hexited, Or.inr (Or.inl ⟨y, hmem y hy, hyd, hyk⟩)⟩
      · rcases lookup_insert_eq_some hentry with ⟨rfl, rfl⟩ | hold
        · exact hsender
        · exact ⟨hexited, Or.inr (Or.inr hold)⟩
    refine ⟨horderly, fun k' d e hd he => h.unique k' d e (hshrink d k' hd) (hshrink e k' he), ?_⟩
    intro r hr
    rcases List.mem_append.mp hr with hr | hr
    · obtain ⟨hexited, hentry⟩ := h.kept r hr
      refine ⟨hexited, ?_⟩
      show (s.clients.insert k c).lookup r.2 = some r.1
      by_cases heq : r.2 = k
      · have huses : s.Uses r.1 k := ⟨hexited, Or.inr (Or.inr (heq ▸ hentry))⟩
        rw [heq, AList.lookup_insert, h.unique k r.1 c huses hsender]
      · rw [AList.lookup_insert_ne heq]
        exact hentry
    · rw [List.mem_singleton.mp hr]
      exact ⟨hrunning, AList.lookup_insert _⟩
  | exit k c =>
    have hshrink : ∀ d k', (({ s with signals := rest } : Server).processSignal (.exit k c)).Uses d k' →
        s.Uses d k' := by
      rintro d k' ⟨hexited, hrest⟩
      refine ⟨fun hd => hexited (List.mem_append_left _ hd), ?_⟩
      rcases hrest with hname | ⟨y, hy, hyd, hyk⟩ | hentry
      · exact Or.inl hname
      · exact Or.inr (Or.inl ⟨y, hmem y hy, hyd, hyk⟩)
      · exact Or.inr (Or.inr (lookup_erase_eq_some hentry).2)
    refine ⟨horderly, fun k' d e hd he => h.unique k' d e (hshrink d k' hd) (hshrink e k' he), ?_⟩
    intro r hr
    obtain ⟨hr, hother⟩ := List.mem_filter.mp hr
    have hne : r.1 ≠ c := of_decide_eq_true hother
    obtain ⟨hexited, hentry⟩ := h.kept r hr
    constructor
    · intro hd
      rcases List.mem_append.mp hd with hd | hd
      · exact hexited hd
      · exact hne (List.mem_singleton.mp hd)
    · show (s.clients.erase k).lookup r.2 = some r.1
      have hkey : r.2 ≠ k := by
        intro heq
        have huses : s.Uses r.1 k := ⟨hexited, Or.inr (Or.inr (heq ▸ hentry))⟩
        exact hne (h.unique k r.1 c huses hsender)
      rw [AList.lookup_erase_ne hkey]
      exact hentry

theorem Owned.of_same (h : s.Owned) (hconns : s'.conns = s.conns) (hsignals : s'.signals = s.signals)
    (hexited : s'.exited = s.exited)
    (hclients : ∀ k d, s'.clients.lookup k = some d → s.clients.lookup k = some d)
    (hkept : ∀ r ∈ s'.registered, r ∈ s.registered ∧
      s'.clients.lookup r.2 = s.clients.lookup r.2) : s'.Owned := by
  have hshrink : ∀ d k, s'.Uses d k → s.Uses d k := by
    rintro d k ⟨hnot, hrest⟩
    rw [hexited] at hnot
    rw [hconns, hsignals] at hrest
    exact ⟨hnot, hrest.imp id (Or.imp id (hclients k d))⟩
  refine ⟨h.orderly.of_same hconns hsignals hexited hclients,
    fun k d e hd he => h.unique k d e (hshrink d k hd) (hshrink e k he), ?_⟩
  intro r hr
  obtain ⟨hr, hsame⟩ := hkept r hr
  rw [hexited, hsame]
  exact h.kept r hr

theorem step_owned {e : ServerEvent} (h : s.Owned) (hown : s.OwnName decode e)
    (hs : step decode conf s e = some s') : s'.Owned := by
  cases step_cases hs with
  | accept peerAddr now hcan => exact h.accept (.new peerAddr now) hown
  | transportClosed d hd => exact h.of_same rfl rfl rfl (fun _ _ hk => hk) fun r hr => ⟨hr, rfl⟩
  | conn c e l hl he hconn => exact h.stepConn hl hown hconn
  | takeSignal x rest hup hx => exact h.processSignal hx
  | closeClient name d hup hd =>
    refine h.of_same rfl rfl rfl (fun k d hk => (lookup_erase_eq_some hk).2) ?_
    intro r hr
    obtain ⟨hr, hother⟩ := List.mem_filter.mp hr
    exact ⟨hr, AList.lookup_erase_ne (of_decide_eq_true hother)⟩
  | closeUnknown name hup hnone => exact h
  | broadcast packet hup => exact h.of_same rfl rfl rfl (fun _ _ hk => hk) fun r hr => ⟨hr, rfl⟩
  | shutdown => exact h.of_same rfl rfl rfl (fun _ _ hk => hk) fun r hr => ⟨hr, rfl⟩

theorem new_owned : new.Owned := by
  have hnone : ∀ k d, new.clients.lookup k ≠ some d := by
    intro k d hk
    rw [show new.clients = ∅ from rfl, AList.lookup_empty] at hk
    cases hk
  refine ⟨⟨List.Pairwise.nil, ?_, ?_, ?_, ?_, fun k d hk => absurd hk (hnone k d)⟩, ?_, ?_⟩
  · exact fun x hx => absurd hx List.not_mem_nil
  · exact fun d hd => absurd hd List.not_mem_nil
  · exact fun d hd => absurd hd List.not_mem_nil
  · exact fun x hx => absurd hx List.not_mem_nil
  · rintro k d e ⟨_, hname | ⟨x, hx, _⟩ | hentry⟩ _
    · cases hname
    · exact absurd hx List.not_mem_nil
    · exact absurd hentry (hnone k d)
  · exact fun r hr => absurd hr List.not_mem_nil

end Owned

/-- In every run in which no connection takes a name that another unfinished one
uses, a registered connection stays in `clients` until its own `Exit` is
processed or a `CloseClient` names it. -/
theorem registered_stays (decode : DecodeAuth) (conf : HealthyConfig) (events : List ServerEvent)
    (s : Server) (h : Machine.run (step decode conf) new events = some s)
    (hown : Machine.Meets (step decode conf) (OwnName decode) new events) :
    ∀ r ∈ s.registered, s.clients.lookup r.2 = some r.1 := by
  have hstep : ∀ (s : Server) (e : ServerEvent) (s' : Server), s.Owned → s.OwnName decode e →
      step decode conf s e = some s' → s'.Owned := fun _ _ _ h hown hs => step_owned h hown hs
  have howned := Machine.run_invariant_of_meets hstep new_owned hown h
  exact fun r hr => (howned.kept r hr).2

/-- Two peers with one client name; the first one leaves. -/
def twoPeersRun : List ServerEvent :=
  [.accept "10.0.0.7:4001" 0, .conn 0 (.recv (authLetter 1 97) 1), .conn 0 (.authResult true),
    .conn 0 .newSent, .accept "10.0.0.8:4001" 2, .conn 1 (.recv (authLetter 1 97) 3),
    .conn 1 (.authResult true), .conn 1 .newSent, .takeSignal, .takeSignal, .conn 0 .authForwarded,
    .transportClosed 0, .conn 0 .recvClosed, .conn 0 .disconnected, .conn 0 .exitSent, .takeSignal]

theorem registered_stays_two_peers :
    ∃ s, Machine.run (step decodeLetter ⟨30, 10, 0⟩) new twoPeersRun = some s ∧
      s.registered = [(1, "a@10.0.0.8:4001")] ∧
      ∀ r ∈ s.registered, s.clients.lookup r.2 = some r.1 := by
  have hout : (Machine.run (step decodeLetter ⟨30, 10, 0⟩) new twoPeersRun).map (·.registered) =
      some [(1, "a@10.0.0.8:4001")] := by
    decide +kernel
  obtain ⟨s, hrun, hregistered⟩ := Option.map_eq_some_iff.mp hout
  exact ⟨s, hrun, hregistered,
    registered_stays decodeLetter ⟨30, 10, 0⟩ twoPeersRun s hrun (by decide +kernel)⟩

/-- A peer comes back from the same address while its old connection is still in
`on_disconnect`; the late `Exit` of the old one removes the new one. -/
def comeBackRun : List ServerEvent :=
  [.accept "10.0.0.7:4001" 0, .conn 0 (.recv (authLetter 1 97) 1), .conn 0 (.authResult true),
    .conn 0 .newSent, .conn 0 .authForwarded, .takeSignal, .transportClosed 0, .conn 0 .recvClosed,
    .accept "10.0.0.7:4001" 2, .conn 1 (.recv (authLetter 1 97) 3), .conn 1 (.authResult true),
    .conn 1 .newSent, .conn 1 .authForwarded, .takeSignal, .conn 0 .disconnected, .conn 0 .exitSent,
    .takeSignal]

theorem registered_stays_counterexample :
    ∃ s, Machine.run (step decodeLetter ⟨30, 10, 0⟩) new comeBackRun = some s ∧
      s.registered = [(1, "a@10.0.0.7:4001")] ∧ s.exited = [0] ∧ s.recipients = [] ∧
      s.clients.lookup "a@10.0.0.7:4001" = none := by
  have hout : (Machine.run (step decodeLetter ⟨30, 10, 0⟩) new comeBackRun).map
      (fun s => (s.registered, s.exited, s.recipients, s.clients.lookup "a@10.0.0.7:4001")) =
      some ([(1, "a@10.0.0.7:4001")], [0], [], none) := by
    decide +kernel
  obtain ⟨s, hrun, hfinal⟩ := Option.map_eq_some_iff.mp hout
  obtain ⟨hregistered, hrest⟩ := Prod.mk.inj hfinal
  obtain ⟨hexited, hrest⟩ := Prod.mk.inj hrest
  obtain ⟨hrecipients, hlookup⟩ := Prod.mk.inj hrest
  exact ⟨s, hrun, hregistered, hexited, hrecipients, hlookup⟩

end Server

end QuoteLink

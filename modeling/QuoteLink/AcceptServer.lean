import QuoteLink.AcceptDelivery

namespace QuoteLink

namespace AcceptLoop

section Refinement

variable {decode : DecodeAuth} {healthy : HealthyConfig} {conf : AcceptConfig} {s s' : AcceptLoop} {t : Server}
  {e : AcceptEvent}

/-- The server has the same connections, and the same of them have ended. -/
structure Matches (s : AcceptLoop) (t : Server) : Prop where
  conns : ∀ c : Nat, (t.conns[c]?).map (fun l => (l.peerAddr, t.closed.contains c)) =
    (s.channels[c]?).map fun ch => (ch.peerAddr, ch.closed)
  bound : ∀ c ∈ t.closed, c < t.conns.length

theorem Matches.length_eq (h : s.Matches t) : t.conns.length = s.channels.length := by
  have hle : ¬s.channels.length < t.conns.length := by
    intro hlt
    have hconn := h.conns s.channels.length
    rw [List.getElem?_eq_getElem hlt, List.getElem?_eq_none (Nat.le_refl _)] at hconn
    cases hconn
  have hge : ¬t.conns.length < s.channels.length := by
    intro hlt
    have hconn := h.conns t.conns.length
    rw [List.getElem?_eq_getElem hlt, List.getElem?_eq_none (Nat.le_refl _)] at hconn
    cases hconn
  omega

/-- The guard of the server's accept is what the loop checks: an address that leads
nowhere has no open connection. -/
theorem Matches.canAccept (h : s.Matches t) (hs : s.Sound) {peer : String} (hup : s.stopped = false)
    (hnew : s.routes.lookup peer = none) : t.canAccept peer = true := by
  refine List.all_eq_true.mpr ?_
  rintro ⟨l, c⟩ hl
  have hconn := h.conns c
  rw [List.mk_mem_zipIdx_iff_getElem?.mp hl, Option.map_some] at hconn
  obtain ⟨ch, hch, hsame⟩ := Option.map_eq_some_iff.mp hconn.symm
  obtain ⟨hpeer, hclosed⟩ := Prod.mk.inj hsame
  by_cases hne : l.peerAddr = peer
  · have hended : ch.closed = true := by
      by_contra hopen
      have hroute := hs.routed hup c ch hch (Bool.eq_false_of_not_eq_true hopen)
      rw [hpeer, hne, hnew] at hroute
      cases hroute
    rw [hended] at hclosed
    simp only [← hclosed, Bool.or_true]
  · simp only [bne_iff_ne.mpr hne, Bool.true_or]

theorem Matches.set (h : s.Matches t) {c : Nat} {ch ch' : DatagramChannel} (hch : s.channels[c]? = some ch)
    (haddr : ch'.peerAddr = ch.peerAddr) (hclosed : ch'.closed = ch.closed) (arrivals : List (String × Bytes)) :
    Matches { s with channels := s.channels.set c ch', arrivals := arrivals } t := by
  refine ⟨fun d => (h.conns d).trans ?_, h.bound⟩
  by_cases heq : c = d
  · subst heq
    have hlt := (List.getElem?_eq_some_iff.mp hch).1
    rw [hch, List.getElem?_set_self hlt, Option.map_some, Option.map_some, haddr, hclosed]
  · rw [List.getElem?_set_ne heq]

theorem Matches.accept (h : s.Matches t) (peer : String) (now : Nat) {ch : DatagramChannel}
    (haddr : ch.peerAddr = peer) (hopen : ch.closed = false) (c : Nat) :
    ((t.conns ++ [ConnLoop.new peer now])[c]?).map (fun l => (l.peerAddr, t.closed.contains c)) =
      ((s.channels ++ [ch])[c]?).map fun ch => (ch.peerAddr, ch.closed) := by
  have hlen := h.length_eq
  rcases Nat.lt_trichotomy c s.channels.length with hlt | heq | hgt
  · rw [List.getElem?_append_left (by omega), List.getElem?_append_left hlt]
    exact h.conns c
  · have hfresh : t.closed.contains c = false := by
      by_contra hmem
      have hlt := h.bound c (List.contains_iff_mem.mp (Bool.eq_true_of_not_eq_false hmem))
      omega
    rw [hfresh, heq, List.getElem?_concat_length, ← hlen, List.getElem?_concat_length, Option.map_some,
      Option.map_some, haddr, hopen]
    rfl
  · rw [List.getElem?_eq_none (by simp; omega), List.getElem?_eq_none (by simp; omega)]
    rfl

theorem Matches.close (h : s.Matches t) {c : Nat} {ch ch' : DatagramChannel} (hch : s.channels[c]? = some ch)
    (haddr : ch'.peerAddr = ch.peerAddr) (hclosed : ch'.closed = true) :
    Matches { s with channels := s.channels.set c ch' } { t with closed := t.closed ++ [c] } := by
  have hlt := (List.getElem?_eq_some_iff.mp hch).1
  refine ⟨fun d => ?_, fun d hd => ?_⟩
  · have hold := h.conns d
    show (t.conns[d]?).map (fun l => (l.peerAddr, (t.closed ++ [c]).contains d)) = _
    by_cases heq : c = d
    · subst heq
      rw [hch, Option.map_some] at hold
      obtain ⟨l, hl, hsame⟩ := Option.map_eq_some_iff.mp hold
      have hmem : (t.closed ++ [c]).contains c = true := by simp
      rw [hl, List.getElem?_set_self hlt, Option.map_some, Option.map_some, hmem, haddr, hclosed,
        (Prod.mk.inj hsame).1]
    · have hsame : (t.closed ++ [c]).contains d = t.closed.contains d := by
        have hne : d ≠ c := fun h => heq h.symm
        simp [hne]
      rw [hsame, List.getElem?_set_ne heq]
      exact hold
  · rcases List.mem_append.mp hd with hd | hd
    · exact h.bound d hd
    · rw [List.mem_singleton.mp hd]
      show c < t.conns.length
      rw [h.length_eq]
      exact hlt

/-- What a step of the loop is for the server: a connection is accepted or ends, or
nothing happens. -/
theorem step_matches (now : Nat) (h : s.Matches t) (hs : s.Sound) (hstep : s.step conf e = some s') :
    ∃ es t', Machine.run (Server.step decode healthy) t es = some t' ∧ s'.Matches t' := by
  cases step_cases hstep with
  | opened peer data queue hup hnew _ =>
    have hcan := h.canAccept hs hup hnew
    refine ⟨[.accept peer now], { t with conns := t.conns ++ [.new peer now] }, ?_, ?_, ?_⟩
    · simp only [Machine.run, Server.step, hcan, if_true, Option.bind_some]
    · exact h.accept peer now rfl rfl
    · intro c hc
      have hlt := h.bound c hc
      show c < (t.conns ++ [ConnLoop.new peer now]).length
      rw [List.length_append]
      omega
  | close c ch ch' hch hmove =>
    obtain ⟨hlt, _⟩ := List.getElem?_eq_some_iff.mp hch
    obtain ⟨_, hkept⟩ := (hs.channels ch (List.mem_of_getElem? hch)).close hmove
    refine ⟨[.transportClosed c], { t with closed := t.closed ++ [c] }, ?_, h.close hch hkept.peerAddr ?_⟩
    · rw [← h.length_eq] at hlt
      simp only [Machine.run, Server.step, hlt, if_true, Option.bind_some]
    · exact DatagramChannel.closed_of_close hmove
  | pushed peer data c ch _ hch _ =>
    exact ⟨[], t, rfl, h.set hch (ch.peerAddr_push _) (ch.closed_push _) _⟩
  | sendDeferred c i ch ch' hch hmove =>
    obtain ⟨_, hkept⟩ := (hs.channels ch (List.mem_of_getElem? hch)).sendDeferred hmove
    exact ⟨[], t, rfl, h.set hch hkept.peerAddr (DatagramChannel.closed_of_sendDeferred hmove) _⟩
  | recv c ch ch' hch hmove =>
    obtain ⟨_, hkept⟩ := (hs.channels ch (List.mem_of_getElem? hch)).recv hmove
    exact ⟨[], t, rfl, h.set hch hkept.peerAddr (DatagramChannel.closed_of_recv hmove) _⟩
  | _ => exact ⟨[], t, rfl, h.conns, h.bound⟩

end Refinement

/-- The accept loop does what the server's connections are accepted by: every run of it
is one of the server, in which the same peers are accepted in the same order, each when
the server's guard allows it, and the same connections have ended. -/
theorem refines_server_accept (decode : DecodeAuth) (healthy : HealthyConfig) (now : Nat) (conf : AcceptConfig)
    (events : List AcceptEvent) (s : AcceptLoop) (hrun : Machine.run (step conf) new events = some s) :
    ∃ es t, Machine.run (Server.step decode healthy) Server.new es = some t ∧
      t.conns.map (·.peerAddr) = s.channels.map (·.peerAddr) ∧
      ∀ c, c ∈ t.closed ↔ ∃ ch : DatagramChannel, s.channels[c]? = some ch ∧ ch.closed = true := by
  have hstep : ∀ (s : AcceptLoop) e (s' : AcceptLoop),
      (s.Sound ∧ ∃ es t, Machine.run (Server.step decode healthy) Server.new es = some t ∧ s.Matches t) →
      s.step conf e = some s' →
      s'.Sound ∧ ∃ es t, Machine.run (Server.step decode healthy) Server.new es = some t ∧ s'.Matches t := by
    rintro s e s' ⟨hs, es, t, hes, h⟩ hstep
    have hmatch : ∃ fs u, Machine.run (Server.step decode healthy) t fs = some u ∧ s'.Matches u :=
      step_matches now h hs hstep
    obtain ⟨fs, t', hfs, h'⟩ := hmatch
    exact ⟨step_sound hs hstep, es ++ fs, t', Machine.run_append hes hfs, h'⟩
  have hnew : new.Matches Server.new := ⟨fun _ => rfl, fun _ h => absurd h List.not_mem_nil⟩
  obtain ⟨_, es, t, hes, h⟩ := Machine.run_invariant hstep ⟨new_sound, [], Server.new, rfl, hnew⟩ hrun
  refine ⟨es, t, hes, ?_, fun c => ?_⟩
  · refine List.ext_getElem? fun c => ?_
    have hc := congrArg (Option.map Prod.fst) (h.conns c)
    rw [Option.map_map, Option.map_map] at hc
    rw [List.getElem?_map, List.getElem?_map]
    exact hc
  · have hc := h.conns c
    constructor
    · intro hmem
      have hlt := h.bound c hmem
      rw [List.getElem?_eq_getElem hlt, Option.map_some] at hc
      obtain ⟨ch, hch, hsame⟩ := Option.map_eq_some_iff.mp hc.symm
      exact ⟨ch, hch, (Prod.mk.inj hsame).2.trans (List.contains_iff_mem.mpr hmem)⟩
    · rintro ⟨ch, hch, hclosed⟩
      rw [hch, Option.map_some] at hc
      obtain ⟨l, _, hsame⟩ := Option.map_eq_some_iff.mp hc
      exact List.contains_iff_mem.mp ((Prod.mk.inj hsame).2.trans hclosed)

theorem refines_server_accept_reopened :
    ∃ s, Machine.run (step ⟨1500, 2⟩) new acceptEvents = some s ∧
      ∃ es t, Machine.run (Server.step decodeLetter ⟨30, 10, 3⟩) Server.new es = some t ∧
        t.conns.map (·.peerAddr) = s.channels.map (·.peerAddr) := by
  have hsome : (Machine.run (step ⟨1500, 2⟩) new acceptEvents).isSome = true := by decide +kernel
  obtain ⟨s, hrun⟩ := Option.isSome_iff_exists.mp hsome
  obtain ⟨es, t, hes, hconns, _⟩ :=
    refines_server_accept decodeLetter ⟨30, 10, 3⟩ 0 ⟨1500, 2⟩ acceptEvents s hrun
  exact ⟨s, hrun, es, t, hes, hconns⟩

end AcceptLoop

end QuoteLink

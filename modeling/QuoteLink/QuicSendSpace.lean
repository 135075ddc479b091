import QuoteLink.QuicSendIntegrity

namespace QuoteLink

/-- The exits for want of space in `stream_send_buffer`. -/
def QuicExit.isShortage : QuicExit → Bool
  | .maxLen _ _ => true
  | .pushSlice _ => true
  | _ => false

namespace QuicEvent

/-- The event ends one of the loops over `stream_send`. -/
def endsLoop : QuicEvent → Bool
  | .loopEnd => true
  | .streamSend .done _ => true
  | _ => false

/-- Neither `stream_send` nor the `conn_send_loop!` behind it fails. -/
def errorless : QuicEvent → Bool
  | .streamSend .err _ => false
  | .streamSend (.ok _) connSend => connSend
  | _ => true

end QuicEvent

namespace QuicSend

/-- When the leftovers are drained, the frame is longer than what is left of
them, or it fits the tail of the buffer. -/
def FrameFits (s : QuicSend) (e : QuicEvent) : Prop :=
  match s.pc with
  | .frameFlush b => e.endsLoop = true → s.streamSendBuffer.reuseIf.1.TailFits b.length
  | _ => True

instance (s : QuicSend) (e : QuicEvent) : Decidable (s.FrameFits e) := by
  unfold FrameFits
  split <;> infer_instance

/-- A bound for the passes left in the send branch; 0 outside of it. -/
def work (s : QuicSend) : Nat :=
  match s.pc with
  | .frameFlush b => s.streamSendBuffer.len + b.length + 2
  | .offer b sent => b.length - sent + 1
  | _ => 0

/-- The decision on a frame: it is kept if it fits at all, else dropped whole. -/
def Decided (s s' : QuicSend) (b : Bytes) : Bool → Prop
  | true => b.length ≤ s.streamSendBuffer.maxLen
  | false => s.streamSendBuffer.maxLen < b.length ∧ s'.pc = .select ∧
      s'.streamSendBuffer.occupiedSlice = s.streamSendBuffer.occupiedSlice ∧
      s'.conn.written = s.conn.written

/-- A step that no shortage of space disturbs: it does not leave the loop, gets
on with the branch, decides by `max_len`, and leaves the branch when all of the
frame is written or buffered behind the earlier bytes. -/
structure Served (s : QuicSend) (e : QuicEvent) (s' : QuicSend) : Prop where
  noShortage : ∀ exit, s'.pc = .exited exit → exit.isShortage = false
  goesOn : 0 < s.work → e.errorless = true → s'.pc = .select ∨ 0 < s'.work ∧ s'.work < s.work
  decided : ∀ b kept, s'.frames = s.frames ++ [(b, kept)] → s.Decided s' b kept
  placed : ∀ b sent, s.pc = .offer b sent → s'.pc = .select → ∃ before, s'.kept = before ++ [b] ∧
    s'.conn.written ++ s'.streamSendBuffer.occupiedSlice = before.flatten ++ b

/-- The rest of an offered frame can be pushed. -/
def Roomy (s : QuicSend) : Prop :=
  ∀ b sent, s.pc = .offer b sent →
    b.length ≤ s.streamSendBuffer.maxLen ∧ s.streamSendBuffer.TailFits b.length

section Steps

variable {s s' : QuicSend} {b : Bytes}

theorem decided_of_same (h : s'.frames = s.frames) {kept : Bool}
    (hb : s'.frames = s.frames ++ [(b, kept)]) : s.Decided s' b kept := by
  have hlen := congrArg List.length (h.symm.trans hb)
  rw [List.length_append, List.length_singleton] at hlen
  omega

/-- A step outside the send branch. -/
theorem served_outside {e : QuicEvent} (hwork : s.work = 0) (hframes : s'.frames = s.frames)
    (hexit : ∀ exit, s'.pc = .exited exit → exit.isShortage = false)
    (hoffer : ∀ b sent, s'.pc ≠ .offer b sent) : s.Served e s' ∧ s'.Roomy := by
  refine ⟨⟨hexit, ?_, ?_, ?_⟩, ?_⟩
  · intro hpos
    omega
  · intro b kept hb
    exact decided_of_same hframes hb
  · intro b sent hpc
    simp [work, hpc] at hwork
  · intro b sent hpc
    exact absurd hpc (hoffer b sent)

theorem served_going {e : QuicEvent} (hwork : s.work = 0) (hframes : s'.frames = s.frames)
    (hpc : s'.pc = .select ∨ s'.pc = .tickFlush ∨ s'.pc = .tickTail ∨ ∃ b, s'.pc = .frameFlush b) :
    s.Served e s' ∧ s'.Roomy := by
  refine served_outside hwork hframes ?_ ?_
  · intro exit hexit
    rw [hexit] at hpc
    simp at hpc
  · intro b sent hoffer
    rw [hoffer] at hpc
    simp at hpc

theorem served_exited {e : QuicEvent} {exit : QuicExit} (hwork : s.work = 0)
    (hframes : s'.frames = s.frames) (hpc : s'.pc = .exited exit) (hshort : exit.isShortage = false) :
    s.Served e s' ∧ s'.Roomy := by
  refine served_outside hwork hframes ?_ ?_
  · intro exit' hexit
    cases hpc.symm.trans hexit
    exact hshort
  · intro b sent hoffer
    cases hpc.symm.trans hoffer

/-- A step of the branch that leaves the loop for another reason. -/
theorem served_left {e : QuicEvent} {exit : QuicExit} (herr : e.errorless = false)
    (hframes : s'.frames = s.frames) (hpc : s'.pc = .exited exit) (hexit : exit.isShortage = false) :
    s.Served e s' ∧ s'.Roomy := by
  refine ⟨⟨?_, ?_, ?_, ?_⟩, ?_⟩
  · intro exit' h
    cases hpc.symm.trans h
    exact hexit
  · intro _ h
    rw [herr] at h
    cases h
  · intro b kept hb
    exact decided_of_same hframes hb
  · intro b sent _ h
    cases hpc.symm.trans h
  · intro b sent h
    cases hpc.symm.trans h

theorem takeOrDrop_served {e : QuicEvent} (hpc : s.pc = .frameFlush b)
    {t : QuicSend} (hbuf : t.streamSendBuffer = s.streamSendBuffer) (hframes : t.frames = s.frames)
    (hwritten : t.conn.written = s.conn.written) (hv : s.streamSendBuffer.Valid)
    (hfit : s.streamSendBuffer.reuseIf.1.TailFits b.length) :
    s.Served e (t.takeOrDrop b) ∧ (t.takeOrDrop b).Roomy := by
  have hif := hv.reuseIf
  have hwork : s.work = s.streamSendBuffer.len + b.length + 2 := by simp only [work, hpc]
  -- from a buffer with room for it, the frame is offered
  have hoffer : ∀ buf : SimpleBuf, buf.maxLen = s.streamSendBuffer.maxLen →
      b.length ≤ buf.maxLen → buf.TailFits b.length →
      t.takeOrDrop b = { t with
        streamSendBuffer := buf, pc := .offer b 0, frames := t.frames ++ [(b, true)] } →
      s.Served e (t.takeOrDrop b) ∧ (t.takeOrDrop b).Roomy := by
    intro buf hsame hmax htail heq
    rw [heq]
    refine ⟨⟨?_, ?_, ?_, ?_⟩, ?_⟩
    · intro exit h
      cases h
    · intro _ _
      right
      rw [hwork]
      simp only [work]
      omega
    · intro c kept hc
      rw [hframes] at hc
      cases List.append_cancel_left hc
      show b.length ≤ s.streamSendBuffer.maxLen
      omega
    · intro c sent hpc'
      cases hpc.symm.trans hpc'
    · rintro c sent ⟨⟩
      exact ⟨hmax, htail⟩
  have htake : t.takeOrDrop b =
      if s.streamSendBuffer.reuseIf.1.len < b.length then
        if s.streamSendBuffer.reuseIf.1.maxLen < b.length then
          { t with streamSendBuffer := s.streamSendBuffer.reuseIf.1
                   pc := .select, frames := t.frames ++ [(b, false)] }
        else { t with streamSendBuffer := s.streamSendBuffer.reuseIf.1.reuse
                      pc := .offer b 0, frames := t.frames ++ [(b, true)] }
      else { t with streamSendBuffer := s.streamSendBuffer.reuseIf.1
                    pc := .offer b 0, frames := t.frames ++ [(b, true)] } := by
    rw [takeOrDrop, hbuf]
  by_cases hlen : s.streamSendBuffer.reuseIf.1.len < b.length
  · rw [if_pos hlen] at htake
    by_cases hmax : s.streamSendBuffer.reuseIf.1.maxLen < b.length
    · rw [if_pos hmax] at htake
      rw [SimpleBuf.maxLen_reuseIf] at hmax
      rw [htake]
      refine ⟨⟨?_, ?_, ?_, ?_⟩, ?_⟩
      · intro exit h
        cases h
      · intro _ _
        exact Or.inl rfl
      · intro c kept hc
        rw [hframes] at hc
        cases List.append_cancel_left hc
        exact ⟨hmax, rfl, hif.2, hwritten⟩
      · intro c sent hpc'
        cases hpc.symm.trans hpc'
      · intro c sent h
        cases h
    · rw [if_neg hmax] at htake
      refine hoffer s.streamSendBuffer.reuseIf.1.reuse ?_ ?_ ?_ htake
      · rw [SimpleBuf.maxLen_reuse, SimpleBuf.maxLen_reuseIf]
      · rw [SimpleBuf.maxLen_reuse]
        omega
      · left
        rw [SimpleBuf.len_reuse]
        exact hlen
  · rw [if_neg hlen] at htake
    refine hoffer _ (SimpleBuf.maxLen_reuseIf _) ?_ hfit htake
    have htail := hfit.resolve_left hlen
    have hocc := hif.1.occupied_le
    have hsum := hif.1.len_add_maxLen
    unfold SimpleBuf.len at hsum
    omega

/-- The rest of the frame is pushed, so the branch is at its end. -/
theorem keepRest_select {sent : Nat} (hv : s.streamSendBuffer.Valid)
    (hroom : b.length ≤ s.streamSendBuffer.maxLen ∧ s.streamSendBuffer.TailFits b.length) :
    (s.keepRest b sent).pc = .select ∧ (s.keepRest b sent).frames = s.frames := by
  obtain ⟨hmax, htail⟩ := hroom
  have hsum := hv.len_add_maxLen
  have hdrop : (b.drop sent).length ≤ b.length := by
    rw [List.length_drop]
    omega
  have hpush : ∀ buf : SimpleBuf, (buf.pushSlice (b.drop sent)).2 = .ok () →
      (s.pushRest buf (b.drop sent)).pc = .select ∧ (s.pushRest buf (b.drop sent)).frames = s.frames := by
    intro buf hok
    obtain ⟨full, hfull⟩ : ∃ full, buf.pushSlice (b.drop sent) = (full, .ok ()) := ⟨_, Prod.ext rfl hok⟩
    simp only [pushRest, hfull, and_self]
  unfold keepRest
  by_cases hall : sent = b.length
  · rw [if_pos hall]
    exact ⟨rfl, rfl⟩
  · rw [if_neg hall]
    by_cases hlen : s.streamSendBuffer.len < b.length
    · rw [if_pos hlen, if_neg (by omega)]
      refine hpush _ (hv.reuse.1.pushSlice_ok_iff.mpr ?_)
      have hvac : s.streamSendBuffer.reuse.vacantIdx = s.streamSendBuffer.len := rfl
      rw [SimpleBuf.capacity_reuse, hvac]
      omega
    · rw [if_neg hlen]
      refine hpush _ (hv.pushSlice_ok_iff.mpr ?_)
      have hfits := htail.resolve_left hlen
      omega

theorem keepRest_served {e : QuicEvent} {sent : Nat} {t : QuicSend} (hpc : s.pc = .offer b sent)
    (hframes : t.frames = s.frames) (ht : t.Offering b sent)
    (hroom : b.length ≤ t.streamSendBuffer.maxLen ∧ t.streamSendBuffer.TailFits b.length) :
    s.Served e (t.keepRest b sent) ∧ (t.keepRest b sent).Roomy := by
  have hkept : (t.keepRest b sent).pc = .select ∧ (t.keepRest b sent).frames = t.frames :=
    keepRest_select ht.placed.valid hroom
  obtain ⟨hselect, hsame⟩ := hkept
  refine ⟨⟨?_, ?_, ?_, ?_⟩, ?_⟩
  · intro exit h
    cases hselect.symm.trans h
  · intro _ _
    exact Or.inl hselect
  · intro c kept hc
    exact decided_of_same (hsame.trans hframes) hc
  · intro c sent' hpc' _
    cases hpc.symm.trans hpc'
    obtain ⟨before, hlast⟩ := ht.last
    have hkept : (t.keepRest b sent).kept = before ++ [b] := by
      rw [← hlast, kept, kept, hsame]
    have hint := keepRest_integrity ht
    have hplaced : (t.keepRest b sent).Placed [] := by simpa only [Integrity, hselect] using hint
    have hbytes := hplaced.bytes
    rw [List.append_nil, hkept, List.flatten_append, List.flatten_singleton] at hbytes
    exact ⟨before, hkept, hbytes⟩
  · intro c sent' h
    cases hselect.symm.trans h

theorem frameFlush_served {r : StreamSend} {k : Bool} (hpc : s.pc = .frameFlush b)
    (hp : s.Placed []) (hfit : s.FrameFits (.streamSend r k))
    (h : s.flush (takeOrDrop b) r k = some s') : s.Served (.streamSend r k) s' ∧ s'.Roomy := by
  rcases flush_cases hp.valid h with ⟨n, buf, rfl, hpos, hn, hv, hocc, rfl⟩ | ⟨rfl, rfl⟩ | ⟨rfl, rfl⟩
  · cases k with
    | false => exact served_left rfl rfl rfl rfl
    | true =>
      have hlen : buf.len = s.streamSendBuffer.len - n := by
        rw [← hv.length_occupiedSlice, hocc, List.length_drop, hp.valid.length_occupiedSlice]
      refine ⟨⟨?_, ?_, ?_, ?_⟩, ?_⟩
      · intro exit hexit
        cases hpc.symm.trans hexit
      · intro _ _
        right
        simp only [connSendLoop, if_true, work, hpc, hlen]
        omega
      · intro c kept hc
        refine decided_of_same ?_ hc
        rfl
      · intro c sent hoffer
        cases hpc.symm.trans hoffer
      · intro c sent hoffer
        cases hpc.symm.trans hoffer
  · have htail : s.streamSendBuffer.reuseIf.1.TailFits b.length := by
      simp only [FrameFits, hpc] at hfit
      exact hfit rfl
    exact takeOrDrop_served hpc rfl rfl rfl hp.valid htail
  · exact served_left rfl rfl rfl rfl

theorem offer_served {sent : Nat} {r : StreamSend} {k : Bool} (hpc : s.pc = .offer b sent)
    (ho : s.Offering b sent) (hroom : s.Roomy) (h : s.offer b sent r k = some s') :
    s.Served (.streamSend r k) s' ∧ s'.Roomy := by
  obtain ⟨hlt, ⟨n, rfl, _, hpos, hn, rfl⟩ | ⟨rfl, rfl⟩ | ⟨rfl, rfl⟩⟩ := offer_cases h
  · cases k with
    | false => exact served_left rfl rfl rfl rfl
    | true =>
      refine ⟨⟨?_, ?_, ?_, ?_⟩, ?_⟩
      · intro exit hexit
        cases hexit
      · intro _ _
        right
        simp only [connSendLoop, if_true, work, hpc]
        omega
      · intro c kept hc
        refine decided_of_same ?_ hc
        rfl
      · intro c sent' _ hselect
        cases hselect
      · rintro c sent' ⟨⟩
        exact hroom b sent hpc
  · refine keepRest_served hpc rfl ⟨⟨ho.placed.valid, ho.placed.bytes⟩, ho.sent_le, ho.last, ?_⟩
      (hroom b sent hpc)
    exact ho.behind.imp id fun hb => ⟨rfl, hb.2⟩
  · exact served_left rfl rfl rfl rfl

theorem step_served {e : QuicEvent} (hi : s.Integrity) (hroom : s.Roomy) (hfit : s.FrameFits e)
    (hs : s.step e = some s') : s.Served e s' ∧ s'.Roomy := by
  cases step_cases hs with
  | otherBranch leave hpc =>
    have hwork : s.work = 0 := by simp only [work, hpc]
    cases leave with
    | true => exact served_exited hwork rfl rfl rfl
    | false => exact served_going hwork rfl (Or.inl rfl)
  | tick hpc =>
    have hwork : s.work = 0 := by simp only [work, hpc]
    exact served_going hwork rfl (Or.inr (Or.inl rfl))
  | recv b hpc =>
    have hwork : s.work = 0 := by simp only [work, hpc]
    exact served_going hwork rfl (Or.inr (Or.inr (Or.inr ⟨b, rfl⟩)))
  | tickFlush r k hpc hflush =>
    have hwork : s.work = 0 := by simp only [work, hpc]
    have hp : s.Placed [] := by simpa only [Integrity, hpc] using hi
    rcases flush_cases hp.valid hflush with ⟨n, buf, _, _, _, _, _, rfl⟩ | ⟨_, rfl⟩ | ⟨_, rfl⟩
    · cases k with
      | true => exact served_going hwork rfl (Or.inr (Or.inl hpc))
      | false => exact served_exited hwork rfl rfl rfl
    · exact served_going hwork rfl (Or.inr (Or.inr (Or.inl rfl)))
    · exact served_exited hwork rfl rfl rfl
  | tickEmpty hpc _ =>
    have hwork : s.work = 0 := by simp only [work, hpc]
    exact served_going hwork rfl (Or.inr (Or.inr (Or.inl rfl)))
  | frameFlush b r k hpc hflush =>
    have hp : s.Placed [] := by simpa only [Integrity, hpc] using hi
    exact frameFlush_served hpc hp hfit hflush
  | frameEmpty b hpc hempty =>
    have hp : s.Placed [] := by simpa only [Integrity, hpc] using hi
    have htail : s.streamSendBuffer.reuseIf.1.TailFits b.length := by
      simp only [FrameFits, hpc] at hfit
      exact hfit rfl
    exact takeOrDrop_served hpc rfl rfl rfl hp.valid htail
  | offer b sent r k hpc hoffer =>
    have ho : s.Offering b sent := by simpa only [Integrity, hpc] using hi
    exact offer_served hpc ho hroom hoffer
  | offerEnd b sent hpc _ =>
    have ho : s.Offering b sent := by simpa only [Integrity, hpc] using hi
    exact keepRest_served hpc rfl ho (hroom b sent hpc)
  | tickEnd onTimeout timedOut closed hpc =>
    refine served_outside (by simp only [work, hpc]) ?_ ?_ ?_
    · unfold tickEnd
      repeat' split
      all_goals rfl
    · intro exit hexit
      unfold tickEnd at hexit
      repeat' split at hexit
      all_goals
        cases hexit
        try rfl
    · intro b sent hoffer
      unfold tickEnd at hoffer
      repeat' split at hoffer
      all_goals cases hoffer

/-- In the branch some pass without an error is always possible. -/
theorem branch_enabled (hwork : 0 < s.work) :
    ∃ e s', QuicEvent.errorless e = true ∧ s.step e = some s' := by
  unfold work at hwork
  split at hwork
  next b hpc =>
    cases hempty : s.streamSendBuffer.isEmpty with
    | true =>
      refine ⟨.loopEnd, s.takeOrDrop b, rfl, ?_⟩
      simp only [step, hpc, hempty, if_true]
    | false =>
      refine ⟨.streamSend .done true, takeOrDrop b { s with conn := { s.conn with blocked := true } },
        rfl, ?_⟩
      simp only [step, hpc, flush, hempty, Bool.false_eq_true, if_false, Conn.streamSend, Option.map_some]
  next b sent hpc =>
    by_cases hall : b.length ≤ sent
    · refine ⟨.loopEnd, s.keepRest b sent, rfl, ?_⟩
      simp only [step, hpc, hall, if_true]
    · refine ⟨.streamSend .done true, keepRest { s with conn := { s.conn with blocked := true } } b sent,
        rfl, ?_⟩
      simp only [step, hpc, offer, hall, if_false, Conn.streamSend, Option.map_some]
  next => omega

end Steps

/-- In every run in which each frame is longer than the leftovers drained before
it or fits the tail behind them, no step is disturbed by a shortage of space,
and the send branch always has a next pass. -/
theorem send_space_never_short (cap : Nat) (events : List QuicEvent)
    (hfits : Machine.Meets step FrameFits (new cap) events) (past : List QuicEvent) (e : QuicEvent)
    (s s' : QuicSend) (hpast : past ++ [e] <+: events) (hrun : Machine.run step (new cap) past = some s)
    (hs : s.step e = some s') :
    s.Served e s' ∧ (0 < s.work → ∃ e s', QuicEvent.errorless e = true ∧ s.step e = some s') := by
  have hstart : (new cap).Integrity ∧ (new cap).Roomy := ⟨new_integrity cap, nofun⟩
  have hstep : ∀ (s : QuicSend) e s', s.Integrity ∧ s.Roomy → s.FrameFits e → s.step e = some s' →
      (s'.Integrity ∧ s'.Roomy) ∧ s.Served e s' := by
    intro s e s' hinv hfit hs
    have hserved := step_served hinv.1 hinv.2 hfit hs
    exact ⟨⟨step_integrity hinv.1 hs, hserved.2⟩, hserved.1⟩
  exact ⟨Machine.step_of_meets hstep hstart hfits hpast hrun hs, branch_enabled⟩

/-- Two bytes of a frame are left over; the next frame of two finds a vacant
tail of one, but the stream takes the leftovers first. -/
theorem send_space_never_short_drained :
    Served ⟨⟨[1], false⟩, ⟨[2, 3, 0], 3, 2, 0⟩, .frameFlush [4, 5], [([1, 2, 3], true)]⟩
      (.streamSend (.ok 2) true)
      ⟨⟨[1, 2, 3], false⟩, ⟨[2, 3, 0], 3, 2, 2⟩, .frameFlush [4, 5], [([1, 2, 3], true)]⟩ :=
  (send_space_never_short 3
    [.recv [1, 2, 3], .loopEnd, .streamSend (.ok 1) true, .streamSend .done true, .otherBranch false,
      .recv [4, 5], .streamSend (.ok 2) true, .loopEnd, .streamSend .done true]
    (by decide)
    [.recv [1, 2, 3], .loopEnd, .streamSend (.ok 1) true, .streamSend .done true, .otherBranch false,
      .recv [4, 5]]
    (.streamSend (.ok 2) true) _ _ (by decide) (by decide) (by decide)).1

/-- Eight bytes of a request are left over behind eight that were sent, so twelve
of twenty are free; a heartbeat of eight is not longer than the leftovers and
does not fit the tail of four. -/
theorem send_space_never_short_counterexample :
    ¬∀ (cap : Nat) (events : List QuicEvent) (s : QuicSend),
      Machine.run step (new cap) events = some s → (∀ e ∈ events, QuicEvent.errorless e = true) →
      ∀ exit, s.pc = .exited exit → exit.isShortage = false := by
  intro h
  have hrun := h 20
    [.recv [0, 0, 0, 1, 5, 0, 0, 10, 7, 7, 7, 7, 7, 7, 7, 7, 7, 7], .loopEnd,
      .streamSend (.ok 2) true, .streamSend .done true, .otherBranch false,
      .recv [1, 0, 0, 2, 5, 0, 0, 0], .streamSend (.ok 8) true, .streamSend .done true,
      .streamSend .done true]
    ⟨⟨[0, 0, 0, 1, 5, 0, 0, 10, 7, 7], true⟩,
      ⟨[0, 1, 5, 0, 0, 10, 7, 7, 7, 7, 7, 7, 7, 7, 7, 7, 0, 0, 0, 0], 20, 16, 8⟩,
      .exited (.pushSlice (.vacantSlice 4 8)),
      [([0, 0, 0, 1, 5, 0, 0, 10, 7, 7, 7, 7, 7, 7, 7, 7, 7, 7], true),
        ([1, 0, 0, 2, 5, 0, 0, 0], true)]⟩ (by decide) (by decide) _ rfl
  cases hrun

end QuicSend

end QuoteLink

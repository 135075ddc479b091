import Mathlib.Data.List.Basic

namespace Machine

variable {σ ι : Type} {step : σ → ι → Option σ}

/-- The state after the given events; `none` if one of them is not enabled. -/
def run (step : σ → ι → Option σ) : σ → List ι → Option σ
  | s, [] => some s
  | s, e :: es => (step s e).bind fun s' => run step s' es

/-- Every step of the run meets the condition `p` on the state before it. -/
def Meets (step : σ → ι → Option σ) (p : σ → ι → Prop) : σ → List ι → Prop
  | _, [] => True
  | s, e :: es => p s e ∧ (step s e).elim True fun s' => Meets step p s' es

instance Meets.decidable {p : σ → ι → Prop} [∀ s e, Decidable (p s e)] :
    ∀ s es, Decidable (Meets step p s es)
  | _, [] => isTrue trivial
  | s, e :: es =>
    have : ∀ s', Decidable (Meets step p s' es) := fun s' => Meets.decidable s' es
    match h : step s e with
    | none => decidable_of_iff (p s e) (by simp [Meets, h])
    | some s' => decidable_of_iff (p s e ∧ Meets step p s' es) (by simp [Meets, h])

theorem run_cons_iff {s t : σ} {e : ι} {es : List ι} :
    run step s (e :: es) = some t ↔ ∃ s', step s e = some s' ∧ run step s' es = some t :=
  Option.bind_eq_some_iff

theorem run_append {s t u : σ} {es fs : List ι} (h : run step s es = some t)
    (h' : run step t fs = some u) : run step s (es ++ fs) = some u := by
  induction es generalizing s with
  | nil =>
    cases h
    exact h'
  | cons e es ih =>
    obtain ⟨s', he, hes⟩ := run_cons_iff.mp h
    exact run_cons_iff.mpr ⟨s', he, ih hes⟩

/-- To meet a condition is to meet it in every state from which the run goes on. -/
theorem meets_iff {p : σ → ι → Prop} {s : σ} {es : List ι} :
    Meets step p s es ↔
      ∀ past e t, past ++ [e] <+: es → run step s past = some t → p t e := by
  induction es generalizing s with
  | nil =>
    refine iff_of_true trivial ?_
    intro past e t hpast
    have hlen := hpast.length_le
    simp at hlen
  | cons e es ih =>
    constructor
    · rintro ⟨hpe, hps⟩ past f t hpast hrun
      cases past with
      | nil =>
        cases hrun
        obtain ⟨rfl, _⟩ := List.cons_prefix_cons.mp hpast
        exact hpe
      | cons g past =>
        obtain ⟨rfl, hrest⟩ := List.cons_prefix_cons.mp hpast
        obtain ⟨s', hs', hrun⟩ := run_cons_iff.mp hrun
        rw [hs'] at hps
        exact ih.mp hps past f t hrest hrun
    · intro h
      refine ⟨h [] e s ⟨es, rfl⟩ rfl, ?_⟩
      cases hs' : step s e with
      | none => trivial
      | some s' =>
        refine ih.mpr fun past f t hpast hrun => ?_
        exact h (e :: past) f t (List.cons_prefix_cons.mpr ⟨rfl, hpast⟩) (run_cons_iff.mpr ⟨s', hs', hrun⟩)

theorem Meets.front {p : σ → ι → Prop} {s : σ} {es fs : List ι} (h : Meets step p s es)
    (hfs : fs <+: es) : Meets step p s fs :=
  meets_iff.mpr fun past e t hpast hrun => meets_iff.mp h past e t (hpast.trans hfs) hrun

theorem run_invariant_of_meets {p : σ → ι → Prop} {inv : σ → Prop}
    (hstep : ∀ s e s', inv s → p s e → step s e = some s' → inv s') {s t : σ} {es : List ι}
    (hs : inv s) (hp : Meets step p s es) (h : run step s es = some t) : inv t := by
  induction es generalizing s with
  | nil =>
    cases h
    exact hs
  | cons e es ih =>
    obtain ⟨s', he, hes⟩ := run_cons_iff.mp h
    obtain ⟨hpe, hps⟩ := hp
    rw [he] at hps
    exact ih (hstep s e s' hs hpe he) hps hes

theorem meets_of_forall_mem {p : ι → Prop} {s : σ} {es : List ι} (h : ∀ e ∈ es, p e) :
    Meets step (fun _ e => p e) s es :=
  meets_iff.mpr fun _ e _ hpast _ => h e (hpast.subset (List.mem_append_right _ List.mem_cons_self))

/-- What each step has that starts in the invariant and meets the condition, every
step of a run has whose steps all meet it. -/
theorem step_of_meets {p : σ → ι → Prop} {inv : σ → Prop} {q : σ → ι → σ → Prop}
    (hstep : ∀ s e s', inv s → p s e → step s e = some s' → inv s' ∧ q s e s')
    {s t t' : σ} {es past : List ι} {e : ι} (hs : inv s) (hp : Meets step p s es)
    (hpast : past ++ [e] <+: es) (hrun : run step s past = some t) (ht : step t e = some t') :
    q t e t' := by
  have hfront : past <+: es := (List.prefix_append past [e]).trans hpast
  have hinv : inv t := run_invariant_of_meets (fun s e s' hi hpe hse => (hstep s e s' hi hpe hse).1)
    hs (hp.front hfront) hrun
  have hpe : p t e := meets_iff.mp hp past e t hpast hrun
  exact (hstep t e t' hinv hpe ht).2

theorem run_invariant {inv : σ → Prop} (hstep : ∀ s e s', inv s → step s e = some s' → inv s')
    {s t : σ} {es : List ι} (hs : inv s) (h : run step s es = some t) : inv t := by
  have hmeets : Meets step (fun _ _ => True) s es := meets_iff.mpr fun _ _ _ _ _ => trivial
  exact run_invariant_of_meets (fun s e s' hi _ hse => hstep s e s' hi hse) hs hmeets h

/-- A property that a step keeps exactly when it meets `p` holds in all states of
a run exactly when all its steps meet `p`. -/
theorem forall_initial_iff_meets {p : σ → ι → Prop} {base inv : σ → Prop}
    (hbase : ∀ s e s', base s → step s e = some s' → base s')
    (hstep : ∀ s e s', base s → inv s → step s e = some s' → (inv s' ↔ p s e))
    {s t : σ} {es : List ι} (hb : base s) (hs : inv s) (h : run step s es = some t) :
    (∀ fs u, fs <+: es → run step s fs = some u → inv u) ↔ Meets step p s es := by
  induction es generalizing s with
  | nil =>
    refine ⟨fun _ => trivial, fun _ fs u hfs hu => ?_⟩
    rw [List.prefix_nil.mp hfs] at hu
    cases hu
    exact hs
  | cons e es ih =>
    obtain ⟨s', he, hes⟩ := run_cons_iff.mp h
    have hb' := hbase s e s' hb he
    have hiff := hstep s e s' hb hs he
    have hmeets : Meets step p s (e :: es) ↔ p s e ∧ Meets step p s' es := by
      simp only [Meets, he, Option.elim_some]
    rw [hmeets]
    constructor
    · intro hall
      have hs' : inv s' :=
        hall [e] s' ⟨es, rfl⟩ (run_cons_iff.mpr ⟨s', he, rfl⟩)
      refine ⟨hiff.mp hs', (ih hb' hs' hes).mp fun fs u hfs hu => ?_⟩
      exact hall (e :: fs) u (List.prefix_cons_inj e |>.mpr hfs) (run_cons_iff.mpr ⟨s', he, hu⟩)
    · rintro ⟨hp, hps⟩ fs u hfs hu
      have hs' := hiff.mpr hp
      cases fs with
      | nil =>
        cases hu
        exact hs
      | cons f fs =>
        obtain ⟨rfl, hrest⟩ := List.cons_prefix_cons.mp hfs
        obtain ⟨s'', hf, hu⟩ := run_cons_iff.mp hu
        have hsame : s'' = s' := Option.some.inj (hf.symm.trans he)
        subst hsame
        exact (ih hb' hs' hes).mpr hps fs u hrest hu

/-- What every event adds to a log of the state, a run adds in the order of its
events, as long as the state is live; it cannot come back to life. -/
theorem run_log {β : Type} {live : σ → Prop} {added : ι → List β} {log : σ → List β}
    (hstep : ∀ s e s', step s e = some s' → live s' → live s ∧ log s' = log s ++ added e)
    {s t : σ} {es : List ι} (h : run step s es = some t) (ht : live t) :
    live s ∧ log t = log s ++ es.flatMap added := by
  induction es generalizing s with
  | nil =>
    cases h
    exact ⟨ht, (List.append_nil _).symm⟩
  | cons e es ih =>
    obtain ⟨s', he, hes⟩ := run_cons_iff.mp h
    obtain ⟨hs', htail⟩ := ih hes
    obtain ⟨hs, hhead⟩ := hstep s e s' he hs'
    exact ⟨hs, by rw [htail, hhead, List.flatMap_cons, List.append_assoc]⟩

/-- What every event adds to a log that never ends. -/
theorem run_collect {β : Type} {added : ι → List β} {log : σ → List β}
    (hstep : ∀ s e s', step s e = some s' → log s' = log s ++ added e) {s t : σ} {es : List ι}
    (h : run step s es = some t) : log t = log s ++ es.flatMap added := by
  have hlog : ∀ s e s', step s e = some s' → (fun _ : σ => True) s' →
      (fun _ : σ => True) s ∧ log s' = log s ++ added e :=
    fun s e s' hs _ => ⟨trivial, hstep s e s' hs⟩
  exact (run_log hlog h trivial).2

/-- What every event does to a part of the state, a run does event by event. -/
theorem run_foldl {β : Type} {part : σ → β} {f : β → ι → β}
    (hstep : ∀ s e s', step s e = some s' → part s' = f (part s) e) {s t : σ} {es : List ι}
    (h : run step s es = some t) : part t = es.foldl f (part s) := by
  induction es generalizing s with
  | nil =>
    cases h
    rfl
  | cons e es ih =>
    obtain ⟨s', he, hes⟩ := run_cons_iff.mp h
    rw [List.foldl_cons, ← hstep s e s' he]
    exact ih hes

/-- A machine each of whose steps succeeds where it meets `p`, and then does what `f`
does to a related state, refines the fold of `f`. -/
theorem run_refines {τ : Type} {p : σ → ι → Prop} {rel : σ → τ → Prop} {f : τ → ι → τ}
    (hstep : ∀ s t e, rel s t → p s e → ∃ s', step s e = some s' ∧ rel s' (f t e)) {s : σ} {t : τ}
    {es : List ι} (hrel : rel s t) (hp : Meets step p s es) :
    ∃ s', run step s es = some s' ∧ rel s' (es.foldl f t) := by
  induction es generalizing s t with
  | nil => exact ⟨s, rfl, hrel⟩
  | cons e es ih =>
    obtain ⟨hpe, hps⟩ := hp
    obtain ⟨s', he, hrel'⟩ := hstep s t e hrel hpe
    rw [he] at hps
    obtain ⟨s'', hes, hrel''⟩ := ih hrel' hps
    exact ⟨s'', run_cons_iff.mpr ⟨s', he, hes⟩, hrel''⟩

/-- What relates a state to the events that led to it. -/
theorem run_history {rel : List ι → σ → Prop}
    (hstep : ∀ past s e s', rel past s → step s e = some s' → rel (past ++ [e]) s') {s t : σ} {es : List ι}
    (hs : rel [] s) (h : run step s es = some t) : rel es t := by
  have hgo : ∀ (es past : List ι) (s : σ), rel past s → run step s es = some t → rel (past ++ es) t := by
    intro es
    induction es with
    | nil =>
      intro past s hrel h
      cases h
      rwa [List.append_nil]
    | cons e es ih =>
      intro past s hrel h
      obtain ⟨s', he, hes⟩ := run_cons_iff.mp h
      have hnext := ih (past ++ [e]) s' (hstep past s e s' hrel he) hes
      rwa [List.append_assoc, List.singleton_append] at hnext
  exact hgo es [] s hs h

/-- Every front of a run is a run. -/
theorem run_prefix {s t : σ} {es fs : List ι} (h : run step s es = some t) (hfs : fs <+: es) :
    ∃ u, run step s fs = some u := by
  induction fs generalizing s es with
  | nil => exact ⟨s, rfl⟩
  | cons f fs ih =>
    obtain ⟨rest, rfl⟩ := hfs
    obtain ⟨s', hf, hes⟩ := run_cons_iff.mp h
    obtain ⟨u, hu⟩ := ih hes (List.prefix_append fs rest)
    exact ⟨u, run_cons_iff.mpr ⟨s', hf, hu⟩⟩

/-- The last step of a run. -/
theorem run_snoc {s t u : σ} {es : List ι} {e : ι} (h : run step s es = some t)
    (h' : run step s (es ++ [e]) = some u) : step t e = some u := by
  induction es generalizing s with
  | nil =>
    cases h
    obtain ⟨u', hu', hnil⟩ := run_cons_iff.mp h'
    cases hnil
    exact hu'
  | cons f es ih =>
    obtain ⟨s', hf, hes⟩ := run_cons_iff.mp h
    obtain ⟨s'', hf', hes'⟩ := run_cons_iff.mp h'
    cases hf.symm.trans hf'
    exact ih hes hes'

/-- What a step has exactly when it meets `p`, all steps of a run have exactly when
they all meet `p`. -/
theorem forall_steps_iff_meets {p : σ → ι → Prop} {inv : σ → Prop} {q : σ → ι → σ → Prop}
    (hinv : ∀ s e s', inv s → step s e = some s' → inv s')
    (hq : ∀ s e s', inv s → step s e = some s' → (q s e s' ↔ p s e))
    {s t : σ} {es : List ι} (hs : inv s) (h : run step s es = some t) :
    (∀ past e u u', past ++ [e] <+: es → run step s past = some u → step u e = some u' → q u e u') ↔
      Meets step p s es := by
  rw [meets_iff]
  constructor
  · intro hall past e u hpast hrun
    obtain ⟨u', hu'⟩ := run_prefix h hpast
    have hstep := run_snoc hrun hu'
    have hu : inv u := run_invariant hinv hs hrun
    exact (hq u e u' hu hstep).mp (hall past e u u' hpast hrun hstep)
  · intro hmeets past e u u' hpast hrun hstep
    have hu : inv u := run_invariant hinv hs hrun
    exact (hq u e u' hu hstep).mpr (hmeets past e u hpast hrun)

/-- What a step does to a flow: it takes `added` in, or loses a part of what is there. -/
inductive FlowCase {β : Type} (cur added cur' : List β) (keeps : Prop) : Prop
  | keeps (h : cur' = cur ++ added) (hk : keeps)
  | loses (front lost back : List β) (hcur : cur = front ++ lost ++ back) (hcur' : cur' = front ++ back)
    (hadded : added = []) (hk : keeps ↔ lost = [])

theorem FlowCase.sublist {β : Type} {cur added cur' : List β} {keeps : Prop} (h : FlowCase cur added cur' keeps) :
    cur'.Sublist (cur ++ added) := by
  cases h with
  | keeps h _ => rw [h]
  | loses front lost back hcur hcur' hadded _ =>
    rw [hcur, hcur', hadded, List.append_nil, List.append_assoc]
    exact (List.sublist_append_right lost back).append_left front

theorem FlowCase.eq_iff {β : Type} {cur added cur' : List β} {keeps : Prop} (h : FlowCase cur added cur' keeps) :
    cur' = cur ++ added ↔ keeps := by
  cases h with
  | keeps h hk => exact iff_of_true h hk
  | loses front lost back hcur hcur' hadded hk =>
    rw [hcur, hcur', hadded, List.append_nil, List.append_assoc, hk]
    constructor
    · intro heq
      have hlen := congrArg List.length (List.append_cancel_left heq)
      rw [List.length_append] at hlen
      exact List.length_eq_zero_iff.mp (by omega)
    · rintro rfl
      rfl

/-- Of what the steps add to a log, a part is kept: always in its order, and all of it
exactly as long as all steps meet `keeps`. -/
theorem run_flow {β : Type} {inv : σ → Prop} {added : σ → ι → List β} {log cur : σ → List β}
    {keeps : σ → ι → Prop} (hinv : ∀ s e s', inv s → step s e = some s' → inv s')
    (hlog : ∀ s e s', step s e = some s' → log s' = log s ++ added s e)
    (hcase : ∀ s e s', inv s → step s e = some s' → FlowCase (cur s) (added s e) (cur s') (keeps s e))
    {s t : σ} {es : List ι} (hs : inv s) (hcur : cur s = log s) (h : run step s es = some t) :
    (cur t).Sublist (log t) ∧
      ((∀ fs u, fs <+: es → run step s fs = some u → cur u = log u) ↔ Meets step keeps s es) := by
  constructor
  · have hstep : ∀ s e s', inv s ∧ (cur s).Sublist (log s) → step s e = some s' →
        inv s' ∧ (cur s').Sublist (log s') := by
      rintro s e s' ⟨hi, hle⟩ hse
      rw [hlog s e s' hse]
      exact ⟨hinv s e s' hi hse, (hcase s e s' hi hse).sublist.trans (hle.append_right (added s e))⟩
    exact (run_invariant hstep ⟨hs, hcur ▸ List.Sublist.refl (cur s)⟩ h).2
  · have hiff : ∀ s e s', inv s → cur s = log s → step s e = some s' → (cur s' = log s' ↔ keeps s e) := by
      intro s e s' hi heq hse
      rw [hlog s e s' hse, ← heq]
      exact (hcase s e s' hi hse).eq_iff
    exact forall_initial_iff_meets hinv hiff hs hcur h

/-- Some events lead from `s` to `t`. -/
def Reaches (step : σ → ι → Option σ) (s t : σ) : Prop := ∃ es, run step s es = some t

theorem Reaches.refl (s : σ) : Reaches step s s := ⟨[], rfl⟩

theorem Reaches.trans {s t u : σ} (h : Reaches step s t) (h' : Reaches step t u) :
    Reaches step s u := by
  obtain ⟨es, hes⟩ := h
  obtain ⟨fs, hfs⟩ := h'
  exact ⟨es ++ fs, run_append hes hfs⟩

theorem Reaches.cons {s t u : σ} (e : ι) (h : step s e = some t) (h' : Reaches step t u) :
    Reaches step s u := by
  obtain ⟨es, hes⟩ := h'
  exact ⟨e :: es, run_cons_iff.mpr ⟨t, h, hes⟩⟩

end Machine

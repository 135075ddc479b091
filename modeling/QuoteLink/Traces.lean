import QuoteLink.Progress
import Mathlib.Data.Nat.Find

namespace Machine

variable {σ ι : Type} {step : σ → ι → Option σ} {own : ι → Prop} {goal : σ → Prop}

/-- What may happen at one moment: a step, or nothing. -/
def Next (step : σ → ι → Option σ) (s : σ) : Option ι → σ → Prop
  | none, t => t = s
  | some e, t => step s e = some t

/-- A run that goes on for ever. -/
structure Trace (step : σ → ι → Option σ) where
  state : Nat → σ
  event : Nat → Option ι
  next : ∀ n, Next step (state n) (event n) (state (n + 1))

namespace Trace

/-- Every step of the trace meets the condition `p` on the state before it. -/
def Meets (T : Trace step) (p : σ → ι → Prop) : Prop := ∀ n e, T.event n = some e → p (T.state n) e

/-- Where an `own` event stays enabled from some time on, one of them occurs. -/
def WeakFair (T : Trace step) (own : ι → Prop) : Prop :=
  ∀ n, (∀ m, n ≤ m → ∃ e t, own e ∧ step (T.state m) e = some t) →
    ∃ m e, n ≤ m ∧ T.event m = some e ∧ own e

theorem next_some (T : Trace step) {n : Nat} {e : ι} (he : T.event n = some e) :
    step (T.state n) e = some (T.state (n + 1)) := by
  have h := T.next n
  rwa [he] at h

theorem next_none (T : Trace step) {n : Nat} (he : T.event n = none) : T.state (n + 1) = T.state n := by
  have h := T.next n
  rwa [he] at h

/-- What all steps between two moments keep. -/
theorem keeps (T : Trace step) (inv : σ → Prop) {n m : Nat} (hm : n ≤ m)
    (hstep : ∀ i e, n ≤ i → i < m → inv (T.state i) → T.event i = some e → inv (T.state (i + 1)))
    (hn : inv (T.state n)) : inv (T.state m) := by
  induction m, hm using Nat.le_induction with
  | base => exact hn
  | succ m hm ih =>
    have hinv := ih fun i e hi him => hstep i e hi (Nat.lt_succ_of_lt him)
    cases he : T.event m with
    | none =>
      rw [T.next_none he]
      exact hinv
    | some e => exact hstep m e hm (Nat.lt_succ_self m) hinv he

theorem invariant (T : Trace step) {inv : σ → Prop} (hstep : ∀ s e t, inv s → step s e = some t → inv t)
    (h : inv (T.state 0)) (n : Nat) : inv (T.state n) :=
  T.keeps inv (Nat.zero_le n) (fun _ e _ _ hm he => hstep _ e _ hm (T.next_some he)) h

/-- A property that a step keeps exactly when it meets `p` holds at all moments of a
trace exactly when all its steps meet `p`. -/
theorem forall_iff_meets (T : Trace step) {p : σ → ι → Prop} {base inv : σ → Prop}
    (hbase : ∀ s e s', base s → step s e = some s' → base s')
    (hstep : ∀ s e s', base s → inv s → step s e = some s' → (inv s' ↔ p s e))
    (hb : base (T.state 0)) (h : inv (T.state 0)) : (∀ n, inv (T.state n)) ↔ T.Meets p := by
  constructor
  · intro hinv n e he
    exact (hstep _ e _ (T.invariant hbase hb n) (hinv n) (T.next_some he)).mp (hinv (n + 1))
  · intro hmeets n
    refine T.keeps inv (Nat.zero_le n) (fun m e _ _ hm he => ?_) h
    exact (hstep _ e _ (T.invariant hbase hb m) hm (T.next_some he)).mpr (hmeets m e he)

/-- The events of the `k` moments from `n` on. -/
def events (T : Trace step) (n : Nat) : Nat → List ι
  | 0 => []
  | k + 1 => T.events n k ++ (T.event (n + k)).toList

theorem run_events (T : Trace step) (n k : Nat) :
    run step (T.state n) (T.events n k) = some (T.state (n + k)) := by
  induction k with
  | zero => rfl
  | succ k ih =>
    rw [events]
    refine run_append ih ?_
    cases he : T.event (n + k) with
    | none => exact congrArg some (T.next_none he).symm
    | some e => exact run_cons_iff.mpr ⟨_, T.next_some he, rfl⟩

theorem mem_events {T : Trace step} {n k : Nat} {e : ι} (h : e ∈ T.events n k) :
    ∃ j, j < k ∧ T.event (n + j) = some e := by
  induction k with
  | zero => exact absurd h List.not_mem_nil
  | succ k ih =>
    rcases List.mem_append.mp h with h | h
    · obtain ⟨j, hj, he⟩ := ih h
      exact ⟨j, Nat.lt_succ_of_lt hj, he⟩
    · exact ⟨k, Nat.lt_succ_self k, Option.mem_toList.mp h⟩

/-- A trace that is fair to the own events reaches what is inevitable for them. -/
theorem reaches_of_inevitable (T : Trace step) (hfair : T.WeakFair own) {n : Nat}
    (h : Inevitable step own goal (T.state n)) : ∃ m, n ≤ m ∧ goal (T.state m) := by
  generalize hs : T.state n = s at h
  induction h generalizing n with
  | here h => exact ⟨n, Nat.le_refl n, hs ▸ h⟩
  | next enabled leads ih =>
    subst hs
    by_cases hown : ∃ k e, T.event (n + k) = some e ∧ own e
    · classical
      -- up to the first own event only the others have taken steps
      obtain ⟨e, he, howne⟩ := Nat.find_spec hown
      have hothers : ∀ f ∈ T.events n (Nat.find hown), ¬own f := by
        intro f hf hownf
        obtain ⟨j, hj, hfj⟩ := mem_events hf
        exact Nat.find_min hown hj ⟨f, hfj, hownf⟩
      obtain ⟨m, hm, hgoal⟩ := ih _ _ hothers (T.run_events n _) e _ howne (T.next_some he) rfl
      exact ⟨m, by omega, hgoal⟩
    · exfalso
      have hnone : ∀ k f, T.event (n + k) = some f → ¬own f := fun k f hf hownf => hown ⟨k, f, hf, hownf⟩
      obtain ⟨m, e, hm, he, howne⟩ := hfair n fun m hm => by
        obtain ⟨k, rfl⟩ := Nat.exists_eq_add_of_le hm
        refine enabled (T.events n k) (T.state (n + k)) (fun f hf => ?_) (T.run_events n k)
        obtain ⟨j, _, hfj⟩ := mem_events hf
        exact hnone j f hfj
      obtain ⟨k, rfl⟩ := Nat.exists_eq_add_of_le hm
      exact hnone k e he howne

section Finite

variable {s t : σ} {es : List ι}

/-- A run after which nothing happens any more. -/
def ofRun (h : run step s es = some t) : Trace step where
  state n := (run step s (es.take n)).getD t
  event n := es[n]?
  next n := by
    obtain ⟨u, hu⟩ := run_prefix h (List.take_prefix n es)
    obtain ⟨v, hv⟩ := run_prefix h (List.take_prefix (n + 1) es)
    rw [hu, hv]
    cases he : es[n]? with
    | none =>
      have hn : es.length ≤ n := List.getElem?_eq_none_iff.mp he
      rw [List.take_of_length_le hn] at hu
      rw [List.take_of_length_le (Nat.le_succ_of_le hn)] at hv
      exact Option.some.inj (hv.symm.trans hu)
    | some e =>
      rw [List.take_add_one, he] at hv
      exact run_snoc hu hv

theorem ofRun_event (h : run step s es = some t) {n : Nat} (hn : es.length ≤ n) : (ofRun h).event n = none :=
  List.getElem?_eq_none hn

/-- Each moment of the trace is one of the run, and in the end the run stays where it is. -/
theorem exists_ofRun_state (h : run step s es = some t) (n : Nat) :
    ∃ u, run step s (es.take n) = some u ∧ (ofRun h).state n = u := by
  obtain ⟨u, hu⟩ := run_prefix h (List.take_prefix n es)
  refine ⟨u, hu, ?_⟩
  change (run step s (es.take n)).getD t = u
  rw [hu]
  rfl

theorem ofRun_state_end (h : run step s es = some t) {n : Nat} (hn : es.length ≤ n) :
    (ofRun h).state n = t := by
  obtain ⟨u, hu, hstate⟩ := exists_ofRun_state h n
  rw [List.take_of_length_le hn, h] at hu
  rw [hstate]
  exact (Option.some.inj hu).symm

theorem ofRun_meets {p : σ → ι → Prop} (h : run step s es = some t) (hp : Machine.Meets step p s es) :
    (ofRun h).Meets p := by
  intro n e he
  obtain ⟨u, hu, hstate⟩ := exists_ofRun_state h n
  rw [hstate]
  have hfront : es.take n ++ [e] <+: es := by
    have htake : es.take (n + 1) = es.take n ++ [e] := by
      rw [List.take_add_one, show es[n]? = some e from he]
      rfl
    rw [← htake]
    exact List.take_prefix (n + 1) es
  exact meets_iff.mp hp _ e u hfront hu

/-- Where no own event is enabled at the end, the run owes them nothing. -/
theorem ofRun_weakFair (h : run step s es = some t) (hend : ∀ e, own e → step t e = none) :
    (ofRun h).WeakFair own := by
  intro n henabled
  obtain ⟨e, u, hown, hstep⟩ := henabled (max n es.length) (Nat.le_max_left n _)
  rw [ofRun_state_end h (Nat.le_max_right n _), hend e hown] at hstep
  cases hstep

end Finite

end Trace

end Machine

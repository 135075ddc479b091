import QuoteLink.Machine
import Mathlib.Order.RelClasses

namespace Machine

variable {σ ι : Type} {step : σ → ι → Option σ} {own : ι → Prop} {goal : σ → Prop}

/-- Whatever the other parties do first, an `own` event is enabled, and every one
of them leads on to `goal`. -/
inductive Inevitable (step : σ → ι → Option σ) (own : ι → Prop) (goal : σ → Prop) : σ → Prop
  | here {s : σ} (h : goal s) : Inevitable step own goal s
  | next {s : σ}
    (enabled : ∀ es t, (∀ e ∈ es, ¬own e) → run step s es = some t →
      ∃ e t', own e ∧ step t e = some t')
    (leads : ∀ es t, (∀ e ∈ es, ¬own e) → run step s es = some t →
      ∀ e t', own e → step t e = some t' → Inevitable step own goal t') :
    Inevitable step own goal s

/-- Events of the other parties keep what they keep one by one. -/
theorem run_of_others {inv : σ → Prop} {rank : σ → Nat}
    (hother : ∀ s e t, inv s → ¬own e → step s e = some t → inv t ∧ rank t = rank s)
    {s t : σ} {es : List ι} (hs : inv s) (hes : ∀ e ∈ es, ¬own e) (h : run step s es = some t) :
    inv t ∧ rank t = rank s := by
  induction es generalizing s with
  | nil =>
    cases h
    exact ⟨hs, rfl⟩
  | cons e es ih =>
    obtain ⟨s', he, hrest⟩ := run_cons_iff.mp h
    obtain ⟨hs', hrank⟩ := hother s e s' hs (hes e List.mem_cons_self) he
    obtain ⟨ht, htrank⟩ := ih hs' (fun x hx => hes x (List.mem_cons_of_mem e hx)) hrest
    exact ⟨ht, htrank.trans hrank⟩

/-- The rule for `Inevitable`: the other parties keep an invariant and a rank,
and every `own` step reaches the goal or lowers the rank. -/
theorem inevitable_of_rank {inv : σ → Prop} {rank : σ → Nat}
    (henabled : ∀ s, inv s → ∃ e t, own e ∧ step s e = some t)
    (hother : ∀ s e t, inv s → ¬own e → step s e = some t → inv t ∧ rank t = rank s)
    (hown : ∀ s e t, inv s → own e → step s e = some t → goal t ∨ inv t ∧ rank t < rank s)
    {s : σ} (hs : inv s) : Inevitable step own goal s := by
  induction hn : rank s using Nat.strongRecOn generalizing s with
  | _ n ih =>
    refine .next (fun es t hes ht => ?_) (fun es t hes ht e t' he hstep => ?_)
    · obtain ⟨hinv, _⟩ := run_of_others hother hs hes ht
      exact henabled t hinv
    · obtain ⟨hinv, hrank⟩ := run_of_others hother hs hes ht
      rcases hown t e t' hinv he hstep with hgoal | ⟨hinv', hlt⟩
      · exact .here hgoal
      · exact ih (rank t') (by omega) hinv' rfl

/-- Where every state of an invariant is at the goal or has an event that lowers a
rank, some events lead to the goal. -/
theorem exists_reaches_of_rank {α : Type} [LT α] [WellFoundedLT α] {inv : σ → Prop} {rank : σ → α}
    (hstep : ∀ s, inv s → goal s ∨ ∃ e t, step s e = some t ∧ (goal t ∨ inv t ∧ rank t < rank s))
    {s : σ} (hs : inv s) : ∃ t, Reaches step s t ∧ goal t := by
  induction hn : rank s using WellFoundedLT.induction generalizing s with
  | ind n ih =>
    rcases hstep s hs with hgoal | ⟨e, t, he, hgoal | ⟨hinv, hlt⟩⟩
    · exact ⟨s, .refl s, hgoal⟩
    · exact ⟨t, .cons e he (.refl t), hgoal⟩
    · obtain ⟨u, hreach, hu⟩ := ih (rank t) (hn ▸ hlt) hinv rfl
      exact ⟨u, .cons e he hreach, hu⟩

end Machine

import QuoteLink.BitField

inductive ReadError
  | incomplete
  | invalid
  deriving DecidableEq, Repr

/-- A reader of `τ`-streams. What it returns is decided by the tokens it
consumes, and an input it rejects stays rejected however it goes on. -/
structure Reader (τ α : Type) where
  run : List τ → Except ReadError (α × List τ)
  ok_local : ∀ {input a rest}, run input = .ok (a, rest) →
    ∃ used, input = used ++ rest ∧ ∀ more, run (used ++ more) = .ok (a, more)
  invalid_append : ∀ {input}, run input = .error .invalid →
    ∀ more, run (input ++ more) = .error .invalid

namespace Reader

variable {τ α β : Type}

theorem ok_append {r : Reader τ α} {input rest : List τ} {a : α}
    (h : r.run input = .ok (a, rest)) (more : List τ) :
    r.run (input ++ more) = .ok (a, rest ++ more) := by
  obtain ⟨used, rfl, hused⟩ := r.ok_local h
  rw [List.append_assoc]
  exact hused _

/-- The tokens that a reader consumes, and their number. -/
theorem ok_used {r : Reader τ α} {input rest : List τ} {a : α} (h : r.run input = .ok (a, rest)) :
    ∃ used, input = used ++ rest ∧ used.length + rest.length = input.length ∧
      ∀ more, r.run (used ++ more) = .ok (a, more) := by
  obtain ⟨used, hsplit, hused⟩ := r.ok_local h
  exact ⟨used, hsplit, by rw [hsplit, List.length_append], hused⟩

/-- Cutting a tail off the tokens a reader consumes leaves it waiting for more. -/
theorem incomplete_of_cut {r : Reader τ α} {front cut : List τ} {a : α}
    (h : r.run (front ++ cut) = .ok (a, [])) (hcut : cut ≠ []) :
    r.run front = .error .incomplete := by
  cases hr : r.run front with
  | ok out =>
    obtain ⟨b, rest⟩ := out
    have hlong := (ok_append hr cut).symm.trans h
    have hrest : rest ++ cut = [] := (Prod.mk.inj (Except.ok.inj hlong)).2
    exact absurd (List.append_eq_nil_iff.mp hrest).2 hcut
  | error e =>
    cases e with
    | incomplete => rfl
    | invalid => exact absurd ((r.invalid_append hr cut).symm.trans h) (by simp)

protected def pure (a : α) : Reader τ α where
  run input := .ok (a, input)
  ok_local := by
    intro input b rest h
    obtain ⟨rfl, rfl⟩ := Prod.mk.inj (Except.ok.inj h)
    exact ⟨[], rfl, fun _ => rfl⟩
  invalid_append := by intro input h; cases h

/-- The reader that rejects every input. -/
def reject : Reader τ α where
  run _ := .error .invalid
  ok_local := by intro input a rest h; cases h
  invalid_append := fun _ _ => rfl

def bindRun (r : Reader τ α) (k : α → Reader τ β) (input : List τ) :
    Except ReadError (β × List τ) :=
  match r.run input with
  | .ok (a, mid) => (k a).run mid
  | .error e => .error e

theorem bindRun_eq_ok {r : Reader τ α} {k : α → Reader τ β} {input rest : List τ} {b : β} :
    bindRun r k input = .ok (b, rest) ↔
      ∃ a mid, r.run input = .ok (a, mid) ∧ (k a).run mid = .ok (b, rest) := by
  unfold bindRun
  cases h : r.run input with
  | ok out =>
    obtain ⟨a, mid⟩ := out
    simp
  | error e => simp

theorem bindRun_eq_error {r : Reader τ α} {k : α → Reader τ β} {input : List τ} {e : ReadError} :
    bindRun r k input = .error e ↔ r.run input = .error e ∨
      ∃ a mid, r.run input = .ok (a, mid) ∧ (k a).run mid = .error e := by
  unfold bindRun
  cases h : r.run input with
  | ok out =>
    obtain ⟨a, mid⟩ := out
    simp
  | error e => simp

protected def bind (r : Reader τ α) (k : α → Reader τ β) : Reader τ β where
  run := bindRun r k
  ok_local := by
    intro input b rest h
    obtain ⟨a, mid, hr, hk⟩ := bindRun_eq_ok.mp h
    obtain ⟨front, rfl, hfront⟩ := r.ok_local hr
    obtain ⟨back, rfl, hback⟩ := (k a).ok_local hk
    refine ⟨front ++ back, by simp, fun more => bindRun_eq_ok.mpr ⟨a, back ++ more, ?_, hback more⟩⟩
    rw [List.append_assoc]
    exact hfront _
  invalid_append := by
    intro input h more
    rcases bindRun_eq_error.mp h with hr | ⟨a, mid, hr, hk⟩
    · exact bindRun_eq_error.mpr (Or.inl (r.invalid_append hr more))
    · exact bindRun_eq_error.mpr
        (Or.inr ⟨a, mid ++ more, ok_append hr more, (k a).invalid_append hk more⟩)

instance : Monad (Reader τ) where
  pure := Reader.pure
  bind := Reader.bind

@[simp] theorem run_pure (a : α) (input : List τ) :
    (pure a : Reader τ α).run input = .ok (a, input) := rfl

@[simp] theorem run_reject (input : List τ) :
    (reject : Reader τ α).run input = .error .invalid := rfl

theorem bind_eq_ok {r : Reader τ α} {k : α → Reader τ β} {input rest : List τ} {b : β} :
    (r >>= k).run input = .ok (b, rest) ↔
      ∃ a mid, r.run input = .ok (a, mid) ∧ (k a).run mid = .ok (b, rest) :=
  bindRun_eq_ok

theorem bind_eq_error {r : Reader τ α} {k : α → Reader τ β} {input : List τ} {e : ReadError} :
    (r >>= k).run input = .error e ↔ r.run input = .error e ∨
      ∃ a mid, r.run input = .ok (a, mid) ∧ (k a).run mid = .error e :=
  bindRun_eq_error

theorem ext_run {r s : Reader τ α} (h : ∀ input, r.run input = s.run input) : r = s := by
  cases r
  cases s
  congr
  exact funext h

instance : LawfulMonad (Reader τ) := LawfulMonad.mk' (Reader τ)
  (fun r => ext_run fun input => by
    change bindRun r Reader.pure input = r.run input
    unfold bindRun
    cases r.run input <;> rfl)
  (fun _ _ => ext_run fun _ => rfl)
  (fun r k l => ext_run fun input => by
    change bindRun (Reader.bind r k) l input = bindRun r (fun a => Reader.bind (k a) l) input
    simp only [bindRun, Reader.bind]
    cases r.run input <;> rfl)

@[simp] theorem reject_bind (k : α → Reader τ β) : (reject >>= k : Reader τ β) = reject := rfl

/-- The next `n` tokens. -/
def take (n : Nat) : Reader τ (List τ) where
  run input := if n ≤ input.length then .ok (input.take n, input.drop n) else .error .incomplete
  ok_local := by
    intro input a rest h
    split at h
    next hn =>
      obtain ⟨rfl, rfl⟩ := Prod.mk.inj (Except.ok.inj h)
      refine ⟨input.take n, (List.take_append_drop n input).symm, fun more => ?_⟩
      have hlen : (input.take n).length = n := by simp [hn]
      simp [hlen]
    next => cases h
  invalid_append := by
    intro input h
    split at h <;> cases h

theorem take_eq_ok {n : Nat} {input rest xs : List τ} :
    (take n).run input = .ok (xs, rest) ↔ xs.length = n ∧ input = xs ++ rest := by
  simp only [take]
  constructor
  · intro h
    split at h
    next hn =>
      obtain ⟨rfl, rfl⟩ := Prod.mk.inj (Except.ok.inj h)
      exact ⟨by simp [hn], (List.take_append_drop n input).symm⟩
    next => cases h
  · rintro ⟨rfl, rfl⟩
    simp

theorem take_eq_error {n : Nat} {input : List τ} {e : ReadError} :
    (take n : Reader τ (List τ)).run input = .error e ↔ e = .incomplete ∧ input.length < n := by
  simp only [take]
  split
  next h => simp [h]
  next h => simp [Nat.not_le.mp h, eq_comm]

end Reader

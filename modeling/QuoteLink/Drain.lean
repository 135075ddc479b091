import QuoteLink.Reader

namespace Reader

variable {τ α : Type}

/-- Every value a reader returns costs it at least one token. -/
def Progress (r : Reader τ α) : Prop :=
  ∀ input a rest, r.run input = .ok (a, rest) → rest.length < input.length

def drainFuel (r : Reader τ α) : Nat → List τ → List α × List τ
  | 0, input => ([], input)
  | fuel + 1, input =>
    match r.run input with
    | .ok (a, rest) => (a :: (drainFuel r fuel rest).1, (drainFuel r fuel rest).2)
    | .error _ => ([], input)

/-- The values read one after the other from the start of `input`, and what is
left where the reader first fails. The length of the input is enough fuel for
a reader that makes progress. -/
def drain (r : Reader τ α) (input : List τ) : List α × List τ :=
  drainFuel r input.length input

theorem drainFuel_enough {r : Reader τ α} (hp : r.Progress) :
    ∀ fuel input, input.length ≤ fuel → drainFuel r fuel input = drain r input := by
  have step : ∀ n m input, input.length ≤ n → input.length ≤ m →
      drainFuel r n input = drainFuel r m input := by
    intro n
    induction n with
    | zero =>
      intro m input hn _
      have empty : input = [] := List.length_eq_zero_iff.mp (by omega)
      subst input
      cases m with
      | zero => rfl
      | succ m =>
        simp only [drainFuel]
        split
        next a rest h => exact absurd (hp _ _ _ h) (by simp)
        next => rfl
    | succ n ih =>
      intro m input hn hm
      cases h : r.run input with
      | error e => cases m <;> simp [drainFuel, h]
      | ok out =>
        obtain ⟨a, rest⟩ := out
        have hlt := hp _ _ _ h
        obtain ⟨m, rfl⟩ : ∃ k, m = k + 1 := ⟨m - 1, by omega⟩
        simp only [drainFuel, h, ih m rest (by omega) (by omega)]
  exact fun fuel input h => step fuel input.length input h le_rfl

theorem drain_error {r : Reader τ α} {input : List τ} {e : ReadError}
    (h : r.run input = .error e) : r.drain input = ([], input) := by
  unfold drain
  cases input.length <;> simp [drainFuel, h]

theorem drain_ok {r : Reader τ α} (hp : r.Progress) {input rest : List τ} {a : α}
    (h : r.run input = .ok (a, rest)) :
    r.drain input = (a :: (r.drain rest).1, (r.drain rest).2) := by
  have hlt := hp _ _ _ h
  calc r.drain input
      = drainFuel r (input.length + 1) input := (drainFuel_enough hp _ _ (by omega)).symm
    _ = (a :: (drainFuel r input.length rest).1, (drainFuel r input.length rest).2) := by
      simp only [drainFuel, h]
    _ = (a :: (r.drain rest).1, (r.drain rest).2) := by
      rw [drainFuel_enough hp _ _ hlt.le]

theorem drain_nil {r : Reader τ α} (hp : r.Progress) : r.drain [] = ([], []) := by
  cases h : r.run [] with
  | error e => exact drain_error h
  | ok out => exact absurd (hp _ _ _ h) (Nat.not_lt_zero _)

theorem drain_induction {r : Reader τ α} (hp : r.Progress) {motive : List τ → Prop}
    (stop : ∀ input e, r.run input = .error e → motive input)
    (next : ∀ input a rest, r.run input = .ok (a, rest) → motive rest → motive input)
    (input : List τ) : motive input := by
  induction hn : input.length using Nat.strongRecOn generalizing input with
  | ind n ih =>
    cases h : r.run input with
    | error e => exact stop input e h
    | ok out =>
      have hlt := hp _ _ _ h
      exact next input out.1 out.2 h (ih out.2.length (by omega) out.2 rfl)

theorem drain_rest_error {r : Reader τ α} (hp : r.Progress) (input : List τ) :
    ∃ e, r.run (r.drain input).2 = .error e := by
  induction input using drain_induction hp with
  | stop input e h => exact ⟨e, by rw [drain_error h]; exact h⟩
  | next input a rest h ih => rw [drain_ok hp h]; exact ih

theorem drain_length_le {r : Reader τ α} (hp : r.Progress) (input : List τ) :
    (r.drain input).2.length ≤ input.length := by
  induction input using drain_induction hp with
  | stop input e h => rw [drain_error h]
  | next input a rest h ih =>
    rw [drain_ok hp h]
    exact ih.trans (hp _ _ _ h).le

/-- What is left is a suffix, so its length alone determines it. -/
theorem drop_drain {r : Reader τ α} (hp : r.Progress) (input : List τ) :
    input.drop (input.length - (r.drain input).2.length) = (r.drain input).2 := by
  induction input using drain_induction hp with
  | stop input e h => simp [drain_error h]
  | next input a rest h ih =>
    have hle := drain_length_le hp rest
    obtain ⟨used, rfl, _⟩ := r.ok_local h
    have hcut : (used ++ rest).length - (r.drain rest).2.length =
        used.length + (rest.length - (r.drain rest).2.length) := by
      rw [List.length_append]
      omega
    rw [drain_ok hp h, hcut, ← List.drop_drop, List.drop_left, ih]

/-- More input resumes the reading exactly where it stopped. -/
theorem drain_append {r : Reader τ α} (hp : r.Progress) (input more : List τ) :
    r.drain (input ++ more) =
      ((r.drain input).1 ++ (r.drain ((r.drain input).2 ++ more)).1,
        (r.drain ((r.drain input).2 ++ more)).2) := by
  induction input using drain_induction hp with
  | stop input e h => rw [drain_error h]; rfl
  | next input a rest h ih => rw [drain_ok hp h, drain_ok hp (ok_append h more), ih]; rfl

/-- What is read from the front of an input is read first. -/
theorem drain_mono {r : Reader τ α} (hp : r.Progress) {front input : List τ} (h : front <+: input) :
    (r.drain front).1 <+: (r.drain input).1 := by
  obtain ⟨more, rfl⟩ := h
  rw [drain_append hp]
  exact List.prefix_append _ _

/-- Nothing is read past an invalid value. -/
theorem drain_invalid_append {r : Reader τ α} (hp : r.Progress) {input : List τ}
    (h : r.run (r.drain input).2 = .error .invalid) (more : List τ) :
    r.drain (input ++ more) = ((r.drain input).1, (r.drain input).2 ++ more) := by
  rw [drain_append hp, drain_error (r.invalid_append h more), List.append_nil]

section Writer

variable {r : Reader τ α} {write : α → List τ} {valid : α → Prop}

/-- The reader and the writer describe the same format: exactly the encodings
of valid values are read, and each is read back as the value it came from. -/
def Inverse (r : Reader τ α) (write : α → List τ) (valid : α → Prop) : Prop :=
  ∀ input a rest, r.run input = .ok (a, rest) ↔ valid a ∧ input = write a ++ rest

theorem Inverse.prefix_free (hw : r.Inverse write valid) {a b : α} (ha : valid a) (hb : valid b)
    {more : List τ} (h : write b = write a ++ more) : a = b ∧ more = [] := by
  have hra := (hw (write b) a more).mpr ⟨ha, h⟩
  have hrb := (hw (write b) b []).mpr ⟨hb, (List.append_nil _).symm⟩
  exact Prod.mk.inj (Except.ok.inj (hra.symm.trans hrb))

theorem drain_write (hp : r.Progress) (hw : r.Inverse write valid) (xs : List α)
    (hv : ∀ a ∈ xs, valid a) (tail : List τ) :
    r.drain (xs.flatMap write ++ tail) = (xs ++ (r.drain tail).1, (r.drain tail).2) := by
  induction xs with
  | nil => rfl
  | cons a xs ih =>
    have head : r.run ((a :: xs).flatMap write ++ tail) = .ok (a, xs.flatMap write ++ tail) :=
      (hw _ _ _).mpr ⟨hv a List.mem_cons_self, by rw [List.flatMap_cons, List.append_assoc]⟩
    rw [drain_ok hp head, ih (fun b hb => hv b (List.mem_cons_of_mem a hb))]
    rfl

theorem drain_valid (hp : r.Progress) (hw : r.Inverse write valid) (input : List τ) :
    (∀ a ∈ (r.drain input).1, valid a) ∧
      input = (r.drain input).1.flatMap write ++ (r.drain input).2 := by
  induction input using drain_induction hp with
  | stop input e h => rw [drain_error h]; simp
  | next input a rest h ih =>
    obtain ⟨ha, hsplit⟩ := (hw input a rest).mp h
    rw [drain_ok hp h]
    refine ⟨List.forall_mem_cons.mpr ⟨ha, ih.1⟩, ?_⟩
    rw [List.flatMap_cons, List.append_assoc, ← ih.2]
    exact hsplit

/-- A concatenation of encodings is read back value by value if and only if
every value is one the format can carry. -/
theorem drain_flatMap_write_iff (hp : r.Progress) (hw : r.Inverse write valid) (xs : List α) :
    r.drain (xs.flatMap write) = (xs, []) ↔ ∀ a ∈ xs, valid a := by
  constructor
  · intro h
    have := (drain_valid hp hw (xs.flatMap write)).1
    rwa [h] at this
  · intro hv
    simpa [drain_nil hp] using drain_write hp hw xs hv []

end Writer

end Reader

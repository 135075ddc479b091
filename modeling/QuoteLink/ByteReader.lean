import QuoteLink.Reader

open Bits

namespace Reader

variable {α : Type}

/-- Read bits out of `input.1` from bit `input.2` on: what is left starts in
the byte of the next unread bit, at the returned offset. -/
def fromBytes (r : Reader Bool α) (input : List UInt8 × Nat) :
    Except ReadError ((List UInt8 × Nat) × α) :=
  match r.run ((unpack input.1).drop input.2) with
  | .ok (a, rest) =>
    let bitsRead := 8 * input.1.length - rest.length
    .ok ((input.1.drop (bitsRead / 8), bitsRead % 8), a)
  | .error e => .error e

/-- A bit reader that always ends on a byte border when it starts on one. -/
def Aligned (r : Reader Bool α) : Prop :=
  ∀ input a rest, r.run input = .ok (a, rest) → ∃ k, input.length = rest.length + 8 * k

theorem Aligned.split {r : Reader Bool α} (ha : r.Aligned) {input : List UInt8} {a : α}
    {rest : List Bool} (h : r.run (unpack input) = .ok (a, rest)) :
    ∃ k, k ≤ input.length ∧ rest = unpack (input.drop k) ∧
      ∀ more, r.run (unpack (input.take k) ++ more) = .ok (a, more) := by
  obtain ⟨k, hk⟩ := ha _ _ _ h
  obtain ⟨used, hused, hlocal⟩ := r.ok_local h
  rw [length_unpack] at hk
  have hlen : used.length = 8 * k := by
    have := congrArg List.length hused
    rw [length_unpack, List.length_append] at this
    omega
  have htake : used = unpack (input.take k) := by
    rw [← take_unpack, hused, ← hlen, List.take_left]
  have hdrop : rest = unpack (input.drop k) := by
    rw [← drop_unpack, hused, ← hlen, List.drop_left]
  exact ⟨k, by omega, hdrop, by rwa [← htake]⟩

theorem fromBytes_zero_eq_ok {r : Reader Bool α} (ha : r.Aligned) {input rest : List UInt8}
    {i : Nat} {a : α} :
    r.fromBytes (input, 0) = .ok ((rest, i), a) ↔
      i = 0 ∧ r.run (unpack input) = .ok (a, unpack rest) := by
  unfold fromBytes
  rw [List.drop_zero]
  cases h : r.run (unpack input) with
  | error e => simp
  | ok out =>
    obtain ⟨b, bits⟩ := out
    obtain ⟨k, hk, hbits, _⟩ := ha.split h
    have hread : 8 * input.length - bits.length = 8 * k := by
      rw [hbits, length_unpack, List.length_drop]
      omega
    have hinj : unpack (input.drop k) = unpack rest ↔ input.drop k = rest :=
      ⟨fun he => by rw [← pack_unpack (input.drop k), he, pack_unpack], fun he => by rw [he]⟩
    simp only [hread, Nat.mul_div_cancel_left k (by decide : 0 < 8), Nat.mul_mod_right,
      Except.ok.injEq, Prod.mk.injEq]
    rw [hbits, hinj]
    exact ⟨fun ⟨⟨hr, hi⟩, hb⟩ => ⟨hi.symm, hb, hr⟩, fun ⟨hi, hb, hr⟩ => ⟨⟨hr, hi.symm⟩, hb⟩⟩

theorem fromBytes_zero_eq_error {r : Reader Bool α} {input : List UInt8} {e : ReadError} :
    r.fromBytes (input, 0) = .error e ↔ r.run (unpack input) = .error e := by
  unfold fromBytes
  rw [List.drop_zero]
  cases h : r.run (unpack input) with
  | error e' => simp
  | ok out => simp

/-- A bit reader of whole bytes, as a reader of byte strings. -/
def bytes (r : Reader Bool α) (ha : r.Aligned) : Reader UInt8 α where
  run input := (r.fromBytes (input, 0)).map fun out => (out.2, out.1.1)
  ok_local := by
    intro input a rest h
    cases hf : r.fromBytes (input, 0) with
    | error e => simp [hf, Except.map] at h
    | ok out =>
      obtain ⟨⟨rest', i⟩, b⟩ := out
      simp only [hf, Except.map, Except.ok.injEq, Prod.mk.injEq] at h
      obtain ⟨rfl, rfl⟩ := h
      obtain ⟨_, hrun⟩ := (fromBytes_zero_eq_ok ha).mp hf
      obtain ⟨k, _, hrest, hlocal⟩ := ha.split hrun
      have hdrop : rest' = input.drop k := by
        rw [← pack_unpack rest', hrest, pack_unpack]
      refine ⟨input.take k, by rw [hdrop, List.take_append_drop], fun more => ?_⟩
      have := (fromBytes_zero_eq_ok ha).mpr ⟨rfl, (unpack_append _ more) ▸ hlocal (unpack more)⟩
      rw [this]
      rfl
  invalid_append := by
    intro input h more
    cases hf : r.fromBytes (input, 0) with
    | ok out => simp [hf, Except.map] at h
    | error e =>
      have he : e = .invalid := by simpa [hf, Except.map] using h
      subst e
      have hrun := r.invalid_append (fromBytes_zero_eq_error.mp hf) (unpack more)
      rw [← unpack_append] at hrun
      rw [fromBytes_zero_eq_error.mpr hrun]
      rfl

theorem bytes_eq_ok {r : Reader Bool α} {ha : r.Aligned} {input rest : List UInt8} {a : α} :
    (r.bytes ha).run input = .ok (a, rest) ↔ r.fromBytes (input, 0) = .ok ((rest, 0), a) := by
  simp only [bytes]
  cases hf : r.fromBytes (input, 0) with
  | error e => simp [Except.map]
  | ok out =>
    obtain ⟨⟨rest', i⟩, b⟩ := out
    obtain ⟨rfl, _⟩ := (fromBytes_zero_eq_ok ha).mp hf
    simp [Except.map, and_comm]

theorem bytes_eq_error {r : Reader Bool α} {ha : r.Aligned} {input : List UInt8} {e : ReadError} :
    (r.bytes ha).run input = .error e ↔ r.fromBytes (input, 0) = .error e := by
  simp only [bytes]
  cases hf : r.fromBytes (input, 0) <;> simp [Except.map]

end Reader

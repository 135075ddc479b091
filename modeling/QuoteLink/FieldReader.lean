import QuoteLink.ByteReader
import QuoteLink.Drain

open Bits

namespace Reader

/-- An unsigned field of `n` bits, most significant bit first. -/
def bits (n : Nat) : Reader Bool Nat := do
  let bs ← take n
  pure (value bs)

theorem bits_eq_ok {n v : Nat} {input rest : List Bool} :
    (bits n).run input = .ok (v, rest) ↔ v < 2 ^ n ∧ input = field n v ++ rest := by
  simp only [bits, bind_eq_ok, take_eq_ok, run_pure, Except.ok.injEq, Prod.mk.injEq]
  constructor
  · rintro ⟨bs, mid, ⟨rfl, rfl⟩, rfl, rfl⟩
    exact ⟨value_lt bs, by rw [field_value]⟩
  · rintro ⟨hv, rfl⟩
    exact ⟨field n v, rest, ⟨length_field n v, rfl⟩, value_field_of_lt hv, rfl⟩

/-- A `u8` field of `n` bits. -/
def u8 (n : Nat) : Reader Bool UInt8 := do
  let v ← bits n
  pure (UInt8.ofNat v)

/-- A `u32` field of `n` bits. -/
def u32 (n : Nat) : Reader Bool UInt32 := do
  let v ← bits n
  pure (UInt32.ofNat v)

theorem u8_eq_ok {n : Nat} (hn : n ≤ 8) {v : UInt8} {input rest : List Bool} :
    (u8 n).run input = .ok (v, rest) ↔ v.toNat < 2 ^ n ∧ input = field n v.toNat ++ rest := by
  have hle : 2 ^ n ≤ 2 ^ 8 := Nat.pow_le_pow_right (by decide) hn
  simp only [u8, bind_eq_ok, bits_eq_ok, run_pure, Except.ok.injEq, Prod.mk.injEq]
  constructor
  · rintro ⟨w, mid, ⟨hw, rfl⟩, rfl, rfl⟩
    rw [UInt8.toNat_ofNat_of_lt' (lt_of_lt_of_le hw hle)]
    exact ⟨hw, rfl⟩
  · rintro ⟨hv, rfl⟩
    exact ⟨v.toNat, rest, ⟨hv, rfl⟩, UInt8.ofNat_toNat, rfl⟩

theorem u32_eq_ok {n : Nat} (hn : n ≤ 32) {v : UInt32} {input rest : List Bool} :
    (u32 n).run input = .ok (v, rest) ↔ v.toNat < 2 ^ n ∧ input = field n v.toNat ++ rest := by
  have hle : 2 ^ n ≤ 2 ^ 32 := Nat.pow_le_pow_right (by decide) hn
  simp only [u32, bind_eq_ok, bits_eq_ok, run_pure, Except.ok.injEq, Prod.mk.injEq]
  constructor
  · rintro ⟨w, mid, ⟨hw, rfl⟩, rfl, rfl⟩
    rw [UInt32.toNat_ofNat_of_lt' (lt_of_lt_of_le hw hle)]
    exact ⟨hw, rfl⟩
  · rintro ⟨hv, rfl⟩
    exact ⟨v.toNat, rest, ⟨hv, rfl⟩, UInt32.ofNat_toNat, rfl⟩

/-- An enumeration stored as an `n`-bit id; an unknown id is invalid. -/
def enum {α : Type} (n : Nat) (fromId : Nat → Option α) : Reader Bool α := do
  let v ← bits n
  match fromId v with
  | some a => pure a
  | none => reject

theorem enum_eq_ok {α : Type} {n : Nat} {id : α → Nat} {fromId : Nat → Option α}
    (hid : ∀ v a, fromId v = some a ↔ v = id a) (hlt : ∀ a, id a < 2 ^ n)
    {a : α} {input rest : List Bool} :
    (enum n fromId).run input = .ok (a, rest) ↔ input = field n (id a) ++ rest := by
  simp only [enum, bind_eq_ok, bits_eq_ok]
  constructor
  · rintro ⟨v, mid, ⟨_, rfl⟩, h⟩
    cases hf : fromId v with
    | none => simp [hf] at h
    | some b =>
      simp only [hf, run_pure, Except.ok.injEq, Prod.mk.injEq] at h
      obtain ⟨rfl, rfl⟩ := h
      rw [(hid v b).mp hf]
  · rintro rfl
    exact ⟨id a, rest, ⟨hlt a, rfl⟩, by rw [(hid (id a) a).mpr rfl]; rfl⟩

/-- `n` bytes. -/
def byteCount (n : Nat) : Reader Bool (List UInt8) := do
  let bs ← take (8 * n)
  pure (pack bs)

theorem byteCount_eq_ok {n : Nat} {body : List UInt8} {input rest : List Bool} :
    (byteCount n).run input = .ok (body, rest) ↔ body.length = n ∧ input = unpack body ++ rest := by
  simp only [byteCount, bind_eq_ok, take_eq_ok, run_pure, Except.ok.injEq, Prod.mk.injEq]
  constructor
  · rintro ⟨bs, mid, ⟨hlen, rfl⟩, rfl, rfl⟩
    exact ⟨length_pack hlen, by rw [unpack_pack hlen]⟩
  · rintro ⟨rfl, rfl⟩
    exact ⟨unpack body, rest, ⟨length_unpack body, rfl⟩, pack_unpack body, rfl⟩

theorem byteCount_exists {n : Nat} {input : List Bool} (h : 8 * n ≤ input.length) :
    ∃ body rest, (byteCount n).run input = .ok (body, rest) ∧ input.length = rest.length + 8 * n := by
  have hfirst : (input.take (8 * n)).length = 8 * n := by simp [h]
  refine ⟨pack (input.take (8 * n)), input.drop (8 * n), byteCount_eq_ok.mpr ⟨length_pack hfirst, ?_⟩, ?_⟩
  · rw [unpack_pack hfirst, List.take_append_drop]
  · rw [List.length_drop]
    omega

theorem byteCount_eq_error {n : Nat} {input : List Bool} {e : ReadError} :
    (byteCount n).run input = .error e ↔ e = .incomplete ∧ input.length < 8 * n := by
  simp only [byteCount, bind_eq_error, take_eq_error, run_pure, reduceCtorEq, and_false,
    exists_false, or_false]

end Reader

inductive WriteError
  | invalidParam
  deriving DecidableEq, Repr

/-- Write the low `n` bits of an integer type of `width` bits. A field wider
than its integer type is the only thing the writer refuses. -/
def putBits (width n v : Nat) : Except WriteError (List Bool) :=
  if n ≤ width then .ok (Bits.field n v) else .error .invalidParam

import Mathlib.Data.List.Basic
import Mathlib.Tactic.Ring

namespace Bits

/-- The low `n` bits of `v`, most significant bit first. -/
def field : Nat → Nat → List Bool
  | 0, _ => []
  | n + 1, v => decide (v / 2 ^ n % 2 = 1) :: field n v

/-- The number a bit string spells, most significant bit first. -/
def value : List Bool → Nat
  | [] => 0
  | b :: bs => b.toNat * 2 ^ bs.length + value bs

@[simp] theorem length_field (n v : Nat) : (field n v).length = n := by
  induction n with
  | zero => rfl
  | succ n ih => simp [field, ih]

theorem value_lt (bs : List Bool) : value bs < 2 ^ bs.length := by
  induction bs with
  | nil => simp [value]
  | cons b bs ih =>
    have hb : b.toNat ≤ 1 := Bool.toNat_le b
    have hm : b.toNat * 2 ^ bs.length ≤ 1 * 2 ^ bs.length := Nat.mul_le_mul_right _ hb
    simp only [value, List.length_cons, Nat.pow_succ]
    omega

theorem value_field (n v : Nat) : value (field n v) = v % 2 ^ n := by
  induction n with
  | zero => simp [field, value, Nat.mod_one]
  | succ n ih =>
    have top : (decide (v / 2 ^ n % 2 = 1)).toNat = v / 2 ^ n % 2 := by
      rcases Nat.mod_two_eq_zero_or_one (v / 2 ^ n) with h | h <;> simp [h]
    simp only [field, value, length_field, ih, top, Nat.pow_succ, Nat.mod_mul]
    ring

theorem value_field_of_lt {n v : Nat} (h : v < 2 ^ n) : value (field n v) = v := by
  rw [value_field, Nat.mod_eq_of_lt h]

/-- The bits above position `n` do not reach a field of `n` bits. -/
theorem field_mul_add (n k v : Nat) : field n (k * 2 ^ n + v) = field n v := by
  induction n generalizing k with
  | zero => rfl
  | succ n ih =>
    have split : k * 2 ^ (n + 1) = k * 2 * 2 ^ n := by ring
    have top : (k * 2 * 2 ^ n + v) / 2 ^ n % 2 = v / 2 ^ n % 2 := by
      rw [Nat.add_comm, Nat.add_mul_div_right _ _ (Nat.two_pow_pos n)]
      omega
    simp only [field, split, ih, top]

theorem field_value (bs : List Bool) : field bs.length (value bs) = bs := by
  induction bs with
  | nil => rfl
  | cons b bs ih =>
    have top : (b.toNat * 2 ^ bs.length + value bs) / 2 ^ bs.length = b.toNat := by
      rw [Nat.add_comm, Nat.add_mul_div_right _ _ (Nat.two_pow_pos _),
        Nat.div_eq_of_lt (value_lt bs), Nat.zero_add]
    simp only [List.length_cons, field, value, top, field_mul_add, ih]
    cases b <;> rfl

/-- The bits of a byte string, each byte most significant bit first. -/
def unpack (bytes : List UInt8) : List Bool :=
  bytes.flatMap fun b => field 8 b.toNat

/-- Collect bits into bytes; a last incomplete byte is filled up with zeros. -/
def pack : List Bool → List UInt8
  | b7 :: b6 :: b5 :: b4 :: b3 :: b2 :: b1 :: b0 :: rest =>
    UInt8.ofNat (value [b7, b6, b5, b4, b3, b2, b1, b0]) :: pack rest
  | [] => []
  | bits => [UInt8.ofNat (value (bits ++ List.replicate (8 - bits.length) false))]

@[simp] theorem unpack_nil : unpack [] = [] := rfl

@[simp] theorem unpack_cons (b : UInt8) (bytes : List UInt8) :
    unpack (b :: bytes) = field 8 b.toNat ++ unpack bytes := rfl

@[simp] theorem unpack_append (xs ys : List UInt8) : unpack (xs ++ ys) = unpack xs ++ unpack ys :=
  List.flatMap_append

@[simp] theorem length_unpack (bytes : List UInt8) : (unpack bytes).length = 8 * bytes.length := by
  induction bytes with
  | nil => rfl
  | cons b bytes ih => simp only [unpack_cons, List.length_append, length_field, ih, List.length_cons]; ring

theorem pack_byte {byte rest : List Bool} (h : byte.length = 8) :
    pack (byte ++ rest) = UInt8.ofNat (value byte) :: pack rest := by
  obtain ⟨b7, b6, b5, b4, b3, b2, b1, b0, rfl⟩ : ∃ b7 b6 b5 b4 b3 b2 b1 b0,
      byte = [b7, b6, b5, b4, b3, b2, b1, b0] := by
    match byte, h with
    | [b7, b6, b5, b4, b3, b2, b1, b0], _ => exact ⟨_, _, _, _, _, _, _, _, rfl⟩
  rfl

theorem pack_unpack_append (bytes : List UInt8) (bits : List Bool) :
    pack (unpack bytes ++ bits) = bytes ++ pack bits := by
  induction bytes with
  | nil => rfl
  | cons b bytes ih =>
    have hb : value (field 8 b.toNat) = b.toNat := value_field_of_lt (UInt8.toNat_lt b)
    rw [unpack_cons, List.append_assoc, pack_byte (length_field 8 _), ih, hb]
    simp

theorem pack_unpack (bytes : List UInt8) : pack (unpack bytes) = bytes := by
  calc pack (unpack bytes) = pack (unpack bytes ++ []) := by rw [List.append_nil]
    _ = bytes ++ pack [] := pack_unpack_append bytes []
    _ = bytes := List.append_nil bytes

/-- Whole bytes survive packing bit by bit. -/
theorem unpack_pack {k : Nat} {bits : List Bool} (h : bits.length = 8 * k) :
    unpack (pack bits) = bits := by
  induction k generalizing bits with
  | zero =>
    have empty : bits = [] := List.length_eq_zero_iff.mp (by omega)
    subst bits
    rfl
  | succ k ih =>
    have split : bits = bits.take 8 ++ bits.drop 8 := (List.take_append_drop 8 bits).symm
    have hlen : (bits.take 8).length = 8 := by rw [List.length_take]; omega
    have hlt : value (bits.take 8) < 2 ^ 8 := by simpa [hlen] using value_lt (bits.take 8)
    have byte : field 8 (value (bits.take 8)) = bits.take 8 := by
      simpa [hlen] using field_value (bits.take 8)
    rw [split, pack_byte hlen, unpack_cons, ih (by rw [List.length_drop]; omega)]
    rw [UInt8.toNat_ofNat_of_lt' hlt, byte]

theorem length_pack {k : Nat} {bits : List Bool} (h : bits.length = 8 * k) :
    (pack bits).length = k := by
  have := congrArg List.length (unpack_pack h)
  rw [length_unpack] at this
  omega

theorem drop_unpack (k : Nat) (bytes : List UInt8) :
    (unpack bytes).drop (8 * k) = unpack (bytes.drop k) := by
  induction k generalizing bytes with
  | zero => rfl
  | succ k ih =>
    cases bytes with
    | nil => simp
    | cons b bytes =>
      have hk : 8 * (k + 1) = (field 8 b.toNat).length + 8 * k := by rw [length_field]; ring
      rw [unpack_cons, hk, ← List.drop_drop, List.drop_left, ih, List.drop_succ_cons]

theorem take_unpack (k : Nat) (bytes : List UInt8) :
    (unpack bytes).take (8 * k) = unpack (bytes.take k) := by
  have whole : unpack (bytes.take k) ++ unpack (bytes.drop k) =
      (unpack bytes).take (8 * k) ++ (unpack bytes).drop (8 * k) := by
    rw [← unpack_append, List.take_append_drop, List.take_append_drop]
  rw [drop_unpack] at whole
  exact (List.append_cancel_right whole).symm

end Bits

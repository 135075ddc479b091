import Mathlib.Algebra.Ring.Nat
import Mathlib.Data.List.Basic
import Mathlib.Data.Option.Basic

/-- The wire format of protocol buffers. -/
inductive WireType
  | varint
  | fixed64
  | lengthDelimited
  | startGroup
  | endGroup
  | fixed32
  deriving DecidableEq, Repr

namespace Wire

abbrev Input := List UInt8

/-- What stands behind a key. A group is read over: no field of proto3 is one. -/
inductive Value
  | varint (n : Nat)
  | fixed64 (bytes : Input)
  | bytes (bytes : Input)
  | group
  | fixed32 (bytes : Input)
  deriving DecidableEq, Repr

def Value.uint64? : Value → Option UInt64
  | .varint n => some (UInt64.ofNat n)
  | _ => none

def Value.bytes? : Value → Option Input
  | .bytes xs => some xs
  | _ => none

def Value.string? (v : Value) : Option String := v.bytes?.bind fun xs => String.fromUTF8? ⟨xs.toArray⟩

structure Record where
  tag : Nat
  value : Value
  deriving DecidableEq, Repr

def wireType : Nat → Option WireType
  | 0 => some .varint
  | 1 => some .fixed64
  | 2 => some .lengthDelimited
  | 3 => some .startGroup
  | 4 => some .endGroup
  | 5 => some .fixed32
  | _ => none

/-- A varint whose last possible byte is the `n`th from here. That byte has room
for one bit, as ten bytes are to make a number of 64 bits. -/
def varint : Nat → Input → Option (Nat × Input)
  | 0, _ => none
  | _ + 1, [] => none
  | n + 1, b :: rest =>
    if 128 ≤ b.toNat then (varint n rest).map fun (high, rest) => (b.toNat - 128 + 128 * high, rest)
    else if n = 0 ∧ 2 ≤ b.toNat then none
    else some (b.toNat, rest)

def key (input : Input) : Option ((Nat × WireType) × Input) := do
  let (k, rest) ← varint 10 input
  if UInt32.size ≤ k then none
  else
    let wt ← wireType (k % 8)
    if k / 8 = 0 then none else some ((k / 8, wt), rest)

def take (n : Nat) (input : Input) : Option (Input × Input) :=
  if n ≤ input.length then some (input.take n, input.drop n) else none

/-- The fields of the group `tag` up to its end; `skip` reads the value of a field.
`fuel` bounds their number. -/
def group (skip : Nat → WireType → Input → Option (Value × Input)) (tag : Nat) :
    Nat → Input → Option Input
  | 0, _ => none
  | fuel + 1, input => do
    let ((inner, wt), rest) ← key input
    if wt = .endGroup then
      if inner = tag then some rest else none
    else
      let (_, rest) ← skip inner wt rest
      group skip tag fuel rest

/-- The value of a field. Groups may be nested up to `limit` deep. -/
def value : Nat → Nat → WireType → Input → Option (Value × Input)
  | 0, _, _, _ => none
  | _ + 1, _, .varint, input => (varint 10 input).map fun (n, rest) => (.varint n, rest)
  | _ + 1, _, .fixed64, input => (take 8 input).map fun (xs, rest) => (.fixed64 xs, rest)
  | _ + 1, _, .lengthDelimited, input => do
    let (n, rest) ← varint 10 input
    (take n rest).map fun (xs, rest) => (.bytes xs, rest)
  | limit + 1, tag, .startGroup, input =>
    (group (value limit) tag input.length input).map fun rest => (.group, rest)
  | _ + 1, _, .endGroup, _ => none
  | _ + 1, _, .fixed32, input => (take 4 input).map fun (xs, rest) => (.fixed32 xs, rest)

def record (limit : Nat) (input : Input) : Option (Record × Input) := do
  let ((tag, wt), rest) ← key input
  (value limit tag wt rest).map fun (v, rest) => (⟨tag, v⟩, rest)

def recordsFrom (limit : Nat) : Nat → Input → Option (List Record)
  | _, [] => some []
  | 0, _ :: _ => none
  | fuel + 1, input => do
    let (r, rest) ← record limit input
    let rs ← recordsFrom limit fuel rest
    some (r :: rs)

/-- The records of a message; `none` if the input is not a sequence of records. -/
def records (limit : Nat) (input : Input) : Option (List Record) :=
  recordsFrom limit input.length input

section Progress

variable {limit : Nat} {input rest : Input}

theorem varint_length {n k : Nat} (h : varint n input = some (k, rest)) :
    rest.length < input.length := by
  induction n generalizing input k with
  | zero => cases h
  | succ n ih =>
    cases input with
    | nil => cases h
    | cons b input =>
      simp only [varint] at h
      split at h
      · obtain ⟨⟨high, tail⟩, hhigh, heq⟩ := Option.map_eq_some_iff.mp h
        cases heq
        exact Nat.lt_succ_of_lt (ih hhigh)
      · split at h
        · cases h
        · cases h
          exact Nat.lt_succ_self _

theorem key_length {k : Nat × WireType} (h : key input = some (k, rest)) :
    rest.length < input.length := by
  obtain ⟨⟨n, mid⟩, hn, h⟩ := Option.bind_eq_some_iff.mp h
  dsimp only at h
  split at h
  · cases h
  · obtain ⟨wt, _, h⟩ := Option.bind_eq_some_iff.mp h
    split at h
    · cases h
    · cases h
      exact varint_length hn

theorem take_length {n : Nat} {xs : Input} (h : take n input = some (xs, rest)) :
    rest.length ≤ input.length := by
  unfold take at h
  split at h
  · cases h
    simp only [List.length_drop]
    omega
  · cases h

theorem group_length {skip : Nat → WireType → Input → Option (Value × Input)}
    (hskip : ∀ {tag wt input v rest}, skip tag wt input = some (v, rest) → rest.length ≤ input.length)
    {tag fuel : Nat} (h : group skip tag fuel input = some rest) : rest.length < input.length := by
  induction fuel generalizing input with
  | zero => cases h
  | succ fuel ih =>
    obtain ⟨⟨⟨inner, wt⟩, mid⟩, hkey, h⟩ := Option.bind_eq_some_iff.mp h
    have hmid := key_length hkey
    dsimp only at h
    split at h
    · split at h
      · cases h
        exact hmid
      · cases h
    · obtain ⟨⟨v, last⟩, hv, h⟩ := Option.bind_eq_some_iff.mp h
      have hlast : last.length ≤ mid.length := hskip hv
      have hrest : rest.length < last.length := ih h
      omega

theorem value_length {tag : Nat} {wt : WireType} {v : Value}
    (h : value limit tag wt input = some (v, rest)) : rest.length ≤ input.length := by
  induction limit generalizing tag wt input v rest with
  | zero => cases h
  | succ limit ih =>
    cases wt with
    | varint =>
      obtain ⟨⟨n, tail⟩, hn, heq⟩ := Option.map_eq_some_iff.mp h
      cases heq
      exact Nat.le_of_lt (varint_length hn)
    | fixed64 =>
      obtain ⟨⟨xs, tail⟩, hxs, heq⟩ := Option.map_eq_some_iff.mp h
      cases heq
      exact take_length hxs
    | lengthDelimited =>
      obtain ⟨⟨n, mid⟩, hn, h⟩ := Option.bind_eq_some_iff.mp h
      obtain ⟨⟨xs, tail⟩, hxs, heq⟩ := Option.map_eq_some_iff.mp h
      cases heq
      exact Nat.le_trans (take_length hxs) (Nat.le_of_lt (varint_length hn))
    | startGroup =>
      obtain ⟨tail, htail, heq⟩ := Option.map_eq_some_iff.mp h
      cases heq
      exact Nat.le_of_lt (group_length ih htail)
    | endGroup => cases h
    | fixed32 =>
      obtain ⟨⟨xs, tail⟩, hxs, heq⟩ := Option.map_eq_some_iff.mp h
      cases heq
      exact take_length hxs

theorem record_length {r : Record} (h : record limit input = some (r, rest)) :
    rest.length < input.length := by
  obtain ⟨⟨⟨tag, wt⟩, mid⟩, hkey, h⟩ := Option.bind_eq_some_iff.mp h
  obtain ⟨⟨v, tail⟩, hv, heq⟩ := Option.map_eq_some_iff.mp h
  cases heq
  exact Nat.lt_of_le_of_lt (value_length hv) (key_length hkey)

theorem recordsFrom_fuel {fuel fuel' : Nat} (hfuel : input.length ≤ fuel) (hfuel' : input.length ≤ fuel') :
    recordsFrom limit fuel input = recordsFrom limit fuel' input := by
  induction fuel generalizing input fuel' with
  | zero =>
    rw [List.eq_nil_of_length_eq_zero (Nat.le_zero.mp hfuel)]
    cases fuel' <;> rfl
  | succ fuel ih =>
    cases input with
    | nil => cases fuel' <;> rfl
    | cons b input =>
      cases fuel' with
      | zero => exact absurd hfuel' (Nat.not_succ_le_zero _)
      | succ fuel' =>
        simp only [recordsFrom]
        cases hr : record limit (b :: input) with
        | none => rfl
        | some out =>
          obtain ⟨r, rest⟩ := out
          have hrest := record_length hr
          have hshort : rest.length ≤ fuel := by omega
          have hshort' : rest.length ≤ fuel' := by omega
          simp only [Option.bind_eq_bind, Option.bind_some, ih hshort hshort']

/-- A message is read record by record. -/
theorem records_cons {r : Record} (h : record limit input = some (r, rest)) :
    records limit input = (records limit rest).map (r :: ·) := by
  have hrest := record_length h
  cases input with
  | nil => cases h
  | cons b input =>
    have hfuel : recordsFrom limit input.length rest = records limit rest :=
      recordsFrom_fuel (Nat.le_of_lt_succ hrest) (Nat.le_refl _)
    simp only [records, List.length_cons, recordsFrom, h, Option.bind_eq_bind, Option.bind_some, hfuel]
    cases recordsFrom limit rest.length rest <;> rfl

end Progress

section Decode

variable {α : Type} {limit : Nat} {input : Input}

/-- A message decoded into `α`: each record is merged into what was read before it. -/
def decode (limit : Nat) (merge : α → Record → Option α) (init : α) (input : Input) : Option α :=
  (records limit input).bind fun rs => rs.foldlM merge init

/-- The input is a sequence of records that all meet `fits`. -/
def Accepts (limit : Nat) (fits : Record → Prop) (input : Input) : Prop :=
  ∃ rs, records limit input = some rs ∧ ∀ r ∈ rs, fits r

theorem foldlM_isSome_iff {merge : α → Record → Option α} {fits : Record → Prop}
    (hmerge : ∀ m r, (merge m r).isSome ↔ fits r) {m : α} {rs : List Record} :
    (rs.foldlM merge m).isSome ↔ ∀ r ∈ rs, fits r := by
  induction rs generalizing m with
  | nil => simp
  | cons r rs ih =>
    have hr := hmerge m r
    rw [List.foldlM_cons, List.forall_mem_cons, ← hr]
    cases hm : merge m r with
    | none => simp
    | some m' => simpa using ih

/-- If merging a record fails for its own sake only, a decoder accepts what consists
of good records. -/
theorem decode_isSome_iff {merge : α → Record → Option α} {fits : Record → Prop}
    (hmerge : ∀ m r, (merge m r).isSome ↔ fits r) {init : α} :
    (decode limit merge init input).isSome ↔ Accepts limit fits input := by
  unfold decode Accepts
  cases hrs : records limit input with
  | none => simp
  | some rs => simpa using foldlM_isSome_iff hmerge

/-- Two decoders read the same records, so they differ in the checks only. -/
theorem Accepts.and_iff {fits fits' : Record → Prop} :
    Accepts limit fits input ∧ ¬Accepts limit fits' input ↔
      ∃ rs, records limit input = some rs ∧ (∀ r ∈ rs, fits r) ∧ ∃ r ∈ rs, ¬fits' r := by
  constructor
  · rintro ⟨⟨rs, hrs, hall⟩, hnot⟩
    refine ⟨rs, hrs, hall, ?_⟩
    by_contra hnone
    simp only [not_exists, not_and, not_not] at hnone
    exact hnot ⟨rs, hrs, hnone⟩
  · rintro ⟨rs, hrs, hall, r, hr, hbad⟩
    refine ⟨⟨rs, hrs, hall⟩, ?_⟩
    rintro ⟨rs', hrs', hall'⟩
    rw [hrs] at hrs'
    cases hrs'
    exact hbad (hall' r hr)

end Decode

section Encode

variable {limit tag : Nat} {rest : Input}

/-- The varint of `v`, in at most `n` bytes. -/
def putVarint : Nat → Nat → Input
  | 0, _ => []
  | n + 1, v =>
    if v < 128 then [UInt8.ofNat v] else UInt8.ofNat (v % 128 + 128) :: putVarint n (v / 128)

theorem varint_putVarint {n v : Nat} (h : v < 2 ^ (7 * n + 1)) :
    varint (n + 1) (putVarint (n + 1) v ++ rest) = some (v, rest) := by
  induction n generalizing v with
  | zero =>
    have hlt : v < 128 := by omega
    have hv : (UInt8.ofNat v).toNat = v := by
      rw [UInt8.toNat_ofNat']
      omega
    have hlast : ¬128 ≤ v := by omega
    have hbit : ¬2 ≤ v := by omega
    simp [putVarint, varint, hlt, hv, hlast, hbit]
  | succ n ih =>
    rw [putVarint]
    by_cases hlt : v < 128
    · have hv : (UInt8.ofNat v).toNat = v := by
        rw [UInt8.toNat_ofNat']
        omega
      have hlast : ¬128 ≤ v := by omega
      rw [if_pos hlt, List.singleton_append, varint, hv, if_neg hlast, if_neg (by omega)]
    · have hv : (UInt8.ofNat (v % 128 + 128)).toNat = v % 128 + 128 := by
        rw [UInt8.toNat_ofNat']
        omega
      have hpow : 2 ^ (7 * (n + 1) + 1) = 128 * 2 ^ (7 * n + 1) := by
        rw [show 7 * (n + 1) + 1 = 7 + (7 * n + 1) by omega, Nat.pow_add]
      have hhigh : v / 128 < 2 ^ (7 * n + 1) := by
        apply Nat.div_lt_of_lt_mul
        rw [← hpow]
        exact h
      have hsum : v % 128 + 128 - 128 + 128 * (v / 128) = v := by omega
      rw [if_neg hlt, List.cons_append, varint, hv, if_pos (Nat.le_add_left _ _), ih hhigh]
      simp only [Option.map_some, hsum]

end Encode

end Wire

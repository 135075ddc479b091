import Mathlib.Data.List.Basic

/-- A bounded FIFO channel. -/
structure Channel (α : Type) where
  capacity : Nat
  items : List α
  length_le : items.length ≤ capacity
  deriving DecidableEq, Repr

namespace Channel

variable {α : Type}

def empty (capacity : Nat) : Channel α := ⟨capacity, [], Nat.zero_le _⟩

/-- A send goes through unless the channel is full; else its task waits. -/
def send (c : Channel α) (x : α) : Option (Channel α) :=
  if h : c.items.length < c.capacity then
    some ⟨c.capacity, c.items ++ [x], by rw [List.length_append]; exact h⟩
  else none

def recv (c : Channel α) : Option (α × Channel α) :=
  match h : c.items with
  | [] => none
  | x :: rest =>
    some (x, ⟨c.capacity, rest, by
      have hle := c.length_le
      rw [h, List.length_cons] at hle
      omega⟩)

def Full (c : Channel α) : Prop := c.items.length = c.capacity

instance (c : Channel α) : Decidable c.Full := inferInstanceAs (Decidable (_ = _))

/-- A channel with the same item several times. -/
def copies (capacity k : Nat) (x : α) (h : k ≤ capacity) : Channel α :=
  ⟨capacity, List.replicate k x, by rw [List.length_replicate]; exact h⟩

theorem send_eq_none_iff (c : Channel α) (x : α) : c.send x = none ↔ c.Full := by
  have hle := c.length_le
  unfold send Full
  split
  · simp only [reduceCtorEq, false_iff]
    omega
  · simp only [true_iff]
    omega

theorem items_of_send {c c' : Channel α} {x : α} (h : c.send x = some c') : c'.items = c.items ++ [x] := by
  unfold send at h
  split at h
  next =>
    cases h
    rfl
  next => cases h

theorem items_of_recv {c c' : Channel α} {x : α} (h : c.recv = some (x, c')) : c.items = x :: c'.items := by
  unfold recv at h
  split at h
  next => cases h
  next hitems =>
    cases h
    exact hitems

theorem capacity_of_send {c c' : Channel α} {x : α} (h : c.send x = some c') : c'.capacity = c.capacity := by
  unfold send at h
  split at h
  next =>
    cases h
    rfl
  next => cases h

theorem capacity_of_recv {c c' : Channel α} {x : α} (h : c.recv = some (x, c')) : c'.capacity = c.capacity := by
  unfold recv at h
  split at h
  next => cases h
  next =>
    cases h
    rfl

theorem exists_send {c : Channel α} (x : α) (h : c.items.length < c.capacity) : ∃ c', c.send x = some c' :=
  ⟨_, dif_pos h⟩

theorem exists_recv {c : Channel α} (h : c.items ≠ []) : ∃ x c', c.recv = some (x, c') := by
  unfold recv
  split
  next hitems => exact absurd hitems h
  next x rest hitems => exact ⟨x, _, rfl⟩

theorem send_copies {capacity k : Nat} (x : α) (h : k < capacity) :
    (copies capacity k x (Nat.le_of_lt h)).send x = some (copies capacity (k + 1) x h) := by
  have hroom : (copies capacity k x (Nat.le_of_lt h)).items.length <
      (copies capacity k x (Nat.le_of_lt h)).capacity := by
    simp only [copies, List.length_replicate]
    exact h
  rw [send, dif_pos hroom]
  simp only [copies, List.replicate_succ']

theorem full_copies (capacity : Nat) (x : α) : (copies capacity capacity x (Nat.le_refl _)).Full :=
  List.length_replicate

/-- What was sent into an empty channel is received next. -/
theorem recv_copies_one {capacity : Nat} (x : α) (h : 1 ≤ capacity) :
    (copies capacity 1 x h).recv = some (x, empty capacity) := rfl

end Channel

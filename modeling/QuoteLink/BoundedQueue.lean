import Mathlib.Data.List.Basic

/-- A FIFO queue of bounded size, told by its history: all that was pushed, and how
much of it was popped. The room of `spent` popped elements is not yet reclaimed. -/
structure BoundedQueue (α : Type) (capacity : Nat) where
  pushed : List α
  popped : Nat
  spent : Nat
  popped_le : popped ≤ pushed.length
  bounded : spent + (pushed.length - popped) ≤ capacity

namespace BoundedQueue

variable {α : Type} {capacity : Nat}

def items (q : BoundedQueue α capacity) : List α := q.pushed.drop q.popped

/-- The room that a push finds. -/
def vacant (q : BoundedQueue α capacity) : Nat := capacity - (q.spent + q.items.length)

/-- The room that a push finds once all of it is reclaimed. -/
def free (q : BoundedQueue α capacity) : Nat := capacity - q.items.length

theorem length_items (q : BoundedQueue α capacity) : q.items.length = q.pushed.length - q.popped :=
  List.length_drop

theorem room_le (q : BoundedQueue α capacity) : q.spent + q.items.length ≤ capacity := by
  rw [length_items]
  exact q.bounded

def empty : BoundedQueue α capacity := ⟨[], 0, 0, Nat.le_refl _, Nat.zero_le _⟩

def push (q : BoundedQueue α capacity) (b : List α) (h : b.length ≤ q.vacant) :
    BoundedQueue α capacity where
  pushed := q.pushed ++ b
  popped := q.popped
  spent := q.spent
  popped_le := by
    rw [List.length_append]
    exact Nat.le_add_right_of_le q.popped_le
  bounded := by
    have hle := q.popped_le
    have hroom := q.room_le
    unfold vacant at h
    rw [length_items] at h hroom
    rw [List.length_append]
    omega

def pop (q : BoundedQueue α capacity) (n : Nat) (h : n ≤ q.items.length) :
    BoundedQueue α capacity where
  pushed := q.pushed
  popped := q.popped + n
  spent := q.spent + n
  popped_le := by
    have hle := q.popped_le
    rw [length_items] at h
    omega
  bounded := by
    have hbounded := q.bounded
    rw [length_items] at h
    omega

def compact (q : BoundedQueue α capacity) : BoundedQueue α capacity where
  pushed := q.pushed
  popped := q.popped
  spent := 0
  popped_le := q.popped_le
  bounded := by
    have hbounded := q.bounded
    omega

inductive Op (α : Type)
  | push (b : List α)
  | pop (n : Nat)
  | compact
  | compactIfFull

/-- The queue after an operation, and whether the operation took effect. -/
def apply (q : BoundedQueue α capacity) : Op α → BoundedQueue α capacity × Bool
  | .push b => if h : b.length ≤ q.vacant then (q.push b h, true) else (q, false)
  | .pop n => if h : n ≤ q.items.length then (q.pop n h, true) else (q, false)
  | .compact => (q.compact, true)
  | .compactIfFull => if q.vacant = 0 then (q.compact, true) else (q, false)

def run (q : BoundedQueue α capacity) (ops : List (Op α)) : BoundedQueue α capacity :=
  ops.foldl (fun q op => (q.apply op).1) q

theorem apply_push {q : BoundedQueue α capacity} {b : List α} (h : b.length ≤ q.vacant) :
    q.apply (.push b) = (q.push b h, true) :=
  dif_pos h

theorem apply_push_failed {q : BoundedQueue α capacity} {b : List α} (h : ¬b.length ≤ q.vacant) :
    q.apply (.push b) = (q, false) :=
  dif_neg h

theorem apply_pop {q : BoundedQueue α capacity} {n : Nat} (h : n ≤ q.items.length) :
    q.apply (.pop n) = (q.pop n h, true) :=
  dif_pos h

theorem apply_pop_failed {q : BoundedQueue α capacity} {n : Nat} (h : ¬n ≤ q.items.length) :
    q.apply (.pop n) = (q, false) :=
  dif_neg h

theorem items_push (q : BoundedQueue α capacity) {b : List α} (h : b.length ≤ q.vacant) :
    (q.push b h).items = q.items ++ b :=
  List.drop_append_of_le_length q.popped_le

theorem items_pop (q : BoundedQueue α capacity) {n : Nat} (h : n ≤ q.items.length) :
    (q.pop n h).items = q.items.drop n := by
  rw [items, items, List.drop_drop]
  rfl

@[simp] theorem items_compact (q : BoundedQueue α capacity) : q.compact.items = q.items := rfl

/-- All of the room is there for a push once it is reclaimed. -/
theorem vacant_compact (q : BoundedQueue α capacity) : q.compact.vacant = q.free := by
  rw [vacant, free, items_compact]
  show capacity - (0 + q.items.length) = capacity - q.items.length
  rw [Nat.zero_add]

end BoundedQueue

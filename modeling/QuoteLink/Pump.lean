import Mathlib.Data.List.Basic

/-- A loop that hands its items on in pieces: the items it has taken, the pieces it has
handed on, and the item in hand with how far it has got in it. -/
structure Pump (α : Type) where
  taken : List (List α)
  pieces : List (List α)
  current : Option (List α × Nat)
  deriving DecidableEq, Repr

namespace Pump

variable {α : Type}

def new : Pump α := ⟨[], [], none⟩

def take (p : Pump α) (b : List α) : Option (Pump α) :=
  match p.current with
  | none => some { p with taken := p.taken ++ [b], current := some (b, 0) }
  | some _ => none

/-- The next `n` elements of the item in hand go on. -/
def piece (p : Pump α) (n : Nat) : Option (Pump α) :=
  match p.current with
  | some (b, sent) =>
    if sent < b.length ∧ n ≤ b.length - sent then
      some { p with pieces := p.pieces ++ [(b.drop sent).take n], current := some (b, sent + n) }
    else none
  | none => none

/-- The item in hand is done with. -/
def finish (p : Pump α) : Option (Pump α) :=
  match p.current with
  | some (b, sent) => if b.length ≤ sent then some { p with current := none } else none
  | none => none

/-- What is left of the item in hand. -/
def rest (p : Pump α) : List α :=
  match p.current with
  | some (b, sent) => b.drop sent
  | none => []

def nonempty (l : List (List α)) : List (List α) := l.filter fun b => !b.isEmpty

/-- The item in hand, if none of it has gone on yet and there is something in it. -/
def unsent (p : Pump α) : List (List α) :=
  match p.current with
  | some (b, sent) => if sent = 0 then nonempty [b] else []
  | none => []

/-- Everything taken has gone on or is in hand. -/
def Conserved (p : Pump α) : Prop := p.pieces.flatten ++ p.rest = p.taken.flatten

/-- Every item but the empty ones has gone on in one piece, or not at all yet. -/
structure Whole (p : Pump α) : Prop where
  pieces : p.pieces ++ p.unsent = nonempty p.taken
  current : ∀ b sent, p.current = some (b, sent) → sent = 0 ∨ sent = b.length

section Steps

variable {p p' : Pump α} {b : List α} {n : Nat}

theorem take_eq_some (h : p.take b = some p') :
    p.current = none ∧ p' = { p with taken := p.taken ++ [b], current := some (b, 0) } := by
  unfold take at h
  split at h
  next hnone =>
    cases h
    exact ⟨hnone, rfl⟩
  next => cases h

theorem piece_eq_some (h : p.piece n = some p') : ∃ b sent, p.current = some (b, sent) ∧ sent < b.length ∧
    n ≤ b.length - sent ∧
    p' = { p with pieces := p.pieces ++ [(b.drop sent).take n], current := some (b, sent + n) } := by
  unfold piece at h
  split at h
  next b sent hcur =>
    simp only [Option.ite_none_right_eq_some, Option.some.injEq] at h
    obtain ⟨⟨hlt, hn⟩, rfl⟩ := h
    exact ⟨b, sent, hcur, hlt, hn, rfl⟩
  next => cases h

theorem finish_eq_some (h : p.finish = some p') : ∃ b sent, p.current = some (b, sent) ∧ b.length ≤ sent ∧
    p' = { p with current := none } := by
  unfold finish at h
  split at h
  next b sent hcur =>
    simp only [Option.ite_none_right_eq_some, Option.some.injEq] at h
    obtain ⟨hle, rfl⟩ := h
    exact ⟨b, sent, hcur, hle, rfl⟩
  next => cases h

theorem new_conserved : (new : Pump α).Conserved := rfl

theorem Conserved.take (h : p.Conserved) (ht : p.take b = some p') :
    p'.Conserved ∧ p'.taken = p.taken ++ [b] ∧ p'.rest = b := by
  obtain ⟨hnone, rfl⟩ := take_eq_some ht
  have hpieces := h
  simp only [Conserved, rest, hnone, List.append_nil] at hpieces
  refine ⟨?_, rfl, List.drop_zero⟩
  show p.pieces.flatten ++ b.drop 0 = (p.taken ++ [b]).flatten
  rw [hpieces, List.drop_zero, List.flatten_append, List.flatten_singleton]

theorem Conserved.piece (h : p.Conserved) (hp : p.piece n = some p') : p'.Conserved ∧ p'.taken = p.taken := by
  obtain ⟨b, sent, hcur, _, _, rfl⟩ := piece_eq_some hp
  simp only [Conserved, rest, hcur] at h
  refine ⟨?_, rfl⟩
  show (p.pieces ++ [(b.drop sent).take n]).flatten ++ b.drop (sent + n) = p.taken.flatten
  rw [List.flatten_append, List.flatten_singleton, List.append_assoc, ← List.drop_drop,
    List.take_append_drop, h]

theorem Conserved.finish (h : p.Conserved) (hf : p.finish = some p') :
    p'.Conserved ∧ p'.taken = p.taken ∧ p'.rest = [] := by
  obtain ⟨b, sent, hcur, hle, rfl⟩ := finish_eq_some hf
  simp only [Conserved, rest, hcur, List.drop_eq_nil_of_le hle] at h
  exact ⟨h, rfl, rfl⟩

theorem Conserved.pieces_front (h : p.Conserved) : p.pieces.flatten <+: p.taken.flatten := ⟨p.rest, h⟩

theorem Conserved.pieces_of_none (h : p.Conserved) (hnone : p.current = none) :
    p.pieces.flatten = p.taken.flatten := by
  simpa only [Conserved, rest, hnone, List.append_nil] using h

theorem new_whole : (new : Pump α).Whole where
  pieces := rfl
  current := by
    intro b sent h
    cases h

theorem nonempty_append (l m : List (List α)) : nonempty (l ++ m) = nonempty l ++ nonempty m := List.filter_append ..

theorem Whole.take (h : p.Whole) (ht : p.take b = some p') : p'.Whole := by
  obtain ⟨hnone, rfl⟩ := take_eq_some ht
  have hpieces := h.pieces
  simp only [unsent, hnone, List.append_nil] at hpieces
  constructor
  · show p.pieces ++ nonempty [b] = nonempty (p.taken ++ [b])
    rw [nonempty_append, hpieces]
  · rintro c sent ⟨⟩
    exact Or.inl rfl

/-- A piece that is all that is left is the whole item. -/
theorem Whole.piece (h : p.Whole) (hp : p.piece n = some p') (hn : n = p.rest.length) : p'.Whole := by
  obtain ⟨b, sent, hcur, hlt, _, rfl⟩ := piece_eq_some hp
  have hsent : sent = 0 := (h.current b sent hcur).resolve_right (Nat.ne_of_lt hlt)
  subst hsent
  have hall : n = b.length := by simpa only [rest, hcur, List.drop_zero] using hn
  have hkept : nonempty [b] = [b] := by
    have hne : b ≠ [] := List.ne_nil_of_length_pos hlt
    simp [nonempty, hne]
  have hpieces := h.pieces
  simp only [unsent, hcur, if_true, hkept] at hpieces
  have hdone : unsent { p with pieces := p.pieces ++ [b.take n], current := some (b, 0 + n) } = [] := by
    have hpos : 0 + n ≠ 0 := by omega
    simp only [unsent, if_neg hpos]
  constructor
  · show p.pieces ++ [b.take n] ++ unsent _ = nonempty p.taken
    rw [List.drop_zero, hdone, List.append_nil, hall, List.take_length, hpieces]
  · rintro c sent ⟨⟩
    exact Or.inr (by omega)

theorem Whole.finish (h : p.Whole) (hf : p.finish = some p') : p'.Whole := by
  obtain ⟨b, sent, hcur, hle, rfl⟩ := finish_eq_some hf
  have hpieces := h.pieces
  have hgone : p.unsent = [] := by
    simp only [unsent, hcur]
    split
    next hzero =>
      have hnil : b = [] := List.length_eq_zero_iff.mp (by omega)
      rw [hnil]
      rfl
    next => rfl
  rw [hgone, List.append_nil] at hpieces
  refine ⟨?_, fun c sent hc => by cases hc⟩
  show p.pieces ++ [] = nonempty p.taken
  rw [List.append_nil, hpieces]

theorem Whole.pieces_front (h : p.Whole) : p.pieces <+: nonempty p.taken := ⟨p.unsent, h.pieces⟩

end Steps

end Pump

import QuoteLink.Packets

namespace QuoteLink

structure SimpleBuf where
  dataVec : Bytes
  capacity : Nat
  vacantIdx : Nat
  occupiedIdx : Nat
  deriving DecidableEq, Repr

inductive BufError
  | vacantSlice (usable len : Nat)
  | occupiedIdx (old new vacant : Nat)
  deriving DecidableEq, Repr

namespace SimpleBuf

def new (capacity : Nat) : SimpleBuf := ⟨List.replicate capacity 0, capacity, 0, 0⟩

def len (s : SimpleBuf) : Nat := s.vacantIdx - s.occupiedIdx

def isEmpty (s : SimpleBuf) : Bool := s.len == 0

def maxLen (s : SimpleBuf) : Nat := s.capacity - (s.vacantIdx - s.occupiedIdx)

def vacantSlice (s : SimpleBuf) : Bytes := s.dataVec.drop s.vacantIdx

def occupiedSlice (s : SimpleBuf) : Bytes :=
  (s.dataVec.drop s.occupiedIdx).take (s.vacantIdx - s.occupiedIdx)

def pushSlice (s : SimpleBuf) (b : Bytes) : SimpleBuf × Except BufError Unit :=
  let usable := s.vacantSlice.length
  if usable < b.length then (s, .error (.vacantSlice usable b.length))
  else
    ({ s with
        dataVec := s.dataVec.take s.vacantIdx ++ b ++ s.dataVec.drop (s.vacantIdx + b.length)
        vacantIdx := s.vacantIdx + b.length }, .ok ())

/-- `copy_within(occupied_idx..vacant_idx, 0)` reads the whole range before it
writes, so an overlap of the two regions does not show. -/
def reuse (s : SimpleBuf) : SimpleBuf :=
  { s with
    dataVec := s.occupiedSlice ++ s.dataVec.drop (s.vacantIdx - s.occupiedIdx)
    vacantIdx := s.vacantIdx - s.occupiedIdx
    occupiedIdx := 0 }

def reuseIf (s : SimpleBuf) : SimpleBuf × Bool :=
  if s.vacantIdx = s.capacity then (s.reuse, true) else (s, false)

def free (s : SimpleBuf) (consumed : Nat) : SimpleBuf × Except BufError Unit :=
  let newOccupiedIdx := s.occupiedIdx + consumed
  if newOccupiedIdx > s.vacantIdx then
    (s, .error (.occupiedIdx s.occupiedIdx newOccupiedIdx s.vacantIdx))
  else ({ s with occupiedIdx := newOccupiedIdx }, .ok ())

/-- What the guards before a push see to: they compact a buffer that holds less
than `n` bytes, and take the vacant tail of any other as it is. -/
def TailFits (s : SimpleBuf) (n : Nat) : Prop := s.len < n ∨ s.vacantIdx + n ≤ s.capacity

instance (s : SimpleBuf) (n : Nat) : Decidable (s.TailFits n) := inferInstanceAs (Decidable (_ ∨ _))

/-- The indices delimit ranges of the backing vector. -/
structure Valid (s : SimpleBuf) : Prop where
  occupied_le : s.occupiedIdx ≤ s.vacantIdx
  vacant_le : s.vacantIdx ≤ s.capacity
  length_eq : s.dataVec.length = s.capacity

theorem new_valid (capacity : Nat) : (new capacity).Valid :=
  ⟨le_rfl, Nat.zero_le _, by simp [new]⟩

@[simp] theorem occupiedSlice_new (capacity : Nat) : (new capacity).occupiedSlice = [] := by
  simp [new, occupiedSlice]

variable {s : SimpleBuf}

theorem Valid.length_occupiedSlice (h : s.Valid) : s.occupiedSlice.length = s.len := by
  have := h.occupied_le
  have := h.vacant_le
  simp only [occupiedSlice, len, List.length_take, List.length_drop, h.length_eq]
  omega

theorem Valid.len_add_maxLen (h : s.Valid) : s.len + s.maxLen = s.capacity := by
  have := h.vacant_le
  simp only [len, maxLen]
  omega

theorem Valid.isEmpty_iff (h : s.Valid) : s.isEmpty = true ↔ s.occupiedSlice = [] := by
  rw [← List.length_eq_zero_iff, h.length_occupiedSlice, isEmpty, beq_iff_eq]

theorem Valid.length_vacantSlice (h : s.Valid) : s.vacantSlice.length = s.capacity - s.vacantIdx := by
  rw [vacantSlice, List.length_drop, h.length_eq]

/-- The occupied bytes lie between the bytes before and after them. -/
theorem Valid.take_vacantIdx (h : s.Valid) :
    s.dataVec.take s.vacantIdx = s.dataVec.take s.occupiedIdx ++ s.occupiedSlice := by
  have hsplit : s.vacantIdx = s.occupiedIdx + (s.vacantIdx - s.occupiedIdx) := by
    have := h.occupied_le
    omega
  conv_lhs => rw [hsplit]
  rw [List.take_add, occupiedSlice]

theorem occupiedSlice_eq (front mid back : Bytes) (hdata : s.dataVec = front ++ mid ++ back)
    (hfront : front.length = s.occupiedIdx) (hmid : mid.length = s.vacantIdx - s.occupiedIdx) :
    s.occupiedSlice = mid := by
  rw [occupiedSlice, ← hmid, ← hfront, hdata, List.append_assoc, List.drop_left, List.take_left]

theorem Valid.pushSlice_ok_iff (h : s.Valid) {b : Bytes} :
    (s.pushSlice b).2 = .ok () ↔ b.length ≤ s.capacity - s.vacantIdx := by
  rw [← h.length_vacantSlice, pushSlice]
  by_cases hb : s.vacantSlice.length < b.length
  · simp [hb]
  · simp [hb, Nat.not_lt.mp hb]

theorem Valid.pushSlice (h : s.Valid) {b : Bytes} (hok : (s.pushSlice b).2 = .ok ()) :
    (s.pushSlice b).1.Valid ∧ (s.pushSlice b).1.occupiedSlice = s.occupiedSlice ++ b := by
  have hb := h.pushSlice_ok_iff.mp hok
  have hocc := h.occupied_le
  have hvac := h.vacant_le
  have hfront : (s.dataVec.take s.occupiedIdx).length = s.occupiedIdx := by
    rw [List.length_take, h.length_eq]
    omega
  have hmid : (s.occupiedSlice ++ b).length = s.vacantIdx + b.length - s.occupiedIdx := by
    rw [List.length_append, h.length_occupiedSlice, len]
    omega
  rw [SimpleBuf.pushSlice, if_neg (by rw [h.length_vacantSlice]; omega)]
  refine ⟨⟨?_, ?_, ?_⟩, ?_⟩
  · exact Nat.le_add_right_of_le hocc
  · show s.vacantIdx + b.length ≤ s.capacity
    omega
  · simp only [List.length_append, List.length_take, List.length_drop, h.length_eq]
    omega
  · exact occupiedSlice_eq _ _ (s.dataVec.drop (s.vacantIdx + b.length))
      (by simp only [h.take_vacantIdx, List.append_assoc]) hfront hmid

theorem Valid.reuse (h : s.Valid) :
    s.reuse.Valid ∧ s.reuse.occupiedSlice = s.occupiedSlice ∧ s.reuse.len = s.len := by
  have hocc := h.occupied_le
  have hvac := h.vacant_le
  have hlen : s.occupiedSlice.length = s.vacantIdx - s.occupiedIdx := h.length_occupiedSlice
  refine ⟨⟨Nat.zero_le _, ?_, ?_⟩, ?_, rfl⟩
  · show s.vacantIdx - s.occupiedIdx ≤ s.capacity
    omega
  · simp only [SimpleBuf.reuse, List.length_append, hlen, List.length_drop, h.length_eq]
    omega
  · exact occupiedSlice_eq [] _ _ (by simp only [SimpleBuf.reuse, List.nil_append]; rfl) rfl hlen

theorem Valid.reuseIf (h : s.Valid) :
    s.reuseIf.1.Valid ∧ s.reuseIf.1.occupiedSlice = s.occupiedSlice := by
  unfold SimpleBuf.reuseIf
  split
  · exact ⟨h.reuse.1, h.reuse.2.1⟩
  · exact ⟨h, rfl⟩

theorem Valid.free_ok_iff (h : s.Valid) {n : Nat} : (s.free n).2 = .ok () ↔ n ≤ s.len := by
  have hocc := h.occupied_le
  unfold SimpleBuf.free len
  by_cases hn : s.occupiedIdx + n > s.vacantIdx
  · simp only [hn, if_true, reduceCtorEq, false_iff]
    omega
  · simp only [hn, if_false, true_iff]
    omega

theorem Valid.free (h : s.Valid) {n : Nat} (hok : (s.free n).2 = .ok ()) :
    (s.free n).1.Valid ∧ (s.free n).1.occupiedSlice = s.occupiedSlice.drop n := by
  have hn := h.free_ok_iff.mp hok
  have hocc := h.occupied_le
  unfold len at hn
  rw [SimpleBuf.free, if_neg (by omega)]
  refine ⟨⟨?_, h.vacant_le, h.length_eq⟩, ?_⟩
  · show s.occupiedIdx + n ≤ s.vacantIdx
    omega
  · simp only [occupiedSlice, List.drop_take, List.drop_drop]
    rw [Nat.sub_add_eq]

@[simp] theorem len_reuse (s : SimpleBuf) : s.reuse.len = s.len := rfl

@[simp] theorem maxLen_reuse (s : SimpleBuf) : s.reuse.maxLen = s.maxLen := rfl

@[simp] theorem maxLen_reuseIf (s : SimpleBuf) : s.reuseIf.1.maxLen = s.maxLen := by
  unfold reuseIf
  split <;> rfl

@[simp] theorem capacity_pushSlice (s : SimpleBuf) (b : Bytes) :
    (s.pushSlice b).1.capacity = s.capacity := by
  simp only [SimpleBuf.pushSlice]
  split <;> rfl

@[simp] theorem capacity_reuse (s : SimpleBuf) : s.reuse.capacity = s.capacity := rfl

@[simp] theorem capacity_reuseIf (s : SimpleBuf) : s.reuseIf.1.capacity = s.capacity := by
  simp only [SimpleBuf.reuseIf]
  split <;> rfl

@[simp] theorem capacity_free (s : SimpleBuf) (n : Nat) : (s.free n).1.capacity = s.capacity := by
  simp only [SimpleBuf.free]
  split <;> rfl

end SimpleBuf

end QuoteLink

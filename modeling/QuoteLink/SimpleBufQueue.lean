import QuoteLink.BoundedQueue
import QuoteLink.CopyWithin
import QuoteLink.Machine
import QuoteLink.SimpleBuf

namespace QuoteLink

/-- A sum of two `usize`; `none` where it overflows. -/
def usizeAdd (usizeMax a b : Nat) : Option Nat := if a + b ≤ usizeMax then some (a + b) else none

/-- A difference of two `usize`; `none` where it underflows. -/
def usizeSub (a b : Nat) : Option Nat := if b ≤ a then some (a - b) else none

/-- `v[start..stop]`; `none` where it panics. -/
def sliceRange (v : Bytes) (start stop : Nat) : Option Bytes :=
  if start ≤ stop ∧ stop ≤ v.length then some ((v.drop start).take (stop - start)) else none

/-- `v[start..stop].copy_from_slice(b)`; `none` where it panics. -/
def copyFromSlice (v : Bytes) (start stop : Nat) (b : Bytes) : Option Bytes :=
  if start ≤ stop ∧ stop ≤ v.length ∧ b.length = stop - start then
    some (v.take start ++ b ++ v.drop stop)
  else none

theorem usizeAdd_eq {usizeMax a b : Nat} (h : a + b ≤ usizeMax) :
    usizeAdd usizeMax a b = some (a + b) :=
  if_pos h

theorem usizeSub_eq {a b : Nat} (h : b ≤ a) : usizeSub a b = some (a - b) :=
  if_pos h

namespace SimpleBuf

/-- As `len`, and likewise the methods below: `none` where the method panics. -/
def checkedLen (s : SimpleBuf) : Option Nat := usizeSub s.vacantIdx s.occupiedIdx

def checkedMaxLen (s : SimpleBuf) : Option Nat := do
  let len ← usizeSub s.vacantIdx s.occupiedIdx
  usizeSub s.capacity len

def checkedVacantSlice (s : SimpleBuf) : Option Bytes :=
  sliceRange s.dataVec s.vacantIdx s.dataVec.length

def checkedOccupiedSlice (s : SimpleBuf) : Option Bytes :=
  sliceRange s.dataVec s.occupiedIdx s.vacantIdx

def checkedPushSlice (usizeMax : Nat) (s : SimpleBuf) (b : Bytes) :
    Option (SimpleBuf × Except BufError Unit) := do
  let vacant ← s.checkedVacantSlice
  let usable := vacant.length
  if usable < b.length then some (s, .error (.vacantSlice usable b.length))
  else do
    let stop ← usizeAdd usizeMax s.vacantIdx b.length
    let dataVec ← copyFromSlice s.dataVec s.vacantIdx stop b
    some ({ s with dataVec := dataVec, vacantIdx := stop }, .ok ())

def checkedReuse (s : SimpleBuf) : Option SimpleBuf := do
  let dataVec ← CopyWithin.copyWithin s.dataVec s.occupiedIdx s.vacantIdx 0
  let vacantIdx ← usizeSub s.vacantIdx s.occupiedIdx
  some { s with dataVec := dataVec, vacantIdx := vacantIdx, occupiedIdx := 0 }

def checkedReuseIf (s : SimpleBuf) : Option (SimpleBuf × Bool) :=
  if s.vacantIdx = s.capacity then s.checkedReuse.map (·, true) else some (s, false)

def checkedFree (usizeMax : Nat) (s : SimpleBuf) (consumed : Nat) :
    Option (SimpleBuf × Except BufError Unit) := do
  let newOccupiedIdx ← usizeAdd usizeMax s.occupiedIdx consumed
  if newOccupiedIdx > s.vacantIdx then
    some (s, .error (.occupiedIdx s.occupiedIdx newOccupiedIdx s.vacantIdx))
  else some ({ s with occupiedIdx := newOccupiedIdx }, .ok ())

/-- No method panics or overflows, unless the sum in `free` does. -/
structure NoPanic (usizeMax : Nat) (s : SimpleBuf) : Prop where
  len : s.checkedLen = some s.len
  maxLen : s.checkedMaxLen = some s.maxLen
  vacantSlice : s.checkedVacantSlice = some s.vacantSlice
  occupiedSlice : s.checkedOccupiedSlice = some s.occupiedSlice
  pushSlice : ∀ b, s.checkedPushSlice usizeMax b = some (s.pushSlice b)
  reuse : s.checkedReuse = some s.reuse
  reuseIf : s.checkedReuseIf = some s.reuseIf
  free : ∀ n, s.occupiedIdx + n ≤ usizeMax → s.checkedFree usizeMax n = some (s.free n)

variable {usizeMax capacity : Nat} {s : SimpleBuf}

theorem Valid.checkedVacantSlice (h : s.Valid) : s.checkedVacantSlice = some s.vacantSlice := by
  have hvac := h.vacant_le
  have hlen := h.length_eq
  rw [SimpleBuf.checkedVacantSlice, sliceRange, if_pos (by omega), vacantSlice]
  congr 1
  exact List.take_of_length_le (by rw [List.length_drop])

theorem Valid.checkedPushSlice (h : s.Valid) (hcap : s.capacity ≤ usizeMax) (b : Bytes) :
    s.checkedPushSlice usizeMax b = some (s.pushSlice b) := by
  have hvac := h.vacant_le
  have hlen := h.length_eq
  have husable := h.length_vacantSlice
  rw [SimpleBuf.checkedPushSlice, h.checkedVacantSlice, SimpleBuf.pushSlice]
  by_cases hb : s.vacantSlice.length < b.length
  · simp only [Option.bind_eq_bind, Option.bind_some, if_pos hb]
  · have hadd := usizeAdd_eq (show s.vacantIdx + b.length ≤ usizeMax by omega)
    have hcopy : copyFromSlice s.dataVec s.vacantIdx (s.vacantIdx + b.length) b =
        some (s.dataVec.take s.vacantIdx ++ b ++ s.dataVec.drop (s.vacantIdx + b.length)) :=
      if_pos (by omega)
    simp only [Option.bind_eq_bind, Option.bind_some, if_neg hb, hadd, hcopy]

/-- The copy to the front yields what `reuse` is said to yield, also where the two
ranges overlap. -/
theorem Valid.checkedReuse (h : s.Valid) : s.checkedReuse = some s.reuse := by
  have hocc := h.occupied_le
  have hvac := h.vacant_le
  have hlen := h.length_eq
  have hcopy : CopyWithin.copyWithin s.dataVec s.occupiedIdx s.vacantIdx 0 =
      some (s.occupiedSlice ++ s.dataVec.drop (s.vacantIdx - s.occupiedIdx)) := by
    rw [CopyWithin.copyWithin_eq hocc (by omega) (by omega), Nat.zero_add]
    rfl
  rw [SimpleBuf.checkedReuse, hcopy, usizeSub_eq hocc]
  rfl

theorem checkedFree_eq {n : Nat} (hn : s.occupiedIdx + n ≤ usizeMax) :
    s.checkedFree usizeMax n = some (s.free n) := by
  rw [SimpleBuf.checkedFree, usizeAdd_eq hn, SimpleBuf.free]
  simp only [Option.bind_eq_bind, Option.bind_some]
  split <;> rfl

theorem Valid.noPanic (h : s.Valid) (hcap : s.capacity ≤ usizeMax) : s.NoPanic usizeMax where
  len := usizeSub_eq h.occupied_le
  maxLen := by
    have hvac := h.vacant_le
    rw [checkedMaxLen, usizeSub_eq h.occupied_le]
    exact usizeSub_eq (by omega)
  vacantSlice := h.checkedVacantSlice
  occupiedSlice := if_pos ⟨h.occupied_le, by rw [h.length_eq]; exact h.vacant_le⟩
  pushSlice := h.checkedPushSlice hcap
  reuse := h.checkedReuse
  reuseIf := by
    rw [checkedReuseIf, h.checkedReuse, SimpleBuf.reuseIf]
    split <;> rfl
  free := fun _ hn => checkedFree_eq hn

/-- A failed push leaves the buffer unchanged. -/
theorem pushSlice_failed {b : Bytes} (h : (s.pushSlice b).2 ≠ .ok ()) : (s.pushSlice b).1 = s := by
  unfold SimpleBuf.pushSlice at h ⊢
  by_cases hb : s.vacantSlice.length < b.length
  · simp only [if_pos hb]
  · simp only [if_neg hb, ne_eq, not_true_eq_false] at h

theorem free_failed {n : Nat} (h : (s.free n).2 ≠ .ok ()) : (s.free n).1 = s := by
  unfold SimpleBuf.free at h ⊢
  by_cases hn : s.occupiedIdx + n > s.vacantIdx
  · simp only [if_pos hn]
  · simp only [if_neg hn, ne_eq, not_true_eq_false] at h

theorem occupiedIdx_pushSlice (s : SimpleBuf) (b : Bytes) :
    (s.pushSlice b).1.occupiedIdx = s.occupiedIdx := by
  unfold SimpleBuf.pushSlice
  dsimp only
  split <;> rfl

theorem occupiedIdx_free {n : Nat} (h : (s.free n).2 = .ok ()) :
    (s.free n).1.occupiedIdx = s.occupiedIdx + n := by
  unfold SimpleBuf.free at h ⊢
  by_cases hn : s.occupiedIdx + n > s.vacantIdx
  · simp only [if_pos hn, reduceCtorEq] at h
  · simp only [if_neg hn]

/-- The buffer holds the items of the queue, and the freed bytes before them take up
the room that the queue has not reclaimed. -/
structure Refines (s : SimpleBuf) (q : BoundedQueue UInt8 capacity) : Prop where
  valid : s.Valid
  capacity_eq : s.capacity = capacity
  occupiedIdx_eq : s.occupiedIdx = q.spent
  occupiedSlice_eq : s.occupiedSlice = q.items

variable {q : BoundedQueue UInt8 capacity}

theorem new_refines (capacity : Nat) : (new capacity).Refines (.empty : BoundedQueue UInt8 capacity) :=
  ⟨new_valid capacity, rfl, rfl, occupiedSlice_new capacity⟩

theorem Refines.len_eq (h : s.Refines q) : s.len = q.items.length := by
  rw [← h.valid.length_occupiedSlice, h.occupiedSlice_eq]

theorem Refines.vacant_eq (h : s.Refines q) : s.capacity - s.vacantIdx = q.vacant := by
  have hocc := h.valid.occupied_le
  have hcap := h.capacity_eq
  have hspent := h.occupiedIdx_eq
  have hlen := h.len_eq
  unfold len at hlen
  unfold BoundedQueue.vacant
  omega

theorem Refines.pushSlice (h : s.Refines q) (b : Bytes) :
    (s.pushSlice b).1.Refines (q.apply (.push b)).1 ∧
      ((s.pushSlice b).2 = .ok () ↔ (q.apply (.push b)).2 = true) := by
  have hok : (s.pushSlice b).2 = .ok () ↔ b.length ≤ q.vacant := by
    rw [h.valid.pushSlice_ok_iff, h.vacant_eq]
  by_cases hb : b.length ≤ q.vacant
  · obtain ⟨hvalid, hcontent⟩ := h.valid.pushSlice (hok.mpr hb)
    rw [BoundedQueue.apply_push hb]
    refine ⟨⟨hvalid, ?_, ?_, ?_⟩, iff_of_true (hok.mpr hb) rfl⟩
    · rw [capacity_pushSlice, h.capacity_eq]
    · rw [occupiedIdx_pushSlice, h.occupiedIdx_eq]
      rfl
    · rw [hcontent, h.occupiedSlice_eq, BoundedQueue.items_push]
  · have hfailed := mt hok.mp hb
    rw [BoundedQueue.apply_push_failed hb, pushSlice_failed hfailed]
    exact ⟨h, iff_of_false hfailed Bool.false_ne_true⟩

theorem Refines.free (h : s.Refines q) (n : Nat) :
    (s.free n).1.Refines (q.apply (.pop n)).1 ∧
      ((s.free n).2 = .ok () ↔ (q.apply (.pop n)).2 = true) := by
  have hok : (s.free n).2 = .ok () ↔ n ≤ q.items.length := by
    rw [h.valid.free_ok_iff, h.len_eq]
  by_cases hn : n ≤ q.items.length
  · obtain ⟨hvalid, hcontent⟩ := h.valid.free (hok.mpr hn)
    rw [BoundedQueue.apply_pop hn]
    refine ⟨⟨hvalid, ?_, ?_, ?_⟩, iff_of_true (hok.mpr hn) rfl⟩
    · rw [capacity_free, h.capacity_eq]
    · rw [occupiedIdx_free (hok.mpr hn), h.occupiedIdx_eq]
      rfl
    · rw [hcontent, h.occupiedSlice_eq, BoundedQueue.items_pop]
  · have hfailed := mt hok.mp hn
    rw [BoundedQueue.apply_pop_failed hn, free_failed hfailed]
    exact ⟨h, iff_of_false hfailed Bool.false_ne_true⟩

theorem Refines.reuse (h : s.Refines q) : s.reuse.Refines q.compact := by
  obtain ⟨hvalid, hcontent, _⟩ := h.valid.reuse
  refine ⟨hvalid, h.capacity_eq, rfl, ?_⟩
  rw [hcontent, h.occupiedSlice_eq, BoundedQueue.items_compact]

theorem Refines.reuseIf (h : s.Refines q) :
    s.reuseIf.1.Refines (q.apply .compactIfFull).1 ∧
      (s.reuseIf.2 = true ↔ (q.apply .compactIfFull).2 = true) := by
  have hfull : s.vacantIdx = s.capacity ↔ q.vacant = 0 := by
    have hvac := h.valid.vacant_le
    rw [← h.vacant_eq]
    omega
  unfold SimpleBuf.reuseIf BoundedQueue.apply
  by_cases hv : s.vacantIdx = s.capacity
  · simp only [if_pos hv, if_pos (hfull.mp hv)]
    exact ⟨h.reuse, trivial⟩
  · simp only [if_neg hv, if_neg (mt hfull.mpr hv)]
    exact ⟨h, trivial⟩

/-- The indices, the results and the content of the buffer are those of a queue of at
most `capacity` bytes. -/
structure QueueLaws (usizeMax capacity : Nat) (s : SimpleBuf) : Prop where
  occupied_le : s.occupiedIdx ≤ s.vacantIdx
  vacant_le : s.vacantIdx ≤ s.capacity
  capacity_eq : s.capacity = capacity
  length_eq : s.dataVec.length = s.capacity
  noPanic : s.NoPanic usizeMax
  push_failed : ∀ b, (s.pushSlice b).2 ≠ .ok () → (s.pushSlice b).1 = s
  free_failed : ∀ n, (s.free n).2 ≠ .ok () → (s.free n).1 = s
  free_ok_iff : ∀ n, (s.free n).2 = .ok () ↔ n ≤ s.len
  reuse : s.reuse.occupiedSlice = s.occupiedSlice ∧ s.reuse.maxLen = s.maxLen
  reuseIf : s.reuseIf.1.occupiedSlice = s.occupiedSlice ∧ s.reuseIf.1.maxLen = s.maxLen
  noPanic_reuse : s.reuse.NoPanic usizeMax
  push_reuse_ok_iff : ∀ b, (s.reuse.pushSlice b).2 = .ok () ↔ b.length ≤ s.maxLen

theorem Refines.maxLen_eq (h : s.Refines q) : s.maxLen = q.free := by
  have hcap := h.capacity_eq
  have hlen := h.len_eq
  unfold len at hlen
  unfold maxLen BoundedQueue.free
  omega

/-- The room that `reuse` makes is all that `max_len` counts. -/
theorem Refines.push_reuse_ok_iff (h : s.Refines q) (b : Bytes) :
    (s.reuse.pushSlice b).2 = .ok () ↔ b.length ≤ s.maxLen := by
  rw [h.reuse.valid.pushSlice_ok_iff, h.reuse.vacant_eq, BoundedQueue.vacant_compact, h.maxLen_eq]

theorem Refines.queueLaws (h : s.Refines q) (hcap : capacity ≤ usizeMax) :
    s.QueueLaws usizeMax capacity := by
  have hle : s.capacity ≤ usizeMax := by
    rw [h.capacity_eq]
    exact hcap
  exact {
    occupied_le := h.valid.occupied_le
    vacant_le := h.valid.vacant_le
    capacity_eq := h.capacity_eq
    length_eq := h.valid.length_eq
    noPanic := h.valid.noPanic hle
    push_failed := fun _ => pushSlice_failed
    free_failed := fun _ => free_failed
    free_ok_iff := fun _ => h.valid.free_ok_iff
    reuse := ⟨h.valid.reuse.2.1, maxLen_reuse s⟩
    reuseIf := ⟨h.valid.reuseIf.2, maxLen_reuseIf s⟩
    noPanic_reuse := h.reuse.valid.noPanic hle
    push_reuse_ok_iff := h.push_reuse_ok_iff }

end SimpleBuf

/-- A call that changes the buffer. -/
inductive BufOp
  | pushSlice (b : Bytes)
  | free (consumed : Nat)
  | reuse
  | reuseIf

namespace BufOp

def queueOp : BufOp → BoundedQueue.Op UInt8
  | .pushSlice b => .push b
  | .free consumed => .pop consumed
  | .reuse => .compact
  | .reuseIf => .compactIfFull

/-- The call, and whether it returned `Ok` or, for `reuse_if`, `true`. -/
def call (usizeMax : Nat) (s : SimpleBuf) : BufOp → Option (SimpleBuf × Bool)
  | .pushSlice b => (s.checkedPushSlice usizeMax b).map fun out => (out.1, out.2 = .ok ())
  | .free consumed => (s.checkedFree usizeMax consumed).map fun out => (out.1, out.2 = .ok ())
  | .reuse => s.checkedReuse.map (·, true)
  | .reuseIf => s.checkedReuseIf

def pushes : BufOp → Bytes
  | .pushSlice b => b
  | _ => []

def frees : BufOp → Nat
  | .free consumed => consumed
  | _ => 0

variable {usizeMax capacity : Nat} {s : SimpleBuf} {q : BoundedQueue UInt8 capacity}

/-- No sum that the call computes overflows. -/
def FitsUsize (usizeMax : Nat) (s : SimpleBuf) : BufOp → Prop
  | .free consumed => s.occupiedIdx + consumed ≤ usizeMax
  | _ => True

instance (usizeMax : Nat) (s : SimpleBuf) : ∀ op, Decidable (FitsUsize usizeMax s op)
  | .free _ => inferInstanceAs (Decidable (_ ≤ _))
  | .pushSlice _ | .reuse | .reuseIf => isTrue trivial

/-- Every call does to the buffer what its operation does to the queue. -/
theorem call_refines (h : s.Refines q) (hcap : capacity ≤ usizeMax) {op : BufOp}
    (hop : op.FitsUsize usizeMax s) :
    ∃ s', op.call usizeMax s = some (s', (q.apply op.queueOp).2) ∧
      s'.Refines (q.apply op.queueOp).1 := by
  have hpanic : s.NoPanic usizeMax := h.valid.noPanic (by rw [h.capacity_eq]; exact hcap)
  cases op with
  | pushSlice b =>
    obtain ⟨hrefines, hok⟩ := h.pushSlice b
    refine ⟨_, ?_, hrefines⟩
    rw [call, hpanic.pushSlice]
    exact congrArg some (Prod.ext rfl (Bool.eq_iff_iff.mpr (decide_eq_true_iff.trans hok)))
  | free n =>
    obtain ⟨hrefines, hok⟩ := h.free n
    refine ⟨_, ?_, hrefines⟩
    rw [call, hpanic.free n hop]
    exact congrArg some (Prod.ext rfl (Bool.eq_iff_iff.mpr (decide_eq_true_iff.trans hok)))
  | reuse =>
    refine ⟨_, ?_, h.reuse⟩
    rw [call, hpanic.reuse]
    rfl
  | reuseIf =>
    obtain ⟨hrefines, hok⟩ := h.reuseIf
    refine ⟨_, ?_, hrefines⟩
    rw [call, hpanic.reuseIf]
    exact congrArg some (Prod.ext rfl (Bool.eq_iff_iff.mpr hok))

/-- The history of the queue grows by what the call pushes and frees, if it takes effect. -/
theorem history_apply (q : BoundedQueue UInt8 capacity) (op : BufOp) :
    (q.apply op.queueOp).1.pushed =
        q.pushed ++ (if (q.apply op.queueOp).2 then op.pushes else []) ∧
      (q.apply op.queueOp).1.popped =
        q.popped + if (q.apply op.queueOp).2 then op.frees else 0 := by
  cases op with
  | pushSlice b =>
    by_cases hb : b.length ≤ q.vacant
    · rw [queueOp, BoundedQueue.apply_push hb]
      exact ⟨rfl, rfl⟩
    · rw [queueOp, BoundedQueue.apply_push_failed hb]
      exact ⟨(List.append_nil _).symm, rfl⟩
  | free n =>
    by_cases hn : n ≤ q.items.length
    · rw [queueOp, BoundedQueue.apply_pop hn]
      exact ⟨(List.append_nil _).symm, rfl⟩
    · rw [queueOp, BoundedQueue.apply_pop_failed hn]
      exact ⟨(List.append_nil _).symm, rfl⟩
  | reuse => exact ⟨(List.append_nil _).symm, rfl⟩
  | reuseIf =>
    unfold queueOp BoundedQueue.apply
    by_cases hv : q.vacant = 0
    · simp only [if_pos hv]
      exact ⟨(List.append_nil _).symm, rfl⟩
    · simp only [if_neg hv]
      exact ⟨(List.append_nil _).symm, rfl⟩

end BufOp

/-- The buffer with its history: the bytes of the pushes that returned `Ok`, and how
many bytes the calls of `free` that returned `Ok` gave back. -/
structure BufRecord where
  buf : SimpleBuf
  pushed : Bytes
  freed : Nat
  deriving DecidableEq, Repr

namespace BufRecord

def new (capacity : Nat) : BufRecord := ⟨.new capacity, [], 0⟩

def step (usizeMax : Nat) (r : BufRecord) (op : BufOp) : Option BufRecord :=
  (op.call usizeMax r.buf).map fun out =>
    { buf := out.1
      pushed := r.pushed ++ if out.2 then op.pushes else []
      freed := r.freed + if out.2 then op.frees else 0 }

structure Refines {capacity : Nat} (r : BufRecord) (q : BoundedQueue UInt8 capacity) : Prop where
  buf : r.buf.Refines q
  pushed_eq : r.pushed = q.pushed
  freed_eq : r.freed = q.popped

variable {usizeMax capacity : Nat} {r : BufRecord} {q : BoundedQueue UInt8 capacity}

theorem step_refines (h : r.Refines q) (hcap : capacity ≤ usizeMax) {op : BufOp}
    (hop : op.FitsUsize usizeMax r.buf) :
    ∃ r', r.step usizeMax op = some r' ∧ r'.Refines (q.apply op.queueOp).1 := by
  obtain ⟨s', hcall, hrefines⟩ := BufOp.call_refines h.buf hcap hop
  obtain ⟨hpushed, hpopped⟩ := BufOp.history_apply q op
  rw [step, hcall]
  refine ⟨_, rfl, hrefines, ?_, ?_⟩
  · rw [hpushed, ← h.pushed_eq]
  · rw [hpopped, ← h.freed_eq]

theorem new_refines (capacity : Nat) : (new capacity).Refines (.empty : BoundedQueue UInt8 capacity) :=
  ⟨SimpleBuf.new_refines capacity, rfl, rfl⟩

end BufRecord

/-- No sequence of calls panics, and the buffer then is the bounded queue on which the
same operations were done: it holds the bytes pushed less those freed. -/
theorem simple_buf_refines_bounded_queue {usizeMax capacity : Nat} (hcap : capacity ≤ usizeMax)
    {ops : List BufOp}
    (hfits : Machine.Meets (BufRecord.step usizeMax) (fun r op => op.FitsUsize usizeMax r.buf)
      (BufRecord.new capacity) ops) :
    ∃ r, Machine.run (BufRecord.step usizeMax) (BufRecord.new capacity) ops = some r ∧
      r.Refines ((.empty : BoundedQueue UInt8 capacity).run (ops.map BufOp.queueOp)) ∧
      r.buf.occupiedSlice = r.pushed.drop r.freed ∧
      r.buf.QueueLaws usizeMax capacity := by
  have hnew := BufRecord.new_refines capacity
  have hstep : ∀ (r : BufRecord) (q : BoundedQueue UInt8 capacity) (op : BufOp), r.Refines q →
      op.FitsUsize usizeMax r.buf →
      ∃ r', r.step usizeMax op = some r' ∧ r'.Refines (q.apply op.queueOp).1 :=
    fun _ _ _ h hop => BufRecord.step_refines h hcap hop
  obtain ⟨r, hrun, hrefines⟩ := Machine.run_refines hstep hnew hfits
  rw [BoundedQueue.run, List.foldl_map]
  refine ⟨r, hrun, hrefines, ?_, hrefines.buf.queueLaws hcap⟩
  rw [hrefines.buf.occupiedSlice_eq, hrefines.pushed_eq, hrefines.freed_eq]
  rfl

/-- A copy to the front whose ranges overlap, a push that fails, and a free that does. -/
def overlappingOps : List BufOp :=
  [.pushSlice [1, 2, 3], .free 1, .reuse, .pushSlice [4, 5], .pushSlice [6], .reuseIf, .free 9, .free 2]

theorem simple_buf_refines_bounded_queue_overlapping :
    ∃ r, Machine.run (BufRecord.step 18446744073709551615) (BufRecord.new 4) overlappingOps = some r ∧
      r.Refines ((.empty : BoundedQueue UInt8 4).run (overlappingOps.map BufOp.queueOp)) ∧
      r.buf.occupiedSlice = r.pushed.drop r.freed ∧
      r.buf.QueueLaws 18446744073709551615 4 :=
  simple_buf_refines_bounded_queue (by decide) (by decide +kernel)

end QuoteLink

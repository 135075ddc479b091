import QuoteLink.ParsePacketBuf
import QuoteLink.SimpleBuf
import Mathlib.Data.List.Induction

open Reader

namespace QuoteLink

inductive ReadExit
  | maxLen (maxLen len : Nat)
  | pushSlice (e : BufError)
  | free (e : BufError)
  | parse (e : ParseError)
  deriving DecidableEq, Repr

/-- The exits that refuse a chunk for want of buffer space. -/
def ReadExit.isRefusal : ReadExit → Bool
  | .maxLen _ _ => true
  | .pushSlice _ => true
  | .free _ => false
  | .parse _ => false

/-- The locals of `link_read_loop` between two turns; `exit` is set once the
loop is left. -/
structure LinkRead where
  packetBuffer : SimpleBuf
  needSize : Nat
  responseTx : ResponseTx
  exit : Option ReadExit
  deriving DecidableEq, Repr

namespace LinkRead

def new (streamReadBufferSize : Nat) (closedAfter : Option Nat) : LinkRead :=
  ⟨SimpleBuf.new streamReadBufferSize, minPacketHeaderSize, ⟨[], closedAfter⟩, none⟩

/-- The guard that compacts the buffer, or finds that it is too small. -/
def makeRoom (buf : SimpleBuf) (b : Bytes) : Option SimpleBuf :=
  if buf.len < b.length then
    if buf.maxLen < b.length then none else some buf.reuse
  else some buf

/-- A turn after the chunk was pushed: parse if there is enough, compact. -/
def process (s : LinkRead) (buf : SimpleBuf) : LinkRead :=
  if s.needSize ≤ buf.len then
    match parsePacketBuf s.responseTx buf.occupiedSlice with
    | (tx, .ok (c, n)) =>
      match buf.free c with
      | (buf, .ok ()) =>
        { s with packetBuffer := buf.reuseIf.1, needSize := n, responseTx := tx }
      | (buf, .error e) => { s with packetBuffer := buf, responseTx := tx, exit := some (.free e) }
    | (tx, .error e) => { s with packetBuffer := buf, responseTx := tx, exit := some (.parse e) }
  else { s with packetBuffer := buf.reuseIf.1 }

/-- One turn of the loop on the chunk `b` received from `quic_data_recv_rx`. -/
def readOnce (s : LinkRead) (b : Bytes) : LinkRead :=
  match makeRoom s.packetBuffer b with
  | none => { s with exit := some (.maxLen s.packetBuffer.maxLen b.length) }
  | some buf =>
    match buf.pushSlice b with
    | (buf, .ok ()) => s.process buf
    | (buf, .error e) => { s with packetBuffer := buf, exit := some (.pushSlice e) }

def step (s : LinkRead) (b : Bytes) : LinkRead :=
  match s.exit with
  | some _ => s
  | none => s.readOnce b

/-- `link_read_loop` after the given chunks. -/
def run (streamReadBufferSize : Nat) (closedAfter : Option Nat) (chunks : List Bytes) : LinkRead :=
  chunks.foldl step (new streamReadBufferSize closedAfter)

theorem run_append (cap : Nat) (closed : Option Nat) (chunks : List Bytes) (b : Bytes) :
    run cap closed (chunks ++ [b]) = (run cap closed chunks).step b := by
  simp [run]

/-- While the loop lives, the buffer holds the unread suffix of the stream, the
consumer has got the packets before it, and no packet is complete in the
buffer before the buffer has reached `need_size`. -/
structure Alive (s : LinkRead) (stream : Bytes) : Prop where
  valid : s.packetBuffer.Valid
  occupied : s.packetBuffer.occupiedSlice = (Packet.reader.drain stream).2
  sent : s.responseTx.sent = (Packet.reader.drain stream).1
  gate : ∀ more, (s.packetBuffer.occupiedSlice ++ more).length < s.needSize →
    ∃ e, Packet.reader.run (s.packetBuffer.occupiedSlice ++ more) = .error e

/-- The stream was rejected: nothing more will be read from it. -/
structure Rejected (s : LinkRead) (stream : Bytes) : Prop where
  exit : s.exit = some (.parse .header)
  sent : s.responseTx.sent = (Packet.reader.drain stream).1
  invalid : Packet.reader.run (Packet.reader.drain stream).2 = .error .invalid

def Refused (s : LinkRead) : Prop := s.exit.any ReadExit.isRefusal = true

/-- The receiver of `response_tx` was found gone. -/
def Dead (s : LinkRead) : Prop := s.exit = some (.parse .responseTx)

instance (s : LinkRead) : Decidable s.Refused := inferInstanceAs (Decidable (_ = true))
instance (s : LinkRead) : Decidable s.Dead := inferInstanceAs (Decidable (_ = _))

theorem makeRoom_valid {buf buf' : SimpleBuf} {b : Bytes} (hv : buf.Valid)
    (h : makeRoom buf b = some buf') : buf'.Valid ∧ buf'.occupiedSlice = buf.occupiedSlice := by
  unfold makeRoom at h
  split at h
  next =>
    split at h
    next => cases h
    next => cases h; exact ⟨hv.reuse.1, hv.reuse.2.1⟩
  next => cases h; exact ⟨hv, rfl⟩

theorem new_alive (cap : Nat) (closed : Option Nat) : (new cap closed).Alive [] where
  valid := SimpleBuf.new_valid cap
  occupied := by
    rw [drain_nil Packet.reader_progress]
    exact SimpleBuf.occupiedSlice_new cap
  sent := by rw [drain_nil Packet.reader_progress]; rfl
  gate := by
    intro more h
    have hnil : (new cap closed).packetBuffer.occupiedSlice = [] := SimpleBuf.occupiedSlice_new cap
    rw [hnil] at h ⊢
    exact not_complete_below_frontNeed h

theorem readOnce_cases (s : LinkRead) (b : Bytes) :
    (makeRoom s.packetBuffer b = none ∧
      s.readOnce b = { s with exit := some (.maxLen s.packetBuffer.maxLen b.length) }) ∨
    (∃ buf buf' e, makeRoom s.packetBuffer b = some buf ∧ buf.pushSlice b = (buf', .error e) ∧
      s.readOnce b = { s with packetBuffer := buf', exit := some (.pushSlice e) }) ∨
    (∃ buf buf', makeRoom s.packetBuffer b = some buf ∧ buf.pushSlice b = (buf', .ok ()) ∧
      s.readOnce b = s.process buf') := by
  unfold readOnce
  cases hroom : makeRoom s.packetBuffer b with
  | none => exact Or.inl ⟨rfl, rfl⟩
  | some buf =>
    rcases hpush : buf.pushSlice b with ⟨buf', e | ⟨⟩⟩
    · exact Or.inr (Or.inl ⟨buf, buf', e, rfl, hpush, by simp [hpush]⟩)
    · exact Or.inr (Or.inr ⟨buf, buf', rfl, hpush, by simp [hpush]⟩)

section Process

variable {s : LinkRead} {buf : SimpleBuf} {stream b : Bytes}

theorem process_parsed (hv : buf.Valid) (hocc : buf.occupiedSlice = (Packet.reader.drain stream).2 ++ b)
    (hsent : s.responseTx.sent = (Packet.reader.drain stream).1) (he : s.exit = none)
    (hneed : s.needSize ≤ buf.len) :
    (s.process buf).Dead ∨
      ((s.process buf).exit = none ∧ (s.process buf).Alive (stream ++ b)) ∨
      (s.process buf).Rejected (stream ++ b) := by
  have hdrain := drain_append Packet.reader_progress stream b
  rw [← hocc, ← hsent] at hdrain
  rw [process, if_pos hneed]
  rcases hp : parsePacketBuf s.responseTx buf.occupiedSlice with ⟨tx, res⟩
  rcases parsePacketBuf_spec s.responseTx buf.occupiedSlice with h | h
  · rw [hp] at h
    subst h
    exact Or.inl rfl
  · obtain ⟨rfl, rfl⟩ := Prod.mk.inj (hp.symm.trans h)
    obtain ⟨e, hrest⟩ := drain_rest_error Packet.reader_progress buf.occupiedSlice
    cases e with
    | invalid =>
      simp only [parseResult, hrest]
      exact Or.inr (Or.inr ⟨rfl, by rw [hdrain], by rw [hdrain]; exact hrest⟩)
    | incomplete =>
      have hfree : (buf.free (buf.occupiedSlice.length -
          (Packet.reader.drain buf.occupiedSlice).2.length)).2 = .ok () :=
        hv.free_ok_iff.mpr (by rw [hv.length_occupiedSlice]; exact Nat.sub_le _ _)
      obtain ⟨hv', hocc'⟩ := hv.free hfree
      rw [drop_drain Packet.reader_progress] at hocc'
      obtain ⟨left, hleft⟩ : ∃ left, buf.free (buf.occupiedSlice.length -
          (Packet.reader.drain buf.occupiedSlice).2.length) = (left, .ok ()) :=
        ⟨_, Prod.ext rfl hfree⟩
      rw [hleft] at hv' hocc'
      simp only [parseResult_incomplete hrest, hleft]
      refine Or.inr (Or.inl ⟨he, hv'.reuseIf.1, ?_, ?_, ?_⟩)
      · rw [hv'.reuseIf.2, hocc', hdrain]
      · rw [hdrain]
      · intro more hmore
        rw [hv'.reuseIf.2, hocc'] at hmore ⊢
        exact not_complete_below_frontNeed hmore

/-- The gate: what stays unparsed holds no complete packet anyway. -/
theorem process_held (hv : buf.Valid) (h : s.Alive stream) (he : s.exit = none)
    (hocc : buf.occupiedSlice = s.packetBuffer.occupiedSlice ++ b) (hneed : ¬s.needSize ≤ buf.len) :
    (s.process buf).exit = none ∧ (s.process buf).Alive (stream ++ b) := by
  rw [process, if_neg hneed]
  obtain ⟨e, hgate⟩ := h.gate b (by rw [← hocc, hv.length_occupiedSlice]; omega)
  have hdrain : Packet.reader.drain (stream ++ b) =
      ((Packet.reader.drain stream).1, s.packetBuffer.occupiedSlice ++ b) := by
    rw [drain_append Packet.reader_progress, ← h.occupied, drain_error hgate, List.append_nil]
  refine ⟨he, hv.reuseIf.1, ?_, ?_, ?_⟩
  · rw [hv.reuseIf.2, hocc, hdrain]
  · rw [hdrain]
    exact h.sent
  · intro more hmore
    rw [hv.reuseIf.2, hocc, List.append_assoc] at hmore ⊢
    exact h.gate _ hmore

/-- One turn of a living loop: it refuses the chunk, finds the consumer gone,
goes on with the invariant for the longer stream, or rejects the stream. -/
theorem readOnce_alive (b : Bytes) (h : s.Alive stream) (he : s.exit = none) :
    (s.readOnce b).Refused ∨ (s.readOnce b).Dead ∨
      ((s.readOnce b).exit = none ∧ (s.readOnce b).Alive (stream ++ b)) ∨
      (s.readOnce b).Rejected (stream ++ b) := by
  rcases readOnce_cases s b with ⟨_, hr⟩ | ⟨_, _, _, _, _, hr⟩ | ⟨buf, buf', hroom, hpush, hr⟩
  · rw [hr]
    exact Or.inl rfl
  · rw [hr]
    exact Or.inl rfl
  · obtain ⟨hv, hocc⟩ := makeRoom_valid h.valid hroom
    have hpushed := hv.pushSlice (by rw [hpush])
    rw [hpush, hocc] at hpushed
    rw [hr]
    right
    by_cases hneed : s.needSize ≤ buf'.len
    · exact process_parsed hpushed.1 (h.occupied ▸ hpushed.2) h.sent he hneed
    · exact Or.inr (Or.inl (process_held hpushed.1 h he hpushed.2 hneed))

end Process

theorem step_exit {s : LinkRead} {b : Bytes} {e : ReadExit} (h : s.exit = some e) : s.step b = s := by
  simp [step, h]

theorem step_running {s : LinkRead} {b : Bytes} (h : s.exit = none) : s.step b = s.readOnce b := by
  simp [step, h]

/-- Over a whole run: unless a chunk was refused or the consumer is gone, the
loop either lives with its invariant or has rejected the stream. -/
theorem run_spec (cap : Nat) (closed : Option Nat) (chunks : List Bytes) :
    (run cap closed chunks).Refused ∨ (run cap closed chunks).Dead ∨
      ((run cap closed chunks).exit = none ∧ (run cap closed chunks).Alive chunks.flatten) ∨
      (run cap closed chunks).Rejected chunks.flatten := by
  induction chunks using List.reverseRecOn with
  | nil => exact Or.inr (Or.inr (Or.inl ⟨rfl, new_alive cap closed⟩))
  | append_singleton chunks b ih =>
    rw [run_append, List.flatten_append, List.flatten_singleton]
    rcases ih with href | hdead | ⟨he, halive⟩ | hrej
    · obtain ⟨e, he, _⟩ := (Option.any_eq_true _ _).mp href
      rw [step_exit he]
      exact Or.inl href
    · rw [step_exit hdead]
      exact Or.inr (Or.inl hdead)
    · rw [step_running he]
      exact readOnce_alive b halive he
    · rw [step_exit hrej.exit]
      have hdrain := drain_invalid_append Packet.reader_progress hrej.invalid b
      refine Or.inr (Or.inr (Or.inr ⟨hrej.exit, ?_, ?_⟩))
      · rw [hdrain]
        exact hrej.sent
      · rw [hdrain]
        exact Packet.reader.invalid_append hrej.invalid b

end LinkRead

end QuoteLink

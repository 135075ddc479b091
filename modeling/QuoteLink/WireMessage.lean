import QuoteLink.Wire

namespace Wire

/-- The kinds of value that the fields of proto3 messages are written with here. -/
def Value.Writable : Value → Prop
  | .varint n => n < 2 ^ 64
  | .bytes _ => True
  | _ => False

/-- The bytes whose number is written before them. -/
def Value.size : Value → Nat
  | .bytes xs => xs.length
  | _ => 0

def putRecord (r : Record) : Input :=
  match r.value with
  | .varint n => putVarint 10 (r.tag * 8) ++ putVarint 10 n
  | .bytes xs => putVarint 10 (r.tag * 8 + 2) ++ (putVarint 10 xs.length ++ xs)
  | _ => []

structure Record.Writable (r : Record) : Prop where
  tag : 0 < r.tag ∧ r.tag < 2 ^ 29
  value : r.value.Writable
  size : r.value.size < 2 ^ 64

section Records

variable {limit : Nat} {rest : Input}

theorem key_put {tag code : Nat} {wt : WireType} (htag : 0 < tag ∧ tag < 2 ^ 29) (hcode : code < 8)
    (hwt : wireType code = some wt) :
    key (putVarint 10 (tag * 8 + code) ++ rest) = some ((tag, wt), rest) := by
  have hvarint : varint 10 (putVarint 10 (tag * 8 + code) ++ rest) = some (tag * 8 + code, rest) :=
    varint_putVarint (by omega)
  have hsmall : ¬UInt32.size ≤ tag * 8 + code := by
    rw [UInt32.size]
    omega
  have hmod : (tag * 8 + code) % 8 = code := by omega
  have hdiv : (tag * 8 + code) / 8 = tag := by omega
  have hpos : tag ≠ 0 := by omega
  rw [key, hvarint]
  simp only [Option.bind_eq_bind, Option.bind_some, hsmall, if_false, hmod, hwt, hdiv, hpos]

theorem take_append (xs : Input) : take xs.length (xs ++ rest) = some (xs, rest) := by
  rw [take, if_pos (by rw [List.length_append]; omega), List.take_left, List.drop_left]

theorem record_putRecord {r : Record} (hlimit : 0 < limit) (hr : r.Writable) :
    record limit (putRecord r ++ rest) = some (r, rest) := by
  obtain ⟨limit, rfl⟩ := Nat.exists_eq_succ_of_ne_zero (Nat.pos_iff_ne_zero.mp hlimit)
  obtain ⟨tag, v⟩ := r
  cases v with
  | varint n =>
    have hkey : key (putVarint 10 (tag * 8 + 0) ++ (putVarint 10 n ++ rest)) =
        some ((tag, .varint), putVarint 10 n ++ rest) := key_put hr.tag (by omega) rfl
    rw [Nat.add_zero] at hkey
    have hn : n < 2 ^ 64 := hr.value
    have hvarint : varint 10 (putVarint 10 n ++ rest) = some (n, rest) := varint_putVarint hn
    simp only [putRecord, List.append_assoc, record, hkey, Option.bind_eq_bind, Option.bind_some,
      value, hvarint, Option.map_some]
  | bytes xs =>
    have hkey : key (putVarint 10 (tag * 8 + 2) ++ (putVarint 10 xs.length ++ (xs ++ rest))) =
        some ((tag, .lengthDelimited), putVarint 10 xs.length ++ (xs ++ rest)) :=
      key_put hr.tag (by omega) rfl
    have hlen : xs.length < 2 ^ 64 := hr.size
    have hvarint : varint 10 (putVarint 10 xs.length ++ (xs ++ rest)) = some (xs.length, xs ++ rest) :=
      varint_putVarint hlen
    simp only [putRecord, List.append_assoc, record, hkey, Option.bind_eq_bind, Option.bind_some,
      value, hvarint, take_append, Option.map_some]
  | fixed64 xs => exact hr.value.elim
  | group => exact hr.value.elim
  | fixed32 xs => exact hr.value.elim

/-- What was written record by record is read record by record. -/
theorem records_putRecords (hlimit : 0 < limit) {rs : List Record} (hrs : ∀ r ∈ rs, r.Writable) :
    records limit (rs.flatMap putRecord) = some rs := by
  induction rs with
  | nil => rfl
  | cons r rs ih =>
    obtain ⟨hr, hrs⟩ := List.forall_mem_cons.mp hrs
    rw [List.flatMap_cons, records_cons (record_putRecord hlimit hr), ih hrs, Option.map_some]

theorem size_le_length {rs : List Record} {r : Record} (hr : r ∈ rs) :
    r.value.size ≤ (rs.flatMap putRecord).length := by
  have hone : r.value.size ≤ (putRecord r).length := by
    obtain ⟨tag, v⟩ := r
    cases v with
    | bytes xs =>
      simp only [putRecord, Value.size, List.length_append]
      omega
    | _ => exact Nat.zero_le _
  have hsub : (putRecord r).Sublist (rs.flatMap putRecord) := by
    rw [List.flatMap_def]
    exact List.sublist_flatten_of_mem (List.mem_map_of_mem hr)
  exact Nat.le_trans hone hsub.length_le

end Records

/-- How a field is written and read. `merge` merges one value into what was read
before it; `depth` is how deep messages are nested below the field. -/
structure FieldType (β : Type) where
  depth : Nat
  default : β
  write : β → List Value
  merge : Nat → β → Value → Option β
  writable : ∀ x, ∀ v ∈ write x, v.Writable
  merge_write : ∀ limit x, depth ≤ limit → (∀ v ∈ write x, v.size < 2 ^ 64) →
    (write x).foldlM (merge limit) default = some x

/-- How the fields of a message are written and read, with the tags they have. -/
structure Message (α : Type) where
  depth : Nat
  tags : List Nat
  init : α
  write : α → List Record
  merge : Nat → α → Record → Option α
  depth_pos : 0 < depth
  tags_valid : ∀ t ∈ tags, 0 < t ∧ t < 2 ^ 29
  written : ∀ x, ∀ r ∈ write x, r.tag ∈ tags ∧ r.value.Writable
  merge_unknown : ∀ limit m r, r.tag ∉ tags → merge limit m r = some m
  merge_write : ∀ limit x, depth ≤ limit → (∀ r ∈ write x, r.value.size < 2 ^ 64) →
    (write x).foldlM (merge limit) init = some x

/-- The recursion limit of the decoders. -/
def recursionLimit : Nat := 100

/-- The encoder and the decoder of a type of messages. -/
structure Codec (α : Type) where
  encode : α → Input
  decode : Input → Option α

namespace Codec

variable {α : Type}

/-- What is encoded is decoded again. -/
def RoundTrips (c : Codec α) : Prop :=
  ∀ x, (c.encode x).length < 2 ^ 64 → c.decode (c.encode x) = some x

/-- Fields behind a message that its reader does not know are passed over. -/
def SkipsUnknown (c : Codec α) (tags : List Nat) : Prop :=
  ∀ x, (c.encode x).length < 2 ^ 64 → ∀ unknown : List Record,
    (∀ r ∈ unknown, r.Writable ∧ r.tag ∉ tags) → c.decode (c.encode x ++ unknown.flatMap putRecord) = some x

theorem SkipsUnknown.roundTrips {c : Codec α} {tags : List Nat} (h : c.SkipsUnknown tags) : c.RoundTrips := by
  intro x hlen
  have hnone := h x hlen [] fun _ hr => absurd hr List.not_mem_nil
  rwa [List.flatMap_nil, List.append_nil] at hnone

end Codec

namespace Message

variable {α β γ : Type}

/-- `encode_to_vec` -/
def encode (c : Message α) (x : α) : Input := (c.write x).flatMap putRecord

/-- `Message::decode` under the given recursion limit. -/
def decode (c : Message α) (limit : Nat) (input : Input) : Option α :=
  Wire.decode limit (c.merge limit) c.init input

/-- The message without fields. -/
def nil : Message Unit where
  depth := 1
  tags := []
  init := ()
  write := fun _ => []
  merge := fun _ m _ => some m
  depth_pos := Nat.one_pos
  tags_valid := fun _ h => absurd h List.not_mem_nil
  written := fun _ _ h => absurd h List.not_mem_nil
  merge_unknown := fun _ _ _ _ => rfl
  merge_write := fun _ _ _ _ => rfl

theorem foldlM_field {type : FieldType β} {tag limit : Nat} {merge : β × γ → Record → Option (β × γ)}
    (hmerge : ∀ m v, merge m ⟨tag, v⟩ = (type.merge limit m.1 v).map fun x => (x, m.2))
    (vs : List Value) (x : β) (y : γ) :
    (vs.map (Record.mk tag)).foldlM merge (x, y) =
      (vs.foldlM (type.merge limit) x).map fun x => (x, y) := by
  induction vs generalizing x with
  | nil => rfl
  | cons v vs ih =>
    rw [List.map_cons, List.foldlM_cons, List.foldlM_cons, hmerge]
    cases type.merge limit x v with
    | none => rfl
    | some x' => exact ih x'

theorem foldlM_rest {merge : β × γ → Record → Option (β × γ)} {mergeRest : γ → Record → Option γ}
    {rs : List Record}
    (hmerge : ∀ r ∈ rs, ∀ m, merge m r = (mergeRest m.2 r).map fun y => (m.1, y)) (x : β) (y : γ) :
    rs.foldlM merge (x, y) = (rs.foldlM mergeRest y).map fun y => (x, y) := by
  induction rs generalizing y with
  | nil => rfl
  | cons r rs ih =>
    obtain ⟨hr, hrs⟩ := List.forall_mem_cons.mp hmerge
    rw [List.foldlM_cons, List.foldlM_cons, hr]
    cases mergeRest y r with
    | none => rfl
    | some y' => exact ih hrs y'

/-- A field in front of the others. -/
def field (tag : Nat) (type : FieldType β) (rest : Message γ) (hfresh : tag ∉ rest.tags := by decide)
    (htag : 0 < tag ∧ tag < 2 ^ 29 := by decide) : Message (β × γ) where
  depth := max type.depth rest.depth
  tags := tag :: rest.tags
  init := (type.default, rest.init)
  write := fun x => (type.write x.1).map (Record.mk tag) ++ rest.write x.2
  merge := fun limit m r =>
    if r.tag = tag then (type.merge limit m.1 r.value).map fun x => (x, m.2)
    else (rest.merge limit m.2 r).map fun y => (m.1, y)
  depth_pos := Nat.lt_of_lt_of_le rest.depth_pos (Nat.le_max_right _ _)
  tags_valid := List.forall_mem_cons.mpr ⟨htag, rest.tags_valid⟩
  written := by
    intro x r hr
    rcases List.mem_append.mp hr with hr | hr
    · obtain ⟨v, hv, rfl⟩ := List.mem_map.mp hr
      exact ⟨List.mem_cons_self, type.writable x.1 v hv⟩
    · obtain ⟨hmem, hwritable⟩ := rest.written x.2 r hr
      exact ⟨List.mem_cons_of_mem tag hmem, hwritable⟩
  merge_unknown := by
    intro limit m r hr
    obtain ⟨hne, hrest⟩ := not_or.mp (mt List.mem_cons.mpr hr)
    rw [if_neg hne, rest.merge_unknown limit m.2 r hrest, Option.map_some]
  merge_write := by
    intro limit x hlimit hsize
    have hown : (type.write x.1).foldlM (type.merge limit) type.default = some x.1 := by
      refine type.merge_write limit x.1 (Nat.le_trans (Nat.le_max_left _ _) hlimit) ?_
      intro v hv
      exact hsize _ (List.mem_append_left _ (List.mem_map_of_mem hv))
    have hrest : (rest.write x.2).foldlM (rest.merge limit) rest.init = some x.2 := by
      refine rest.merge_write limit x.2 (Nat.le_trans (Nat.le_max_right _ _) hlimit) ?_
      intro r hr
      exact hsize r (List.mem_append_right _ hr)
    -- the tags of the other fields are not this one
    have hothers : ∀ r ∈ rest.write x.2, ∀ m : β × γ,
        (if r.tag = tag then (type.merge limit m.1 r.value).map fun x => (x, m.2)
          else (rest.merge limit m.2 r).map fun y => (m.1, y)) =
            (rest.merge limit m.2 r).map fun y => (m.1, y) := by
      intro r hr m
      have hne : r.tag ≠ tag := fun h => hfresh (h ▸ (rest.written x.2 r hr).1)
      exact if_neg hne
    rw [List.foldlM_append, foldlM_field (fun _ _ => if_pos rfl), hown, Option.map_some,
      Option.bind_eq_bind, Option.bind_some, foldlM_rest hothers, hrest, Option.map_some]

/-- The same fields in another type. -/
def iso (c : Message α) (pack : α → γ) (unpack : γ → α)
    (hpack : ∀ y, pack (unpack y) = y := by intro y; rfl)
    (hunpack : ∀ x, unpack (pack x) = x := by intro x; rfl) : Message γ where
  depth := c.depth
  tags := c.tags
  init := pack c.init
  write := fun y => c.write (unpack y)
  merge := fun limit m r => (c.merge limit (unpack m) r).map pack
  depth_pos := c.depth_pos
  tags_valid := c.tags_valid
  written := fun y => c.written (unpack y)
  merge_unknown := by
    intro limit m r hr
    rw [c.merge_unknown limit (unpack m) r hr, Option.map_some, hpack]
  merge_write := by
    intro limit y hlimit hsize
    have hfold : ∀ (rs : List Record) (x : α),
        rs.foldlM (fun m r => (c.merge limit (unpack m) r).map pack) (pack x) =
          (rs.foldlM (c.merge limit) x).map pack := by
      intro rs
      induction rs with
      | nil => exact fun _ => rfl
      | cons r rs ih =>
        intro x
        rw [List.foldlM_cons, List.foldlM_cons, hunpack]
        cases c.merge limit x r with
        | none => rfl
        | some x' => exact ih x'
    rw [hfold, c.merge_write limit (unpack y) hlimit hsize, Option.map_some, hpack]

section Decode

variable {limit : Nat} (c : Message α)

theorem write_writable {x : α} (hsize : ∀ r ∈ c.write x, r.value.size < 2 ^ 64) :
    ∀ r ∈ c.write x, r.Writable := by
  intro r hr
  obtain ⟨hmem, hwritable⟩ := c.written x r hr
  exact ⟨c.tags_valid r.tag hmem, hwritable, hsize r hr⟩

theorem size_lt {x : α} (hlen : (c.encode x).length < 2 ^ 64) :
    ∀ r ∈ c.write x, r.value.size < 2 ^ 64 :=
  fun _ hr => Nat.lt_of_le_of_lt (size_le_length hr) hlen

theorem foldlM_unknown {rs : List Record} (hrs : ∀ r ∈ rs, r.tag ∉ c.tags) (m : α) :
    rs.foldlM (c.merge limit) m = some m := by
  induction rs with
  | nil => rfl
  | cons r rs ih =>
    obtain ⟨hr, hrs⟩ := List.forall_mem_cons.mp hrs
    rw [List.foldlM_cons, c.merge_unknown limit m r hr, Option.bind_eq_bind, Option.bind_some, ih hrs]

/-- What is decoded is what was encoded, whatever fields the reader does not know
stand behind it. -/
theorem decode_encode_append {x : α} (hlimit : c.depth ≤ limit) (hlen : (c.encode x).length < 2 ^ 64)
    {unknown : List Record} (hunknown : ∀ r ∈ unknown, r.Writable ∧ r.tag ∉ c.tags) :
    c.decode limit (c.encode x ++ unknown.flatMap putRecord) = some x := by
  have hsize := c.size_lt hlen
  have hwritable : ∀ r ∈ c.write x ++ unknown, r.Writable := by
    intro r hr
    rcases List.mem_append.mp hr with hr | hr
    · exact c.write_writable hsize r hr
    · exact (hunknown r hr).1
  have hrecords : records limit (c.encode x ++ unknown.flatMap putRecord) =
      some (c.write x ++ unknown) := by
    rw [encode, ← List.flatMap_append]
    exact records_putRecords (Nat.lt_of_lt_of_le c.depth_pos hlimit) hwritable
  have hskip : unknown.foldlM (c.merge limit) x = some x :=
    c.foldlM_unknown (fun r hr => (hunknown r hr).2) x
  rw [decode, Wire.decode, hrecords, Option.bind_some, List.foldlM_append,
    c.merge_write limit x hlimit hsize, Option.bind_eq_bind, Option.bind_some, hskip]

theorem decode_encode {x : α} (hlimit : c.depth ≤ limit) (hlen : (c.encode x).length < 2 ^ 64) :
    c.decode limit (c.encode x) = some x := by
  have h : c.decode limit (c.encode x ++ ([] : List Record).flatMap putRecord) = some x :=
    c.decode_encode_append hlimit hlen fun _ h => absurd h List.not_mem_nil
  rwa [List.flatMap_nil, List.append_nil] at h

/-- The codec that a schema gives. -/
def codec : Codec α := ⟨c.encode, c.decode recursionLimit⟩

theorem codec_skipsUnknown (hdepth : c.depth ≤ recursionLimit) : c.codec.SkipsUnknown c.tags :=
  fun _ hlen _ hunknown => c.decode_encode_append hdepth hlen hunknown

end Decode

end Message

namespace FieldType

variable {α β : Type}

/-- A field that is written as one number, unless it has its default value. -/
def scalar [DecidableEq β] (default : β) (toNat : β → Nat) (ofNat : Nat → β)
    (hlt : ∀ x, toNat x < 2 ^ 64) (hof : ∀ x, ofNat (toNat x) = x) : FieldType β where
  depth := 0
  default := default
  write := fun x => if x = default then [] else [.varint (toNat x)]
  merge := fun _ _ v => match v with
    | .varint n => some (ofNat n)
    | _ => none
  writable := by
    intro x v hv
    split at hv
    · exact absurd hv List.not_mem_nil
    · rw [List.mem_singleton.mp hv]
      exact hlt x
  merge_write := by
    intro limit x _ _
    split
    next h => rw [h]; rfl
    next => exact congrArg some (hof x)

def uint64 : FieldType UInt64 :=
  scalar 0 UInt64.toNat UInt64.ofNat UInt64.toNat_lt (fun _ => UInt64.ofNat_toNat)

def int64 : FieldType Int64 :=
  scalar 0 (fun x => x.toUInt64.toNat) (fun n => (UInt64.ofNat n).toInt64) (fun x => x.toUInt64.toNat_lt)
    (fun x => by rw [UInt64.ofNat_toNat, Int64.toInt64_toUInt64])

/-- A negative `int32` is written with the ten bytes of the `int64`. -/
def int32 : FieldType Int32 :=
  scalar 0 (fun x => x.toInt64.toUInt64.toNat) (fun n => (UInt64.ofNat n).toInt64.toInt32)
    (fun x => x.toInt64.toUInt64.toNat_lt)
    (fun x => by rw [UInt64.ofNat_toNat, Int64.toInt64_toUInt64, Int32.toInt32_toInt64])

def bool : FieldType Bool :=
  scalar false (fun b => if b then 1 else 0) (fun n => n != 0) (fun b => by cases b <;> decide)
    (fun b => by cases b <;> rfl)

/-- The bytes of a string, as they stand in its record. -/
def utf8 (x : String) : Value := .bytes x.toByteArray.data.toList

theorem string?_utf8 (x : String) : (utf8 x).string? = some x := by
  show String.fromUTF8? x.toByteArray = some x
  unfold String.fromUTF8?
  rw [dif_pos x.isValidUTF8]
  rfl

def string : FieldType String where
  depth := 0
  default := ""
  write := fun x => if x = "" then [] else [utf8 x]
  merge := fun _ _ v => v.string?
  writable := by
    intro x v hv
    split at hv
    · exact absurd hv List.not_mem_nil
    · rw [List.mem_singleton.mp hv]
      trivial
  merge_write := by
    intro limit x _ _
    split
    next h => rw [h]; rfl
    next => rw [List.foldlM_cons, string?_utf8]; rfl

/-- A field with one value for each element. -/
def repeated (depth : Nat) (put : β → Value) (get : Nat → Value → Option β)
    (hput : ∀ x, (put x).Writable)
    (hget : ∀ limit x, depth ≤ limit → (put x).size < 2 ^ 64 → get limit (put x) = some x) :
    FieldType (List β) where
  depth := depth
  default := []
  write := fun xs => xs.map put
  merge := fun limit xs v => (get limit v).map fun x => xs ++ [x]
  writable := by
    intro xs v hv
    obtain ⟨x, _, rfl⟩ := List.mem_map.mp hv
    exact hput x
  merge_write := by
    intro limit xs hlimit hsize
    have hread : ∀ (ys front : List β), (∀ y ∈ ys, (put y).size < 2 ^ 64) →
        (ys.map put).foldlM (fun xs v => (get limit v).map fun x => xs ++ [x]) front =
          some (front ++ ys) := by
      intro ys
      induction ys with
      | nil => exact fun front _ => congrArg some (List.append_nil front).symm
      | cons y ys ih =>
        intro front hys
        obtain ⟨hy, hys⟩ := List.forall_mem_cons.mp hys
        rw [List.map_cons, List.foldlM_cons, hget limit y hlimit hy, Option.map_some,
          Option.bind_eq_bind, Option.bind_some, ih (front ++ [y]) hys, List.append_assoc]
        rfl
    exact hread xs [] fun x hx => hsize _ (List.mem_map_of_mem hx)

def repeatedString : FieldType (List String) :=
  repeated 0 utf8 (fun _ v => v.string?) (fun _ => trivial) (fun _ x _ _ => string?_utf8 x)

/-- A message in a field; what is read for it is merged into what was there. -/
def message (c : Message α) : FieldType (Option α) where
  depth := c.depth + 1
  default := none
  write := fun m => m.toList.map fun x => .bytes (c.encode x)
  merge := fun limit m v => v.bytes?.bind fun body =>
    (Wire.decode (limit - 1) (c.merge (limit - 1)) (m.getD c.init) body).map some
  writable := by
    intro m v hv
    obtain ⟨x, _, rfl⟩ := List.mem_map.mp hv
    trivial
  merge_write := by
    intro limit m hlimit hsize
    cases m with
    | none => rfl
    | some x =>
      have hlen : (c.encode x).length < 2 ^ 64 := hsize _ List.mem_cons_self
      have hdecode : c.decode (limit - 1) (c.encode x) = some x := c.decode_encode (by omega) hlen
      show ((Wire.decode (limit - 1) (c.merge (limit - 1)) c.init (c.encode x)).map some).bind some = _
      rw [← Message.decode, hdecode]
      rfl

def repeatedMessage (c : Message α) : FieldType (List α) :=
  repeated (c.depth + 1) (fun x => .bytes (c.encode x))
    (fun limit v => v.bytes?.bind (c.decode (limit - 1))) (fun _ => trivial)
    (fun limit x hlimit hlen => by
      have hdecode : c.decode (limit - 1) (c.encode x) = some x := c.decode_encode (by omega) hlen
      exact hdecode)

/-- The numbers of a packed field. -/
def varints : Nat → Input → Option (List Nat)
  | _, [] => some []
  | 0, _ :: _ => none
  | fuel + 1, input => do
    let (n, rest) ← varint 10 input
    let ns ← varints fuel rest
    some (n :: ns)

theorem putVarint_ne_nil (n : Nat) : putVarint 10 n ≠ [] := by
  rw [putVarint]
  split
  · exact List.cons_ne_nil _ _
  · exact List.cons_ne_nil _ _

theorem varints_put {ns : List Nat} (hns : ∀ n ∈ ns, n < 2 ^ 64) {fuel : Nat}
    (hfuel : (ns.flatMap (putVarint 10)).length ≤ fuel) :
    varints fuel (ns.flatMap (putVarint 10)) = some ns := by
  induction ns generalizing fuel with
  | nil => cases fuel <;> rfl
  | cons n ns ih =>
    obtain ⟨hn, hns⟩ := List.forall_mem_cons.mp hns
    have hpos : 0 < (putVarint 10 n).length := List.length_pos_iff.mpr (putVarint_ne_nil n)
    rw [List.flatMap_cons, List.length_append] at hfuel
    obtain ⟨fuel, rfl⟩ : ∃ k, fuel = k + 1 := ⟨fuel - 1, by omega⟩
    obtain ⟨b, bs, hput⟩ := List.exists_cons_of_ne_nil (putVarint_ne_nil n)
    have hread : varint 10 (putVarint 10 n ++ ns.flatMap (putVarint 10)) =
        some (n, ns.flatMap (putVarint 10)) := varint_putVarint hn
    have hrest : varints fuel (ns.flatMap (putVarint 10)) = some ns := ih hns (by omega)
    rw [List.flatMap_cons]
    rw [hput, List.cons_append] at hread ⊢
    simp only [varints, hread, Option.bind_eq_bind, Option.bind_some, hrest]

/-- A packed field of numbers: one value for all of them. Unpacked ones are read as well. -/
def packed (toNat : β → Nat) (ofNat : Nat → β) (hlt : ∀ x, toNat x < 2 ^ 64)
    (hof : ∀ x, ofNat (toNat x) = x) : FieldType (List β) where
  depth := 0
  default := []
  write := fun xs => if xs.isEmpty then [] else [.bytes ((xs.map toNat).flatMap (putVarint 10))]
  merge := fun _ xs v => match v with
    | .bytes body => (varints body.length body).map fun ns => xs ++ ns.map ofNat
    | .varint n => some (xs ++ [ofNat n])
    | _ => none
  writable := by
    intro xs v hv
    split at hv
    · exact absurd hv List.not_mem_nil
    · rw [List.mem_singleton.mp hv]
      trivial
  merge_write := by
    intro limit xs _ _
    split
    next h => rw [List.isEmpty_iff.mp h]; rfl
    next =>
      have hread : varints _ ((xs.map toNat).flatMap (putVarint 10)) = some (xs.map toNat) :=
        varints_put (List.forall_mem_map.mpr fun x _ => hlt x) (Nat.le_refl _)
      have hback : (xs.map toNat).map ofNat = xs := by
        rw [List.map_map]
        exact (List.map_congr_left fun x _ => hof x).trans (List.map_id xs)
      simp only [List.foldlM_cons, List.foldlM_nil, hread, Option.map_some, hback, List.nil_append,
        Option.bind_eq_bind, Option.bind_some]
      rfl

def packedInt32 : FieldType (List Int32) :=
  packed (fun x => x.toInt64.toUInt64.toNat) (fun n => (UInt64.ofNat n).toInt64.toInt32)
    (fun x => x.toInt64.toUInt64.toNat_lt)
    (fun x => by rw [UInt64.ofNat_toNat, Int64.toInt64_toUInt64, Int32.toInt32_toInt64])

end FieldType

end Wire

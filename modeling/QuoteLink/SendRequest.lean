import QuoteLink.PacketBuild
import QuoteLink.Wire

open Wire

namespace QuoteLink

structure AuthResponse where
  authInfo : Option AuthInfo
  deriving DecidableEq, Repr

structure SubscribeResponse where
  success : List String
  failed : List String
  deriving DecidableEq, Repr

structure UnsubscribeResponse where
  success : List String
  failed : List String
  deriving DecidableEq, Repr

structure LinkError where
  code : UInt64
  msg : String
  deriving DecidableEq, Repr

/-- The generated `decode` of the messages that responses carry. -/
structure ProstDecode where
  linkError : Bytes → Option LinkError
  subscribeResponse : Bytes → Option SubscribeResponse
  unsubscribeResponse : Bytes → Option UnsubscribeResponse
  authResponse : Bytes → Option AuthResponse

/-- Why `try_from` fails: with the command, or in the context of the decoder's error. -/
inductive ConvertError
  | command (text : String) (command : Command)
  | decode (context : String)
  deriving DecidableEq, Repr

/-- `TryFrom<Response>` for a message that answers the given commands. -/
def tryFromResponse {α : Type} (commands : List Command) (text context : String)
    (decode : Bytes → Option α) (response : Response) : Except ConvertError α :=
  if response.command ∈ commands then
    match decode response.body with
    | some m => .ok m
    | none => .error (.decode context)
  else .error (.command text response.command)

def SubscribeResponse.commands : List Command :=
  [.cmdSubAllType, .cmdSubOrderBook, .cmdSubTrades, .cmdSubBrokers, .cmdSubDepth, .cmdSubMarketInfo]

def SubscribeResponse.tryFrom (prost : ProstDecode) : Response → Except ConvertError SubscribeResponse :=
  tryFromResponse commands "unsupported command" "decode response body err" prost.subscribeResponse

def AuthResponse.commands : List Command := [.auth]

def AuthResponse.tryFrom (prost : ProstDecode) : Response → Except ConvertError AuthResponse :=
  tryFromResponse commands "response packet'command is not Auth" "decode auth response body err"
    prost.authResponse

def UnsubscribeResponse.commands : List Command :=
  [.cmdUnSubAllType, .cmdUnSubOrderBook, .cmdUnSubDepth, .cmdUnSubBrokers]

def UnsubscribeResponse.tryFrom (prost : ProstDecode) :
    Response → Except ConvertError UnsubscribeResponse :=
  tryFromResponse commands "response packet'command is not Unsubscribe"
    "decode unsubscribe response body err" prost.unsubscribeResponse

/-- Why `send_request` fails on a response: its text and the error it wraps. -/
inductive SendRequestError
  | linkError (text : String) (err : LinkError)
  | convert (text : String) (err : ConvertError)
  deriving DecidableEq, Repr

def convertResponse {α : Type} (tryFrom : Response → Except ConvertError α) (resp : Response) :
    Except SendRequestError α :=
  match tryFrom resp with
  | .ok m => .ok m
  | .error err => .error (.convert "convert response to response type failed" err)

/-- What `send_request` returns for the response it waited for. -/
def sendRequestResult {α : Type} (prost : ProstDecode) (tryFrom : Response → Except ConvertError α)
    (resp : Response) : Except SendRequestError α :=
  if resp.status ≠ .success then
    match prost.linkError resp.body with
    | some err => .error (.linkError "response is link error" err)
    | none => convertResponse tryFrom resp
  else convertResponse tryFrom resp

/-- The fields of the messages: what a decoder asks of a record, unknown fields aside. -/
def LinkError.Fits (r : Record) : Prop :=
  match r.tag with
  | 1 => r.value.uint64?.isSome
  | 2 => r.value.string?.isSome
  | _ => True

/-- `SubscribeResponse` and `UnsubscribeResponse` have the same fields. -/
def StringsFit (r : Record) : Prop :=
  match r.tag with
  | 1 | 2 => r.value.string?.isSome
  | _ => True

def AuthInfo.Fits (r : Record) : Prop :=
  match r.tag with
  | 1 | 2 | 3 => r.value.string?.isSome
  | _ => True

def AuthResponse.Fits (limit : Nat) (r : Record) : Prop :=
  match r.tag with
  | 1 => ∃ body, r.value.bytes? = some body ∧ Accepts (limit - 1) AuthInfo.Fits body
  | _ => True

/-- Standard proto3 decoding: a body is accepted if it consists of records and every
known field has its type and valid UTF-8. -/
structure ProstDecode.Standard (limit : Nat) (prost : ProstDecode) : Prop where
  linkError : ∀ body, (prost.linkError body).isSome ↔ Accepts limit LinkError.Fits body
  subscribeResponse : ∀ body, (prost.subscribeResponse body).isSome ↔ Accepts limit StringsFit body
  unsubscribeResponse : ∀ body, (prost.unsubscribeResponse body).isSome ↔ Accepts limit StringsFit body
  authResponse : ∀ body, (prost.authResponse body).isSome ↔ Accepts limit (AuthResponse.Fits limit) body

section Results

variable {α : Type} {limit : Nat} {prost : ProstDecode} {resp : Response} {body : Bytes}

theorem convertResponse_ok_iff {commands : List Command} {text context : String}
    {decode : Bytes → Option α} :
    (∃ m, convertResponse (tryFromResponse commands text context decode) resp = .ok m) ↔
      resp.command ∈ commands ∧ (decode resp.body).isSome := by
  unfold convertResponse tryFromResponse
  by_cases hcmd : resp.command ∈ commands
  · cases hdec : decode resp.body <;> simp [hcmd]
  · simp [hcmd]

theorem sendRequestResult_ok_iff {commands : List Command} {text context : String}
    {decode : Bytes → Option α} :
    (∃ m, sendRequestResult prost (tryFromResponse commands text context decode) resp = .ok m) ↔
      (resp.status = .success ∨ prost.linkError resp.body = none) ∧ resp.command ∈ commands ∧
        (decode resp.body).isSome := by
  have hconvert : (∃ m, convertResponse (tryFromResponse commands text context decode) resp = .ok m) ↔
      resp.command ∈ commands ∧ (decode resp.body).isSome := convertResponse_ok_iff
  rw [← hconvert]
  unfold sendRequestResult
  by_cases hstatus : resp.status = .success
  · simp [hstatus]
  · cases hlink : prost.linkError resp.body with
    | some err => simp [hstatus]
    | none => simp [hstatus]

/-- The call returns `Ok` only for a successful response. -/
def OkOnlyOnSuccess (prost : ProstDecode) (tryFrom : Response → Except ConvertError α)
    (resp : Response) : Prop :=
  ∀ m, sendRequestResult prost tryFrom resp = .ok m → resp.status = .success

/-- `send_request` fails for what the first decoder accepts, so the second must not
accept what the first rejects. -/
theorem okOnlyOnSuccess_iff {commands : List Command} {text context : String}
    {decode : Bytes → Option α} {fits : Record → Prop} (hprost : prost.Standard limit)
    (hdecode : ∀ body, (decode body).isSome ↔ Accepts limit fits body) :
    OkOnlyOnSuccess prost (tryFromResponse commands text context decode) resp ↔
      resp.status = .success ∨ resp.command ∉ commands ∨
        ¬(Accepts limit fits resp.body ∧ ¬Accepts limit LinkError.Fits resp.body) := by
  have hok : (∃ m, sendRequestResult prost (tryFromResponse commands text context decode) resp = .ok m) ↔
      (resp.status = .success ∨ prost.linkError resp.body = none) ∧ resp.command ∈ commands ∧
        (decode resp.body).isSome := sendRequestResult_ok_iff
  have hnone : prost.linkError resp.body = none ↔ ¬Accepts limit LinkError.Fits resp.body := by
    rw [← hprost.linkError resp.body, Option.not_isSome_iff_eq_none]
  rw [hnone, hdecode resp.body] at hok
  have hall : OkOnlyOnSuccess prost (tryFromResponse commands text context decode) resp ↔
      ((∃ m, sendRequestResult prost (tryFromResponse commands text context decode) resp = .ok m) →
        resp.status = .success) :=
    ⟨fun h ⟨m, hm⟩ => h m hm, fun h m hm => h ⟨m, hm⟩⟩
  rw [hall, hok]
  constructor
  · intro h
    by_cases hstatus : resp.status = .success
    · exact Or.inl hstatus
    · right
      by_cases hcmd : resp.command ∈ commands
      · right
        rintro ⟨hfits, hlink⟩
        exact hstatus (h ⟨Or.inr hlink, hcmd, hfits⟩)
      · exact Or.inl hcmd
  · rintro h ⟨hreach, hcmd, hfits⟩
    rcases hreach with hstatus | hlink
    · exact hstatus
    · rcases h with hstatus | hno | hno
      · exact hstatus
      · exact absurd hcmd hno
      · exact absurd ⟨hfits, hlink⟩ hno

/-- The body encodes a `SubscribeResponse` or `UnsubscribeResponse` with an entry in `success`. -/
def NamesSuccess (limit : Nat) (body : Bytes) : Prop :=
  ∃ rs, records limit body = some rs ∧ (∀ r ∈ rs, StringsFit r) ∧ ∃ r ∈ rs, r.tag = 1

/-- The body encodes an `AuthResponse` with an `auth_info`, or with a field 2, which
`AuthResponse` does not have, that is no string. -/
def NamesAuthInfo (limit : Nat) (body : Bytes) : Prop :=
  ∃ rs, records limit body = some rs ∧ (∀ r ∈ rs, AuthResponse.Fits limit r) ∧
    ∃ r ∈ rs, r.tag = 1 ∨ r.tag = 2 ∧ r.value.string? = none

theorem uint64?_eq_none {v : Value} (h : v.bytes?.isSome) : v.uint64? = none := by
  cases v <;> first | rfl | cases h

/-- A string is no number, so field 1 tells the messages from `LinkError`. -/
theorem not_linkErrorFits_of_strings {r : Record} (h : StringsFit r) :
    ¬LinkError.Fits r ↔ r.tag = 1 := by
  obtain ⟨tag, v⟩ := r
  match tag with
  | 1 =>
    have hbytes : v.bytes?.isSome := by
      cases v <;> first | rfl | cases h
    simp [LinkError.Fits, uint64?_eq_none hbytes]
  | 2 => exact iff_of_false (fun hno => hno h) (by simp)
  | 0 => exact iff_of_false (fun hno => hno trivial) (by simp)
  | tag + 3 => exact iff_of_false (fun hno => hno trivial) (by simp)

theorem not_linkErrorFits_of_auth {r : Record} (h : AuthResponse.Fits limit r) :
    ¬LinkError.Fits r ↔ r.tag = 1 ∨ r.tag = 2 ∧ r.value.string? = none := by
  obtain ⟨tag, v⟩ := r
  match tag with
  | 1 =>
    obtain ⟨body, hbody, _⟩ := h
    have hbytes : v.bytes?.isSome := Option.isSome_of_eq_some hbody
    simp [LinkError.Fits, uint64?_eq_none hbytes]
  | 2 => simp [LinkError.Fits]
  | 0 => simp [LinkError.Fits]
  | tag + 3 => simp [LinkError.Fits]

theorem namesSuccess_iff :
    NamesSuccess limit body ↔ Accepts limit StringsFit body ∧ ¬Accepts limit LinkError.Fits body := by
  rw [Accepts.and_iff]
  constructor
  · rintro ⟨rs, hrs, hall, r, hr, htag⟩
    exact ⟨rs, hrs, hall, r, hr, (not_linkErrorFits_of_strings (hall r hr)).mpr htag⟩
  · rintro ⟨rs, hrs, hall, r, hr, hbad⟩
    exact ⟨rs, hrs, hall, r, hr, (not_linkErrorFits_of_strings (hall r hr)).mp hbad⟩

theorem namesAuthInfo_iff :
    NamesAuthInfo limit body ↔
      Accepts limit (AuthResponse.Fits limit) body ∧ ¬Accepts limit LinkError.Fits body := by
  rw [Accepts.and_iff]
  constructor
  · rintro ⟨rs, hrs, hall, r, hr, hbad⟩
    exact ⟨rs, hrs, hall, r, hr, (not_linkErrorFits_of_auth (hall r hr)).mpr hbad⟩
  · rintro ⟨rs, hrs, hall, r, hr, hbad⟩
    exact ⟨rs, hrs, hall, r, hr, (not_linkErrorFits_of_auth (hall r hr)).mp hbad⟩

end Results

section StandardDecoder

def LinkError.mergeField (m : LinkError) (r : Record) : Option LinkError :=
  match r.tag with
  | 1 => r.value.uint64?.map fun code => { m with code := code }
  | 2 => r.value.string?.map fun msg => { m with msg := msg }
  | _ => some m

def SubscribeResponse.mergeField (m : SubscribeResponse) (r : Record) : Option SubscribeResponse :=
  match r.tag with
  | 1 => r.value.string?.map fun x => { m with success := m.success ++ [x] }
  | 2 => r.value.string?.map fun x => { m with failed := m.failed ++ [x] }
  | _ => some m

def UnsubscribeResponse.mergeField (m : UnsubscribeResponse) (r : Record) :
    Option UnsubscribeResponse :=
  match r.tag with
  | 1 => r.value.string?.map fun x => { m with success := m.success ++ [x] }
  | 2 => r.value.string?.map fun x => { m with failed := m.failed ++ [x] }
  | _ => some m

def AuthInfo.mergeField (m : AuthInfo) (r : Record) : Option AuthInfo :=
  match r.tag with
  | 1 => r.value.string?.map fun x => { m with userName := x }
  | 2 => r.value.string?.map fun x => { m with password := x }
  | 3 => r.value.string?.map fun x => { m with clientName := x }
  | _ => some m

def AuthResponse.mergeField (limit : Nat) (m : AuthResponse) (r : Record) : Option AuthResponse :=
  match r.tag with
  | 1 => r.value.bytes?.bind fun body =>
    (decode (limit - 1) AuthInfo.mergeField (m.authInfo.getD ⟨"", "", ""⟩) body).map fun info =>
      { m with authInfo := some info }
  | _ => some m

/-- Decoders that merge record by record. -/
def standardProst (limit : Nat) : ProstDecode where
  linkError := decode limit LinkError.mergeField ⟨0, ""⟩
  subscribeResponse := decode limit SubscribeResponse.mergeField ⟨[], []⟩
  unsubscribeResponse := decode limit UnsubscribeResponse.mergeField ⟨[], []⟩
  authResponse := decode limit (AuthResponse.mergeField limit) ⟨none⟩

theorem AuthInfo.mergeField_isSome (m : AuthInfo) (r : Record) :
    (m.mergeField r).isSome ↔ AuthInfo.Fits r := by
  unfold AuthInfo.mergeField AuthInfo.Fits
  split <;> simp

theorem standardProst_standard (limit : Nat) : (standardProst limit).Standard limit where
  linkError := by
    refine fun body => decode_isSome_iff fun m r => ?_
    unfold LinkError.mergeField LinkError.Fits
    split <;> simp
  subscribeResponse := by
    refine fun body => decode_isSome_iff fun m r => ?_
    unfold SubscribeResponse.mergeField StringsFit
    split <;> simp
  unsubscribeResponse := by
    refine fun body => decode_isSome_iff fun m r => ?_
    unfold UnsubscribeResponse.mergeField StringsFit
    split <;> simp
  authResponse := by
    refine fun body => decode_isSome_iff fun m r => ?_
    unfold AuthResponse.mergeField AuthResponse.Fits
    split
    · cases hbytes : r.value.bytes? with
      | none => simp
      | some inner =>
        have hinner : ∀ info, (decode (limit - 1) AuthInfo.mergeField info inner).isSome ↔
            Accepts (limit - 1) AuthInfo.Fits inner :=
          fun info => decode_isSome_iff AuthInfo.mergeField_isSome
        simp [hinner]
    · simp

end StandardDecoder

/-- A call reports a failed response as failed unless its body is a message of the
result type that `LinkError` cannot be: an `Ok` then stands for a failed request. -/
theorem ok_only_on_success_iff (limit : Nat) (prost : ProstDecode) (h : prost.Standard limit)
    (resp : Response) :
    (OkOnlyOnSuccess prost (SubscribeResponse.tryFrom prost) resp ↔
      resp.status = .success ∨ resp.command ∉ SubscribeResponse.commands ∨
        ¬NamesSuccess limit resp.body) ∧
    (OkOnlyOnSuccess prost (UnsubscribeResponse.tryFrom prost) resp ↔
      resp.status = .success ∨ resp.command ∉ UnsubscribeResponse.commands ∨
        ¬NamesSuccess limit resp.body) ∧
    (OkOnlyOnSuccess prost (AuthResponse.tryFrom prost) resp ↔
      resp.status = .success ∨ resp.command ∉ AuthResponse.commands ∨
        ¬NamesAuthInfo limit resp.body) := by
  rw [namesSuccess_iff, namesAuthInfo_iff]
  exact ⟨okOnlyOnSuccess_iff h h.subscribeResponse, okOnlyOnSuccess_iff h h.unsubscribeResponse,
    okOnlyOnSuccess_iff h h.authResponse⟩

/-- A rejected subscription whose body is a `LinkError` with code 5. -/
def linkErrorResponse : Response := ⟨0, .cmdSubDepth, 1, .badRequest, 2, [0x08, 5]⟩

theorem ok_only_on_success_iff_linkError :
    OkOnlyOnSuccess (standardProst 100) (SubscribeResponse.tryFrom (standardProst 100))
      linkErrorResponse := by
  refine ((ok_only_on_success_iff 100 (standardProst 100) (standardProst_standard 100)
    linkErrorResponse).1).mpr (Or.inr (Or.inr ?_))
  rintro ⟨rs, hrs, hall, _⟩
  have hone : records 100 [0x08, 5] = some [⟨1, .varint 5⟩] := by decide +kernel
  have hsame : rs = [⟨1, .varint 5⟩] := Option.some.inj (hrs.symm.trans hone)
  have hfits := hall ⟨1, .varint 5⟩ (by rw [hsame]; exact List.mem_singleton_self _)
  cases hfits

/-- A rejected subscription that nevertheless names one success, `"a"`. -/
def partialResponse : Response := ⟨0, .cmdSubDepth, 1, .badRequest, 3, [0x0A, 1, 0x61]⟩

theorem ok_only_on_success_counterexample :
    (standardProst 100).Standard 100 ∧ partialResponse.status = .badRequest ∧
      sendRequestResult (standardProst 100) (SubscribeResponse.tryFrom (standardProst 100))
        partialResponse = .ok ⟨["a"], []⟩ ∧
      ¬OkOnlyOnSuccess (standardProst 100) (SubscribeResponse.tryFrom (standardProst 100))
        partialResponse := by
  have hok : sendRequestResult (standardProst 100) (SubscribeResponse.tryFrom (standardProst 100))
      partialResponse = .ok ⟨["a"], []⟩ := by
    decide +kernel
  refine ⟨standardProst_standard 100, rfl, hok, ?_⟩
  intro hall
  cases hall _ hok

end QuoteLink

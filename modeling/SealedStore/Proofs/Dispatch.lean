import SealedStore.Dispatch
import SealedStore.Proofs.Record.Json
import SealedStore.Proofs.Step

/-! # Calls by selector are direct calls

A call in bytes does what the operation does that it asks for.  The four selectors differ, and a
request reads back from its bytes as a response does (`Request.decodeCall_encodeCall`,
`Response.decode?_encode`), so a call changes what the operation changes and answers with bytes
that are read as the operation's result.  Bytes that are no call, for want of a selector, of a
method or of a request, are refused before anything is done, and all others are the call of some
request: `dispatch_direct`.
-/
namespace SealedStore

open Json Step

/-! ## Selectors -/

namespace Method

/-- The selectors are the first bytes of hashes; here they are computed. -/
theorem toList_selector (m : Method) : m.selector.toList = match m with
    | newDataRecord => [126, 178, 169, 16]
    | confidentialStore => [154, 141, 115, 15]
    | confidentialRetrieve => [114, 185, 132, 184]
    | fetchDataRecords => [208, 226, 195, 59] := by
  cases m <;> decide +kernel

theorem selector_injective {m m' : Method} (h : m.selector = m'.selector) : m = m' := by
  have hlist := congrArg Octets.toList h
  rw [toList_selector, toList_selector] at hlist
  cases m <;> cases m' <;> first | rfl | simp at hlist

theorem mem_all (m : Method) : m ∈ all := by cases m <;> decide

/-- A selector selects its own method. -/
theorem selected?_selector (m : Method) : selected? all m.selector = some m := by
  have hsome : (selected? all m.selector).isSome := List.find?_isSome.mpr ⟨m, m.mem_all, by simp⟩
  obtain ⟨m', hm'⟩ := Option.isSome_iff_exists.mp hsome
  have hselector : m'.selector = m.selector := by simpa using List.find?_some hm'
  rw [hm', selector_injective hselector]

theorem selected?_eq_none_iff {sel : Octets 4} :
    selected? all sel = none ↔ ∀ m : Method, m.selector ≠ sel := by
  simp [selected?, mem_all]

end Method

/-! ## Requests and responses read back -/

theorem admits_addresses (as : List Address) :
    (Shape.list (.octets 20)).admits (array (as.map ofOctets)) = true :=
  Shape.admits_list as fun a _ => Shape.admits_ofOctets _ a

namespace Request

/-- Whether bytes are a JSON form of a request of a method: a text of a tree that has
the request's fields. -/
def IsForm (m : Method) (body : Bytes) (r : Request) : Prop :=
  ∃ j, parseAs? (.fields (shapes m)) body = some j ∧ ofJson? m j = some r

/-- What is read as a method's request is a request of this method. -/
theorem method_of_ofJson? {m : Method} {j : Json} {r : Request} (h : ofJson? m j = some r) :
    r.method = m := by
  cases m <;> simp only [ofJson?, Option.bind_eq_bind, Option.bind_eq_some_iff] at h <;>
    obtain ⟨fields, -, h⟩ := h <;> split at h <;> grind [method, Option.bind_eq_some_iff]

theorem isExact_toJson (r : Request) : r.toJson.isExact = true := by
  cases r <;> simp [toJson]

theorem admits_toJson (r : Request) : (Shape.fields (shapes r.method)).admits r.toJson = true := by
  cases r <;> refine Shape.admits_record ?_ <;>
    simp [method, shapes, Shape.member, admits_addresses]

theorem ofJson?_toJson (r : Request) : ofJson? r.method r.toJson = some r := by
  cases r with
  | newDataRecord condition peekers stores version =>
    simp [method, ofJson?, toJson, fields?, shapes, Shape.names, Json.record, member?,
      word?, text?, text, condition.isLt]
  | confidentialStore id key value =>
    simp [method, ofJson?, toJson, fields?, shapes, Shape.names, Json.record, member?, text?, text]
  | confidentialRetrieve id key =>
    simp [method, ofJson?, toJson, fields?, shapes, Shape.names, Json.record, member?, text?, text]
  | fetchDataRecords block space =>
    simp [method, ofJson?, toJson, fields?, shapes, Shape.names, Json.record, member?,
      word?, text?, text, block.isLt]

/-- **A request's own bytes are a form of it.** -/
theorem isForm_render (r : Request) : IsForm r.method r.toJson.render r :=
  ⟨r.toJson, parseAs?_render r.isExact_toJson r.admits_toJson, r.ofJson?_toJson⟩

/-- Bytes are a form of what is read from them, and of nothing else. -/
theorem isForm_iff {m : Method} {body : Bytes} {r : Request} :
    IsForm m body r ↔ (parseAs? (.fields (shapes m)) body).bind (ofJson? m) = some r :=
  Option.bind_eq_some_iff.symm

/-! ## The calls there are -/

/-- Whether bytes are no call: they are too short for a selector, or select no method, or what
follows is no form of a request of the method that they select. -/
def Malformed (calldata : Bytes) : Prop :=
  calldata.length < 4 ∨ (∀ m : Method, m.selector.toList ≠ calldata.take 4) ∨
    ∃ m : Method, m.selector.toList = calldata.take 4 ∧ ∀ r, ¬ IsForm m (calldata.drop 4) r

/-- A method's selector in front selects the method, and what follows is its request. -/
theorem decodeCall_of_selector {m : Method} {calldata : Bytes}
    (hsel : m.selector.toList = calldata.take 4) :
    decodeCall Method.all calldata =
      match (parseAs? (.fields (shapes m)) (calldata.drop 4)).bind (ofJson? m) with
      | none => .error (.dispatch (m.name ++ ": malformed request"))
      | some r => .ok r := by
  have hselected := Method.selected?_selector m
  unfold decodeCall
  rw [← hsel, Octets.ofBytes?_toList]
  dsimp only
  generalize Method.selected? Method.all m.selector = selected at hselected ⊢
  subst hselected
  rfl

theorem decodeCall_of_isForm {m : Method} {calldata : Bytes} {r : Request}
    (hsel : m.selector.toList = calldata.take 4) (hform : IsForm m (calldata.drop 4) r) :
    decodeCall Method.all calldata = .ok r := by
  rw [decodeCall_of_selector hsel, isForm_iff.mp hform]

/-- **A call is read as the request that it was made of.** -/
theorem decodeCall_encodeCall (r : Request) : decodeCall Method.all r.encodeCall = .ok r := by
  have htake : r.encodeCall.take 4 = r.method.selector.toList :=
    List.take_left' r.method.selector.length_eq
  have hdrop : r.encodeCall.drop 4 = r.toJson.render := List.drop_left' r.method.selector.length_eq
  exact decodeCall_of_isForm htake.symm (hdrop ▸ r.isForm_render)

/-- What is no call is refused as such. -/
theorem decodeCall_of_malformed {calldata : Bytes} (h : Malformed calldata) :
    ∃ reason, decodeCall Method.all calldata = .error (.dispatch reason) := by
  rcases h with hshort | hsel | ⟨m, hsel, hform⟩
  · have hnone : Octets.ofBytes? (n := 4) (calldata.take 4) = none := by
      simp only [Octets.ofBytes?, List.length_take]
      exact dif_neg (by omega)
    exact ⟨_, by rw [decodeCall, hnone]⟩
  · cases hread : Octets.ofBytes? (n := 4) (calldata.take 4) with
    | none => exact ⟨_, by rw [decodeCall, hread]⟩
    | some sel =>
      have hnone : Method.selected? Method.all sel = none :=
        Method.selected?_eq_none_iff.mpr fun m hm => hsel m (hm ▸ Octets.toList_of_ofBytes? hread)
      refine ⟨"unknown selector " ++ Hex.text sel.toList, ?_⟩
      rw [decodeCall, hread]
      simp only [hnone]
  · have hnone : (parseAs? (.fields (shapes m)) (calldata.drop 4)).bind (ofJson? m) = none :=
      Option.eq_none_iff_forall_ne_some.mpr fun r hr => hform r (isForm_iff.mpr hr)
    exact ⟨_, by rw [decodeCall_of_selector hsel, hnone]⟩

/-- What is not refused as no call is read as the request that it is a form of. -/
theorem exists_isForm_of_not_malformed {calldata : Bytes} (h : ¬ Malformed calldata) :
    ∃ r : Request, r.method.selector.toList = calldata.take 4 ∧
      IsForm r.method (calldata.drop 4) r := by
  simp only [Malformed, not_or, Classical.not_forall, not_exists, not_and, Classical.not_not] at h
  obtain ⟨-, ⟨m, hsel⟩, hforms⟩ := h
  obtain ⟨r, j, hparse, hread⟩ := hforms m hsel
  cases method_of_ofJson? hread
  exact ⟨r, hsel, j, hparse, hread⟩

end Request

namespace Response

/-- The method that a response answers. -/
def method : Response → Method
  | record _ => .newDataRecord
  | nothing => .confidentialStore
  | value _ => .confidentialRetrieve
  | records _ => .fetchDataRecords

theorem isExact_toJson (r : Response) : r.toJson.isExact = true := by
  cases r <;> simp [toJson]

theorem admits_toJson (r : Response) : (shape r.method).admits r.toJson = true := by
  cases r with
  | record r => exact r.admits_toJson
  | nothing => exact Shape.admits_any _
  | value b => exact Shape.admits_record (by simp [Shape.member])
  | records rs => exact Shape.admits_list rs fun r _ => r.admits_toJson

theorem ofJson?_toJson (r : Response) : ofJson? r.method r.toJson = some r := by
  cases r with
  | record r => simp [method, ofJson?, toJson, Record.ofJson?_toJson (show 0 + 5 ≤ _ by decide)]
  | nothing => rfl
  | value b => simp [method, ofJson?, toJson, fields?, Shape.names, Json.record, member?]
  | records rs =>
    have hread : list? (Record.ofJson? 1) (array (rs.map Record.toJson)) = some rs :=
      list?_array rs fun r _ => Record.ofJson?_toJson (by decide) r
    simp [method, ofJson?, toJson, hread]

/-- **A response reads back from its bytes.** -/
theorem decode?_encode (r : Response) : decode? r.method r.encode = some r := by
  rw [decode?, encode, parseAs?_render r.isExact_toJson r.admits_toJson,
    Option.bind_some, r.ofJson?_toJson]

end Response

/-! ## Calls run -/

variable {ρ α : Type}

/-- A call answers as a step does: it leaves the same behind, it fails where the step fails and with
its error, and where the step has a result, the answer is read as the response with this result. -/
def AnswersAs (m : Method) (respond : α → Response) (direct : Step ρ α) (call : Step ρ Bytes) :
    Prop :=
  ∀ x, call.after x = direct.after x ∧
    match direct.outcome x with
    | .error err => call.outcome x = .error err
    | .ok a => ∃ answer, call.outcome x = .ok answer ∧ Response.decode? m answer = some (respond a)

/-- A step's result is answered by the bytes of its response. -/
theorem answersAs_encode {m : Method} (respond : α → Response) (hm : ∀ a, (respond a).method = m)
    (direct : Step ρ α) :
    AnswersAs m respond direct
      ((direct >>= fun a => (pure (respond a) : Step ρ Response)) >>= fun r => pure r.encode) := by
  intro x
  let responding : Step ρ Response := direct >>= fun a => pure (respond a)
  have hout : (responding >>= fun r => pure r.encode).outcome x =
      ((direct.outcome x).map respond).map Response.encode :=
    (congrArg Prod.fst (map_apply responding Response.encode x)).trans
      (congrArg (Except.map Response.encode ·.1) (map_apply direct respond x))
  refine ⟨(after_map responding Response.encode x).trans (after_map direct respond x), ?_⟩
  rw [hout]
  cases direct.outcome x with
  | error err => rfl
  | ok a => exact ⟨(respond a).encode, rfl, hm a ▸ (respond a).decode?_encode⟩

variable {σ τ : Type} (e : Engine σ τ) (salt : Octets 16) (caller : Address)

/-- What bytes are read as is run, and its response encoded. -/
theorem dispatch_of_decodeCall {calldata : Bytes} {r : Request}
    (h : Request.decodeCall Method.all calldata = .ok r) :
    dispatch e Method.all salt caller calldata =
      (r.run e salt caller >>= fun a => pure a.encode) := by
  funext x
  rw [dispatch, h]
  rfl

/-- **A call by selector is the direct call.**  The call that is made of a request does to
a draft what the operation does, with the same outcome; bytes that are no call are refused
and change nothing; and all other bytes do what the call does that is made of the request
they are a form of. -/
theorem dispatch_direct :
    (∀ condition peekers stores version,
      AnswersAs .newDataRecord .record
        (Draft.init e (Record.fresh salt condition peekers stores version))
        (dispatch e Method.all salt caller
          (Request.newDataRecord condition peekers stores version).encodeCall)) ∧
    (∀ id key value,
      AnswersAs .confidentialStore (fun _ => .nothing) (Draft.store e id caller key value)
        (dispatch e Method.all salt caller (Request.confidentialStore id key value).encodeCall)) ∧
    (∀ id key,
      AnswersAs .confidentialRetrieve .value (Draft.retrieve e id caller key)
        (dispatch e Method.all salt caller (Request.confidentialRetrieve id key).encodeCall)) ∧
    (∀ block space,
      AnswersAs .fetchDataRecords .records (Draft.list e block space)
        (dispatch e Method.all salt caller (Request.fetchDataRecords block space).encodeCall)) ∧
    (∀ calldata, Request.Malformed calldata →
      ∃ reason, ∀ x, dispatch e Method.all salt caller calldata x =
        (.error (.dispatch reason), x)) ∧
    ∀ calldata, ¬ Request.Malformed calldata →
      ∃ r : Request, r.method.selector.toList = calldata.take 4 ∧
        Request.IsForm r.method (calldata.drop 4) r ∧
        dispatch e Method.all salt caller calldata = dispatch e Method.all salt caller
          r.encodeCall := by
  have hcall (r : Request) : dispatch e Method.all salt caller r.encodeCall =
      (r.run e salt caller >>= fun a => pure a.encode) :=
    dispatch_of_decodeCall e salt caller r.decodeCall_encodeCall
  refine ⟨fun condition peekers stores version => ?_, fun id key value => ?_, fun id key => ?_,
    fun block space => ?_, fun calldata hbad => ?_, fun calldata hgood => ?_⟩
  · rw [hcall]
    exact answersAs_encode .record (fun _ => rfl) _
  · rw [hcall]
    exact answersAs_encode (fun _ => .nothing) (fun _ => rfl) (Draft.store e id caller key value)
  · rw [hcall]
    exact answersAs_encode .value (fun _ => rfl) _
  · rw [hcall]
    exact answersAs_encode .records (fun _ => rfl) _
  · obtain ⟨reason, hreason⟩ := Request.decodeCall_of_malformed hbad
    exact ⟨reason, fun x => by rw [dispatch, hreason]; rfl⟩
  · obtain ⟨r, hsel, hform⟩ := Request.exists_isForm_of_not_malformed hgood
    refine ⟨r, hsel, hform, ?_⟩
    rw [hcall, dispatch_of_decodeCall e salt caller (Request.decodeCall_of_isForm hsel hform)]

end SealedStore

import SealedStore.Dispatch
import SealedStore.Proofs.Draft.Reads
import SealedStore.Proofs.Sample.Node

/-! # What an account cannot learn

Two executions look alike to an account if they differ only in values, and keys, under records that
it may not read (`Draft.Alike`).  Every query checks the account before it looks at keys and values,
so each gives the same answer in both, down to the error, and leaves executions that look alike
(`Query.answer_simulates`): the account's own writes go to records that it may read, where there was
no difference.  Hence no sequence of queries tells them apart (`Draft.answers_eq_of_alike`).
-/
namespace SealedStore

open Step

namespace Draft

variable {σ τ α : Type}

/-! ## Queries -/

/-- What an account may ask of a draft and of the engine under it. -/
inductive Query where
  | retrieve (id : RecordId) (key : String)
  | store (id : RecordId) (key : String) (value : Bytes)
  | fetch (id : RecordId)
  | list (block : BitVec 64) (space : String)
  /-- A call by selector. -/
  | call (registry : List Method) (salt : Octets 16) (calldata : Bytes)
  /-- The value that is held, whatever the draft has staged. -/
  | retrieveHeld (id : RecordId) (key : String)

/-- What a query gives. -/
inductive Answer where
  | record (r : Record)
  | value (b : Bytes)
  | records (rs : List Record)
  /-- The response to a call. -/
  | response (b : Bytes)
deriving DecidableEq

namespace Query

/-- Whether a query is not a call for a new record. -/
def StagesNoRecord : Query → Prop
  | call registry _ calldata =>
    ∀ request, Request.decodeCall registry calldata = .ok request → request.method ≠ .newDataRecord
  | _ => True

/-- A query of an account as a step. -/
def answer (e : Engine σ τ) (caller : Address) : Query → Step (Execution σ τ) Answer
  | retrieve id key => do pure (.value (← Draft.retrieve e id caller key))
  | store id key value => do pure (.record (← Draft.store e id caller key value))
  | fetch id => do pure (.record (← Draft.fetch e id))
  | list block space => do pure (.records (← Draft.list e block space))
  | call registry salt calldata => do pure (.response (← dispatch e registry salt caller calldata))
  | retrieveHeld id key => do pure (.value (← onEngine (e.retrieve id caller key)))

end Query

/-- What an account is answered that asks one query after the other. -/
def answers (e : Engine σ τ) (caller : Address) :
    List Query → Execution σ τ → List (Except StoreError Answer)
  | [], _ => []
  | q :: qs, x => (q.answer e caller).outcome x :: answers e caller qs ((q.answer e caller).after x)

/-! ## Executions that look alike -/

/-- Whether an account may read values under an id: a record with that id,
staged or held, allows it. -/
def MayRead (a : Address) (c : Contents) (d : Draft) (id : RecordId) : Prop :=
  ∃ r, (d.records.find? id = some r ∨ c.records id = some r) ∧ a ∈ r.allowedPeekers

/-- **What looks alike to an account**: the same records and lists, and the same values, held and
staged, where the account may read. -/
structure Alike (a : Address) (c : Contents) (d : Draft) (c' : Contents) (d' : Draft) : Prop where
  records : c'.records = c.records
  index : c'.index = c.index
  staged : d'.records = d.records
  finalized : d'.finalized = d.finalized
  held : ∀ id, MayRead a c d id → c'.values id = c.values id
  written : ∀ id, MayRead a c d id → d'.staged? id = d.staged? id

/-- A record that is found and allows the account. -/
theorem mayRead_of_record {a : Address} {c : Contents} {d : Draft} {id : RecordId} {r : Record}
    (hr : record c d id = .ok r) (ha : a ∈ r.allowedPeekers) : MayRead a c d id := by
  unfold record at hr
  split at hr
  · next hfound => exact ⟨r, .inl (hfound.trans (congrArg some (Except.ok.inj hr))), ha⟩
  · exact ⟨r, .inr (Contents.record_ok_iff.mp hr), ha⟩

namespace Alike

variable {a : Address} {c c' : Contents} {d d' : Draft} (h : Alike a c d c' d')
include h

theorem heldRecord_eq (id : RecordId) : c'.record id = c.record id := by
  rw [Contents.record, h.records, Contents.record]

theorem record_eq (id : RecordId) : record c' d' id = record c d id := by
  rw [record, h.staged, h.heldRecord_eq, record]

theorem target_eq (id : RecordId) (caller : Address) :
    target c' d' id caller = target c d id caller := by
  rw [target, checkOpen, h.finalized, h.record_eq, target, checkOpen]

theorem listing_eq (block : BitVec 64) (space : String) :
    listing c' d' block space = listing c d block space := by
  rw [listing, Contents.listing, h.index, h.records, listed, h.staged, listing,
    Contents.listing, listed]

theorem value_eq {id : RecordId} (hid : MayRead a c d id) (key : String) :
    c'.value id key = c.value id key := by
  rw [Contents.value, h.held id hid, Backend.Contract.missing, h.records, Contents.value,
    Backend.Contract.missing]

/-- The account is checked before the value is looked for, so the error does not tell
which keys there are. -/
theorem heldRead_eq (hc : c.Genuine) (id : RecordId) (key : String) :
    c'.read id a key = c.read id a key := by
  rw [Contents.read, h.heldRecord_eq, Contents.read]
  refine Check.bind_congr fun r hr => Check.bind_congr fun _ hpeeker => ?_
  have hheld := Contents.record_ok_iff.mp hr
  obtain ⟨rfl, -⟩ := hc id r hheld
  exact h.value_eq ⟨r, .inr hheld, Engine.checkPeeker_ok_iff.mp hpeeker⟩ key

theorem read_eq (hc : c.Genuine) (id : RecordId) (key : String) :
    read c' d' id a key = read c d id a key := by
  rw [read, h.record_eq, read]
  refine Check.bind_congr fun r hr => Check.bind_congr fun _ hpeeker => ?_
  have hmay := mayRead_of_record hr (Engine.checkPeeker_ok_iff.mp hpeeker)
  rw [h.written id hmay, h.staged, h.heldRead_eq hc]

/-- A value that is staged in both. -/
theorem withWrite (w : StoreWrite) : Alike a c (d.withWrite w) c' (d'.withWrite w) := by
  refine ⟨h.records, h.index, h.staged, h.finalized, h.held, fun id hid => ?_⟩
  funext key
  show StoreWrite.latest? (d'.writes ++ [w]) id key = StoreWrite.latest? (d.writes ++ [w]) id key
  rw [StoreWrite.latest?_append, StoreWrite.latest?_append]
  exact congrArg _ (congrFun (h.written id hid) key)

end Alike

/-! ## Answers that are alike -/

/-- Whether two executions over genuine contents look alike to an account. -/
def Indistinguishable {e : Engine σ τ} (C : e.backend.Contract) (a : Address)
    (x y : Execution σ τ) : Prop :=
  ∃ c c', At C c x.draft x ∧ At C c' y.draft y ∧ c.Genuine ∧ c'.Genuine ∧
    Alike a c x.draft c' y.draft

section
variable {e : Engine σ τ} {C : e.backend.Contract} {a : Address}

/-- A question whose answer is the same on whatever looks alike. -/
theorem simulates_of_gives {m : Step (Execution σ τ) α} {f : Contents → Draft → Except StoreError α}
    (hm : ∀ c d, c.Genuine → Gives (At C c d) m (f c d))
    (hf : ∀ c d c' d', c.Genuine → Alike a c d c' d' → f c' d' = f c d) :
    Simulates (Indistinguishable C a) m m := related_of_gives hm hf

variable (hC : C.Reliable)
include hC

theorem retrieve_simulates (id : RecordId) (key : String) :
    Simulates (Indistinguishable C a) (retrieve e id a key) (retrieve e id a key) :=
  simulates_of_gives (fun _ d hc => retrieve_gives d hC hc id a key)
  fun _ _ _ _ hc h => h.read_eq hc id key

theorem fetch_simulates (id : RecordId) :
    Simulates (Indistinguishable C a) (fetch e id) (fetch e id) :=
  simulates_of_gives (fun c d _ => fetch_gives c d hC id) fun _ _ _ _ _ h => h.record_eq id

theorem list_simulates (block : BitVec 64) (space : String) :
    Simulates (Indistinguishable C a) (list e block space) (list e block space) :=
  simulates_of_gives (fun c d _ => list_gives c d hC block space) fun _ _ _ _ _ h =>
    congrArg _ (h.listing_eq block space)

theorem retrieveHeld_simulates (id : RecordId) (key : String) :
    Simulates (Indistinguishable C a) (onEngine (e.retrieve id a key))
      (onEngine (e.retrieve id a key)) :=
  simulates_of_gives (fun c d hc => onEngine_gives C c d (Engine.retrieve_gives hC hc id a key))
    fun _ _ _ _ hc h => h.heldRead_eq hc id key

/-- A value is staged in both executions, under the same record, or refused in both. -/
theorem store_simulates (id : RecordId) (key : String) (value : Bytes) :
    Simulates (Indistinguishable C a) (store e id a key value) (store e id a key value) :=
  related_store (R := Alike a) hC (fun _ _ _ _ h => h.target_eq id a)
  (fun _ _ _ _ w h => h.withWrite w) key value

theorem run_simulates {request : Request} (h : request.method ≠ .newDataRecord) (salt : Octets 16) :
    Simulates (Indistinguishable C a) (request.run e salt a) (request.run e salt a) := by
  cases request with
  | newDataRecord => exact absurd rfl h
  | confidentialStore id key value => exact (store_simulates hC id key value).bind fun _ => .pure _
  | confidentialRetrieve id key => exact (retrieve_simulates hC id key).bind fun _ => .pure _
  | fetchDataRecords block space => exact (list_simulates hC block space).bind fun _ => .pure _

/-- **Every query gives the same** in executions that look alike, and leaves them so. -/
theorem Query.answer_simulates {q : Query} (hq : q.StagesNoRecord) :
    Simulates (Indistinguishable C a) (q.answer e a) (q.answer e a) := by
  cases q with
  | retrieve id key => exact (retrieve_simulates hC id key).bind fun _ => .pure _
  | store id key value => exact (store_simulates hC id key value).bind fun _ => .pure _
  | fetch id => exact (fetch_simulates hC id).bind fun _ => .pure _
  | list block space => exact (list_simulates hC block space).bind fun _ => .pure _
  | call registry salt calldata =>
    refine Simulates.bind (.behind_check fun request hrequest => ?_) fun _ => .pure _
    exact (run_simulates hC (hq request hrequest) salt).bind fun _ => .pure _
  | retrieveHeld id key => exact (retrieveHeld_simulates hC id key).bind fun _ => .pure _

theorem answers_eq_of_indistinguishable {qs : List Query} (hqs : ∀ q ∈ qs, q.StagesNoRecord)
    {x y : Execution σ τ} (h : Indistinguishable C a x y) :
    answers e a qs y = answers e a qs x := by
  induction qs generalizing x y with
  | nil => rfl
  | cons q qs ih =>
    obtain ⟨hout, hafter⟩ := Query.answer_simulates hC (hqs q List.mem_cons_self) x y h
    rw [answers, answers, hout, ih (fun p hp => hqs p (List.mem_cons_of_mem q hp)) hafter]

end

end Draft

/-! ## Two nodes that a stranger cannot tell apart

Nodes in memory are sent values under the record and begin a draft.  They differ in what they heard
and in what their drafts have staged.
-/

namespace Sample

/-- A node that has heard of writes, with a draft begun on it. -/
def hearing (ws : List StoreWrite) : Draft.Execution Memory (Hub Message) :=
  ⟨((engine Octets.zero true).receive (message (Octets.replicate 16 1) ws)).after
    (.initial Memory.empty .empty), .begin tx⟩

/-- What it holds. -/
def heard (ws : List StoreWrite) : Contents := (Contents.empty.withRecord record).withWrites ws

theorem ingestAll_eq_heard {ws : List StoreWrite} (hnil : ws ≠ [])
    (hws : ∀ w ∈ ws, ∃ key value, w = write key value) :
    Contents.empty.ingestAll ws = heard ws := by
  cases ws with
  | nil => exact absurd rfl hnil
  | cons w ws =>
    obtain ⟨key, value, rfl⟩ := hws w List.mem_cons_self
    rw [Contents.ingestAll_cons, Contents.ingestAll_of_present]
    · rw [Contents.ingest, Contents.adopt_of_absent rfl]
      rfl
    · intro v hv
      obtain ⟨_, _, rfl⟩ := hws v (List.mem_cons_of_mem _ hv)
      simp [write, Contents.records_adopt]

theorem at_hearing {ws : List StoreWrite} (hnil : ws ≠ [])
    (hws : ∀ w ∈ ws, ∃ key value, w = write key value) :
    Draft.At (contract Topic.ofHub Octets.zero true) (heard ws) (.begin tx) (hearing ws) := by
  refine ⟨⟨trivial, ?_⟩, rfl⟩
  rw [← ingestAll_eq_heard hnil hws]
  exact see_receive _ _ _ (by decide) hws _

/-- A node after some events. -/
def ran (events : List Session.Event) : Session Memory (Hub Message) :=
  Session.run (engine Octets.zero true) (.initial Memory.empty .empty) events

theorem reached_ran (events : List Session.Event) {d : Draft} (hd : d ∈ (ran events).drafts) :
    Draft.Reached (contract Topic.ofHub Octets.zero true) ⟨(ran events).engine, d⟩ := by
  have hreachable : Session.Reachable (contract Topic.ofHub Octets.zero true) (ran events) :=
    ⟨Memory.empty, .empty, events, trivial, rfl, rfl⟩
  exact hreachable.reached hd

theorem reached_hearing (ws : List StoreWrite) :
    Draft.Reached (contract Topic.ofHub Octets.zero true) (hearing ws) :=
  reached_ran [.receive (message (Octets.replicate 16 1) ws), .begin tx]
    (List.mem_singleton.mpr rfl)

/-- The node after the account staged one value more. -/
def holding (ws : List StoreWrite) (key : String) (value : Bytes) :
    Draft.Execution Memory (Hub Message) :=
  (Draft.store (engine Octets.zero true) record.id account key value).after (hearing ws)

theorem reached_holding (ws : List StoreWrite) (key : String) (value : Bytes) :
    Draft.Reached (contract Topic.ofHub Octets.zero true) (holding ws key value) :=
  reached_ran [.receive (message (Octets.replicate 16 1) ws), .begin tx,
    .store 0 record.id account key value] (List.mem_singleton.mpr rfl)

theorem record_heard (ws : List StoreWrite) (d : Draft) (h : d.records = .empty) :
    Draft.record (heard ws) d record.id = .ok record := by
  rw [Draft.record, h]
  exact Contents.record_ok_iff.mpr (by simp [heard])

theorem at_holding {ws : List StoreWrite} (hnil : ws ≠ [])
    (hws : ∀ w ∈ ws, ∃ key value, w = write key value) (key : String) (value : Bytes) :
    Draft.At (contract Topic.ofHub Octets.zero true) (heard ws)
      (Draft.withWrite (.begin tx) (write key value)) (holding ws key value) := by
  have htarget : Draft.target (heard ws) (.begin tx) record.id account = .ok record := by
    rw [Draft.target, record_heard ws _ rfl]
    simp only [bind, Except.bind, checkPeeker_account]
    rfl
  obtain ⟨_, -, -, hat⟩ :=
    (Draft.store_of_target (e := engine Octets.zero true) (heard ws) (.begin tx)
      (contract_reliable Topic.ofHub Octets.zero true) htarget key value).exists_ok
      (at_hearing hnil hws)
  exact hat

theorem read_stranger (ws : List StoreWrite) {a : Address} (ha : a ≠ account) {d : Draft}
    (hd : d.records = .empty) (key : String) :
    Draft.read (heard ws) d record.id a key = .error (.unauthorized record.id a .retrieve) := by
  have hpeeker : Engine.checkPeeker record record.id a .retrieve =
      .error (.unauthorized record.id a .retrieve) := by
    simp [Engine.checkPeeker, Record.isPeeker, allowed_record.1, ha]
  rw [Draft.read, record_heard ws d hd]
  simp only [bind, Except.bind, hpeeker]

theorem read_account (ws : List StoreWrite) {d : Draft} (hd : d.records = .empty) {key : String}
    (hstaged : d.staged? record.id key = none) {value : Bytes}
    (hvalue : StoreWrite.latest? ws record.id key = some value) :
    Draft.read (heard ws) d record.id account key = .ok value := by
  have hheld : (heard ws).record record.id = .ok record :=
    Contents.record_ok_iff.mpr (by simp [heard])
  have hkept : (heard ws).value record.id key = .ok value := by
    rw [Contents.value, heard, Contents.values_withWrites, hvalue]
    rfl
  have habsent : d.records.contains record.id = false := by rw [hd]; rfl
  rw [Draft.read, record_heard ws d hd, Contents.read, hheld]
  simp [bind, Except.bind, checkPeeker_account, hstaged, habsent, hkept]

end Sample

namespace Draft

/-- To an account that the record does not name, all that was heard and staged looks alike. -/
theorem alike_heard (ws vs : List StoreWrite) {a : Address} (ha : a ≠ Sample.account) {d d' : Draft}
    (hd : d.records = .empty) (hd' : d'.records = .empty) (hfinal : d'.finalized = d.finalized) :
    Alike a (Sample.heard ws) d (Sample.heard vs) d' := by
  have hmay : ∀ id, ¬ MayRead a (Sample.heard ws) d id := by
    rintro id ⟨r, hr, hallowed⟩
    rw [hd, Sample.heard, Contents.records_withWrites] at hr
    rcases hr with hr | hr
    · cases hr
    · by_cases hid : Sample.record.id = id
      · subst hid
        rw [Contents.records_withRecord_self] at hr
        cases hr
        rw [Sample.allowed_record.1] at hallowed
        exact ha (List.mem_singleton.mp hallowed)
      · rw [Contents.records_withRecord_of_ne _ hid] at hr
        cases hr
  exact
    { records := by simp [Sample.heard]
      index := by simp [Sample.heard]
      staged := by rw [hd, hd']
      finalized := hfinal
      held := fun id hid => absurd hid (hmay id)
      written := fun id hid => absurd hid (hmay id) }

/-! ## Queries of a stranger -/

/-- **What an account may not read it cannot learn of.**  Of two states that runs lead to and that
differ only in values and keys, staged or held, under records that do not allow an account, the
account is given the same answers to any queries, error for error. -/
theorem answers_eq_of_alike {e : Engine σ τ} {C : e.backend.Contract}
    (hC : C.Reliable) {a : Address} {x y : Execution σ τ} (hx : Reached C x) (hy : Reached C y)
    (h : Alike a (C.see x.engine.storage) x.draft (C.see y.engine.storage) y.draft)
    {qs : List Query} (hqs : ∀ q ∈ qs, q.StagesNoRecord) : answers e a qs y = answers e a qs x := by
  refine answers_eq_of_indistinguishable hC hqs
    ⟨_, _, ⟨⟨hx.1, rfl⟩, rfl⟩, ⟨⟨hy.1, rfl⟩, rfl⟩, ?_, ?_, h⟩
  · exact hx.2.genuine
  · exact hy.2.genuine

/-- The statement for a stranger, at two nodes that hold different values of an account, one of them
with a value staged: the stranger is refused by both, while the account reads what each holds. -/
theorem answers_eq_of_alike_stranger :
    let e := Sample.engine Octets.zero true
    let C := Sample.contract Topic.ofHub Octets.zero true
    let x := Sample.holding [Sample.write "k" [1]] "s" [7]
    let y := Sample.hearing [Sample.write "k" [2], Sample.write "l" [3]]
    let qs : List Query := [.retrieve Sample.record.id "k", .retrieve Sample.record.id "s",
      .store Sample.record.id "k" [9], .fetch Sample.record.id, .list 0 "sample",
      .retrieveHeld Sample.record.id "l", .call Method.all Octets.zero []]
    C.Reliable ∧ Reached C x ∧ Reached C y ∧
      Alike Octets.zero (C.see x.engine.storage) x.draft (C.see y.engine.storage) y.draft ∧
      (∀ q ∈ qs, q.StagesNoRecord) ∧ answers e Octets.zero qs y = answers e Octets.zero qs x ∧
      (retrieve e Sample.record.id Octets.zero "k").outcome x =
        .error (.unauthorized Sample.record.id Octets.zero .retrieve) ∧
      (retrieve e Sample.record.id Sample.account "k").outcome x = .ok [1] ∧
      (retrieve e Sample.record.id Sample.account "k").outcome y = .ok [2] := by
  intro e C x y qs
  have hC : C.Reliable := Sample.contract_reliable ..
  have hstranger : (Octets.zero : Address) ≠ Sample.account := by decide
  have hxwrites : ∀ w ∈ [Sample.write "k" [1]], ∃ key value, w = Sample.write key value := by simp
  have hywrites : ∀ w ∈ [Sample.write "k" [2], Sample.write "l" [3]],
      ∃ key value, w = Sample.write key value := by simp
  have hx : Reached C x := Sample.reached_holding ..
  have hy : Reached C y := Sample.reached_hearing ..
  have hxat := Sample.at_holding (by simp) hxwrites "s" [7]
  have hyat := Sample.at_hearing (by simp) hywrites
  have hxsee : C.see x.engine.storage = Sample.heard _ := hxat.1.2
  have hysee : C.see y.engine.storage = Sample.heard _ := hyat.1.2
  have hxdraft : x.draft = withWrite _ _ := hxat.2
  have hydraft : y.draft = .begin Sample.tx := hyat.2
  have halike : Alike Octets.zero (C.see x.engine.storage) x.draft
      (C.see y.engine.storage) y.draft := by
    rw [hxsee, hysee, hxdraft, hydraft]
    exact alike_heard _ _ hstranger rfl rfl rfl
  have hqs : ∀ q ∈ qs, q.StagesNoRecord := by
    have hdecode : Request.decodeCall Method.all [] = .error (.dispatch "missing selector") := rfl
    simp [qs, Query.StagesNoRecord, hdecode]
  have hxgenuine := hxsee ▸ hx.2.genuine
  have hygenuine := hysee ▸ hy.2.genuine
  refine ⟨hC, hx, hy, halike, hqs, answers_eq_of_alike hC hx hy halike hqs, ?_, ?_, ?_⟩
  · exact ((retrieve_gives _ hC hxgenuine _ _ _).outcome hxat).trans
      (Sample.read_stranger _ hstranger rfl "k")
  · refine ((retrieve_gives _ hC hxgenuine _ _ _).outcome hxat).trans
      (Sample.read_account _ rfl ?_ ?_)
    · simp [withWrite, staged?, begin, Sample.write]
    · simp [StoreWrite.latest?, Sample.write]
  · refine ((retrieve_gives _ hC hygenuine _ _ _).outcome hyat).trans
      (Sample.read_account _ rfl rfl ?_)
    simp [StoreWrite.latest?, Sample.write]

end Draft
end SealedStore

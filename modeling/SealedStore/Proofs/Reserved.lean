import SealedStore.Proofs.Rooted
import SealedStore.Proofs.Sample.Exchange
import SealedStore.Proofs.Session.Deeds

/-! # Reserved ids are out of reach

Over a key-value store index lists and the outbox are values beside all others, kept under the ids
of two reserved records, and zero stands for no id.  No check names these ids.  They are out of
reach since no derived id is reserved (`Record.not_reserved_derivedId`), and a node keeps, finds and
takes in under derived ids alone: what it finds is genuine, what a draft stages is prepared or
found, and what a message brings is checked.

So the keys that a run puts to use are those that a node may use (`KeyValue.Permitted`), no request
succeeds with a reserved id (`Session.RefusesReserved`), and the entries under reserved ids change
as index lists and the outbox do (`Deed.ChangesOwn`).  Together this is
`Session.reserved_out_of_reach`.
-/
namespace SealedStore

open Step

variable {σ τ : Type}

/-! ## Reserved ids -/

/-- The ids that no record may have. -/
def Record.Reserved (id : RecordId) : Prop :=
  id = Octets.zero ∨ id = Record.mempool.id ∨ id = Record.outbox.id

/-- **No derived id is reserved.** -/
theorem Record.not_reserved_derivedId (r : Record) : ¬ Record.Reserved r.derivedId :=
  not_or.mpr ⟨r.derivedId_ne_of_zero (by decide),
    not_or.mpr ⟨r.derivedId_ne_mempool, r.derivedId_ne_outbox⟩⟩

theorem Record.not_reserved_of_derived {r : Record} (h : r.derivedId = r.id) :
    ¬ Record.Reserved r.id :=
  h ▸ r.not_reserved_derivedId

theorem Contents.Genuine.not_reserved {c : Contents} (h : c.Genuine) {id : RecordId} {r : Record}
    (hr : c.records id = some r) : ¬ Record.Reserved id ∧ r.id = id := by
  obtain ⟨rfl, hderived⟩ := h id r hr
  exact ⟨Record.not_reserved_of_derived hderived, rfl⟩

/-! ## Keys -/

namespace KeyValue

/-- **The keys that a node may use**: of no record with a reserved id, of no value under zero, of a
list if under the mempool record, and of the outbox's own if under its record. -/
structure Permitted (k : String) : Prop where
  record : ∀ id, k = recordKey id → ¬ Record.Reserved id
  zero : ∀ key, k ≠ valueKey Octets.zero key
  list : ∀ key, k = valueKey Record.mempool.id key → ∃ space block, key = indexKey space block
  mail : ∀ key, k = valueKey Record.outbox.id key → Outbox.IsOwnKey key

theorem permitted_recordKey {id : RecordId} (h : ¬ Record.Reserved id) :
    Permitted (recordKey id) where
  record _ hi := recordKey_injective hi ▸ h
  zero _ hk := recordKey_ne_valueKey _ _ _ hk
  list _ hk := absurd hk (recordKey_ne_valueKey _ _ _)
  mail _ hk := absurd hk (recordKey_ne_valueKey _ _ _)

theorem permitted_valueKey {id : RecordId} (h : ¬ Record.Reserved id) (key : String) :
    Permitted (valueKey id key) where
  record _ hi := absurd hi.symm (recordKey_ne_valueKey _ _ _)
  zero _ hk := h (.inl (valueKey_injective hk).1)
  list _ hk := absurd (.inr (.inl (valueKey_injective hk).1)) h
  mail _ hk := absurd (.inr (.inr (valueKey_injective hk).1)) h

theorem permitted_listKey (space : String) (block : BitVec 64) :
    Permitted (listKey space block) where
  record _ hi := absurd hi.symm (recordKey_ne_listKey _ _ _)
  zero _ hk := absurd (valueKey_injective hk).1 (by decide)
  list _ hk := ⟨space, block, (valueKey_injective hk).2.symm⟩
  mail _ hk := absurd (valueKey_injective hk).1.symm Outbox.outbox_id_ne_mempool

theorem permitted_mail {key : String} (h : Outbox.IsOwnKey key) :
    Permitted (valueKey Record.outbox.id key) where
  record _ hi := absurd hi.symm (recordKey_ne_valueKey _ _ _)
  zero _ hk := absurd (valueKey_injective hk).1 (by decide)
  list _ hk := absurd (valueKey_injective hk).1 Outbox.outbox_id_ne_mempool
  mail _ hk := (valueKey_injective hk).2 ▸ h

/-- Whether all keys in use are permitted. -/
def Secluded (t : String → Option Bytes) : Prop := ∀ k, t k ≠ none → Permitted k

end KeyValue

namespace Deed

open KeyValue

/-- A derived deed writes under permitted keys. -/
theorem Derived.permitted {d : Deed} (hd : d.Derived) {k : String} (hk : d.Writes k) :
    Permitted k := by
  cases d with
  | call c =>
    cases c with
    | init r =>
      rcases hk with rfl | rfl
      · exact permitted_recordKey (Record.not_reserved_of_derived hd)
      · exact permitted_listKey ..
    | store r key value =>
      obtain rfl := hk
      exact permitted_valueKey (Record.not_reserved_of_derived hd) key
    | _ => exact hk.elim
  | _ =>
    obtain ⟨key, hkey, rfl⟩ := hk
    exact permitted_mail hkey

variable {kv : KeyValue σ} {F : StoreError → Prop} (K : kv.Contract F)

/-- **A derived deed puts no other keys to use.** -/
theorem Derived.secluded {d : Deed} (hd : d.Derived) {s : σ} (hs : Secluded (K.see s)) :
    Secluded (K.see (d.after kv.backend s)) := by
  refine frame K (R := Secluded) (fun k hk t v ht l hl => ?_) hs
  by_cases hkl : k = l
  · exact hkl ▸ hd.permitted hk
  · rw [update_of_ne t v hkl] at hl
    exact ht l hl

theorem Leads.secluded {s t : σ} (h : Leads kv.backend s t) (hs : Secluded (K.see s)) :
    Secluded (K.see t) := by
  obtain ⟨deeds, hall, rfl⟩ := h
  induction deeds generalizing s with
  | nil => exact hs
  | cons d deeds ih =>
    have hd : d.Derived := hall d List.mem_cons_self
    exact ih (hd.secluded K hs) fun f hf => hall f (List.mem_cons_of_mem d hf)

end Deed

/-! ## Requests -/

section
variable {e : Engine σ τ} {C : e.backend.Contract} {c : Contents} (hc : c.Genuine)
include hc

/-- What is found is no reserved record. -/
theorem Backend.Contract.fetch_unreserved (id : RecordId) : Ensures (C.Holds c) (e.backend.fetch id)
    (fun _ _ => ¬ Record.Reserved id) fun _ _ => True :=
  (C.fetch c id).mono (fun _ hs => hs) (fun _ _ hs => (hc.not_reserved hs.1).1) fun _ _ _ => trivial

namespace Engine

theorem fetch_unreserved (id : RecordId) : Ensures ((view C.toView).Holds c) (e.fetch id)
    (fun _ _ => ¬ Record.Reserved id) fun _ _ => True :=
  onStorage_ensures (C.fetch_unreserved hc id)

/-- What is read is the value under the record that is named. -/
theorem retrieve_reads (id : RecordId) (caller : Address) (key : String) :
    Ensures ((view C.toView).Holds c) (e.retrieve id caller key)
      (fun value _ => ¬ Record.Reserved id ∧ c.values id key = some value) fun _ _ => True := by
  have hread : Ensures (C.Holds c)
      (do let r ← e.backend.fetch id
          Step.ofExcept (checkPeeker r id caller .retrieve)
          e.backend.retrieve r key)
      (fun value _ => ¬ Record.Reserved id ∧ c.values id key = some value) fun _ _ => True := by
    refine .bind ((C.fetch c id).mono (fun _ hs => hs) (fun _ _ hs => hs) fun _ _ _ => trivial)
      fun r => .of_fact fun hr => ?_
    refine .bind (Q := fun _ => C.Holds c) (.ofExcept (fun _ _ _ hs => hs) fun _ _ _ _ => trivial)
      fun _ => ?_
    obtain ⟨hid, rfl⟩ := hc.not_reserved hr
    have hne : r.id ≠ Record.mempool.id := fun h => hid (.inr (.inl h))
    exact (C.retrieve c r key).mono (fun _ hs => hs) (fun _ _ hs => ⟨hid, hs.1 hne⟩)
      fun _ _ _ => trivial
  exact onStorage_ensures hread

theorem store_unreserved (id : RecordId) (key : String) (value : Bytes) :
    Ensures ((view C.toView).Holds c) (e.store id key value) (fun _ _ => ¬ Record.Reserved id)
      fun _ _ => True := onStorage_ensures (.of_first (C.fetch_unreserved hc id) _)

end Engine

namespace Draft

variable {d : Draft} (hd : d.Sound c) (hkeyed : d.Keyed)

omit hc in
theorem init_unreserved (r : Record) :
    Ensures (At C c d) (init e r) (fun q _ => ¬ Record.Reserved q.id) fun _ _ => True := by
  refine .bind (Q := fun _ => At C c d) ?_ fun _ =>
    .bind (look_ensures C c d fun _ _ _ => trivial) fun q => .of_fact fun hq => ?_
  · exact (look_keeps C c d checkOpen).mono (fun _ hx => hx) (fun _ _ hx => hx) fun _ _ _ => trivial
  · have hstage : Ensures (fun _ => True) (stageRecord q) (fun p _ => p = q) fun _ _ => True := by
      refine .bind (Q := fun _ _ => True) (fun _ _ => trivial) fun _ =>
        .bind (.nothing _) fun _ => ?_
      refine .bind (Q := fun _ _ => True) (fun _ _ => trivial) fun _ => ?_
      split
      · exact .fail fun _ _ => trivial
      · exact .bind (Q := fun _ _ => True) (fun _ _ => trivial) fun _ => .pure fun _ _ => rfl
    refine .within fun x _ => hstage.mono (fun _ _ => trivial) (fun p _ hp => ?_)
      fun _ _ _ => trivial
    exact hp ▸ Record.not_reserved_of_derived (derivedId_of_prepare hq)

include hd hkeyed

omit hc in
theorem not_reserved_of_staged {id : RecordId} {r : Record} (hr : d.records.find? id = some r) :
    ¬ Record.Reserved id :=
  hkeyed.id_eq hr ▸ Record.not_reserved_of_derived (hd.staged r (Table.mem_values_of_find? hr))

theorem fetch_unreserved (id : RecordId) : Ensures (At C c d) (fetch e id)
    (fun _ _ => ¬ Record.Reserved id) fun _ _ => True := by
  refine .bind (look_ensures C c d fun _ _ _ => trivial) fun found => .of_fact fun hfound => ?_
  have hfind : d.records.find? id = found := Except.ok.inj hfound
  cases found with
  | some r => exact .pure fun _ _ => not_reserved_of_staged hd hkeyed hfind
  | none =>
    refine .within fun x hx => ?_
    exact (Engine.fetch_unreserved hc id).mono (fun _ hs => hs ▸ hx.1) (fun _ _ hs => hs)
      fun _ _ _ => trivial

/-- What is read is a value under the record that is named, staged or held. -/
theorem retrieve_reads (id : RecordId) (caller : Address) (key : String) :
    Ensures (At C c d) (retrieve e id caller key)
      (fun value _ => ¬ Record.Reserved id ∧
        (d.staged? id key = some value ∨ c.values id key = some value))
      fun _ _ => True := by
  refine .bind (look_ensures C c d fun _ _ _ => trivial) fun isStaged => .of_fact fun _ => ?_
  refine .bind (Q := fun _ x => ¬ Record.Reserved id ∧ At C c d x) ?_
    fun r => .of_fact fun hid => ?_
  · exact ((fetch_unreserved hc hd hkeyed id).and (fetch_keeps C c d id)).mono
      (fun _ hx => ⟨hx, hx⟩) (fun _ _ hx => hx) fun _ _ _ => trivial
  refine .bind (Q := fun _ => At C c d) (.ofExcept (fun _ _ _ hx => hx) fun _ _ _ _ => trivial)
    fun _ => ?_
  refine .bind (look_ensures C c d fun _ _ _ => trivial) fun found => .of_fact fun hfound => ?_
  cases found with
  | some value => exact .pure fun _ _ => ⟨hid, .inl (Except.ok.inj hfound)⟩
  | none =>
    show Ensures _ (if isStaged = true then _ else _) _ _
    split
    · exact .fail fun _ _ => trivial
    · refine .within fun x hx => ?_
      exact (Engine.retrieve_reads hc id caller key).mono (fun _ hs => hs ▸ hx.1)
        (fun _ _ hs => ⟨hs.1, .inr hs.2⟩) fun _ _ _ => trivial

theorem store_unreserved (id : RecordId) (caller : Address) (key : String) (value : Bytes) :
    Ensures (At C c d) (store e id caller key value) (fun _ _ => ¬ Record.Reserved id)
      fun _ _ => True := by
  refine .bind (look_ensures C c d fun _ _ _ => trivial) fun found => .of_fact fun hfound => ?_
  obtain ⟨_, -, hfound⟩ := Check.bind_ok_iff.mp hfound
  have hfind : d.records.find? id = found := Except.ok.inj hfound
  cases found with
  | some r =>
    exact (Ensures.nothing _).mono (fun _ _ => trivial)
      (fun _ _ _ => not_reserved_of_staged hd hkeyed hfind) fun _ _ _ => trivial
  | none =>
    refine .of_first (.within fun x hx => ?_) _
    exact (Engine.fetch_unreserved hc id).mono (fun _ hs => hs ▸ hx.1) (fun _ _ hs => hs)
      fun _ _ _ => trivial

end Draft

end

namespace Session

/-- **Reserved ids are refused**: no request succeeds with one, neither on the engine nor on a
draft, and a value that is read is one under the id that is named; no draft has staged a record or a
value under one, and of no message such a write is taken in. -/
structure RefusesReserved (e : Engine σ τ) (c : Contents) (s : Session σ τ) : Prop where
  fetch : ∀ id r, (e.fetch id).outcome s.engine = .ok r → ¬ Record.Reserved id
  retrieve : ∀ id caller key value, (e.retrieve id caller key).outcome s.engine = .ok value →
    ¬ Record.Reserved id ∧ c.values id key = some value
  store : ∀ id key value r, (e.store id key value).outcome s.engine = .ok r → ¬ Record.Reserved id
  draftInit : ∀ d ∈ s.drafts, ∀ r q, (Draft.init e r).outcome ⟨s.engine, d⟩ = .ok q →
    ¬ Record.Reserved q.id
  draftFetch : ∀ d ∈ s.drafts, ∀ id r, (Draft.fetch e id).outcome ⟨s.engine, d⟩ = .ok r →
    ¬ Record.Reserved id
  draftRetrieve : ∀ d ∈ s.drafts, ∀ id caller key value,
    (Draft.retrieve e id caller key).outcome ⟨s.engine, d⟩ = .ok value →
    ¬ Record.Reserved id ∧ (d.staged? id key = some value ∨ c.values id key = some value)
  draftStore : ∀ d ∈ s.drafts, ∀ id caller key value r,
    (Draft.store e id caller key value).outcome ⟨s.engine, d⟩ = .ok r → ¬ Record.Reserved id
  staged : ∀ d ∈ s.drafts, (∀ r ∈ d.records.values, ¬ Record.Reserved r.id) ∧
    ∀ w ∈ d.writes, ¬ Record.Reserved w.record.id
  taken : ∀ m, ∀ w ∈ e.taken m, ¬ Record.Reserved w.record.id

variable {e : Engine σ τ} {C : e.backend.Contract} {s : Session σ τ}

theorem Sound.refusesReserved (hs : Sound C s) (hkeyed : ∀ d ∈ s.drafts, d.Keyed) :
    RefusesReserved e (C.see s.engine.storage) s := by
  have hdraft : ∀ d, Draft.At C (C.see s.engine.storage) d ⟨s.engine, d⟩ := fun _ => ⟨hs.holds, rfl⟩
  have hc := hs.genuine
  refine ⟨fun id _ h => (Engine.fetch_unreserved hc id).ok hs.holds h,
    fun id caller key _ h => (Engine.retrieve_reads hc id caller key).ok hs.holds h,
    fun id key value _ h => (Engine.store_unreserved hc id key value).ok hs.holds h,
    fun d _ r _ h => (Draft.init_unreserved r).ok (hdraft d) h,
    fun d hd id _ h =>
      (Draft.fetch_unreserved hc (hs.drafts d hd) (hkeyed d hd) id).ok (hdraft d) h,
    fun d hd id caller key _ h =>
      (Draft.retrieve_reads hc (hs.drafts d hd) (hkeyed d hd) id caller key).ok (hdraft d) h,
    fun d hd id caller key value _ h =>
      (Draft.store_unreserved hc (hs.drafts d hd) (hkeyed d hd) id caller key value).ok
        (hdraft d) h,
    fun d hd => ⟨fun r hr => ?_, fun w hw => ?_⟩, fun m w hw => ?_⟩
  · exact Record.not_reserved_of_derived ((hs.drafts d hd).staged r hr)
  · exact Record.not_reserved_of_derived ((hs.drafts d hd).writes w hw).derived
  · obtain ⟨-, _, -, happroved⟩ := Engine.approved_of_taken hw
    exact Record.not_reserved_of_derived happroved.derived

/-! ## Runs -/

/-- **Reserved ids are out of reach.**  No derived id is reserved.  After any operations on a node
over an empty key-value store, whatever ids and keys they name and whatever fails, all keys in use
are permitted and reserved ids are refused; and whatever is done next does derived deeds to the
backend, along which index lists and the outbox change as they should. -/
theorem reserved_out_of_reach {kv : KeyValue σ} {F : StoreError → Prop} (K : kv.Contract F)
    (hF : KeyValue.Mute F) {e : Engine σ τ} (he : e.backend = kv.backend) {storage : σ}
    (hempty : K.see storage = fun _ => none) (topic : τ) (ops : List Operation) :
    (∀ r : Record, ¬ Record.Reserved r.derivedId) ∧
    let s := Session.afterAll e ops (initial storage topic)
    (∀ k, K.see s.engine.storage k ≠ none → KeyValue.Permitted k) ∧
    RefusesReserved e (KeyValue.contents (K.see s.engine.storage)) s ∧
    ∀ op : Operation, ∃ deeds : List Deed, (∀ d ∈ deeds, d.Derived) ∧
      (op.after e s).engine.storage = Deed.afterAll kv.backend deeds s.engine.storage ∧
      ∀ before d rest, deeds = before ++ d :: rest →
        Deed.ChangesOwn K (Deed.afterAll kv.backend before s.engine.storage) d := by
  refine ⟨Record.not_reserved_derivedId, ?_⟩
  obtain ⟨b, t, signer, uuid, keepsOutbox⟩ := e
  change b = kv.backend at he
  subst he
  intro s
  have hvalid : (K.backend hF).Valid storage := by
    show KeyValue.Readable (K.see storage)
    exact hempty ▸ KeyValue.readable_empty
  have hsee : (K.backend hF).see storage = .empty := by
    show KeyValue.contents (K.see storage) = _
    rw [hempty, KeyValue.contents_empty]
  have hrecords : ((K.backend hF).see storage).records = fun _ => none := by
    rw [hsee]
    rfl
  have hfirst := sound_initial (e := ⟨kv.backend, t, signer, uuid, keepsOutbox⟩)
    (C := K.backend hF) hvalid hrecords topic
  have hs := sound_afterAll hfirst ops
  have hkeyed := has_afterAll stable_rooted hfirst
    (.of_see hsee Contents.rooted_empty (List.forall_mem_nil _)) ops
  have hleads : Deed.Leads kv.backend storage s.engine.storage :=
    afterAll_upkeep (Deed.upkeep_leads kv.backend storage) hfirst (.refl ..) ops
  refine ⟨hleads.secluded K ?_, hs.refusesReserved hkeyed.drafts, fun op => ?_⟩
  · intro k hk
    exact absurd (congrFun hempty k) hk
  · obtain ⟨deeds, hall, hafter⟩ := op.leads hs
    refine ⟨deeds, hall, hafter, fun before d rest hsplit => Deed.changesOwn K (hall d ?_) _⟩
    rw [hsplit]
    exact List.mem_append_right _ List.mem_cons_self

/-- The statement at a node that has taken in a record: a list is in use under the mempool record,
and a value under the outbox record would be refused to whoever asks for it. -/
theorem reserved_out_of_reach_received :
    let K := KeyValue.tableContract
    let ops : List Operation := [.event (.receive Sample.firstMessage)]
    let s := Session.afterAll Sample.subscriber ops (initial .empty .empty)
    KeyValue.Mute (fun _ => False) ∧ Sample.subscriber.backend = KeyValue.ofTable.backend ∧
      (K.see .empty = fun _ => none) ∧
      KeyValue.listed (K.see s.engine.storage) Sample.record.version
        Sample.record.decryptionCondition = [Sample.record.id] ∧
      (∀ k, K.see s.engine.storage k ≠ none → KeyValue.Permitted k) ∧
      RefusesReserved Sample.subscriber (KeyValue.contents (K.see s.engine.storage)) s := by
  intro K ops s
  have hempty : K.see .empty = fun _ => none := rfl
  obtain ⟨-, hpermitted, hrefuses, -⟩ :=
    reserved_out_of_reach K KeyValue.mute_false (e := Sample.subscriber) rfl hempty .empty ops
  refine ⟨KeyValue.mute_false, rfl, hempty, ?_, hpermitted, hrefuses⟩
  show (Sample.subscriberContract.see s.engine.storage).index _ _ = _
  rw [show Sample.subscriberContract.see s.engine.storage = _ from Sample.holds_received.2]
  exact if_pos rfl

end Session

end SealedStore

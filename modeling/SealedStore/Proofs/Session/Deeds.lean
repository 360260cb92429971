import SealedStore.Proofs.Session.Operation

/-! # What a node does to its backend

Whatever is done on a node, its backend sees calls, and pushes and acknowledgements of the outbox:
each is a `Deed`, and a node's calls keep records and values under derived ids alone
(`Session.Operation.leads`).

Over a key-value store the keys that a deed may write are told by its text (`Deed.Writes`), and what
does not depend on these keys it leaves as it was (`Deed.frame`).  Since a storage key belongs to
one entry alone, a deed changes the entries that it fills (`Deed.fills_of_changed`): an index list
is changed by the initialization of a record that belongs on it, if this succeeds, and a value of
the outbox by a push or an acknowledgement (`Deed.changesOwn`).
-/
namespace SealedStore

open Step

variable {σ τ α : Type}

/-! ## Deeds -/

/-- What is done to a backend: a call, or a change of the outbox. -/
inductive Deed where
  | call (call : Backend.Call)
  | push (m : Message)
  | acknowledge (digest : Octets 32)

namespace Deed

/-- Whether a deed keeps records and values under no ids but derived ones. -/
def Derived : Deed → Prop
  | call (.init r) => r.derivedId = r.id
  | call (.store r ..) => r.derivedId = r.id
  | _ => True

/-- The state after a deed, whether or not it succeeded. -/
def after (b : Backend σ) (s : σ) : Deed → σ
  | call c => (b.answer c).after s
  | push m => (Outbox.push b m).after s
  | acknowledge d => (Outbox.acknowledge b d).after s

/-- The state after deeds. -/
def afterAll (b : Backend σ) (deeds : List Deed) (s : σ) : σ := deeds.foldl (after b) s

/-- Whether derived deeds lead from one state to another. -/
def Leads (b : Backend σ) (s t : σ) : Prop :=
  ∃ deeds : List Deed, (∀ d ∈ deeds, d.Derived) ∧ t = afterAll b deeds s

theorem Leads.refl (b : Backend σ) (s : σ) : Leads b s s := ⟨[], List.forall_mem_nil _, rfl⟩

/-- A step that is a deed. -/
theorem keeps_leads {b : Backend σ} {s : σ} {d : Deed} (hd : d.Derived) {m : Step σ α}
    (hm : ∀ t, m.after t = d.after b t) : Keeps (Leads b s) m := by
  refine .of_after fun t ⟨deeds, hall, ht⟩ => ⟨deeds ++ [d], fun f hf => ?_, ?_⟩
  · rcases List.mem_append.mp hf with hf | hf
    · exact hall f hf
    · exact List.mem_singleton.mp hf ▸ hd
  · rw [hm, ht, afterAll, afterAll, List.foldl_append]
    rfl

theorem upkeep_leads (b : Backend σ) (s : σ) : b.Upkeep (Leads b s) where
  start := keeps_leads (d := call .start) trivial fun _ => (after_map ..).symm
  stop := keeps_leads (d := call .stop) trivial fun _ => (after_map ..).symm
  fetch id := keeps_leads (d := call (.fetch id)) trivial fun _ => (after_map ..).symm
  list block space := keeps_leads (d := call (.list block space)) trivial
    fun _ => (after_map ..).symm
  retrieve r key := keeps_leads (d := call (.retrieve r key)) trivial fun _ => (after_map ..).symm
  init r hr := keeps_leads (d := call (.init r)) hr fun _ => (after_map ..).symm
  store r key value hr := keeps_leads (d := call (.store r key value)) hr
    fun _ => (after_map ..).symm
  push m := keeps_leads (d := push m) trivial fun _ => rfl
  acknowledge k := keeps_leads (d := acknowledge k) trivial fun _ => rfl

end Deed

/-- **Whatever is done on a node**, derived deeds are done to its backend. -/
theorem Session.Operation.leads {e : Engine σ τ} {C : e.backend.Contract} {s : Session σ τ}
    (hs : Session.Sound C s) (op : Session.Operation) :
    Deed.Leads e.backend s.engine.storage (op.after e s).engine.storage :=
  op.after_upkeep (Deed.upkeep_leads e.backend s.engine.storage) hs (.refl ..)

/-! ## The keys of a deed -/

/-- A value of the outbox. -/
def KeyValue.Entry.mail (key : String) : Entry :=
  .value Record.outbox.id key Outbox.outbox_id_ne_mempool

namespace Deed

open KeyValue

/-- The keys that a deed may write. -/
def Writes : Deed → String → Prop
  | call (.init r), k => k = recordKey r.id ∨ k = listKey r.version r.decryptionCondition
  | call (.store r key _), k => k = valueKey r.id key
  | call _, _ => False
  | push _, k => ∃ key, Outbox.IsOwnKey key ∧ k = valueKey Record.outbox.id key
  | acknowledge _, k => ∃ key, Outbox.IsOwnKey key ∧ k = valueKey Record.outbox.id key

variable {kv : KeyValue σ} {F : StoreError → Prop} (K : kv.Contract F)

/-- **What does not depend on the keys that a deed writes** holds after it. -/
theorem frame {R : (String → Option Bytes) → Prop} {d : Deed}
    (hd : ∀ k, d.Writes k → Contract.Bears R k) {s : σ}
    (hs : R (K.see s)) : R (K.see (d.after kv.backend s)) := by
  have hmail : (∀ key, Outbox.IsOwnKey key → Contract.Bears R (valueKey Record.outbox.id key)) →
      ∀ key raw, Outbox.IsOwnKey key →
        Keeps (fun s => R (K.see s)) (kv.backend.store Record.outbox key raw) :=
    fun hown key raw hkey => K.keeps_store (r := Record.outbox) (hown key hkey) raw
  have hread := fun key => retrieve_keeps (K.keeps_get (R := R)) Record.outbox key
  have hmap : ∀ {α : Type} {m : Step σ α} (f : α → Backend.Answer), Keeps (fun s => R (K.see s)) m →
      R (K.see ((m >>= fun a => pure (f a)).after s)) := fun f hm => after_map _ f s ▸ hm.after hs
  cases d with
  | call c =>
    cases c with
    | start => exact hmap (fun _ => .done) (K.keeps_of_reads K.start)
    | stop => exact hmap (fun _ => .done) (K.keeps_of_reads K.stop)
    | init r =>
      have hinit := K.keeps_claim (hd _ (.inl rfl))
      exact hmap (fun _ => .done) (.bind hinit fun _ => K.keeps_enlist (hd _ (.inr rfl)))
    | store r key value => exact hmap .record (K.keeps_store (hd _ rfl) value)
    | retrieve r key => exact hmap .value (retrieve_keeps K.keeps_get r key)
    | fetch id => exact hmap .record (fetch_keeps K.keeps_get id)
    | list block space => exact hmap .records (list_keeps K.keeps_get block space)
  | push m =>
    exact (Outbox.keeps_push hread (hmail fun key hkey => hd _ ⟨key, hkey, rfl⟩) m).after hs
  | acknowledge k =>
    have hwrite := hmail fun key hkey => hd _ ⟨key, hkey, rfl⟩
    exact (Outbox.keeps_acknowledge hread hwrite k).after hs

/-- An entry is changed by a deed that writes its key. -/
theorem writes_of_changed {d : Deed} {s : σ} {k : String}
    (h : K.see (d.after kv.backend s) k ≠ K.see s k) : d.Writes k := by
  by_contra hk
  refine h (frame K (R := fun t => t k = K.see s k) (fun l hl t v ht => ?_) rfl)
  have hne : l ≠ k := fun hlk => hk (hlk ▸ hl)
  exact (update_of_ne t v hne).trans ht

/-! ## The entries of a deed -/

/-- The entries that a deed may fill.  A value that is kept under the mempool record fills an index
list, if its key is one of a list. -/
def Fills : Deed → Entry → Prop
  | call (.init r), a => a = .record r.id ∨ a = .list r.version r.decryptionCondition
  | call (.store r key _), a => (∃ other, a = .value r.id key other) ∨
      ∃ space block, a = .list space block ∧ r.id = Record.mempool.id ∧ key = indexKey space block
  | call _, _ => False
  | push _, a => ∃ key, Outbox.IsOwnKey key ∧ a = .mail key
  | acknowledge _, a => ∃ key, Outbox.IsOwnKey key ∧ a = .mail key

/-- Who writes the key of an entry fills that entry. -/
theorem fills_of_writes {d : Deed} {a : Entry} (h : d.Writes a.key) : d.Fills a := by
  cases d with
  | call c =>
    cases c with
    | init r =>
      rcases h with hk | hk
      · exact .inl (Entry.key_injective hk)
      · exact .inr (Entry.key_injective hk)
    | store r key value =>
      by_cases hid : r.id = Record.mempool.id
      · have hk : a.key = valueKey Record.mempool.id key := hid ▸ h
        obtain ⟨space, block, ha, hindex⟩ := Entry.eq_list_of_key hk
        exact .inr ⟨space, block, ha, hid, hindex⟩
      · exact .inl ⟨hid, Entry.key_injective h⟩
    | _ => exact h.elim
  | _ =>
    obtain ⟨key, hkey, hk⟩ := h
    exact ⟨key, hkey, Entry.key_injective hk⟩

/-- **An entry is changed by a deed that fills it**, whatever the key-value store refuses. -/
theorem fills_of_changed {d : Deed} {s : σ} {a : Entry}
    (h : K.see (d.after kv.backend s) a.key ≠ K.see s a.key) : d.Fills a :=
  fills_of_writes (writes_of_changed K h)

/-! ## The backend's own entries -/

/-- What does not depend on a record's own key holds after an initialization that fails: the
list is written last. -/
theorem init_failed {R : (String → Option Bytes) → Prop} {r : Record}
    (hrecord : Contract.Bears R (recordKey r.id)) :
    Ensures (fun s => R (K.see s)) (kv.init r) (fun _ _ => True) fun _ s => R (K.see s) := by
  have hput : ∀ k v, Ensures (fun s => R (K.see s)) (kv.put k v) (fun _ _ => True)
      fun _ s => R (K.see s) :=
    fun k v s hs => (K.put (K.see s) k v).mono (fun _ h => h) (fun _ _ _ => trivial)
    (fun _ _ h => h.2 ▸ hs) s rfl
  refine .bind (K.keeps_claim hrecord) fun _ => .bind (readIndex_keeps K.keeps_get _) fun ids => ?_
  exact .bind (Q := fun _ _ => True) (.bind (hput _ _) fun _ => .pure fun _ _ => trivial) fun _ =>
    .pure fun _ _ => trivial

/-- An initialization that fails leaves every list as it was. -/
theorem list_of_init_failed {r : Record} {s : σ} {err : StoreError}
    (h : (kv.init r).outcome s = .error err) (space : String) (block : BitVec 64) :
    K.see ((kv.init r).after s) (listKey space block) = K.see s (listKey space block) :=
  (init_failed K (R := fun t => t (listKey space block) = K.see s (listKey space block))
    fun t v ht => (update_of_ne t v (recordKey_ne_listKey r.id space block)).trans ht).error
    (s := s) rfl h

/-- **How the backend's own entries change**: an index list by the initialization of a record with
its namespace and decryption condition, if this succeeds, and a value of the outbox by a push or
an acknowledgement. -/
structure ChangesOwn (K : kv.Contract F) (s : σ) (d : Deed) : Prop where
  list : ∀ space block,
    K.see (d.after kv.backend s) (listKey space block) ≠ K.see s (listKey space block) →
    ∃ r, d = call (.init r) ∧ (kv.init r).outcome s = .ok () ∧
      r.version = space ∧ r.decryptionCondition = block
  mail : ∀ key, K.see (d.after kv.backend s) (valueKey Record.outbox.id key) ≠
      K.see s (valueKey Record.outbox.id key) → (∃ m, d = push m) ∨ ∃ k, d = acknowledge k

theorem changesOwn {d : Deed} (hd : d.Derived) (s : σ) : ChangesOwn K s d where
  list space block h := by
    have hfills : d.Fills (.list space block) := fills_of_changed K h
    cases d with
    | call c =>
      cases c with
      | init r =>
        rcases hfills with ha | ha
        · cases ha
        · cases ha
          refine ⟨r, rfl, ?_, rfl, rfl⟩
          cases hout : (kv.init r).outcome s with
          | ok _ => rfl
          | error err =>
            refine absurd ?_ h
            rw [← list_of_init_failed K hout, ← after_map (kv.init r) fun _ => Backend.Answer.done]
            rfl
      | store r key value =>
        rcases hfills with ⟨_, ha⟩ | ⟨_, _, _, hid, _⟩
        · cases ha
        · exact absurd (hd.trans hid) r.derivedId_ne_mempool
      | _ => exact hfills.elim
    | _ =>
      obtain ⟨key, -, ha⟩ := hfills
      cases ha
  mail key h := by
    have hfills : d.Fills (.mail key) := fills_of_changed K h
    cases d with
    | call c =>
      cases c with
      | init r => rcases hfills with ha | ha <;> cases ha
      | store r k value =>
        rcases hfills with ⟨_, ha⟩ | ⟨_, _, ha, _⟩
        · obtain ⟨hid, -⟩ := Entry.value.inj ha
          exact absurd (hd.trans hid.symm) r.derivedId_ne_outbox
        · cases ha
      | _ => exact hfills.elim
    | push m => exact .inl ⟨m, rfl⟩
    | acknowledge k => exact .inr ⟨k, rfl⟩

end Deed
end SealedStore

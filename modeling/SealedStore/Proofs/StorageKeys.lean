import SealedStore.Proofs.Session.Deeds

/-! # Storage keys are unambiguous

A key-value store knows texts alone.  What stands under a key is a record, a value or an index
list, and no two of these share a key, whatever their texts are made to look like
(`KeyValue.Entry.key_injective`).  The mempool record is the exception by design: values under
its id are index lists.

Every deed has entries of its own (`Deed.Fills`), so deeds that do not fill an entry leave it as it
was, however many they are (`Deed.exists_fills_of_changed`).  Together this is
`storage_keys_unambiguous`.
-/
namespace SealedStore

variable {σ : Type}

namespace Deed

open KeyValue

variable {kv : KeyValue σ} {F : StoreError → Prop} (K : kv.Contract F) {s : σ} {a : Entry}

/-- **An entry that deeds change is filled by one of them**, whatever the
key-value store refuses. -/
theorem exists_fills_of_changed {deeds : List Deed}
    (h : K.see (afterAll kv.backend deeds s) a.key ≠ K.see s a.key) : ∃ d ∈ deeds, d.Fills a := by
  induction deeds generalizing s with
  | nil => exact absurd rfl h
  | cons d deeds ih =>
    by_cases hd : K.see (d.after kv.backend s) a.key = K.see s a.key
    · -- the first deed left the entry, so one of the others changed it
      rw [← hd] at h
      obtain ⟨f, hf, hfills⟩ := ih h
      exact ⟨f, List.mem_cons_of_mem d hf, hfills⟩
    · exact ⟨d, List.mem_cons_self, fills_of_changed K hd⟩

end Deed

/-! ## The keys of a store -/

open KeyValue

/-- **Storage keys are unambiguous.**  A record's key tells the id, a value's the id and the key, an
index list's the namespace and the decryption condition, whatever these texts contain.  No record's
key is a value's, and a value under any record but the mempool record, such as the outbox's, stands
where no record and no index list does.  So an entry is changed by nothing but what fills it. -/
theorem storage_keys_unambiguous :
    (∀ id i, recordKey id = recordKey i ↔ id = i) ∧
    (∀ id i key k, valueKey id key = valueKey i k ↔ id = i ∧ key = k) ∧
    (∀ space s block b, indexKey space block = indexKey s b ↔ space = s ∧ block = b) ∧
    (∀ id i key, recordKey id ≠ valueKey i key) ∧
    (∀ id key, id ≠ Record.mempool.id →
      (∀ i, valueKey id key ≠ recordKey i) ∧ ∀ space block, valueKey id key ≠ listKey space block) ∧
    Record.outbox.id ≠ Record.mempool.id ∧
    ∀ {σ : Type} {kv : KeyValue σ} {F : StoreError → Prop} (K : kv.Contract F)
      (deeds : List Deed) (s : σ) (a : Entry),
        K.see (Deed.afterAll kv.backend deeds s) a.key ≠ K.see s a.key →
          ∃ d ∈ deeds, d.Fills a := by
  refine ⟨fun id i => ⟨recordKey_injective, fun h => h ▸ rfl⟩,
    fun id i key k => ⟨valueKey_injective, ?_⟩, fun space s block b => ⟨indexKey_injective, ?_⟩,
    recordKey_ne_valueKey, fun id key other => ⟨?_, ?_⟩, Outbox.outbox_id_ne_mempool,
    fun K deeds s a => Deed.exists_fills_of_changed K⟩
  · rintro ⟨rfl, rfl⟩
    rfl
  · rintro ⟨rfl, rfl⟩
    rfl
  · exact fun i => (recordKey_ne_valueKey i id key).symm
  · exact valueKey_ne_listKey other key

/-- The statement at the outbox's list of digests and messages, and at a value whose key is made to
look like that of an index list. -/
theorem storage_keys_unambiguous_lookalike :
    let r := Record.fresh Octets.zero 7 [] [] "a"
    let key := indexKey "a" 7
    let deed := Deed.call (.store r key [1])
    r.id ≠ Record.mempool.id ∧ (∀ space block, valueKey r.id key ≠ listKey space block) ∧
      (∀ i, valueKey Record.outbox.id Outbox.pendingKey ≠ recordKey i) ∧
      (∀ digest i, valueKey Record.outbox.id (Outbox.messageKey digest) ≠ recordKey i) ∧
      ∃ other, let a := Entry.value r.id key other
        tableContract.see (Deed.afterAll ofTable.backend [deed] .empty) a.key ≠
          tableContract.see .empty a.key ∧
        ∃ d ∈ [deed], d.Fills a := by
  intro r key deed
  have hid : r.id ≠ Record.mempool.id := by decide
  obtain ⟨-, -, -, -, hapart, houtbox, hchanged⟩ := storage_keys_unambiguous
  have hnew : tableContract.see (Deed.afterAll ofTable.backend [deed] .empty)
      (valueKey r.id key) ≠ none := by
    show ((Table.insert .empty (valueKey r.id key) [1]).find? (valueKey r.id key)) ≠ none
    simp
  exact ⟨hid, (hapart r.id key hid).2, (hapart _ _ houtbox).1, fun digest =>
    (hapart _ _ houtbox).1, hid, hnew, hchanged tableContract [deed] .empty
      (.value r.id key hid) hnew⟩

end SealedStore

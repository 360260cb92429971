import SealedStore.Proofs.Record.Identity

/-! # A small batch

One account, one record that the account may read, write and replicate, and the messages that
carry its writes.  The id of the record and the digests of messages are hashes; only `digest_ne`
needs to compute them.
-/
namespace SealedStore.Sample

/-- The account. -/
def account : Address := Octets.replicate 20 1

/-- A transaction of the account. -/
def tx : Transaction := ⟨.legacy none 0 none ⟨0, 0, 0, []⟩, ⟨0, 0, false⟩, Octets.zero⟩

/-- The record without its id. -/
def bareRecord : Record :=
  { Record.fresh Octets.zero 0 [account] [account] "sample" with creationTx := some tx }

/-- The record that the account may read, write and replicate.  Its id is a digest, so the
definition is kept closed. -/
@[irreducible] def record : Record := { bareRecord with id := bareRecord.derivedId }

/-- The account's write of a value under the record. -/
def write (key : String) (value : Bytes) : StoreWrite := ⟨record, account, key, value⟩

/-- A message of the account, published by an engine with this name. -/
def message (origin : Uuid) (ws : List StoreWrite) : Message := ⟨tx, ws, origin, []⟩

theorem derivedId_record : record.derivedId = record.id := by
  unfold record
  have hsame : Record.SameAccess { bareRecord with id := bareRecord.derivedId } bareRecord :=
    ⟨rfl, rfl, rfl, rfl, rfl⟩
  exact hsame.derivedId

theorem allowed_record : record.allowedPeekers = [account] ∧ record.allowedStores = [account] ∧
    record.creationTx = some tx := by
  unfold record
  exact ⟨rfl, rfl, rfl⟩

theorem id_ne_mempool (key : String) (value : Bytes) :
    ∀ w ∈ [write key value], w.record.id ≠ Record.mempool.id := by
  rintro w hw
  cases List.mem_singleton.mp hw
  show record.id ≠ _
  rw [← derivedId_record]
  exact record.derivedId_ne_mempool

theorem id_ne_outbox (key : String) (value : Bytes) :
    ∀ w ∈ [write key value], w.record.id ≠ Record.outbox.id := by
  rintro w hw
  cases List.mem_singleton.mp hw
  show record.id ≠ _
  rw [← derivedId_record]
  exact record.derivedId_ne_outbox

theorem id_record_ne_outbox : record.id ≠ Record.outbox.id :=
  id_ne_outbox "k" [] (write "k" []) (List.mem_singleton.mpr rfl)

/-! ## Digests -/

theorem derivedId_bareRecord : bareRecord.derivedId =
    Octets.ofBytes 16 [38, 100, 159, 108, 68, 22, 80, 153, 153, 47, 115, 2, 156, 49, 250, 87] := by
  decide +kernel

/-- Two messages that write different values have different digests. -/
theorem digest_ne : (message Octets.zero [write "k" [1]]).digest ≠
    (message Octets.zero [write "k" [2]]).digest := by
  unfold message write record
  rw [derivedId_bareRecord]
  decide +kernel

end SealedStore.Sample

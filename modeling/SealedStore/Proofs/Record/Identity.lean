import SealedStore.Backend.Basic
import SealedStore.Record.Identity
import SealedStore.Proofs.Json.Exact

/-! # What an id binds

The canonical bytes of a record determine its access fields (`canonicalBytes_eq_iff`), so as far as
the name-based UUID is free of collisions, two records with one id agree in who may read, write and
replicate.  No derived id is reserved: the version that every derived id bears stands where the
reserved ids are zero (`derivedId_ne_reserved`).
-/
namespace SealedStore

/-- Every name-based UUID bears its version in its seventh byte. -/
theorem Uuid.named_version (name : Bytes) :
    ∃ b : UInt8, (Uuid.named name).toList[6]? = some (b ||| 0x50) := by
  unfold Uuid.named
  generalize Sha.sha1 (List.replicate 16 0 ++ name) = d
  obtain ⟨d, hd⟩ := d
  refine ⟨d.getD 6 0 &&& 0x0F, ?_⟩
  simp [Octets.ofBytes, hd]

namespace Record

/-! ## Canonical bytes -/

/-- Whether two records agree in every field that decides who may do what. -/
structure SameAccess (r s : Record) : Prop where
  salt : r.salt = s.salt
  decryptionCondition : r.decryptionCondition = s.decryptionCondition
  allowedPeekers : r.allowedPeekers = s.allowedPeekers
  allowedStores : r.allowedStores = s.allowedStores
  version : r.version = s.version

@[refl] theorem SameAccess.refl (r : Record) : r.SameAccess r := ⟨rfl, rfl, rfl, rfl, rfl⟩

theorem isExact_accessFields (r : Record) (id : RecordId) :
    (Json.record (r.accessFields id)).isExact = true := by simp [accessFields]

theorem sameAccess_of_accessFields {r s : Record} {i j : RecordId}
    (h : r.accessFields i = s.accessFields j) : i = j ∧ r.SameAccess s := by
  simp only [accessFields, List.cons.injEq, Prod.mk.injEq, true_and, and_true] at h
  obtain ⟨hid, hsalt, hcondition, hpeekers, hstores, hversion⟩ := h
  exact ⟨Json.ofOctets_injective hid,
    { salt := Json.ofOctets_injective hsalt
      decryptionCondition := BitVec.eq_of_toNat_eq (Json.natural.inj hcondition)
      allowedPeekers := Json.array_ofOctets_injective hpeekers
      allowedStores := Json.array_ofOctets_injective hstores
      version := Json.text_injective hversion }⟩

theorem SameAccess.accessFields {r s : Record} (h : r.SameAccess s) (id : RecordId) :
    r.accessFields id = s.accessFields id := by
  simp [Record.accessFields, h.salt, h.decryptionCondition, h.allowedPeekers,
    h.allowedStores, h.version]

/-- **The canonical bytes of a record are its access fields**, whatever its id,
creation and signature. -/
theorem canonicalBytes_eq_iff {r s : Record} :
    r.canonicalBytes = s.canonicalBytes ↔ r.SameAccess s := by
  constructor
  · intro h
    have hrecord := Json.render_injective (isExact_accessFields r _) (isExact_accessFields s _) h
    exact (sameAccess_of_accessFields (Json.record_injective hrecord)).2
  · intro h
    rw [canonicalBytes, canonicalBytes, h.accessFields]

theorem SameAccess.derivedId {r s : Record} (h : r.SameAccess s) : r.derivedId = s.derivedId := by
  rw [Record.derivedId, Record.derivedId, canonicalBytes_eq_iff.mpr h]

/-! ## Derived ids -/

theorem or_version_ne_zero (b : UInt8) : b ||| 0x50 ≠ 0 := by
  intro h
  have hnat := congrArg UInt8.toNat h
  rw [UInt8.toNat_or] at hnat
  have hle : (0x50 : UInt8).toNat ≤ b.toNat ||| (0x50 : UInt8).toNat := Nat.right_le_or
  rw [hnat] at hle
  exact absurd hle (by decide)

/-- No derived id has a zero as its seventh byte. -/
theorem derivedId_ne_of_zero (r : Record) {id : RecordId} (h : id.toList[6]? = some 0) :
    r.derivedId ≠ id := by
  intro he
  obtain ⟨b, hb⟩ := Uuid.named_version r.canonicalBytes
  rw [show Uuid.named r.canonicalBytes = id from he, h] at hb
  exact or_version_ne_zero b (Option.some.inj hb).symm

theorem derivedId_ne_mempool (r : Record) : r.derivedId ≠ mempool.id :=
  r.derivedId_ne_of_zero (by decide)

theorem derivedId_ne_outbox (r : Record) : r.derivedId ≠ outbox.id :=
  r.derivedId_ne_of_zero (by decide)

end Record
end SealedStore

import SealedStore.Proofs.Json.Neat
import SealedStore.Transaction.Json

/-! # Transactions read back

What is written of a transaction is read as that transaction, whatever its type
(`Transaction.ofJson?_toJson`).  The reader of transactions checks the whole tree before it looks at
a field, so the tree is shown to be neat first, and then each field is found under its name.
-/
namespace SealedStore

open Json

/-! ## Parts -/

@[simp] theorem AccessItem.ofJson?_toJson (a : AccessItem) :
    AccessItem.ofJson? a.toJson = some a := by
  simp [AccessItem.ofJson?, AccessItem.toJson, fields?, record, member?]

theorem AccessItem.neat_toJson (a : AccessItem) : Neat 2 a.toJson :=
  neat_record (by simp) (by simp [neat_ofOctets, neat_array])

@[simp] theorem optional?_none {α : Type} (read : Json → Option α) :
    optional? read none = some none := rfl

@[simp] theorem optional?_quantity {w : Nat} (v : BitVec w) :
    optional? (Quantity.ofJson? w) (some (Quantity.toJson v)) = some (some v) :=
  optional?_of_ne_null nofun (Quantity.ofJson?_toJson v)

theorem optional?_text {w n : Nat} (h : n < Nat.pow 2 w) :
    optional? (Quantity.ofJson? w) (some (.text (Quantity.text n))) =
      some (some (BitVec.ofNat w n)) :=
  optional?_of_ne_null nofun (Quantity.ofJson?_text h)

@[simp] theorem Authorization.ofJson?_toJson (a : Authorization) :
    Authorization.ofJson? a.toJson = some a := by
  simp [Authorization.ofJson?, Authorization.toJson, record, quantity?, required?, member?,
    Authorization.parity?]

theorem Authorization.neat_toJson (a : Authorization) : Neat 1 a.toJson :=
  neat_record (by simp) (by simp [neat_ofOctets, neat_quantity])

namespace Payload

@[simp] theorem list?_accessJson (access : List AccessItem) :
    list? AccessItem.ofJson? (accessJson access) = some access :=
  list?_array access fun a _ => a.ofJson?_toJson

@[simp] theorem optional?_accessJson (access : List AccessItem) :
    optional? (list? AccessItem.ofJson?) (some (accessJson access)) = some (some access) :=
  optional?_of_ne_null nofun (list?_accessJson access)

@[simp] theorem optional?_recipientJson (recipient : Option Address) :
    optional? (octets? 20) (some (recipientJson recipient)) = some recipient := by
  cases recipient with
  | none => rfl
  | some a => exact optional?_of_ne_null nofun (octets?_ofOctets a)

@[simp] theorem list?_authorizations (as : List Authorization) :
    list? Authorization.ofJson? (array (as.map Authorization.toJson)) = some as :=
  list?_array as fun a _ => a.ofJson?_toJson

theorem neat_accessJson (access : List AccessItem) : Neat 3 (accessJson access) :=
  neat_array access fun a _ => a.neat_toJson

theorem neat_recipientJson (d : Nat) (recipient : Option Address) :
    Neat d (recipientJson recipient) := by
  cases recipient with
  | none => exact neat_null d
  | some a => exact neat_ofOctets d a

end Payload

@[simp] theorem Sidecar.list?_blobs (bs : List (Octets blobSize)) :
    list? Sidecar.blob? (array (bs.map ofOctets)) = some bs :=
  list?_array bs fun b _ => by simp [Sidecar.blob?, ofOctets]

/-! ## The tree of a transaction -/

namespace Transaction

/-- The fields of a transaction, in order. -/
def jsonFields (tx : Transaction) : List (String × Json) :=
  ("type", .text tx.payload.typeName) :: tx.payload.jsonFields ++ tx.signatureFields ++
    [("hash", ofOctets tx.hash)]

theorem toJson_eq (tx : Transaction) : tx.toJson = record tx.jsonFields := rfl

theorem nodup_names (tx : Transaction) : (tx.jsonFields.map (·.1)).Nodup := by
  obtain ⟨payload, signature, hash⟩ := tx
  cases payload with
  | legacy chainId gasPrice recipient call =>
    cases chainId <;> simp [jsonFields, Payload.jsonFields, signatureFields]
  | accessList chainId gasPrice recipient access call =>
    simp [jsonFields, Payload.jsonFields, signatureFields]
  | dynamicFee chainId bid recipient access call =>
    simp [jsonFields, Payload.jsonFields, Payload.bidFields, signatureFields]
  | blob chainId bid recipient access blobHashes maxBlobFee sidecar call =>
    cases sidecar with
    | none => simp [jsonFields, Payload.jsonFields, Payload.bidFields, signatureFields]
    | some sidecar =>
      obtain ⟨blobs, commitments, proofs⟩ := sidecar
      cases proofs <;>
        simp [jsonFields, Payload.jsonFields, Payload.bidFields, signatureFields,
          Sidecar.jsonFields]
  | setCode chainId bid recipient access authorizations call =>
    simp [jsonFields, Payload.jsonFields, Payload.bidFields, signatureFields]

theorem neat_fields (tx : Transaction) : ∀ f ∈ tx.jsonFields, Neat 3 f.2 := by
  have hlist : ∀ {n : Nat} (xs : List (Octets n)), Neat 3 (array (xs.map ofOctets)) := fun xs =>
    neat_array xs fun a _ => neat_ofOctets 2 a
  have hsignature : ∀ f ∈ tx.signatureFields, Neat 3 f.2 := by
    unfold signatureFields
    cases tx.payload <;> simp [neat_quantity, neat_text]
  have hpayload : ∀ f ∈ tx.payload.jsonFields, Neat 3 f.2 := by
    cases tx.payload with
    | legacy chainId gasPrice recipient call =>
      cases chainId <;> simp [Payload.jsonFields, neat_quantity, neat_ofBytes,
        Payload.neat_recipientJson]
    | accessList chainId gasPrice recipient access call =>
      simp [Payload.jsonFields, neat_quantity, neat_ofBytes, Payload.neat_recipientJson,
        Payload.neat_accessJson]
    | dynamicFee chainId bid recipient access call =>
      simp [Payload.jsonFields, Payload.bidFields, neat_quantity, neat_ofBytes,
        Payload.neat_recipientJson, Payload.neat_accessJson]
    | blob chainId bid recipient access blobHashes maxBlobFee sidecar call =>
      cases sidecar with
      | none =>
        simp [Payload.jsonFields, Payload.bidFields, neat_quantity, neat_ofBytes, neat_ofOctets,
          Payload.neat_accessJson, hlist]
      | some sidecar =>
        obtain ⟨blobs, commitments, proofs⟩ := sidecar
        cases proofs <;>
          simp [Payload.jsonFields, Payload.bidFields, Sidecar.jsonFields,
            neat_quantity, neat_ofBytes, neat_ofOctets, Payload.neat_accessJson, hlist]
    | setCode chainId bid recipient access authorizations call =>
      have hauthorizations : Neat 3 (array (authorizations.map Authorization.toJson)) := by
        refine neat_array authorizations fun a _ => ?_
        obtain ⟨hexact, hplain, hdepth, hlast⟩ := a.neat_toJson
        exact ⟨hexact, hplain, Nat.le_succ_of_le hdepth, hlast⟩
      simp [Payload.jsonFields, Payload.bidFields, neat_quantity, neat_ofBytes, neat_ofOctets,
        Payload.neat_accessJson, hauthorizations]
  rintro f hf
  rcases List.mem_append.mp hf with hf | hf
  · rcases List.mem_append.mp hf with hf | hf
    · rcases List.mem_cons.mp hf with rfl | hf
      · exact neat_text 3 _
      · exact hpayload f hf
    · exact hsignature f hf
  · rw [List.mem_singleton.mp hf]
    exact neat_ofOctets 3 _

/-- **The tree of a transaction is neat.** -/
theorem neat_toJson (tx : Transaction) : Neat 4 tx.toJson :=
  neat_record tx.nodup_names tx.neat_fields

/-! ## The tree read -/

/-- The members of a transaction's tree. -/
def members (tx : Transaction) : List (Option String × Json) :=
  tx.jsonFields.map fun f => (some f.1, f.2)

theorem optional?_parity (odd : Bool) :
    optional? (Quantity.ofJson? 64) (some (.text (Quantity.text odd.toNat))) =
      some (some (BitVec.ofNat 64 odd.toNat)) :=
  optional?_text (by cases odd <;> decide)

/-- A signature with separate parity reads back. -/
theorem signature?_of_fields {ms : List (Option String × Json)} {signature : Curve.Signature}
    (hr : quantity? 256 ["r"] ms = some signature.r)
    (hs : quantity? 256 ["s"] ms = some signature.s)
    (hy : member? ["yParity"] ms = some (some (.text (Quantity.text signature.odd.toNat))))
    (hv : member? ["v"] ms = some (some (.text (Quantity.text signature.odd.toNat)))) :
    signature? ms = some signature := by
  have hparity : parityField? ms = some signature.odd := by
    unfold parityField?
    simp only [hy, hv, Option.bind_eq_bind, Option.bind_some, optional?_parity]
    cases signature.odd <;> rfl
  simp [signature?, hr, hs, hparity]

/-- The signature of a transaction of any type but the oldest reads back. -/
theorem signature?_members (tx : Transaction)
    (h : ∀ chainId gasPrice recipient call, tx.payload ≠ .legacy chainId gasPrice recipient call) :
    signature? tx.members = some tx.signature := by
  obtain ⟨payload, signature, hash⟩ := tx
  rcases payload with ⟨_, _, _, _⟩ | _ | _ | ⟨_, _, _, _, _, _, _ | ⟨_, _, _ | _⟩, _⟩ | _
  · exact (h _ _ _ _ rfl).elim
  all_goals
    refine signature?_of_fields ?_ ?_ ?_ ?_ <;>
      simp [members, jsonFields, Payload.jsonFields, Payload.bidFields,
        Sidecar.jsonFields, signatureFields, quantity?, required?, member?, Payload.parityNumber]

section
variable (chainId : BitVec 64) (gasPrice : BitVec 128) (bid : Bid) (recipient : Option Address)
  (address : Address) (access : List AccessItem) (call : SealedStore.Call)
  (signature : Curve.Signature)
  (hash : Octets 32)

theorem typed?_accessList :
    typed? (members ⟨.accessList chainId gasPrice recipient access call, signature, hash⟩) 1 =
      some ⟨.accessList chainId gasPrice recipient access call, signature, hash⟩ := by
  have hsignature := signature?_members
    ⟨.accessList chainId gasPrice recipient access call, signature, hash⟩ nofun
  simp only [typed?, hsignature]
  simp [members, jsonFields, Payload.jsonFields, signatureFields, quantity?,
    required?, member?, call?, recipient?, access?, hash?]

theorem typed?_dynamicFee :
    typed? (members ⟨.dynamicFee chainId bid recipient access call, signature, hash⟩) 2 =
      some ⟨.dynamicFee chainId bid recipient access call, signature, hash⟩ := by
  have hsignature := signature?_members
    ⟨.dynamicFee chainId bid recipient access call, signature, hash⟩ nofun
  simp only [typed?, hsignature]
  simp [members, jsonFields, Payload.jsonFields, Payload.bidFields, signatureFields,
    quantity?, required?, member?, call?, bid?, recipient?, accessOrNull?, hash?]

theorem typed?_setCode (authorizations : List Authorization) :
    typed? (members ⟨.setCode chainId bid address access authorizations call, signature, hash⟩) 4 =
      some ⟨.setCode chainId bid address access authorizations call, signature, hash⟩ := by
  have hsignature := signature?_members
    ⟨.setCode chainId bid address access authorizations call, signature, hash⟩ nofun
  simp only [typed?, hsignature]
  simp [members, jsonFields, Payload.jsonFields, Payload.bidFields, signatureFields,
    quantity?, required?, member?, call?, bid?, access?, hash?]

theorem typed?_blob (blobHashes : List (Octets 32)) (maxBlobFee : BitVec 128)
    (sidecar : Option Sidecar) :
    typed? (members
      ⟨.blob chainId bid address access blobHashes maxBlobFee sidecar call, signature, hash⟩) 3 =
      some ⟨.blob chainId bid address access blobHashes maxBlobFee sidecar call,
        signature, hash⟩ := by
  have hsidecar : Sidecar.ofMembers? (members
      ⟨.blob chainId bid address access blobHashes maxBlobFee sidecar call, signature, hash⟩) =
        sidecar := by
    rcases sidecar with _ | ⟨_, _, _ | _⟩ <;>
      simp [members, jsonFields, Payload.jsonFields, Payload.bidFields,
        Sidecar.jsonFields, signatureFields, required?, member?,
        Sidecar.ofMembers?, Sidecar.proofs?]
  have hsignature := signature?_members
    ⟨.blob chainId bid address access blobHashes maxBlobFee sidecar call, signature, hash⟩ nofun
  simp only [typed?, hsignature, hsidecar]
  rcases sidecar with _ | ⟨_, _, _ | _⟩ <;>
    simp [members, jsonFields, Payload.jsonFields, Payload.bidFields,
      Sidecar.jsonFields, signatureFields, quantity?, required?, member?, call?,
      bid?, access?, hash?]

/-- The number `v` of the oldest type names the parity and the chain. -/
theorem legacyParity?_parityNumber (chainId : Option (BitVec 64)) (odd : Bool) :
    legacyParity? ((Payload.legacy chainId gasPrice recipient call).parityNumber odd) =
      some (odd, chainId) := by
  cases chainId with
  | none => cases odd <;> rfl
  | some id =>
    have hid := id.isLt
    have hodd : odd.toNat ≤ 1 := Bool.toNat_le odd
    show legacyParity? (35 + 2 * id.toNat + odd.toNat) = _
    generalize hn : 35 + 2 * id.toNat + odd.toNat = n
    have hhalf : (n - 35) / 2 = id.toNat := by omega
    have hparity : ((n - 35) % 2 == 1) = odd := by
      cases odd with
      | false =>
        simp only [Bool.toNat_false] at hn
        simp only [beq_eq_false_iff_ne]
        omega
      | true =>
        simp only [Bool.toNat_true] at hn
        simp only [beq_iff_eq]
        omega
    unfold legacyParity?
    rw [if_neg (by omega), if_neg (by omega), if_pos ⟨by omega, by rw [hhalf]; exact hid⟩,
      hhalf, hparity]
    simp

theorem parityNumber_bounds (chainId : Option (BitVec 64)) (odd : Bool) :
    27 ≤ (Payload.legacy chainId gasPrice recipient call).parityNumber odd ∧
      (Payload.legacy chainId gasPrice recipient call).parityNumber odd < Nat.pow 2 128 := by
  have hodd : odd.toNat ≤ 1 := Bool.toNat_le odd
  cases chainId with
  | none =>
    simp only [Payload.parityNumber, Nat.pow_eq]
    omega
  | some id =>
    have hid := id.isLt
    simp only [Payload.parityNumber, Nat.pow_eq]
    omega

/-- A price of 128 bits is not cut. -/
theorem highestPrice?_of_field {ms : List (Option String × Json)} {price : BitVec 128}
    (h : required? ["gasPrice"] ms = some (Quantity.toJson price)) :
    highestPrice? ms = some price := by
  have hprice := price.isLt
  have hread : quantity? 256 ["gasPrice"] ms = some (BitVec.ofNat 256 price.toNat) := by
    rw [quantity?, h, Option.bind_some, Quantity.toJson,
      Quantity.ofJson?_text (Nat.lt_trans hprice (by decide))]
  have hvalue : (BitVec.ofNat 256 price.toNat).toNat = price.toNat := by
    rw [BitVec.toNat_ofNat, Nat.mod_eq_of_lt (by omega)]
  unfold highestPrice?
  rw [hread]
  show some (BitVec.ofNat 128 (min (BitVec.ofNat 256 price.toNat).toNat (Nat.pow 2 128 - 1))) = _
  rw [hvalue, Nat.min_eq_left (Nat.le_sub_one_of_lt hprice), BitVec.ofNat_toNat, BitVec.setWidth_eq]

theorem legacy?_legacy (chainId : Option (BitVec 64)) :
    legacy? (members ⟨.legacy chainId gasPrice recipient call, signature, hash⟩) =
      some ⟨.legacy chainId gasPrice recipient call, signature, hash⟩ := by
  obtain ⟨hlow, hhigh⟩ := parityNumber_bounds gasPrice recipient call chainId signature.odd
  have hparity := legacyParity?_parityNumber gasPrice recipient call chainId signature.odd
  generalize hms : members ⟨.legacy chainId gasPrice recipient call, signature, hash⟩ = ms
  have hv : quantity? 128 ["v"] ms = some (BitVec.ofNat 128
      ((Payload.legacy chainId gasPrice recipient call).parityNumber signature.odd)) := by
    have hmember : required? ["v"] ms = some (.text (Quantity.text
        ((Payload.legacy chainId gasPrice recipient call).parityNumber signature.odd))) := by
      subst hms
      cases chainId <;>
        simp [members, jsonFields, Payload.jsonFields, signatureFields, required?, member?]
    rw [quantity?, hmember, Option.bind_some, Quantity.ofJson?_text hhigh]
  -- only the bounds of the number matter from here on
  generalize (Payload.legacy chainId gasPrice recipient call).parityNumber signature.odd = v at *
  have hvalue : (BitVec.ofNat 128 v).toNat = v := by rw [BitVec.toNat_ofNat, Nat.mod_eq_of_lt hhigh]
  -- so the chain is read off the parity and not off the field beside it
  have hzero : ¬ (BitVec.ofNat 128 v = 0#128) := by
    intro h
    rw [h] at hvalue
    simp at hvalue
    omega
  have hstated : (member? ["chainId"] ms).bind (optional? (Quantity.ofJson? 64)) =
      some chainId := by
    subst hms
    cases chainId <;>
      simp [members, jsonFields, Payload.jsonFields, signatureFields, member?]
  have hprice : highestPrice? ms = some gasPrice := by
    refine highestPrice?_of_field ?_
    subst hms
    cases chainId <;>
      simp [members, jsonFields, Payload.jsonFields, signatureFields, required?, member?]
  have hrest : quantity? 256 ["r"] ms = some signature.r ∧
      quantity? 256 ["s"] ms = some signature.s ∧
      recipient? ms = some recipient ∧ call? ms = some call ∧ hash? ms = some hash := by
    subst hms
    cases chainId <;>
      simp [members, jsonFields, Payload.jsonFields, signatureFields, quantity?, required?, member?,
        recipient?, call?, hash?]
  obtain ⟨hr, hs, hrecipient, hcall, hhash⟩ := hrest
  unfold legacy?
  simp only [Option.bind_eq_bind] at hstated ⊢
  rw [← Option.bind_assoc, hstated]
  simp [hr, hs, hv, hzero, hvalue, hparity, hprice, hrecipient, hcall, hhash]

end

theorem member?_type (tx : Transaction) :
    member? ["type"] tx.members = some (some (.text tx.payload.typeName)) := by
  obtain ⟨payload, signature, hash⟩ := tx
  rcases payload with ⟨_ | _, _⟩ | _ | _ | ⟨_, _, _, _, _, _, _ | ⟨_, _, _ | _⟩, _⟩ | _ <;>
    simp [members, jsonFields, Payload.jsonFields, Payload.bidFields,
      Sidecar.jsonFields, signatureFields, member?]

/-- **What is written of a transaction reads back**, wherever it stands not too deep. -/
theorem ofJson?_toJson {enclosing : Nat} (h : enclosing + 4 ≤ depthLimit) (tx : Transaction) :
    ofJson? enclosing tx.toJson = some tx := by
  have hneat := tx.neat_toJson
  have hdepth : tx.toJson.depth + enclosing ≤ depthLimit := by
    have := hneat.depth_le
    omega
  unfold ofJson?
  rw [if_pos ⟨hneat.plain, hdepth⟩, hneat.lastWins_eq, toJson_eq,
    show record tx.jsonFields = object tx.members from rfl]
  simp only [member?_type, Option.bind_eq_bind, Option.bind_some]
  obtain ⟨payload, signature, hash⟩ := tx
  cases payload with
  | legacy chainId gasPrice recipient call => exact legacy?_legacy ..
  | accessList chainId gasPrice recipient access call => exact typed?_accessList ..
  | dynamicFee chainId bid recipient access call => exact typed?_dynamicFee ..
  | blob chainId bid recipient access blobHashes maxBlobFee sidecar call => exact typed?_blob ..
  | setCode chainId bid recipient access authorizations call => exact typed?_setCode ..

end Transaction
end SealedStore

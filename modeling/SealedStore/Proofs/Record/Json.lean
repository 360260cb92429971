import SealedStore.Record.Json
import SealedStore.Proofs.Transaction.Json

/-! # Records and messages read back

What is written of a record or of a message is read as that record or message
(`Record.decode?_encode`, `Message.decode?_encode`).  The creation transaction of a record
is the deepest part of a message; it stands three levels deep, well within what the reader
of transactions accepts.
-/
namespace SealedStore

open Json

namespace Record

theorem isExact_creationJson (r : Record) : r.creationJson.isExact = true := by
  unfold creationJson
  cases r.creationTx with
  | none => rfl
  | some tx => exact tx.neat_toJson.exact

@[simp] theorem isExact_toJson (r : Record) : r.toJson.isExact = true := by
  simp [toJson, accessFields, r.isExact_creationJson]

@[simp] theorem admits_toJson (r : Record) : (Shape.fields shapes).admits r.toJson = true := by
  have hlist : ∀ as : List Address,
      (Shape.list (.octets 20)).admits (array (as.map ofOctets)) = true := fun as =>
    Shape.admits_list as fun a _ => Shape.admits_ofOctets _ a
  refine Shape.admits_record ?_
  simp [accessFields, shapes, Shape.member, hlist, Shape.admits_any]

/-- The creation transaction reads back, also where there is none. -/
theorem optional?_creationJson {enclosing : Nat} (h : enclosing + 4 ≤ Transaction.depthLimit)
    (r : Record) :
    optional? (Transaction.ofJson? enclosing) (some r.creationJson) = some r.creationTx := by
  unfold creationJson
  cases r.creationTx with
  | none => rfl
  | some tx => exact optional?_of_ne_null nofun (Transaction.ofJson?_toJson h tx)

theorem ofJson?_toJson {enclosing : Nat} (h : enclosing + 5 ≤ Transaction.depthLimit) (r : Record) :
    ofJson? enclosing r.toJson = some r := by
  have htx := r.optional?_creationJson (show enclosing + 1 + 4 ≤ _ by omega)
  simp [ofJson?, toJson, accessFields, fields?, shapes, Shape.names, record, member?,
    htx, word?, text?, text, r.decryptionCondition.isLt]

/-- **The bytes of a record read back.** -/
@[simp] theorem decode?_encode (r : Record) : decode? r.encode = some r := by
  rw [decode?, encode, parseAs?_render r.isExact_toJson r.admits_toJson, Option.bind_some]
  exact ofJson?_toJson (by decide) r

end Record

namespace StoreWrite

@[simp] theorem isExact_toJson (w : StoreWrite) : w.toJson.isExact = true := by
  simp [toJson]

@[simp] theorem admits_toJson (w : StoreWrite) : (Shape.fields shapes).admits w.toJson = true := by
  refine Shape.admits_record ?_
  simp [shapes, Shape.member]

theorem ofJson?_toJson {enclosing : Nat} (h : enclosing + 6 ≤ Transaction.depthLimit)
    (w : StoreWrite) :
    ofJson? enclosing w.toJson = some w := by
  have hrecord := Record.ofJson?_toJson (show enclosing + 1 + 5 ≤ _ by omega) w.record
  simp [ofJson?, toJson, fields?, shapes, Shape.names, Json.record, member?, text?, text, hrecord]

end StoreWrite

namespace Message

@[simp] theorem isExact_toJson (m : Message) : m.toJson.isExact = true := by
  simp [toJson, writesJson, m.sourceTx.neat_toJson.exact]

@[simp] theorem admits_toJson (m : Message) : (Shape.fields shapes).admits m.toJson = true := by
  have hwrites : (Shape.list (.fields StoreWrite.shapes)).admits m.writesJson = true :=
    Shape.admits_list m.writes fun w _ => w.admits_toJson
  refine Shape.admits_record ?_
  simp [shapes, Shape.member, hwrites, Shape.admits_any]

theorem ofJson?_toJson (m : Message) : ofJson? m.toJson = some m := by
  have htx := Transaction.ofJson?_toJson (show 1 + 4 ≤ _ by decide) m.sourceTx
  have hwrites : list? (StoreWrite.ofJson? 2) m.writesJson = some m.writes :=
    list?_array m.writes fun w _ => StoreWrite.ofJson?_toJson (by decide) w
  simp [ofJson?, toJson, fields?, shapes, Shape.names, record, member?, text?, text, htx, hwrites]

/-- **The bytes of a message read back.** -/
@[simp] theorem decode?_encode (m : Message) : decode? m.encode = some m := by
  rw [decode?, encode, parseAs?_render m.isExact_toJson m.admits_toJson, Option.bind_some]
  exact m.ofJson?_toJson

/-- No bytes are the bytes of no message. -/
theorem decode?_nil : decode? [] = none := rfl

end Message
end SealedStore

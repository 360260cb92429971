import SealedStore.Record.Basic
import SealedStore.Transaction.Json
import SealedStore.Json.Printer
import SealedStore.Json.Parser
/-!
# Records and messages as JSON

The form in which records and messages are kept and sent.  A record may lack its creation
transaction and its signature, a message only its signature.
-/
namespace SealedStore

open Json

namespace Record

/-- The fields in order, and what is expected of each. -/
def shapes : List (String × Shape) :=
  [("id", .octets 16), ("salt", .octets 16), ("decryptionCondition", .any),
    ("allowedPeekers", .list (.octets 20)), ("allowedStores", .list (.octets 20)),
    ("version", .any), ("creationTx", .any), ("signature", .any)]

/-- The fields that decide who may do what, behind an id. -/
def accessFields (r : Record) (id : RecordId) : List (String × Json) :=
  [("id", ofOctets id), ("salt", ofOctets r.salt),
    ("decryptionCondition", .natural r.decryptionCondition.toNat),
    ("allowedPeekers", .array (r.allowedPeekers.map ofOctets)),
    ("allowedStores", .array (r.allowedStores.map ofOctets)), ("version", .text r.version)]

/-- The creation transaction as JSON, null when there is none. -/
def creationJson (r : Record) : Json := (r.creationTx.map Transaction.toJson).getD .null

/-- A record as JSON. -/
def toJson (r : Record) : Json :=
  .record
    (r.accessFields r.id ++ [("creationTx", r.creationJson), ("signature", ofBytes r.signature)])

/-- A record from JSON that stands `enclosing` levels deep. -/
def ofJson? (enclosing : Nat) (j : Json) : Option Record := do
  let [some id, some salt, some condition, some peekers, some stores, some version, tx, signature]
    ← fields? (Shape.names shapes) j | none
  some {
    id := ← octets? 16 id
    salt := ← octets? 16 salt
    decryptionCondition := ← word? 64 condition
    allowedPeekers := ← list? (octets? 20) peekers
    allowedStores := ← list? (octets? 20) stores
    version := ← text? version
    creationTx := ← optional? (Transaction.ofJson? (enclosing + 1)) tx
    signature := ← (match signature with | none => some [] | some j => bytes? j) }

/-- The bytes of a record. -/
def encode (r : Record) : Bytes := r.toJson.render

/-- A record from its bytes. -/
def decode? (b : Bytes) : Option Record := (parseAs? (.fields shapes) b).bind (ofJson? 0)

end Record

namespace StoreWrite

/-- A write as JSON. -/
def toJson (w : StoreWrite) : Json :=
  .record [("record", w.record.toJson), ("caller", ofOctets w.caller), ("key", .text w.key),
    ("value", ofBytes w.value)]

/-- The fields in order, and what is expected of each. -/
def shapes : List (String × Shape) :=
  [("record", .fields Record.shapes), ("caller", .octets 20), ("key", .any), ("value", .any)]

/-- A write from JSON that stands `enclosing` levels deep. -/
def ofJson? (enclosing : Nat) (j : Json) : Option StoreWrite := do
  let [some record, some caller, some key, some value] ← fields? (Shape.names shapes) j | none
  some ⟨← Record.ofJson? (enclosing + 1) record, ← octets? 20 caller, ← text? key, ← bytes? value⟩

end StoreWrite

namespace Message

/-- The writes of a message as JSON. -/
def writesJson (m : Message) : Json := .array (m.writes.map StoreWrite.toJson)

/-- A message as JSON. -/
def toJson (m : Message) : Json :=
  .record [("sourceTx", m.sourceTx.toJson), ("storeWrites", m.writesJson),
    ("storeUUID", .text (Uuid.text m.origin)), ("signature", ofBytes m.signature)]

/-- The fields in order, and what is expected of each. -/
def shapes : List (String × Shape) :=
  [("sourceTx", .any), ("storeWrites", .list (.fields StoreWrite.shapes)), ("storeUUID", .any),
    ("signature", .any)]

/-- A message from JSON. -/
def ofJson? (j : Json) : Option Message := do
  let [some tx, some writes, some origin, signature] ← fields? (Shape.names shapes) j | none
  some ⟨← Transaction.ofJson? 1 tx, ← list? (StoreWrite.ofJson? 2) writes,
    ← (← text? origin) |> Uuid.parse?,
    ← (match signature with | none => some [] | some j => bytes? j)⟩

/-- The bytes of a message. -/
def encode (m : Message) : Bytes := m.toJson.render

/-- A message from its bytes. -/
def decode? (b : Bytes) : Option Message := (parseAs? (.fields shapes) b).bind ofJson?

end Message
end SealedStore

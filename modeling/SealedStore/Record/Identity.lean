import SealedStore.Record.Json
import SealedStore.Error
/-!
# Ids, and what signatures cover

The id of a record is the name-based UUID of its access fields with the id set to zero.  A record's
signature covers all its other fields, a message's signature the whole batch.
-/
namespace SealedStore

open Json

namespace Record

/-- The bytes that the id is derived from. -/
def canonicalBytes (r : Record) : Bytes := (Json.record (r.accessFields Octets.zero)).render

/-- The id that belongs to a record's contents, whatever id it bears. -/
def derivedId (r : Record) : RecordId := Uuid.named r.canonicalBytes

/-- The id of a record: the derived one, which a record that bears an id must agree with. -/
def resolveId (r : Record) : Except StoreError RecordId :=
  if r.id = Octets.zero ∨ r.id = r.derivedId then .ok r.derivedId
  else .error (.idMismatch r.id r.derivedId)

/-- The bytes that a record's signature covers: every field but the signature. -/
def signableBytes (r : Record) : Bytes :=
  (Json.record (r.accessFields r.id ++ [("creationTx", r.creationJson)])).render

end Record

namespace Message

/-- The bytes that a message's signature covers. -/
def signableBytes (m : Message) : Bytes :=
  (Json.record [("sourceTx", m.sourceTx.toJson), ("storeUUID", .text (Uuid.text m.origin)),
    ("storeWrites", m.writesJson)]).render

/-- The digest that names a signed message. -/
def digest (m : Message) : Octets 32 := Keccak.digest (m.signableBytes ++ m.signature)

end Message
end SealedStore

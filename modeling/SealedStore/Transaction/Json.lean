import SealedStore.Transaction.Sender
import SealedStore.Json.Fields
import SealedStore.Quantity
/-!
# Transactions as JSON

A transaction is an object whose `type` says which fields it has; other fields are passed over, and
of a field that stands twice the last one counts.  An object without a type is read as the oldest
one.  `gasLimit` is another name of `gas`, and of `yParity` and `v` one suffices.
-/
namespace SealedStore

open Json

namespace AccessItem

/-- An announced account as JSON. -/
def toJson (a : AccessItem) : Json :=
  .record [("address", ofOctets a.address), ("storageKeys", .array (a.storageKeys.map ofOctets))]

/-- An announced account from JSON. -/
def ofJson? (j : Json) : Option AccessItem := do
  let [some address, some keys] ← fields? ["address", "storageKeys"] j | none
  some ⟨← octets? 20 address, ← list? (octets? 32) keys⟩

end AccessItem

/-- A member that must be present. -/
def Json.required? (names : List String) (members : List (Option String × Json)) : Option Json :=
  (member? names members).join

/-- A number of a transaction that must be present. -/
def Json.quantity? (w : Nat) (names : List String) (members : List (Option String × Json)) :
    Option (BitVec w) :=
  (required? names members).bind (Quantity.ofJson? w)

namespace Authorization

/-- An authorization as JSON. -/
def toJson (a : Authorization) : Json :=
  .record [("chainId", Quantity.toJson a.chainId), ("address", ofOctets a.address),
    ("nonce", Quantity.toJson a.nonce), ("yParity", Quantity.toJson a.yParity),
    ("r", Quantity.toJson a.r), ("s", Quantity.toJson a.s)]

/-- The parity of an authorization: `yParity`, or else `v` as it is. -/
def parity? (ms : List (Option String × Json)) : Option (BitVec 8) := do
  let y ← optional? (Quantity.ofJson? 8) (← member? ["yParity"] ms)
  let v ← optional? (Quantity.ofJson? 8) (← member? ["v"] ms)
  y <|> v

/-- An authorization from JSON. -/
def ofJson? : Json → Option Authorization
  | .object ms => do
    some ⟨← quantity? 256 ["chainId"] ms, ← (← required? ["address"] ms) |> octets? 20,
      ← quantity? 64 ["nonce"] ms, ← parity? ms, ← quantity? 256 ["r"] ms, ← quantity? 256 ["s"] ms⟩
  | _ => none

end Authorization

namespace Sidecar

/-- The fields of a sidecar, in order. -/
def jsonFields (c : Sidecar) : List (String × Json) :=
  [("blobs", .array (c.blobs.map ofOctets)), ("commitments", .array (c.commitments.map ofOctets)),
    match c.proofs with
    | .whole ps => ("proofs", .array (ps.map ofOctets))
    | .cells ps => ("cellProofs", .array (ps.map ofOctets))]

/-- A blob from JSON. -/
def blob? (j : Json) : Option (Octets blobSize) := (bytes? j).bind Octets.ofBytes?

/-- The proofs, of which there is one kind. -/
def proofs? (ms : List (Option String × Json)) : Option BlobProofs :=
  match member? ["proofs"] ms, member? ["cellProofs"] ms with
  | some (some ps), some none => (list? (octets? 48) ps).map .whole
  | some none, some (some ps) => (list? (octets? 48) ps).map .cells
  | _, _ => none

/-- The sidecar that a transaction carries along.  One that lacks a part or cannot be read is passed
over like any other fields. -/
def ofMembers? (ms : List (Option String × Json)) : Option Sidecar := do
  some ⟨← (← required? ["blobs"] ms) |> list? blob?,
    ← (← required? ["commitments"] ms) |> list? (octets? 48), ← proofs? ms⟩

end Sidecar

namespace Payload

/-- The name of a type. -/
def typeName : Payload → String
  | legacy .. => "0x0"
  | accessList .. => "0x1"
  | dynamicFee .. => "0x2"
  | blob .. => "0x3"
  | setCode .. => "0x4"

/-- A recipient as JSON, null when there is none. -/
def recipientJson : Option Address → Json
  | none => .null
  | some a => ofOctets a

/-- An access list as JSON. -/
def accessJson (access : List AccessItem) : Json := .array (access.map AccessItem.toJson)

/-- The fields of a bid. -/
def bidFields (bid : Bid) : List (String × Json) :=
  [("maxFeePerGas", Quantity.toJson bid.maxFee),
    ("maxPriorityFeePerGas", Quantity.toJson bid.maxPriorityFee)]

/-- The fields of a payload, in order. -/
def jsonFields : Payload → List (String × Json)
  | legacy chainId gasPrice recipient c =>
    (match chainId with
      | none => []
      | some id => [("chainId", Quantity.toJson id)]) ++
    [("nonce", Quantity.toJson c.nonce), ("gasPrice", Quantity.toJson gasPrice),
      ("gas", Quantity.toJson c.gas), ("to", recipientJson recipient),
      ("value", Quantity.toJson c.value), ("input", ofBytes c.input)]
  | accessList chainId gasPrice recipient access c =>
    [("chainId", Quantity.toJson chainId), ("nonce", Quantity.toJson c.nonce),
      ("gasPrice", Quantity.toJson gasPrice), ("gas", Quantity.toJson c.gas),
      ("to", recipientJson recipient), ("value", Quantity.toJson c.value),
      ("accessList", accessJson access), ("input", ofBytes c.input)]
  | dynamicFee chainId bid recipient access c =>
    [("chainId", Quantity.toJson chainId), ("nonce", Quantity.toJson c.nonce),
      ("gas", Quantity.toJson c.gas)] ++ bidFields bid ++
    [("to", recipientJson recipient), ("value", Quantity.toJson c.value),
      ("accessList", accessJson access), ("input", ofBytes c.input)]
  | blob chainId bid recipient access blobHashes maxBlobFee sidecar c =>
    [("chainId", Quantity.toJson chainId), ("nonce", Quantity.toJson c.nonce),
      ("gas", Quantity.toJson c.gas)] ++ bidFields bid ++
    [("to", ofOctets recipient), ("value", Quantity.toJson c.value),
      ("accessList", accessJson access), ("blobVersionedHashes", .array (blobHashes.map ofOctets)),
      ("maxFeePerBlobGas", Quantity.toJson maxBlobFee), ("input", ofBytes c.input)] ++
    (sidecar.map Sidecar.jsonFields).getD []
  | setCode chainId bid recipient access authorizations c =>
    [("chainId", Quantity.toJson chainId), ("nonce", Quantity.toJson c.nonce),
      ("gas", Quantity.toJson c.gas)] ++ bidFields bid ++
    [("to", ofOctets recipient), ("value", Quantity.toJson c.value),
      ("accessList", accessJson access),
      ("authorizationList", .array (authorizations.map Authorization.toJson)),
      ("input", ofBytes c.input)]

end Payload

namespace Transaction

/-- The fields of a signature; the oldest type has no separate parity. -/
def signatureFields (tx : Transaction) : List (String × Json) :=
  let sig := tx.signature
  let v := Json.text (Quantity.text (tx.payload.parityNumber sig.odd))
  [("r", Quantity.toJson sig.r), ("s", Quantity.toJson sig.s)] ++
    match tx.payload with
    | .legacy .. => [("v", v)]
    | _ => [("yParity", v), ("v", v)]

/-- A transaction as JSON. -/
def toJson (tx : Transaction) : Json :=
  .record (("type", .text tx.payload.typeName) :: tx.payload.jsonFields ++ tx.signatureFields ++
    [("hash", ofOctets tx.hash)])

/-! ## Reading -/

/-- The type that a member `type` names by its text. -/
def typeNumber? : Json → Option Nat
  | .string (some s) =>
    if s = "0x0" ∨ s = "0x00" then some 0
    else if s = "0x1" ∨ s = "0x01" then some 1
    else if s = "0x2" ∨ s = "0x02" then some 2
    else if s = "0x3" ∨ s = "0x03" then some 3
    else if s = "0x4" ∨ s = "0x04" then some 4
    else none
  | _ => none

section
variable (ms : List (Option String × Json))

/-- The fields that every type has. -/
def call? : Option Call := do
  some ⟨← quantity? 64 ["nonce"] ms, ← quantity? 64 ["gas", "gasLimit"] ms,
    ← quantity? 256 ["value"] ms, ← (← required? ["input"] ms) |> bytes?⟩

/-- The fields of a bid. -/
def bid? : Option Bid := do
  some ⟨← quantity? 128 ["maxFeePerGas"] ms, ← quantity? 128 ["maxPriorityFeePerGas"] ms⟩

/-- A recipient that may be absent or null. -/
def recipient? : Option (Option Address) := do
  optional? (octets? 20) (← member? ["to"] ms)

/-- An access list. -/
def access? : Option (List AccessItem) :=
  (required? ["accessList"] ms).bind (list? AccessItem.ofJson?)

/-- An access list that may be null. -/
def accessOrNull? : Option (List AccessItem) := do
  (optional? (list? AccessItem.ofJson?) (some (← required? ["accessList"] ms))).map (·.getD [])

/-- The announced hash. -/
def hash? : Option (Octets 32) := (required? ["hash"] ms).bind (octets? 32)

/-- The parity that a number stands for: itself, 27 or 28, or any number from 35 on. -/
def parity? (v : Nat) : Option Bool :=
  if v = 0 ∨ v = 27 then some false
  else if v = 1 ∨ v = 28 then some true
  else if 35 ≤ v then some ((v - 35) % 2 == 1)
  else none

/-- The parity of a signature, from `yParity` or else from `v`. -/
def parityField? : Option Bool := do
  let y ← optional? (Quantity.ofJson? 64) (← member? ["yParity"] ms)
  let v ← optional? (Quantity.ofJson? 64) (← member? ["v"] ms)
  match y, v with
  | some y, _ => if y = 0 then some false else if y = 1 then some true else none
  | none, some v => parity? v.toNat
  | none, none => none

/-- A signature with separate parity. -/
def signature? : Option Curve.Signature := do
  some ⟨← quantity? 256 ["r"] ms, ← quantity? 256 ["s"] ms, ← parityField? ms⟩

/-- The parity and the chain that the number `v` of the oldest type stands for. -/
def legacyParity? (v : Nat) : Option (Bool × Option (BitVec 64)) :=
  if v = 27 then some (false, none)
  else if v = 28 then some (true, none)
  else if 35 ≤ v ∧ (v - 35) / 2 < Nat.pow 2 64 then
    some ((v - 35) % 2 == 1, some (BitVec.ofNat 64 ((v - 35) / 2)))
  else none

/-- A price per gas, of which anything above 128 bits is the highest. -/
def highestPrice? : Option (BitVec 128) := do
  let price ← quantity? 256 ["gasPrice"] ms
  some (BitVec.ofNat 128 (min price.toNat (Nat.pow 2 128 - 1)))

/-- A transaction of the oldest type.  With a signature of zeros alone, it is for the
chain that it states. -/
def legacy? : Option Transaction := do
  let stated ← optional? (Quantity.ofJson? 64) (← member? ["chainId"] ms)
  let r ← quantity? 256 ["r"] ms
  let s ← quantity? 256 ["s"] ms
  let v ← quantity? 128 ["v"] ms
  let (odd, chainId) ←
    if r = 0 ∧ s = 0 ∧ v = 0 then some (false, stated) else legacyParity? v.toNat
  if stated.isNone ∨ chainId.isNone ∨ stated = chainId then
    some ⟨.legacy chainId (← highestPrice? ms) (← recipient? ms) (← call? ms),
      ⟨r, s, odd⟩, ← hash? ms⟩
  else none

/-- A transaction whose type is known. -/
def typed? (type : Nat) : Option Transaction := do
  if type = 0 then legacy? ms
  else
    let chainId ← quantity? 64 ["chainId"] ms
    let access ← if type = 2 then accessOrNull? ms else access? ms
    let call ← call? ms
    let payload ←
      if type = 1 then do
        some (Payload.accessList chainId (← quantity? 128 ["gasPrice"] ms)
          (← recipient? ms) access call)
      else if type = 2 then do
        some (.dynamicFee chainId (← bid? ms) (← recipient? ms) access call)
      else if type = 3 then do
        some (.blob chainId (← bid? ms) (← (← required? ["to"] ms) |> octets? 20) access
          (← (← required? ["blobVersionedHashes"] ms) |> list? (octets? 32))
          (← quantity? 128 ["maxFeePerBlobGas"] ms) (Sidecar.ofMembers? ms) call)
      else do
        some (.setCode chainId (← bid? ms) (← (← required? ["to"] ms) |> octets? 20) access
          (← (← required? ["authorizationList"] ms) |> list? Authorization.ofJson?) call)
    some ⟨payload, ← signature? ms, ← hash? ms⟩

end

/-- The nesting that a transaction may reach together with what encloses it. -/
def depthLimit : Nat := 127

/-- A transaction that stands `enclosing` levels deep.  Unlike elsewhere, the fields that are passed
over must be plain and not too deep, since the type is known only after all of them. -/
def ofJson? (enclosing : Nat) (j : Json) : Option Transaction :=
  if j.isPlain ∧ j.depth + enclosing ≤ depthLimit then
    match j.lastWins with
    | .object ms => do
      match ← member? ["type"] ms with
      | none => legacy? ms
      | some .null => legacy? ms
      | some t => typed? ms (← typeNumber? t)
    | _ => none
  else none

end Transaction
end SealedStore

import SealedStore.Draft
/-!
# Calls by selector

A call is four bytes that select a method, followed by its request as JSON.  Each method has a
request and a response of its own and runs against a draft on behalf of a caller.
-/
namespace SealedStore

/-- What can be called. -/
inductive Method where
  | newDataRecord
  | confidentialStore
  | confidentialRetrieve
  | fetchDataRecords
deriving DecidableEq, Repr

/-- The first four bytes of the digest of a name. -/
def selectorOf (name : String) : Octets 4 :=
  Octets.ofBytes 4 (Keccak.digest (Bytes.ofText name)).toList

namespace Method

/-- Every method. -/
def all : List Method := [newDataRecord, confidentialStore, confidentialRetrieve, fetchDataRecords]

/-- The name that a method is called by. -/
def name : Method → String
  | newDataRecord => "newDataRecord"
  | confidentialStore => "confidentialStore"
  | confidentialRetrieve => "confidentialRetrieve"
  | fetchDataRecords => "fetchDataRecords"

/-- The bytes that select a method. -/
def selector (m : Method) : Octets 4 := selectorOf m.name

/-- The method with a name. -/
def named? (s : String) : Option Method := all.find? fun m => m.name = s

/-- The method among these that the bytes select. -/
def selected? (registry : List Method) (sel : Octets 4) : Option Method :=
  registry.find? fun m => m.selector = sel

end Method

/-- What a method is asked for. -/
inductive Request where
  | newDataRecord (decryptionCondition : BitVec 64) (allowedPeekers allowedStores : List Address)
      (version : String)
  | confidentialStore (id : RecordId) (key : String) (value : Bytes)
  | confidentialRetrieve (id : RecordId) (key : String)
  | fetchDataRecords (block : BitVec 64) (space : String)
deriving DecidableEq

/-- What a method answers. -/
inductive Response where
  | record (r : Record)
  | nothing
  | value (b : Bytes)
  | records (rs : List Record)
deriving DecidableEq

namespace Request

open Json

/-- The method that a request is for. -/
def method : Request → Method
  | newDataRecord .. => .newDataRecord
  | confidentialStore .. => .confidentialStore
  | confidentialRetrieve .. => .confidentialRetrieve
  | fetchDataRecords .. => .fetchDataRecords

/-- A request as JSON. -/
def toJson : Request → Json
  | newDataRecord condition peekers stores version =>
    .record [("decryptionCondition", .natural condition.toNat),
      ("allowedPeekers", .array (peekers.map ofOctets)),
      ("allowedStores", .array (stores.map ofOctets)), ("version", .text version)]
  | confidentialStore id key value =>
    .record [("id", ofOctets id), ("key", .text key), ("value", ofBytes value)]
  | confidentialRetrieve id key => .record [("id", ofOctets id), ("key", .text key)]
  | fetchDataRecords block space =>
    .record [("block", .natural block.toNat), ("namespace", .text space)]

/-- The fields of a method's request in order, and what is expected of each. -/
def shapes : Method → List (String × Shape)
  | .newDataRecord =>
    [("decryptionCondition", .any), ("allowedPeekers", .list (.octets 20)),
      ("allowedStores", .list (.octets 20)), ("version", .any)]
  | .confidentialStore => [("id", .octets 16), ("key", .any), ("value", .any)]
  | .confidentialRetrieve => [("id", .octets 16), ("key", .any)]
  | .fetchDataRecords => [("block", .any), ("namespace", .any)]

/-- The request of a method from JSON. -/
def ofJson? (m : Method) (j : Json) : Option Request :=
  match m with
  | .newDataRecord => do
    let [some condition, some peekers, some stores, some version] ←
      fields? (Shape.names (shapes m)) j | none
    some (newDataRecord (← word? 64 condition) (← list? (octets? 20) peekers)
      (← list? (octets? 20) stores) (← text? version))
  | .confidentialStore => do
    let [some id, some key, some value] ← fields? (Shape.names (shapes m)) j | none
    some (confidentialStore (← octets? 16 id) (← text? key) (← bytes? value))
  | .confidentialRetrieve => do
    let [some id, some key] ← fields? (Shape.names (shapes m)) j | none
    some (confidentialRetrieve (← octets? 16 id) (← text? key))
  | .fetchDataRecords => do
    let [some block, some space] ← fields? (Shape.names (shapes m)) j | none
    some (fetchDataRecords (← word? 64 block) (← text? space))

/-- The bytes of a call. -/
def encodeCall (r : Request) : Bytes := r.method.selector.toList ++ r.toJson.render

/-- The method and the request of a call to one of these methods. -/
def decodeCall (registry : List Method) (calldata : Bytes) : Except StoreError Request :=
  match Octets.ofBytes? (n := 4) (calldata.take 4) with
  | none => .error (.dispatch "missing selector")
  | some sel =>
    match Method.selected? registry sel with
    | none => .error (.dispatch ("unknown selector " ++ Hex.text sel.toList))
    | some m =>
      match (parseAs? (.fields (shapes m)) (calldata.drop 4)).bind (ofJson? m) with
      | none => .error (.dispatch (m.name ++ ": malformed request"))
      | some r => .ok r

/-- Runs a request against a draft.  A new record is given the salt. -/
def run {σ τ : Type} (e : Engine σ τ) (salt : Octets 16) (caller : Address) :
    Request → Step (Draft.Execution σ τ) Response
  | newDataRecord condition peekers stores version => do
    pure (.record (← Draft.init e (Record.fresh salt condition peekers stores version)))
  | confidentialStore id key value => do
    let _ ← Draft.store e id caller key value
    pure .nothing
  | confidentialRetrieve id key => do pure (.value (← Draft.retrieve e id caller key))
  | fetchDataRecords block space => do pure (.records (← Draft.list e block space))

end Request

namespace Response

open Json

/-- A response as JSON. -/
def toJson : Response → Json
  | record r => r.toJson
  | nothing => .null
  | value b => .record [("value", ofBytes b)]
  | records rs => .array (rs.map Record.toJson)

/-- The bytes of a response. -/
def encode (r : Response) : Bytes := r.toJson.render

/-- What is expected of a method's response. -/
def shape : Method → Shape
  | .newDataRecord => .fields Record.shapes
  | .confidentialStore => .any
  | .confidentialRetrieve => .fields [("value", .any)]
  | .fetchDataRecords => .list (.fields Record.shapes)

/-- The response of a method from JSON. -/
def ofJson? (m : Method) (j : Json) : Option Response :=
  match m with
  | .newDataRecord => (Record.ofJson? 0 j).map record
  | .confidentialStore => match j with
    | .null => some nothing
    | _ => none
  | .confidentialRetrieve => do
    let [some b] ← fields? (Shape.names [("value", .any)]) j | none
    (bytes? b).map value
  | .fetchDataRecords => (list? (Record.ofJson? 1) j).map records

/-- The response of a method from its bytes. -/
def decode? (m : Method) (b : Bytes) : Option Response := (parseAs? (shape m) b).bind (ofJson? m)

end Response

/-- Runs a call against a draft and encodes the response. -/
def dispatch {σ τ : Type} (e : Engine σ τ) (registry : List Method) (salt : Octets 16)
    (caller : Address) (calldata : Bytes) : Step (Draft.Execution σ τ) Bytes := do
  let request ← Step.ofExcept (Request.decodeCall registry calldata)
  let response ← request.run e salt caller
  pure response.encode

end SealedStore

import SealedStore.Error
import SealedStore.Transaction.Sender
/-!
# Signers

A node signs records and messages with keys that it holds, and recovers who signed those of
others.  The engine is given a `Signer`, so that it can be reasoned about for any; `KeyRing` is
the one with keys on secp256k1.
-/
namespace SealedStore

/-- What an engine needs of its keys and of signature recovery. -/
structure Signer where
  /-- The addresses that keys are held for. -/
  addresses : List Address
  /-- Signs with the key of an address. -/
  sign : Address → Bytes → Except StoreError Bytes
  /-- The address whose signature of the bytes this is. -/
  recover : Bytes → Bytes → Except StoreError Address
  /-- The sender of a transaction. -/
  sender : Transaction → Except StoreError Address

/-- A message's signature as bytes: the two numbers and 27 or 28. -/
def Curve.Signature.toBytes (sig : Curve.Signature) : Bytes :=
  Bytes.ofNat 32 sig.r.toNat ++ Bytes.ofNat 32 sig.s.toNat ++ [if sig.odd then 28 else 27]

/-- A signature from its 65 bytes; the last may also be the bare parity, or name a chain. -/
def Curve.Signature.ofBytes (b : Bytes) : Except StoreError Curve.Signature := do
  if b.length ≠ 65 then throw (.signing "expected exactly 65 bytes")
  let v := (b.getD 64 0).toNat
  let odd ←
    if v = 0 ∨ v = 27 then pure false
    else if v = 1 ∨ v = 28 then pure true
    else if 35 ≤ v then pure ((v - 35) % 2 == 1)
    else throw (.signing ("invalid parity: " ++ toString v))
  pure ⟨BitVec.ofNat 256 (Bytes.toNat (b.take 32)),
    BitVec.ofNat 256 (Bytes.toNat ((b.drop 32).take 32)), odd⟩

/-- How a character is shown in a message about it. -/
def Hex.shownByte (b : UInt8) : String :=
  let v := b.toNat
  if b = 0 then "\\0"
  else if b = 9 then "\\t"
  else if b = 10 then "\\n"
  else if b = 13 then "\\r"
  else if b = 39 then "\\'"
  else if b = 92 then "\\\\"
  else if v < 32 ∨ (127 ≤ v ∧ v ≤ 160) ∨ v = 173 then
    "\\u" ++ "\x7b" ++ String.ofList (Nat.toDigits 16 v) ++ "\x7d"
  else String.singleton (Char.ofNat v)

/-- The message for a text that is not hexadecimal. -/
def Hex.Error.message : Hex.Error → String
  | .oddLength => "odd number of digits"
  | .invalidCharacter b i =>
    "invalid character '" ++ Hex.shownByte b ++ "' at position " ++ toString i

/-- The private keys that a node holds, each beside its address. -/
structure KeyRing where
  keys : List (Address × Curve.PrivateKey)

namespace KeyRing

/-- A private key from its hexadecimal text. -/
def readKey (s : String) : Except StoreError Curve.PrivateKey :=
  match Hex.read s with
  | .error e => .error (.signing ("invalid key hex: " ++ e.message))
  | .ok b =>
    match Curve.PrivateKey.ofBytes? b with
    | none => .error (.signing "invalid private key: signature error")
    | some k => .ok k

/-- The ring of these keys. -/
def ofKeys (keys : List Curve.PrivateKey) : KeyRing := ⟨keys.map fun k => (k.address, k)⟩

/-- The keys from their hexadecimal texts; the first that is bad decides the error. -/
def read (keys : List String) : Except StoreError KeyRing := ofKeys <$> keys.mapM readKey

/-- The addresses of the keys, each once. -/
def addresses (ring : KeyRing) : List Address := (ring.keys.map (·.1)).eraseDups

/-- Signs with the key of an address. -/
def sign (ring : KeyRing) (account : Address) (data : Bytes) : Except StoreError Bytes :=
  match ring.keys.find? fun k => k.1 = account with
  | some k => .ok (k.2.sign (Keccak.digest data)).toBytes
  | none => .error (.signing ("no local key for " ++ Address.checksum account))

/-- The address whose signature of the bytes this is. -/
def recover (data signature : Bytes) : Except StoreError Address := do
  let sig ← Curve.Signature.ofBytes signature
  match sig.lowered.signer? (Keccak.digest data) with
  | some a => pure a
  | none => throw (.signing "signature error")

/-- The sender of a transaction. -/
def sender (tx : Transaction) : Except StoreError Address :=
  match tx.sender? with
  | some a => .ok a
  | none => .error (.unsignedTransaction "Failed to recover the signer")

/-- The ring as a signer. -/
def signer (ring : KeyRing) : Signer := ⟨ring.addresses, ring.sign, recover, sender⟩

end KeyRing
end SealedStore

import SealedStore.Signer
import SealedStore.Record.Identity
/-!
# Well-known accounts and sample transactions

Four accounts with published keys, and transactions that they send, for trying the store out.
-/
namespace SealedStore.Fixture

/-- Accounts whose private keys are published. -/
inductive Account where
  | alice
  | bob
  | charlie
  | deployer
deriving DecidableEq, Repr

namespace Account

/-- The account with a name. -/
def named? (s : String) : Option Account :=
  if s = "alice" then some alice
  else if s = "bob" then some bob
  else if s = "charlie" then some charlie
  else if s = "deployer" then some deployer
  else none

/-- The private key in hexadecimal. -/
def keyText : Account → String
  | alice => "ac0974bec39a17e36ba4a6b4d238ff944bacb478cbed5efcae784d7bf4f2ff80"
  | bob => "59c6995e998f97a5a0044966f0945389dc9e86dae88c7a8412f4603b6b78690d"
  | charlie => "5de4111afa1a4b94908f83103eb1f1706367c2e68ca870fc3fb9a804cdab365a"
  | deployer => "7c852118294e51e653712a81e05800f419141751be58f605c371e15141b007a6"

/-- The private key. -/
def key (a : Account) : Curve.PrivateKey :=
  ((KeyRing.readKey a.keyText).toOption).getD ⟨1, by decide, by decide⟩

/-- The address. -/
def address (a : Account) : Address := a.key.address

end Account

/-- The addresses of the accounts by name. -/
def addressBook : List (String × Address) :=
  [("alice", Account.alice.address), ("bob", Account.bob.address),
    ("charlie", Account.charlie.address), ("deployer", Account.deployer.address)]

/-- The namespace of sample records. -/
def sampleNamespace : String := "default:v0:ethBundles"

/-- A sample payload. -/
def samplePayload (nonce : BitVec 64) : Payload :=
  .dynamicFee 33626250 ⟨1000000000, 1000000⟩ (some (Octets.replicate 20 0x42)) []
    ⟨nonce, 21000, 0, Bytes.ofText "confidential"⟩

/-- The sample transaction, signed by an account. -/
def signedTx (a : Account) (nonce : BitVec 64) : Transaction :=
  (samplePayload nonce).signed (a.key.sign (samplePayload nonce).signingDigest)

/-- The sample transaction with a signature that no sender can be recovered from. -/
def unsignedTx (nonce : BitVec 64) : Transaction := (samplePayload nonce).signed ⟨0, 0, false⟩

end SealedStore.Fixture

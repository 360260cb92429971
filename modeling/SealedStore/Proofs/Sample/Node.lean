import SealedStore.Proofs.Engine.Deposit
import SealedStore.Proofs.Engine.Intake
import SealedStore.Proofs.Sample.Batch

/-! # A small node

An engine over the backend in memory, for one account whose signature is taken to be on everything:
enough to see statements about engines at work.
-/
namespace SealedStore.Sample

open Step

/-- The signer of the account, with these addresses as its own. -/
def signer (addresses : List Address) : Signer where
  addresses := addresses
  sign _ _ := .ok []
  recover _ _ := .ok account
  sender _ := .ok account

variable {τ : Type}

/-- An engine on a topic, with this name. -/
def node (topic : Topic τ) (uuid : Uuid) (keepsOutbox : Bool) : Engine Memory τ where
  backend := Memory.backend
  topic := topic
  signer := signer [account]
  uuid := uuid
  keepsOutbox := keepsOutbox

/-- An engine on the topic within the process. -/
abbrev engine (uuid : Uuid) (keepsOutbox : Bool) : Engine Memory (Hub Message) :=
  node Topic.ofHub uuid keepsOutbox

theorem checkPeeker_account (id : RecordId) (action : Action) :
    Engine.checkPeeker record id account action = .ok () :=
  Engine.checkPeeker_ok_iff.mpr (allowed_record.1 ▸ List.mem_singleton.mpr rfl)

section
variable (topic : Topic τ) (uuid : Uuid) (keepsOutbox : Bool)

theorem approved_write (key : String) (value : Bytes) :
    (node topic uuid keepsOutbox).Approved account (write key value) where
  derived := derivedId_record
  created := ⟨tx, account, allowed_record.2.2, rfl, rfl⟩
  mayReplicate := allowed_record.2.1 ▸ List.mem_singleton.mpr rfl
  mayWrite := allowed_record.1 ▸ List.mem_singleton.mpr rfl

/-- A message that another engine published is accepted. -/
theorem judge_message {origin : Uuid} (h : origin ≠ uuid) {ws : List StoreWrite}
    (hws : ∀ w ∈ ws, ∃ key value, w = write key value) :
    (node topic uuid keepsOutbox).judge (message origin ws) = .ok .accept := by
  refine Engine.judge_accept_iff.mpr ⟨account, rfl, ?_, fun w hw => ?_⟩
  · simp [Engine.isOwn, message, node, h]
  · obtain ⟨key, value, rfl⟩ := hws w hw
    exact approved_write topic uuid keepsOutbox key value

/-- The message that the node composes of writes. -/
theorem composes (ws : List StoreWrite) (hws : ws ≠ []) :
    (node topic uuid keepsOutbox).Composes tx ws (some (message uuid ws)) := by
  refine ⟨account, rfl, ?_⟩
  cases ws with
  | nil => exact absurd rfl hws
  | cons w ws => rfl

/-- The contract of the engine's backend. -/
def contract : (node topic uuid keepsOutbox).backend.Contract := Memory.contract

/-- A state of the engine that holds just these contents. -/
abbrev Holds (c : Contents) (s : Engine.State Memory τ) : Prop :=
  (Engine.view (contract topic uuid keepsOutbox).toView).Holds c s

theorem contract_reliable : (contract topic uuid keepsOutbox).Reliable := Memory.contract_reliable

theorem see_empty : (contract topic uuid keepsOutbox).see .empty = .empty := rfl

theorem holds_initial (t : τ) : Holds topic uuid keepsOutbox .empty (.initial Memory.empty t) :=
  ⟨trivial, rfl⟩

omit topic keepsOutbox in
theorem start_outcome (storage : Memory) (h : Hub Message) :
    (engine uuid true).start.outcome (.initial storage h) = .ok () :=
  Engine.requeuePending_outcome _

/-- What the node holds after such a message. -/
theorem see_receive {origin : Uuid} (h : origin ≠ uuid) {ws : List StoreWrite}
    (hws : ∀ w ∈ ws, ∃ key value, w = write key value) (s : Engine.State Memory τ) :
    (contract topic uuid keepsOutbox).see
      (((node topic uuid keepsOutbox).receive (message origin ws)).after s).storage =
        ((contract topic uuid keepsOutbox).see s.storage).ingestAll ws := by
  have hreceive := (Engine.receive_of_reliable (contract_reliable topic uuid keepsOutbox)
    (message origin ws) ((contract topic uuid keepsOutbox).see s.storage)).after
    (s := s) ⟨trivial, rfl⟩
  rw [Engine.taken_of_accept (judge_message topic uuid keepsOutbox h hws)] at hreceive
  exact hreceive.2

end

/-! ## A first value -/

/-- The batch of the record and a value under it, on a node with an outbox. -/
def firstBatch (topic : Topic τ) : Step (Engine.State Memory τ) Unit :=
  (node topic Octets.zero true).finalize tx [record] [write "k" [1]]

/-- The message of that batch. -/
def firstMessage : Message := message Octets.zero [write "k" [1]]

/-- What is held once the batch is committed. -/
def firstContents : Contents :=
  ((Contents.empty.pushed [] firstMessage).withRecords [record]).withWrites [write "k" [1]]

theorem ensures_firstBatch (topic : Topic τ) {E : StoreError → Engine.State Memory τ → Prop} :
    Ensures (Holds topic Octets.zero true .empty) (firstBatch topic)
      (fun _ => Holds topic Octets.zero true firstContents) E := by
  refine Engine.finalize_of_reliable (contract_reliable ..) .empty
    (id_ne_mempool "k" [1]) rfl (composes topic Octets.zero true _ (by simp)) rfl ?_
  exact ⟨List.nodup_cons.mpr ⟨nofun, List.nodup_nil⟩, fun _ _ => rfl⟩

theorem sameOutbox_firstContents :
    (Contents.empty.pushed [] firstMessage).SameOutbox firstContents := by
  rw [Contents.SameOutbox, firstContents,
    Contents.values_withWrites_of_ne _ (id_ne_outbox "k" [1]), Contents.values_withRecords]

theorem digests?_firstContents : firstContents.digests? = some [firstMessage.digest] :=
  sameOutbox_firstContents.digests?_eq.trans (Contents.empty.digests?_pushed rfl firstMessage)

theorem letter?_firstContents : firstContents.letter? firstMessage.digest = some firstMessage := by
  rw [sameOutbox_firstContents.letter?_eq, Contents.letter?_pushed, if_pos rfl,
    Message.decode?_encode]

end SealedStore.Sample

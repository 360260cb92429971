import SealedStore.Proofs.Backend.KeyValue
import SealedStore.Redis.Client

/-! # What is kept and sent reads back

Records are kept and messages are sent as text.  Whoever reads the text has the very record or
message, so that what was signed, hashed or named of it is the same on both sides
(`encodings_read_back`): a receiver hands on the message that was published, and a store that was
closed and opened again finds the record.
-/
namespace SealedStore

variable {σ : Type}

/-- A message that was sent arrives at those who subscribed, where the channel runs. -/
theorem Redis.Channel.deliver_encode (c : Channel σ) (m : Message) :
    c.deliver m.encode = if c.running then { c with hub := c.hub.publish m } else c := by
  rw [deliver, Message.decode?_encode]
  cases c.running <;> rfl

/-- A record is found in any state of a store in which its bytes are kept. -/
theorem KeyValue.Contract.outcome_fetch {kv : KeyValue σ} (K : kv.Contract fun _ => False)
    {r : Record} {s : σ} (h : K.see s (recordKey r.id) = some r.encode) :
    (kv.fetch r.id).outcome s = .ok r := by
  rw [(K.gives_fetch _ r.id).outcome rfl, recordAt, h]
  show decoded (Record.decode? r.encode) = _
  rw [Record.decode?_encode]
  rfl

/-- **Encodings read back.**  The bytes of a record or of a message decode to that record or
message; so what a reader has of it agrees in the bytes that are signed, in the id and in the
digest, a running channel that is delivered the bytes of a message hands on this message, and a
store that keeps the bytes of a record under its id finds this record. -/
theorem encodings_read_back :
    (∀ r : Record, Record.decode? r.encode = some r) ∧
    (∀ m : Message, Message.decode? m.encode = some m) ∧
    (∀ r s : Record, Record.decode? r.encode = some s →
      s.signableBytes = r.signableBytes ∧ s.derivedId = r.derivedId) ∧
    (∀ m n : Message, Message.decode? m.encode = some n →
      n.signableBytes = m.signableBytes ∧ n.digest = m.digest) ∧
    (∀ {σ : Type} (c : Redis.Channel σ) (m : Message), c.running = true →
      Redis.Channel.deliver m.encode c = { c with hub := c.hub.publish m }) ∧
    ∀ {σ : Type} {kv : KeyValue σ} (K : kv.Contract fun _ => False) (r : Record) (s : σ),
      K.see s (KeyValue.recordKey r.id) = some r.encode →
        (kv.backend.fetch r.id).outcome s = .ok r := by
  refine ⟨Record.decode?_encode, Message.decode?_encode, fun r s h => ?_,
    fun m n h => ?_, fun c m h => ?_, fun K r s h => K.outcome_fetch h⟩
  · obtain rfl : r = s := Option.some.inj (r.decode?_encode.symm.trans h)
    exact ⟨rfl, rfl⟩
  · obtain rfl : m = n := Option.some.inj (m.decode?_encode.symm.trans h)
    exact ⟨rfl, rfl⟩
  · rw [Redis.Channel.deliver_encode, if_pos h]

end SealedStore

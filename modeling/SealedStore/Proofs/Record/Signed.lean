import SealedStore.Proofs.Record.Identity
import SealedStore.Proofs.Record.Json

/-! # What signatures cover

The bytes that a signature covers determine what is signed: those of a record all its fields but the
signature (`Record.signableBytes_eq_iff`), those of a message its transaction, its writes and its
origin.  The digest of a message is taken of the covered bytes with the signature right behind them,
and no separator between the two.  The covered bytes are one structure, and no structure's text
starts another one's, so the signature is told from them and the bytes determine the message
(`Message.digested_eq_iff`).
-/
namespace SealedStore

open Function (Injective)

/-! ## Trees that determine what they are built of -/

/-- What reads back is written of nothing else. -/
theorem injective_of_reads {α β : Type} {write : α → β} {read : β → Option α}
    (h : ∀ x, read (write x) = some x) : Injective write := by
  intro x y he
  have hx := h x
  rw [he, h y] at hx
  exact (Option.some.inj hx).symm

theorem Uuid.text_injective : Injective Uuid.text := injective_of_reads Uuid.parse?_text

theorem Transaction.toJson_injective : Injective Transaction.toJson :=
  injective_of_reads (Transaction.ofJson?_toJson (show 0 + 4 ≤ Transaction.depthLimit by decide))

theorem StoreWrite.toJson_injective : Injective StoreWrite.toJson :=
  injective_of_reads (StoreWrite.ofJson?_toJson (show 0 + 6 ≤ Transaction.depthLimit by decide))

theorem Record.creationTx_eq_of_json {r s : Record} (h : r.creationJson = s.creationJson) :
    r.creationTx = s.creationTx := by
  -- the null that stands for no transaction is no transaction's tree, so both are read at once
  have hread : ∀ r : Record, Json.optional? (Transaction.ofJson? 0) (some r.creationJson) =
      some r.creationTx := Record.optional?_creationJson (by decide)
  have hr := hread r
  rw [h, hread s] at hr
  exact (Option.some.inj hr).symm

theorem Message.writes_eq_of_json {m n : Message} (h : m.writesJson = n.writesJson) :
    m.writes = n.writes :=
  (List.map_inj_right fun _ _ hw => StoreWrite.toJson_injective hw).mp (Json.array.inj h)

/-! ## What is covered -/

namespace Record

theorem isExact_signable (r : Record) :
    (Json.record (r.accessFields r.id ++ [("creationTx", r.creationJson)])).isExact = true := by
  simp [accessFields, r.isExact_creationJson]

/-- **A record's signature covers all its other fields**, and nothing of the signature itself. -/
theorem signableBytes_eq_iff {r s : Record} :
    r.signableBytes = s.signableBytes ↔ { r with signature := s.signature } = s := by
  constructor
  · intro h
    have htree := Json.render_injective r.isExact_signable s.isExact_signable h
    obtain ⟨haccess, hcreation⟩ := List.append_inj' (Json.record_injective htree) rfl
    obtain ⟨hid, hsame⟩ := sameAccess_of_accessFields haccess
    have htx := creationTx_eq_of_json (Prod.mk.inj (List.cons.inj hcreation).1).2
    obtain ⟨hsalt, hcondition, hpeekers, hstores, hversion⟩ := hsame
    cases s
    simp only [Record.mk.injEq, and_true]
    exact ⟨hid, hsalt, hcondition, hpeekers, hstores, hversion, htx⟩
  · intro h
    rw [← h]
    rfl

end Record

namespace Message

theorem isExact_signable (m : Message) : (Json.record [("sourceTx", m.sourceTx.toJson),
    ("storeUUID", .text (Uuid.text m.origin)), ("storeWrites", m.writesJson)]).isExact = true := by
  simp [writesJson, m.sourceTx.neat_toJson.exact]

/-- **What the digest is taken of determines the message**, its signature included. -/
theorem digested_eq_iff {m n : Message} :
    m.signableBytes ++ m.signature = n.signableBytes ++ n.signature ↔ m = n := by
  constructor
  · intro h
    obtain ⟨hfields, hsignature⟩ :=
      Json.render_record_append m.isExact_signable n.isExact_signable h
    simp only [List.cons.injEq, Prod.mk.injEq, true_and, and_true] at hfields
    obtain ⟨htx, horigin, hwrites⟩ := hfields
    cases n
    cases m
    simp only [Message.mk.injEq]
    exact ⟨Transaction.toJson_injective htx, writes_eq_of_json hwrites,
      Uuid.text_injective (Json.text_injective horigin), hsignature⟩
  · rintro rfl
    rfl

end Message

/-- **Encodings that are hashed or signed are unambiguous.**  The bytes a record's id is
derived from are the same exactly if the access fields are, the bytes its signature covers
exactly if all fields but the signature are, and the bytes a message's digest is taken of
exactly if the messages are. -/
theorem encodings_unambiguous :
    (∀ r s : Record, r.canonicalBytes = s.canonicalBytes ↔ r.SameAccess s) ∧
    (∀ r s : Record, r.signableBytes = s.signableBytes ↔ { r with signature := s.signature } = s) ∧
    ∀ m n : Message, m.signableBytes ++ m.signature = n.signableBytes ++ n.signature ↔ m = n :=
  ⟨fun _ _ => Record.canonicalBytes_eq_iff, fun _ _ => Record.signableBytes_eq_iff,
    fun _ _ => Message.digested_eq_iff⟩

end SealedStore

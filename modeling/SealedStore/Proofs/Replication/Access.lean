import SealedStore.Proofs.Sample.Node
import SealedStore.Proofs.Session

/-! # Who may change what by a message

A message is checked against the copies of records that it carries.  On every backend that a run
from an empty one leads to, these checks bind what is held as well (`receive_authorized`):
whoever adds a record or changes a value by a message may replicate the record that is held
under that id, and every changed value is written in the message by an account that may write
under that record.  The argument goes from the copy to what is held through the id, which both
derive from their contents.
-/
namespace SealedStore

/-- The records that a message meets: those held and those it carries. -/
def Message.Meets (m : Message) (c : Contents) (r : Record) : Prop :=
  (∃ id, c.records id = some r) ∨ ∃ w ∈ m.writes, w.record = r

/-- Different canonical bytes have different derived ids among these records. -/
def Record.CollisionFree (among : Record → Prop) : Prop :=
  ∀ r q, among r → among q → r.derivedId = q.derivedId → r.canonicalBytes = q.canonicalBytes

theorem Record.CollisionFree.sameAccess {among : Record → Prop}
    (h : CollisionFree among) {r q : Record}
    (hr : among r) (hq : among q) (hid : r.derivedId = q.derivedId) : r.SameAccess q :=
  canonicalBytes_eq_iff.mp (h r q hr hq hid)

namespace Engine

variable {σ τ : Type} {e : Engine σ τ}

/-- What an absorbed message leaves under the id of one of its writes agrees with the copy in the
write on who may do what. -/
theorem sameAccess_of_absorbs {m : Message} {c d : Contents} (hc : c.Genuine)
    (hd : Contents.Absorbs (e.taken m) c d) (hfree : Record.CollisionFree (m.Meets c))
    {w : StoreWrite} (hw : w ∈ e.taken m) {r : Record} (hr : d.records w.record.id = some r) :
    r.SameAccess w.record := by
  obtain ⟨hmem, _, -, hw⟩ := approved_of_taken hw
  have hgrows : c.GrowsTo d := hd.growsTo fun v hv => by
    obtain ⟨-, _, -, hv⟩ := approved_of_taken hv
    exact hv.derived
  -- what is held bears its derived id, and so does the copy
  have hderived : r.derivedId = w.record.derivedId := by
    rw [(hgrows.genuine hc _ _ hr).2, hw.derived]
  have hmet : m.Meets c r := by
    rcases hd.records w.record.id with hsame | ⟨-, v, hv, -, hcarried⟩
    · exact .inl ⟨w.record.id, hsame ▸ hr⟩
    · rw [hr] at hcarried
      exact .inr ⟨v, (approved_of_taken hv).1, (Option.some.inj hcarried).symm⟩
  exact hfree.sameAccess hmet (.inr ⟨w, hmem, rfl⟩) hderived

/-- An absorbed message that changed something under an id has a write under that id, and a
record is held there. -/
theorem exists_write_of_change {m : Message} {c d : Contents}
    (hd : Contents.Absorbs (e.taken m) c d)
    {id : RecordId} (hchange : d.records id ≠ c.records id ∨
      ∃ key, d.values id key ≠ c.values id key) :
    ∃ w ∈ e.taken m, w.record.id = id ∧ ∃ r, d.records id = some r := by
  rcases hchange with hrecord | ⟨key, hvalue⟩
  · rcases hd.records id with hsame | ⟨-, w, hw, hid, hr⟩
    · exact absurd hsame hrecord
    · exact ⟨w, hw, hid, w.record, hr⟩
  · rcases hd.values id key with hsame | ⟨w, hw, hid, -, -, hheld⟩
    · exact absurd hsame hvalue
    · exact ⟨w, hw, hid, Option.ne_none_iff_exists'.mp hheld⟩

/-- **Replication access control.**  On any backend that a run from an empty one leads to, whatever
fails: a message that adds a record under an id or changes a value there bears the signature of its
transaction's sender; the record that is then held lists this account among those who may replicate
it; and for every value that changed the message has a write of just this id and key, by an account
that may write under the record that is held. -/
theorem receive_authorized {C : e.backend.Contract} {s : Session σ τ}
    (h : s.Reachable C) (m : Message)
    (hfree : Record.CollisionFree (m.Meets (C.see s.engine.storage))) {d : Contents}
    (hd : d = C.see ((e.receive m).after s.engine).storage) {id : RecordId}
    (hchange : d.records id ≠ (C.see s.engine.storage).records id ∨
      ∃ key, d.values id key ≠ (C.see s.engine.storage).values id key) :
    ∃ a r, e.signer.recover m.signableBytes m.signature = .ok a ∧
      e.signer.sender m.sourceTx = .ok a ∧
      d.records id = some r ∧ a ∈ r.allowedStores ∧
      ∀ key, d.values id key ≠ (C.see s.engine.storage).values id key →
        ∃ w ∈ m.writes, w.record.id = id ∧ w.key = key ∧ w.caller ∈ r.allowedPeekers := by
  subst hd
  have hsound := h.sound
  obtain ⟨habsorbs, -⟩ := absorbs_receive C m hsound.holds
  obtain ⟨w, hw, rfl, r, hr⟩ := exists_write_of_change habsorbs hchange
  have hsame := sameAccess_of_absorbs hsound.genuine habsorbs hfree hw hr
  obtain ⟨-, a, ha, happroved⟩ := approved_of_taken hw
  obtain ⟨hrecover, hsender⟩ := author_ok_iff.mp ha
  refine ⟨a, r, hrecover, hsender, hr, hsame.allowedStores ▸ happroved.mayReplicate,
    fun key hkey => ?_⟩
  rcases habsorbs.values w.record.id key with hold | ⟨v, hv, hid, hvkey, -, -⟩
  · exact absurd hold hkey
  · -- the write of this value may be another one than `w`, but its copy agrees with the same record
    obtain ⟨hmem, _, -, hvapproved⟩ := approved_of_taken hv
    have hvsame := sameAccess_of_absorbs hsound.genuine habsorbs hfree hv (hid ▸ hr)
    exact ⟨v, hmem, hid, hvkey, hvsame.allowedPeekers ▸ hvapproved.mayWrite⟩

/-- The statement at a message that overwrites the value that another one brought. -/
theorem receive_authorized_overwrite :
    let e := Sample.engine (Octets.replicate 16 1) false
    let C := Sample.contract Topic.ofHub (Octets.replicate 16 1) false
    let m (v : UInt8) := Sample.message Octets.zero [Sample.write "k" [v]]
    ∃ s : Session Memory (Hub Message), s.Reachable C ∧
      Record.CollisionFree ((m 2).Meets (C.see s.engine.storage)) ∧
      ∃ d, d = C.see ((e.receive (m 2)).after s.engine).storage ∧
        d.values Sample.record.id "k" ≠ (C.see s.engine.storage).values Sample.record.id "k" ∧
        ∃ a r, e.signer.recover (m 2).signableBytes (m 2).signature = .ok a ∧
          e.signer.sender (m 2).sourceTx = .ok a ∧ d.records Sample.record.id = some r ∧
          a ∈ r.allowedStores ∧
          ∀ key, d.values Sample.record.id key ≠ (C.see s.engine.storage).values
            Sample.record.id key → ∃ w ∈ (m 2).writes,
              w.record.id = Sample.record.id ∧ w.key = key ∧
              w.caller ∈ r.allowedPeekers := by
  intro e C m
  have hne : (Octets.zero : Uuid) ≠ Octets.replicate 16 1 := by decide
  have hwrites : ∀ v, ∀ w ∈ [Sample.write "k" [v]], ∃ key value, w = Sample.write key value := by
    intro v w hw
    exact ⟨"k", [v], List.mem_singleton.mp hw⟩
  have hreachable : (Session.run e (.initial Memory.empty .empty) [.receive (m 1)]).Reachable C :=
    ⟨Memory.empty, .empty, [.receive (m 1)], trivial, Sample.see_empty .., rfl⟩
  have hc : C.see (Session.run e (.initial Memory.empty .empty) [.receive (m 1)]).engine.storage =
      Contents.empty.ingestAll [Sample.write "k" [1]] := by
    rw [Session.run_cons, Session.run_nil, Session.engine_act_receive]
    exact Sample.see_receive _ _ _ hne (hwrites 1) _
  generalize Session.run e (.initial Memory.empty .empty) [.receive (m 1)] = s at hreachable hc
  obtain ⟨d, hd⟩ : ∃ d, d = C.see ((e.receive (m 2)).after s.engine).storage := ⟨_, rfl⟩
  have hd' : d = (C.see s.engine.storage).ingestAll [Sample.write "k" [2]] :=
    hd.trans (Sample.see_receive _ _ _ hne (hwrites 2) s.engine)
  have hfree : Record.CollisionFree ((m 2).Meets (C.see s.engine.storage)) := by
    have hmeets : ∀ r, (m 2).Meets (C.see s.engine.storage) r → r = Sample.record := by
      rintro r (⟨id, hr⟩ | ⟨w, hw, rfl⟩)
      · rw [hc, Contents.records_ingestAll] at hr
        simp only [Contents.empty, Option.none_or, Option.map_eq_some_iff] at hr
        obtain ⟨w, hw, rfl⟩ := hr
        rw [List.mem_singleton.mp (List.mem_of_find?_eq_some hw)]
        rfl
      · rw [List.mem_singleton.mp hw]
        rfl
    intro r q hr hq _
    rw [hmeets r hr, hmeets q hq]
  have hchange : d.values Sample.record.id "k" ≠ (C.see s.engine.storage).values
      Sample.record.id "k" := by
    rw [hd', Contents.values_ingestAll, hc, Contents.values_ingestAll]
    simp [StoreWrite.latest?_singleton, Sample.write]
  exact ⟨s, hreachable, hfree, d, hd, hchange,
    receive_authorized hreachable (m 2) hfree hd (.inr ⟨"k", hchange⟩)⟩

end Engine
end SealedStore

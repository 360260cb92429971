import SealedStore.Proofs.Session

/-! # Authentic records

A record is authentic to a signer if its id is derived from its contents and its signature is, as
the signer recovers it, that of the sender of the transaction that created it.  This is just what
intake checks of a record (`Engine.approved_iff`), and a node that prepares a record makes it so for
everyone who recovers what the node signs (`authentic_of_prepare`).  Hence all that is held and
staged is authentic on every run without messages from others (`Session.act_attested`): what a draft
call may do to a draft keeps it so, and a finalization keeps records of drafts alone.  To the node
itself it is authentic on every run at all (`Session.Reachable.attested`), since a message brings no
record that the node has not checked.
-/
namespace SealedStore

open Step

/-- Whether a signer recovers each account that another signs for, and knows the senders
that the other knows. -/
structure Signer.Verifies (v a : Signer) : Prop where
  sender : ∀ tx account, a.sender tx = .ok account → v.sender tx = .ok account
  recover : ∀ account data signature, a.sign account data = .ok signature →
    v.recover data signature = .ok account

/-- **An authentic record**, as a signer sees it. -/
structure Record.Authentic (v : Signer) (r : Record) : Prop where
  derived : r.derivedId = r.id
  created : ∃ tx creator, r.creationTx = some tx ∧ v.sender tx = .ok creator ∧
    v.recover r.signableBytes r.signature = .ok creator

/-- All records are authentic. -/
def Contents.Attested (v : Signer) (c : Contents) : Prop :=
  ∀ id r, c.records id = some r → r.Authentic v

theorem Contents.Attested.gains {v : Signer} {c d : Contents} {rs : List Record} (h : c.Attested v)
    (hd : Gains rs c d) (hrs : ∀ r ∈ rs, r.Authentic v) : d.Attested v := by
  intro id r hr
  rcases hd id with hold | ⟨-, q, hq, -, hnew⟩
  · exact h id r (hold ▸ hr)
  · rw [hnew] at hr
    cases hr
    exact hrs _ hq

variable {σ τ : Type} {e : Engine σ τ} {v : Signer}

/-- **What is checked of a write** is that its record is authentic, and who may do what with it. -/
theorem Engine.approved_iff {a : Address} {w : StoreWrite} : e.Approved a w ↔
    w.record.Authentic e.signer ∧ a ∈ w.record.allowedStores ∧
      w.caller ∈ w.record.allowedPeekers := by
  constructor
  · intro h
    exact ⟨⟨h.derived, h.created⟩, h.mayReplicate, h.mayWrite⟩
  · rintro ⟨h, hstore, hpeeker⟩
    exact ⟨h.derived, h.created, hstore, hpeeker⟩

/-- **A prepared record is authentic** to whoever recovers what the node signs. -/
theorem Engine.authentic_of_prepare (hv : v.Verifies e.signer) {r q : Record} {tx : Transaction}
    (h : e.prepare r tx = .ok q) : q.Authentic v := by
  refine ⟨Draft.derivedId_of_prepare h, ?_⟩
  unfold prepare at h
  obtain ⟨id, -, h⟩ := Check.bind_ok_iff.mp h
  obtain ⟨creator, hcreator, h⟩ := Check.bind_ok_iff.mp h
  obtain ⟨signature, hsignature, h⟩ := Check.bind_ok_iff.mp h
  cases Check.pure_ok_iff.mp h
  -- the signature is not among the fields that it covers
  exact ⟨tx, creator, rfl, hv.sender tx creator hcreator, hv.recover _ _ _ hsignature⟩

/-! ## Drafts -/

/-- A draft whose records are all authentic, and whose writes are all by accounts that may write. -/
structure Draft.Attested (v : Signer) (d : Draft) : Prop where
  staged : ∀ r ∈ d.records.values, r.Authentic v
  written : ∀ w ∈ d.writes, w.record.Authentic v
  mayWrite : ∀ w ∈ d.writes, w.caller ∈ w.record.allowedPeekers

theorem Draft.attested_begin (tx : Transaction) : (begin tx).Attested v :=
  ⟨List.forall_mem_nil _, List.forall_mem_nil _, List.forall_mem_nil _⟩

theorem Draft.attested_emptied (d : Draft) : d.emptied.Attested v :=
  ⟨List.forall_mem_nil _, List.forall_mem_nil _, List.forall_mem_nil _⟩

theorem Draft.Attested.moves (hv : v.Verifies e.signer) {c : Contents} {d f : Draft}
    (h : d.Attested v) (hc : c.Attested v) (hf : d.Moves e c f) : f.Attested v := by
  cases hf with
  | rest => exact h
  | @stage r q hq hnone =>
    refine ⟨fun p hp => ?_, h.written, h.mayWrite⟩
    rw [Table.values_insert_of_absent q hnone, List.mem_append, List.mem_singleton] at hp
    rcases hp with hp | rfl
    · exact h.staged p hp
    · exact e.authentic_of_prepare hv hq
  | @write r caller key value hr hpeeker =>
    have hauthentic : r.Authentic v := hr.elim (h.staged r) fun ⟨id, hr⟩ => hc id r hr
    refine ⟨h.staged, fun w hw => ?_, fun w hw => ?_⟩
    · rcases List.mem_append.mp hw with hw | hw
      · exact h.written w hw
      · cases List.mem_singleton.mp hw
        exact hauthentic
    · rcases List.mem_append.mp hw with hw | hw
      · exact h.mayWrite w hw
      · cases List.mem_singleton.mp hw
        exact hpeeker

/-! ## Sessions -/

namespace Session

/-- **All records of a session are authentic**, those that are held and those of drafts. -/
structure Attested (v : Signer) (C : e.backend.Contract) (s : Session σ τ) : Prop where
  held : (C.see s.engine.storage).Attested v
  drafts : ∀ d ∈ s.drafts, d.Attested v

variable {C : e.backend.Contract}

theorem attested_initial {storage : σ} (hempty : C.see storage = .empty) (topic : τ) :
    Attested v C (initial storage topic) := by
  refine ⟨fun id r hr => ?_, List.forall_mem_nil _⟩
  rw [show C.see (initial storage topic).engine.storage = .empty from hempty] at hr
  cases hr

/-- Drafts prepare authentic records, commits keep records of drafts alone, and messages that are
taken in bring records that were checked. -/
theorem stable_attested (hv : v.Verifies e.signer) {A : Message → Prop}
    (hA : ∀ m, A m → v = e.signer) :
    Stable e A (Contents.Attested v) (Draft.Attested v) where
  begin _ := Draft.attested_begin _
  emptied := Draft.attested_emptied
  moves hc hd hf := hd.moves hv hc hf
  committed hc hd _ hf := hc.gains hf.recordFrom hd.staged
  stored _ _ hc _ := hc
  absorbed hm hc hd := by
    obtain rfl := hA _ hm
    intro id r hr
    rcases hd.records id with hold | ⟨-, w, hw, -, hnew⟩
    · exact hc id r (hold ▸ hr)
    · cases hnew.symm.trans hr
      obtain ⟨-, _, -, happroved⟩ := Engine.approved_of_taken hw
      exact (Engine.approved_iff.mp happroved).1
  mail hc hd id r hr := hc id r (hd.records ▸ hr)

/-- **Every event but the arrival of a message keeps a session attested.** -/
theorem act_attested (hv : v.Verifies e.signer) {s : Session σ τ} (hs : Sound C s)
    (h : Attested v C s) {event : Event} (hevent : ∀ m, event ≠ .receive m) :
    Attested v C (act e s event) := by
  obtain ⟨hheld, hdrafts⟩ := (stable_attested hv (A := fun _ => False) nofun).act hs
    ⟨h.held, h.drafts⟩ hevent
  exact ⟨hheld, hdrafts⟩

/-- **Every run leaves a session attested**, as the node that makes it sees it. -/
theorem Reachable.attested (hv : e.signer.Verifies e.signer) {s : Session σ τ} (h : Reachable C s) :
    Attested e.signer C s := by
  obtain ⟨hheld, hdrafts⟩ := (stable_attested hv fun _ _ => rfl).reachable nofun h
  exact ⟨hheld, hdrafts⟩

end Session
end SealedStore

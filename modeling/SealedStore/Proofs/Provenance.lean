import SealedStore.Proofs.Sample.Exchange

/-! # Where records come from

A record enters a backend by one of two ways: a draft of the node prepares and commits it, or a
message brings it that the node has checked.  Both leave it authentic to the node, and so does
everything that keeps it: a commit that stops half-way, a second record under its id that is
refused, the text it is written as.  So whatever is fetched bears the id it is fetched by and the
signature of the account that created it (`Session.fetched_authentic`).
-/
namespace SealedStore.Session

open Step

/-- **Whatever is fetched is authentic.**  A node may run drafts of its own, succeed or fail with
them anywhere, and take in any messages, over any backend that keeps its contract: the one in
memory, the one over a key-value store, and both with calls that are refused.  Of its signer nothing
is asked but that it recovers the accounts it signs for. -/
theorem fetched_authentic {σ τ : Type} {e : Engine σ τ} {C : e.backend.Contract}
    (hsign : ∀ account data signature, e.signer.sign account data = .ok signature →
      e.signer.recover data signature = .ok account)
    {s : Session σ τ} (hs : s.Reachable C) {id : RecordId} {r : Record}
    (hr : (e.backend.fetch id).outcome s.engine.storage = .ok r) :
    r.id = id ∧ r.derivedId = id ∧ ∃ tx creator, r.creationTx = some tx ∧
      e.signer.sender tx = .ok creator ∧
      e.signer.recover r.signableBytes r.signature = .ok creator := by
  have hheld : (C.see s.engine.storage).records id = some r :=
    ((C.fetch _ id).ok (s := s.engine.storage) ⟨hs.sound.valid, rfl⟩ hr).1
  have hattested := hs.attested ⟨fun _ _ h => h, hsign⟩
  obtain ⟨hid, hderived⟩ := hs.sound.genuine id r hheld
  exact ⟨hid, hderived, (hattested.held id r hheld).created⟩

/-- The statement at the record of a node that committed it in memory, and of one that was sent it
and keeps it as text. -/
theorem fetched_authentic_record :
    let s := run Sample.publisher (initial Memory.empty .empty) (Sample.staging ++ [.finalize 0])
    let t := run Sample.subscriber (initial .empty .empty) [.receive Sample.firstMessage]
    s.Reachable Sample.publisherContract ∧ t.Reachable Sample.subscriberContract ∧
      (Sample.publisher.backend.fetch Sample.record.id).outcome s.engine.storage =
        .ok Sample.record ∧
      (Sample.subscriber.backend.fetch Sample.record.id).outcome t.engine.storage =
        .ok Sample.record ∧
      Sample.record.derivedId = Sample.record.id ∧
      Sample.publisher.signer.recover Sample.record.signableBytes Sample.record.signature =
        .ok Sample.account ∧
      Sample.subscriber.signer.recover Sample.record.signableBytes Sample.record.signature =
        .ok Sample.account := by
  intro s t
  have hs : s.Reachable Sample.publisherContract := ⟨Memory.empty, .empty, _, trivial, rfl, rfl⟩
  have ht : t.Reachable Sample.subscriberContract :=
    ⟨.empty, .empty, _, KeyValue.readable_empty, KeyValue.contents_empty, rfl⟩
  have hcommitted : (Sample.publisher.backend.fetch Sample.record.id).outcome s.engine.storage =
      .ok Sample.record := by
    have hfetch := Memory.contract_reliable.fetch Sample.record.id s.engine.storage trivial
    rw [show Memory.contract.see s.engine.storage = Sample.firstContents from Sample.see_first,
      Sample.records_firstContents] at hfetch
    exact hfetch
  have hsent : (Sample.subscriber.backend.fetch Sample.record.id).outcome t.engine.storage =
      .ok Sample.record := by
    have hreliable : Sample.subscriberContract.Reliable := KeyValue.tableContract.backend_reliable
    obtain ⟨hvalid, hsee⟩ := (Engine.receive_of_reliable hreliable Sample.firstMessage .empty).after
      (s := .initial .empty .empty) ⟨KeyValue.readable_empty, KeyValue.contents_empty⟩
    rw [Engine.taken_of_accept Sample.judge_firstMessage] at hsee
    have hfetch := hreliable.fetch Sample.record.id t.engine.storage hvalid
    rw [show Sample.subscriberContract.see t.engine.storage = _ from hsee,
      Contents.records_ingestAll] at hfetch
    simpa [Sample.firstMessage, Sample.message, Sample.write, Contents.empty] using hfetch
  obtain ⟨-, hderived, tx, creator, htx, hcreator, hrecover⟩ :=
    fetched_authentic (fun _ _ _ h => Sample.recover_honest [Sample.account] h) hs hcommitted
  obtain ⟨-, -, tx', creator', htx', hcreator', hrecover'⟩ :=
    fetched_authentic (fun _ _ _ h => Sample.recover_honest [] h) ht hsent
  cases hcreator
  cases hcreator'
  exact ⟨hs, ht, hcommitted, hsent, hderived, hrecover, hrecover'⟩

end SealedStore.Session

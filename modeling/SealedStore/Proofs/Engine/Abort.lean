import SealedStore.Proofs.Sample.Node

/-! # What a failed batch takes out of the outbox

A batch that fails takes its message out of the outbox by digest, and does so too where the digest
was listed before it came.  So what waits is left as it was just where no earlier message waits
under the digest of the batch (`pending_after_failure_iff`); a batch that is handed in again after
it was committed fails on its records and takes the message of the first one along
(`resubmission_drops_pending`).
-/
namespace SealedStore

open Step

namespace Engine

variable {σ τ : Type} {e : Engine σ τ}

/-- **A failed batch leaves what waits as it was just where nothing waits under its own digest.**
The two reserved records are excluded as targets of its writes; they have no derived ids, and a
draft stages writes under records with derived ids alone. -/
theorem pending_after_failure_iff {C : e.backend.Contract} (hC : C.ServesOutbox)
    (hkeeps : e.keepsOutbox = true) {tx : Transaction} {rs : List Record} {ws : List StoreWrite}
    (hmempool : ∀ w ∈ ws, w.record.id ≠ Record.mempool.id)
    (houtbox : ∀ w ∈ ws, w.record.id ≠ Record.outbox.id) {s : State σ τ} (hs : C.Valid s.storage)
    {err : StoreError} (hfail : (e.finalize tx rs ws).outcome s = .error err) :
    (Outbox.pending e.backend).outcome ((e.finalize tx rs ws).after s).storage =
        (Outbox.pending e.backend).outcome s.storage ↔
      ∀ m, e.Composes tx ws (some m) → ¬ (C.see s.storage).Awaits m.digest := by
  have hfinalize := finalize_outbox hC (C.see s.storage) hkeeps tx rs hmempool houtbox
  obtain ⟨d, hd, hvalid, rfl⟩ := hfinalize.error ⟨hs, rfl⟩ hfail
  rw [Outbox.pending_outcome_eq_iff hC hs hvalid]
  -- a batch without an author or a signature fails before it touches anything
  rcases hd with ⟨hnone, hsame⟩ | ⟨message, hmessage, hwithdrawn⟩
  · have hsame : (C.see ((e.finalize tx rs ws).after s).storage) = C.see s.storage := hsame
    exact ⟨fun _ m hm => absurd hm (hnone _), fun _ => by rw [hsame]⟩
  · cases message with
    | none =>
      refine ⟨fun _ m hm => ?_, fun _ => Contents.SameOutbox.waiting?_eq hwithdrawn⟩
      cases hmessage.unique hm
    | some m =>
      have hwaiting := hwithdrawn.waiting?_eq
      constructor
      · rintro hsame m' hm'
        cases hmessage.unique hm'
        exact ((C.see s.storage).waitingBut?_eq_waiting?_iff m.digest).mp
          (hwaiting.symm.trans hsame)
      · intro h
        exact hwaiting.trans
          (((C.see s.storage).waitingBut?_eq_waiting?_iff m.digest).mpr (h m hmessage))

end Engine

/-! ## A batch handed in twice -/

namespace Sample

/-- Handed in again, the batch fails on its record and takes out the message that was there. -/
theorem firstBatch_again {s : Engine.State Memory (Hub Message)}
    (hs : Holds Topic.ofHub Octets.zero true firstContents s) :
    (∃ err, (firstBatch Topic.ofHub).outcome s = .error err) ∧
      ((contract Topic.ofHub Octets.zero true).see
        ((firstBatch Topic.ofHub).after s).storage).waiting? = some [] := by
  have hserves := (contract_reliable Topic.ofHub Octets.zero true).servesOutbox
  have hfinalize := Engine.finalize_outbox hserves firstContents rfl tx [record]
    (id_ne_mempool "k" [1]) (id_ne_outbox "k" [1])
  cases hout : (firstBatch Topic.ofHub).outcome s with
  | ok a =>
    -- a batch succeeds on new records alone, and this one's record is held
    obtain ⟨_, -, _, -, hnew, -⟩ := hfinalize.ok hs hout
    have habsent := hnew.absent record (List.mem_singleton.mpr rfl)
    rw [firstContents, Contents.records_withWrites] at habsent
    have hheld : ((Contents.empty.pushed [] firstMessage).withRecords [record]).records record.id =
      some record := Contents.records_withRecord_self _ record
    rw [hheld] at habsent
    cases habsent
  | error err =>
    refine ⟨⟨err, rfl⟩, ?_⟩
    obtain ⟨d, hd, -, rfl⟩ := hfinalize.error hs hout
    have hcomposes := composes Topic.ofHub Octets.zero true [write "k" [1]] (by simp)
    rcases hd with ⟨hnone, -⟩ | ⟨message, hmessage, hwithdrawn⟩
    · exact absurd hcomposes (hnone _)
    · -- the message that is taken out is the one that was there
      cases hcomposes.unique hmessage
      refine hwithdrawn.waiting?_eq.trans ?_
      rw [Contents.waitingBut?, digests?_firstContents]
      show some (([firstMessage.digest].filter (· ≠ firstMessage.digest)).filterMap _) = _
      simp

end Sample

namespace Engine

/-- **A batch handed in again drops its own earlier message.**  The first call commits the batch and
its message waits; the second call fails, and no message waits. -/
theorem resubmission_drops_pending :
    let e := Sample.engine Octets.zero true
    let batch := e.finalize Sample.tx [Sample.record] [Sample.write "k" [1]]
    let s := batch.after (.initial .empty .empty)
    batch.outcome (.initial .empty .empty) = .ok () ∧ (∃ err, batch.outcome s = .error err) ∧
      (Outbox.pending e.backend).outcome s.storage =
        .ok [Sample.message Octets.zero [Sample.write "k" [1]]] ∧
      (Outbox.pending e.backend).outcome (batch.after s).storage = .ok [] := by
  intro e batch s
  obtain ⟨⟨⟩, hok, hs⟩ := (Sample.ensures_firstBatch Topic.ofHub).exists_ok
    (Sample.holds_initial ..)
  obtain ⟨hfail, hafter⟩ := Sample.firstBatch_again hs
  have hserves := (Sample.contract_reliable Topic.ofHub Octets.zero true).servesOutbox
  refine ⟨hok, hfail, ?_, ?_⟩
  · have hsee : (Sample.contract Topic.ofHub Octets.zero true).see s.storage =
        Sample.firstContents := hs.2
    have hwaiting : ((Sample.contract Topic.ofHub Octets.zero true).see s.storage).waiting? =
        some [Sample.firstMessage] := by
      rw [hsee, Contents.waiting?, Sample.digests?_firstContents]
      simp [Sample.letter?_firstContents]
    rw [Outbox.pending_outcome hserves hs.1, hwaiting]
    rfl
  · rw [Outbox.pending_outcome hserves (s := (batch.after s).storage) trivial]
    have hafter : ((Sample.contract Topic.ofHub Octets.zero true).see
        (batch.after s).storage).waiting? = some [] := hafter
    rw [hafter]

/-- The statement at that second call. -/
theorem pending_after_resubmission :
    let e := Sample.engine Octets.zero true
    let C := Sample.contract Topic.ofHub Octets.zero true
    let batch := e.finalize Sample.tx [Sample.record] [Sample.write "k" [1]]
    let s := batch.after (.initial .empty .empty)
    (∃ err, batch.outcome s = .error err) ∧
      ((Outbox.pending e.backend).outcome (batch.after s).storage =
        (Outbox.pending e.backend).outcome s.storage ↔
        ∀ m, e.Composes Sample.tx [Sample.write "k" [1]] (some m) →
          ¬ (C.see s.storage).Awaits m.digest) := by
  intro e C batch s
  obtain ⟨⟨⟩, -, hs⟩ := (Sample.ensures_firstBatch Topic.ofHub).exists_ok (Sample.holds_initial ..)
  obtain ⟨⟨err, hfail⟩, -⟩ := Sample.firstBatch_again hs
  have hserves := (Sample.contract_reliable Topic.ofHub Octets.zero true).servesOutbox
  exact ⟨⟨err, hfail⟩, pending_after_failure_iff hserves rfl (Sample.id_ne_mempool "k" [1])
    (Sample.id_ne_outbox "k" [1]) trivial hfail⟩

end Engine
end SealedStore

import SealedStore.Network
import SealedStore.Proofs.Replication.Deliverable
import SealedStore.Proofs.Sample.Node

/-! # What a restart brings back

A node that is started anew takes up what waits in its outbox, publishes it, and may receive it
itself under its new name.  `Session.recovery` says what that changes: no record and no list, and a
value exactly where the last of those messages that writes it carries another one.
`Session.restart_rolls_back` is such a case.
-/
namespace SealedStore

open Step StoreWrite

/-- The engine of a node that is started anew: another name, and all else alike. -/
abbrev Engine.restarted {σ τ : Type} (e : Engine σ τ) (uuid : Uuid) : Engine σ τ := { e with uuid }

namespace Session

/-- The message that arrives, if one does. -/
def Event.delivered? : Event → Option Message
  | receive m => some m
  | _ => none

/-- Whether an event is a publication or the arrival of a message. -/
def Event.IsRelay : Event → Prop
  | receive _ => True
  | publish => True
  | _ => False

variable {σ τ : Type} {e : Engine σ τ} {C : e.backend.Contract} (hC : C.Reliable)
include hC

/-- What is held after publications and arrivals, save in the outbox: what was
held and what arrived. -/
theorem holdsOff_relay (events : List Event) (hevents : ∀ event ∈ events, event.IsRelay)
    {c : Contents} {s : Session σ τ} (hs : Engine.HoldsOff C c s.engine) :
    Engine.HoldsOff C (c.ingestAll ((events.filterMap Event.delivered?).flatMap e.taken))
      (run e s events).engine := by
  induction events generalizing c s with
  | nil => exact hs
  | cons event events ih =>
    have hrest := fun event hevent => hevents event (List.mem_cons_of_mem _ hevent)
    have hevent := hevents event List.mem_cons_self
    cases event with
    | receive m =>
      obtain ⟨d, hd, hs⟩ := hs
      have hafter := (Engine.receive_of_reliable hC m d).after hs
      have h := ih hrest (s := act e s (.receive m)) ⟨_, hd.ingestAll (e.taken m), hafter⟩
      rwa [← Contents.ingestAll_append] at h
    | publish => exact ih hrest ((Engine.publishNext_keeps C c).after hs)
    | _ => cases hevent

/-- **What a restart changes on the node itself.**  Whatever the run before it and whichever of its
publications were refused, the start hands over all that waits; once that has come back to the node
in order, among any publications, every record and every list is as it was.  A value outside the
outbox is the one that the last accepted message wrote there, and so it changes exactly if that is
not the value that was held. -/
theorem recovery (hkeeps : e.keepsOutbox = true) {s : Session σ τ} (h : s.Reachable C) (uuid : Uuid)
    {topic : τ} (hstart : (e.restarted uuid).start.outcome
      (.initial s.engine.storage topic) = .ok ()) :
    let t := (e.restarted uuid).start.after (.initial s.engine.storage topic)
    ∃ ms, (Outbox.pending e.backend).outcome s.engine.storage = .ok ms ∧ t.outgoing = ms ∧
      ∀ events : List Event, (∀ event ∈ events, event.IsRelay) →
        events.filterMap Event.delivered? = ms →
        let before := C.see s.engine.storage
        let after := C.see (run (e.restarted uuid) ⟨t, []⟩ events).engine.storage
        after.records = before.records ∧ after.index = before.index ∧
          ∀ id ≠ Record.outbox.id, ∀ key,
            after.values id key =
              (latest? (ms.flatMap (e.restarted uuid).taken) id key).or (before.values id key) ∧
            (after.values id key ≠ before.values id key ↔
              ∃ v, latest? (ms.flatMap (e.restarted uuid).taken) id key = some v ∧
                before.values id key ≠ some v) := by
  intro t
  have hdeliverable := h.deliverable hC hkeeps
  have hvalid := h.sound.valid
  obtain ⟨ds, hds⟩ := Option.ne_none_iff_exists'.mp hdeliverable.listed
  have hwaiting : (C.see s.engine.storage).waiting? =
      some (ds.filterMap (C.see s.engine.storage).letter?) := by
    rw [Contents.waiting?, hds, Option.map_some]
  generalize hms : ds.filterMap (C.see s.engine.storage).letter? = ms at hwaiting
  have hstarted : (Engine.view C.toView).Holds (C.see s.engine.storage) t ∧ t.outgoing = ms :=
    (Engine.start_ensures (e := e.restarted uuid) (C := C) _ hC.servesOutbox hkeeps hwaiting).ok
      ⟨⟨hvalid, rfl⟩, rfl⟩ hstart
  refine ⟨ms, ?_, hstarted.2, fun events hevents hdelivered => ?_⟩
  · rw [Outbox.pending_outcome hC.servesOutbox hvalid, hwaiting]
  -- the records of what waits are held, so that taking it in again adds none
  have hpresent : ∀ w ∈ ms.flatMap (e.restarted uuid).taken,
      (C.see s.engine.storage).records w.record.id ≠ none := by
    intro w hw
    obtain ⟨m, hm, hw⟩ := List.mem_flatMap.mp hw
    obtain ⟨d, -, hd⟩ := List.mem_filterMap.mp (hms ▸ hm)
    rw [hdeliverable.held d m hd w (Engine.approved_of_taken hw).1]
    exact Option.some_ne_none _
  obtain ⟨d, hd, -, hsee⟩ := holdsOff_relay (e := e.restarted uuid) (C := C) hC events hevents
    (s := ⟨t, []⟩) (Outbox.HoldsOff.of_holds C _ hstarted.1)
  rw [hdelivered, Contents.ingestAll_of_present hpresent] at hd
  subst hsee
  refine ⟨?_, ?_, fun id hid key => ?_⟩
  · exact hd.records.trans (Contents.records_withWrites ..)
  · exact hd.index.trans (Contents.index_withWrites ..)
  · have hvalue := (congrFun (hd.values id hid) key).trans (Contents.values_withWrites ..)
    refine ⟨hvalue, ?_⟩
    rw [show (C.see _).values id key = _ from hvalue]
    cases latest? (ms.flatMap (e.restarted uuid).taken) id key with
    | none => simp
    | some v => simp [eq_comm]

omit hC in
/-- The statement at a session that committed one value. -/
theorem recovery_first_value :
    let e := Sample.engine Octets.zero true
    let C := Sample.contract Topic.ofHub Octets.zero true
    let e' := e.restarted (Octets.replicate 16 1)
    let s := run e (initial Memory.empty .empty) [.begin Sample.tx, .init 0 Sample.bareRecord,
      .store 0 Sample.record.id Sample.account "k" [1], .finalize 0]
    let t := e'.start.after (.initial s.engine.storage .empty)
    s.Reachable C ∧ e'.start.outcome (.initial s.engine.storage .empty) = .ok () ∧
      ∃ ms, (Outbox.pending e.backend).outcome s.engine.storage = .ok ms ∧ t.outgoing = ms ∧
        ∀ events : List Event, (∀ event ∈ events, event.IsRelay) →
          events.filterMap Event.delivered? = ms →
          let before := C.see s.engine.storage
          let after := C.see (run e' ⟨t, []⟩ events).engine.storage
          after.records = before.records ∧ after.index = before.index ∧
            ∀ id ≠ Record.outbox.id, ∀ key,
              after.values id key = (latest? (ms.flatMap e'.taken) id key).or
              (before.values id key) ∧
              (after.values id key ≠ before.values id key ↔
                ∃ v, latest? (ms.flatMap e'.taken) id key = some v ∧
                  before.values id key ≠ some v) := by
  intro e C e' s t
  have hreachable : s.Reachable C := ⟨Memory.empty, .empty, _, trivial, Sample.see_empty .., rfl⟩
  clear_value s
  have hstart : e'.start.outcome (.initial s.engine.storage .empty) = .ok () :=
    Sample.start_outcome ..
  exact ⟨hreachable, hstart,
    recovery (Sample.contract_reliable ..) rfl hreachable (Octets.replicate 16 1) hstart⟩

end Session

/-! ## A value that is rolled back -/

namespace Sample

/-- A hub whose publications are refused as a plan says. -/
abbrev faultyTopic : Topic FaultyHub := Topic.ofHub.guarded Fault.Plan.messageGate

/-- A plan that refuses this many publications. -/
def refusals (n : Nat) : Fault.Plan := [⟨"publish", "", 0, some n⟩]

/-- The message of the second value. -/
def secondMessage : Message := message Octets.zero [write "k" [2]]

/-- Two values under one key, each published once it is committed. -/
def twoBatches : Step (Engine.State Memory FaultyHub) Unit := do
  let e := node faultyTopic Octets.zero true
  e.finalize tx [record] [write "k" [1]]
  e.publishNext
  e.finalize tx [] [write "k" [2]]
  e.publishNext

theorem start_outcome_of_refusals (uuid : Uuid) (storage : Memory) (h : Hub Message) :
    (node faultyTopic uuid true).start.outcome (.initial storage (h, refusals 0)) = .ok () :=
  Engine.requeuePending_outcome _

theorem publish_refused (m : Message) (h : Hub Message) : faultyTopic.publish m (h, refusals 1) =
    (.error (.transport "injected publish"), (h, refusals 0)) := rfl

theorem publish_accepted (m : Message) (h : Hub Message) : faultyTopic.publish m (h, refusals 0) =
    (.ok (), (h.publish m, refusals 0)) := rfl

theorem digest_firstMessage_ne : firstMessage.digest ≠ secondMessage.digest := digest_ne

/-- What is held once the second value is committed. -/
def secondContents : Contents :=
  ((firstContents.pushed [firstMessage.digest] secondMessage).withRecords []).withWrites
    [write "k" [2]]

/-- What is held once its message is published. -/
def publishedContents : Contents :=
  secondContents.acknowledged [firstMessage.digest, secondMessage.digest] secondMessage.digest

theorem sameOutbox_secondContents :
    (firstContents.pushed [firstMessage.digest] secondMessage).SameOutbox secondContents := by
  rw [Contents.SameOutbox, secondContents,
    Contents.values_withWrites_of_ne _ (id_ne_outbox "k" [2]), Contents.values_withRecords]

theorem digests?_secondContents :
    secondContents.digests? = some [firstMessage.digest, secondMessage.digest] := by
  have hfresh : secondMessage.digest ∉ [firstMessage.digest] := by
    simpa using digest_firstMessage_ne.symm
  rw [sameOutbox_secondContents.digests?_eq, Contents.digests?_pushed _ digests?_firstContents,
    if_neg hfresh]
  rfl

theorem waiting?_publishedContents : publishedContents.waiting? = some [firstMessage] := by
  have hdigests : publishedContents.digests? = some [firstMessage.digest] := by
    rw [publishedContents, Contents.digests?_acknowledged _ digests?_secondContents]
    simp [digest_firstMessage_ne]
  have hletter : publishedContents.letter? firstMessage.digest = some firstMessage := by
    rw [publishedContents, Contents.letter?_acknowledged _ digest_firstMessage_ne.symm,
      sameOutbox_secondContents.letter?_eq, Contents.letter?_pushed,
      if_neg digest_firstMessage_ne.symm, letter?_firstContents]
  simp [Contents.waiting?, hdigests, hletter]

theorem value_publishedContents : publishedContents.values record.id "k" = some [2] := by
  have hagrees : Contents.AgreesOff Record.outbox.id secondContents publishedContents :=
    Contents.agreesOff_acknowledged ..
  rw [hagrees.values _ id_record_ne_outbox, secondContents, Contents.values_withWrites,
    latest?_singleton]
  simp [write]

theorem ensures_twoBatches : Ensures
    (fun s => Holds faultyTopic Octets.zero true .empty s ∧
      s.topic = (.empty, refusals 1) ∧ s.outgoing = []) twoBatches
    (fun _ s => Holds faultyTopic Octets.zero true publishedContents s ∧
      s.topic = (Hub.empty.publish secondMessage, refusals 0) ∧ s.outgoing = [])
    fun _ _ => False := by
  have hreliable := contract_reliable faultyTopic Octets.zero true
  have hfirst := (ensures_firstBatch (E := fun _ _ => False) faultyTopic).and
    (Engine.finalize_hands_over (e := node faultyTopic Octets.zero true) tx [record] [write "k" [1]]
      (.empty, refusals 1) [])
  have hsecond : Ensures (Holds faultyTopic Octets.zero true firstContents)
      ((node faultyTopic Octets.zero true).finalize tx [] [write "k" [2]])
      (fun _ => Holds faultyTopic Octets.zero true secondContents) fun _ _ => False := by
    refine Engine.finalize_of_reliable hreliable firstContents (id_ne_mempool "k" [2]) rfl
      (composes faultyTopic Octets.zero true _ (by simp)) ?_ (.nil firstContents)
    rw [Contents.deposited?, digests?_firstContents]
    rfl
  have hsecond := hsecond.and (Engine.finalize_hands_over
    (e := node faultyTopic Octets.zero true) tx [] [write "k" [2]] (.empty, refusals 0) [])
  refine .bind (hfirst.mono (fun _ hs => hs) (fun _ _ hs => hs) fun _ _ hs => hs.1) fun _ => ?_
  refine .bind (Q := fun _ s => Holds faultyTopic Octets.zero true firstContents s ∧
    s.topic = (.empty, refusals 0) ∧ s.outgoing = []) ?_ fun _ => ?_
  · -- the one refusal of the plan
    refine (Engine.publishNext_of_refused firstContents (publish_refused firstMessage .empty)).mono
      (fun s hs => ?_) (fun _ _ hs => hs) fun _ _ hs => hs
    obtain ⟨hs, message, hmessage, ht, ho⟩ := hs
    cases (composes faultyTopic Octets.zero true [write "k" [1]] (by simp)).unique hmessage
    exact ⟨hs, ht, ho⟩
  refine .bind (hsecond.mono (fun _ hs => hs) (fun _ _ hs => hs) fun _ _ hs => hs.1) fun _ => ?_
  refine (Engine.publishNext_of_accepted hreliable.servesOutbox secondContents rfl
    digests?_secondContents (publish_accepted secondMessage .empty)).mono (fun s hs => ?_)
    (fun _ _ hs => hs) fun _ _ hs => hs
  obtain ⟨hs, message, hmessage, ht, ho⟩ := hs
  cases (composes faultyTopic Octets.zero true [write "k" [2]] (by simp)).unique hmessage
  exact ⟨hs, ht, ho⟩

/-- Started anew from what is held then, the node takes up the first message and holds its value
once it has come back. -/
theorem restart_of_publishedContents {s : Engine.State Memory FaultyHub} {h : Hub Message}
    (hs : Holds faultyTopic Octets.zero true publishedContents s)
    (htopic : s.topic = (h, refusals 0)) :
    let e' := (node faultyTopic Octets.zero true).restarted (Octets.replicate 16 1)
    let t := e'.start.after (.initial s.storage s.topic)
    let u := Session.run e' ⟨t, []⟩ [.publish, .receive firstMessage]
    e'.start.outcome (.initial s.storage s.topic) = .ok () ∧ t.outgoing = [firstMessage] ∧
      ((contract faultyTopic Octets.zero true).see u.engine.storage).values record.id
      "k" = some [1] := by
  intro e' t u
  have hC := contract_reliable faultyTopic Octets.zero true
  have hstart : e'.start.outcome (.initial s.storage s.topic) = .ok () := by
    rw [htopic]
    exact start_outcome_of_refusals ..
  have ht : Holds faultyTopic Octets.zero true publishedContents t ∧ t.outgoing = [firstMessage] :=
    (Engine.start_ensures (e := e') (C := contract faultyTopic Octets.zero true) _
      hC.servesOutbox rfl waiting?_publishedContents).ok ⟨hs, rfl⟩ hstart
  -- under its new name the node does not know the message for its own
  have htaken : e'.taken firstMessage = [write "k" [1]] := by
    refine Engine.taken_of_accept ?_
    refine judge_message faultyTopic (Octets.replicate 16 1) true (by decide) fun w hw => ?_
    exact ⟨"k", [1], List.mem_singleton.mp hw⟩
  refine ⟨hstart, ht.2, ?_⟩
  obtain ⟨d, hd, -, hsee⟩ := Session.holdsOff_relay (e := e')
    (C := contract faultyTopic Octets.zero true) hC [.publish, .receive firstMessage]
    (by simp [Session.Event.IsRelay]) (s := ⟨t, []⟩) (Outbox.HoldsOff.of_holds _ _ ht.1)
  rw [show (contract faultyTopic Octets.zero true).see u.engine.storage = d from hsee,
    hd.values _ id_record_ne_outbox]
  rw [show [Session.Event.publish, .receive firstMessage].filterMap Session.Event.delivered? =
    [firstMessage] from rfl, List.flatMap_cons, htaken, Contents.values_ingestAll]
  simp [latest?_singleton, write]

end Sample

namespace Session

/-- **A restart rolls a value back**: the message of a first value is refused, a second value
under the same key is committed and published; started anew, the node receives the first message
and holds its value. -/
theorem restart_rolls_back :
    let e := Sample.node Sample.faultyTopic Octets.zero true
    let C := Sample.contract Sample.faultyTopic Octets.zero true
    let e' := e.restarted (Octets.replicate 16 1)
    let s := Sample.twoBatches.after (.initial Memory.empty (.empty, Sample.refusals 1))
    let t := e'.start.after (.initial s.storage s.topic)
    let u := run e' ⟨t, []⟩ [.publish, .receive Sample.firstMessage]
    Sample.twoBatches.outcome (.initial Memory.empty (.empty, Sample.refusals 1)) = .ok () ∧
      (Outbox.pending e.backend).outcome s.storage = .ok [Sample.firstMessage] ∧
      e'.start.outcome (.initial s.storage s.topic) = .ok () ∧ t.outgoing = [Sample.firstMessage] ∧
      (C.see s.storage).values Sample.record.id "k" = some [2] ∧
      (C.see u.engine.storage).values Sample.record.id "k" = some [1] := by
  obtain ⟨⟨⟩, hok, hs, htopic, -⟩ := Sample.ensures_twoBatches.exists_ok
    ⟨Sample.holds_initial Sample.faultyTopic Octets.zero true (.empty, Sample.refusals 1), rfl, rfl⟩
  have hsee := hs.2
  have hrestart := Sample.restart_of_publishedContents hs htopic
  -- the steps stay folded: nothing below looks into a state
  generalize Sample.twoBatches.after _ = s at hs htopic hsee hrestart ⊢
  refine ⟨hok, ?_, hrestart.1, hrestart.2.1, ?_, hrestart.2.2⟩
  · rw [Outbox.pending_outcome (Sample.contract_reliable ..).servesOutbox hs.1,
      show (Sample.contract ..).see s.storage = _ from hsee, Sample.waiting?_publishedContents]
  · rw [show (Sample.contract ..).see s.storage = _ from hsee]
    exact Sample.value_publishedContents

end Session
end SealedStore

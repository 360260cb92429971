import SealedStore.Proofs.Replication.Published
import SealedStore.Proofs.Sample.Node

/-! # One value, two nodes

A node in memory stages the record and a value under it and publishes both; a node without keys,
over a key-value store, hears of them.
-/
namespace SealedStore.Sample

open Step StoreWrite

/-- A signer with these addresses that signs for the account alone. -/
def honest (addresses : List Address) : Signer where
  addresses := addresses
  sign a _ := if a = account then .ok [] else .error (.signing "no such key")
  recover _ _ := .ok account
  sender _ := .ok account

/-- The node that publishes. -/
def publisher : Engine Memory (Hub Message) :=
  { engine Octets.zero true with signer := honest [account] }

/-- The contract of its backend. -/
def publisherContract : publisher.backend.Contract := Memory.contract

/-- A node without keys, over a key-value store. -/
def subscriber : Engine (Table String Bytes) (Hub Message) :=
  ⟨KeyValue.ofTable.backend, .ofHub, honest [], Octets.replicate 16 1, false⟩

/-- The contract of this backend. -/
def subscriberContract : subscriber.backend.Contract :=
  KeyValue.tableContract.backend KeyValue.mute_false

/-- What its draft stages: the record and a value under it. -/
def stagedDraft : Draft := ⟨tx, Table.empty.insert record.id record, [write "k" [1]], false⟩

/-- The calls that stage it. -/
def staging : List Session.Event :=
  [.begin tx, .init 0 bareRecord, .store 0 record.id account "k" [1]]

/-- The session then. -/
def stagedSession : Session Memory (Hub Message) := ⟨.initial Memory.empty .empty, [stagedDraft]⟩

theorem prepare_bareRecord : publisher.prepare bareRecord tx = .ok record := by
  have hid : bareRecord.resolveId = .ok bareRecord.derivedId := if_pos (.inl rfl)
  unfold Engine.prepare record
  rw [hid]
  rfl

theorem init_bareRecord (s : Engine.State Memory (Hub Message)) :
    Draft.init publisher bareRecord ⟨s, .begin tx⟩ =
      (.ok record, ⟨s, ⟨tx, Table.empty.insert record.id record, [], false⟩⟩) := by
  simp [Draft.init, bind_apply, Draft.look, Draft.checkOpen, Draft.begin, prepare_bareRecord,
    Draft.onDraft, Draft.stageRecord, Table.contains]

theorem store_record (s : Engine.State Memory (Hub Message)) :
    Draft.store publisher record.id account "k" [1]
        ⟨s, ⟨tx, Table.empty.insert record.id record, [], false⟩⟩ =
          (.ok record, ⟨s, stagedDraft⟩) := by
  have hstaged : Draft.beginStore record.id ⟨tx, Table.empty.insert record.id record, [], false⟩ =
      .ok (some record) := by
    simp [Draft.beginStore, Draft.checkOpen, bind, Except.bind, pure, Except.pure]
  simp [Draft.store, bind_apply, Draft.look, hstaged, Draft.onDraft, Draft.completeStore,
    checkPeeker_account, Draft.checkOpen, stagedDraft, write]

theorem run_staging : Session.run publisher (.initial Memory.empty .empty) staging =
    stagedSession := by
  have hinit := init_bareRecord (.initial Memory.empty .empty)
  have hstore := store_record (.initial Memory.empty .empty)
  simp [staging, Session.act, Session.onDraft, Session.initial, stagedSession, after, hinit, hstore]

theorem composes_staged : publisher.Composes tx [write "k" [1]] (some firstMessage) :=
  ⟨account, rfl, rfl⟩

theorem ensures_staged : Ensures ((Engine.view publisherContract.toView).Holds .empty)
    (publisher.finalize tx [record] [write "k" [1]])
    (fun _ => (Engine.view publisherContract.toView).Holds firstContents) fun _ _ => False := by
  refine Engine.finalize_of_reliable (C := publisherContract) Memory.contract_reliable .empty
    (id_ne_mempool "k" [1]) rfl composes_staged rfl ?_
  exact ⟨List.nodup_cons.mpr ⟨nofun, List.nodup_nil⟩, fun _ _ => rfl⟩

theorem commits_staged : Session.Event.Commits publisher stagedSession (.finalize 0) := by
  rintro d ⟨rfl⟩
  rw [Draft.outcome_finalize_of_open rfl]
  obtain ⟨⟨⟩, hok, -⟩ := ensures_staged.exists_ok (s := .initial Memory.empty .empty) ⟨trivial, rfl⟩
  exact hok

theorem handed_staged : Session.handed publisher stagedSession (.finalize 0) = [firstMessage] := by
  have hsound : Session.Sound publisherContract stagedSession :=
    run_staging ▸ Session.run_sound
      (Session.sound_initial (C := publisherContract) trivial rfl Hub.empty) _
  obtain ⟨message, hmessage, hhanded, -⟩ :=
    Session.finalize_commits (n := 0) hsound rfl (commits_staged _ rfl)
  rw [hhanded, hmessage.unique composes_staged]
  rfl

theorem see_staged :
    publisherContract.see (Session.act publisher stagedSession (.finalize 0)).engine.storage =
    firstContents := by
  obtain ⟨⟨⟩, -, -, hsee⟩ :=
    ensures_staged.exists_ok (s := .initial Memory.empty .empty) ⟨trivial, rfl⟩
  exact hsee

theorem allCommit_first : Session.AllCommit publisher (.initial Memory.empty .empty)
    (staging ++ [.finalize 0]) := by
  rw [Session.allCommit_append, run_staging]
  exact ⟨⟨trivial, trivial, trivial, trivial⟩, commits_staged, trivial⟩

theorem committed_first : Session.committed publisher (.initial Memory.empty .empty)
    (staging ++ [.finalize 0]) = [firstMessage] := by
  rw [Session.committed_append, run_staging, Session.committed, handed_staged]
  rfl

theorem see_first : publisherContract.see (Session.run publisher (.initial Memory.empty .empty)
    (staging ++ [.finalize 0])).engine.storage = firstContents := by
  rw [Session.run_append, run_staging]
  exact see_staged

theorem values_firstContents : firstContents.values record.id "k" = some [1] := by
  rw [firstContents, Contents.values_withWrites, latest?_singleton]
  simp [write]

theorem records_firstContents : firstContents.records record.id = some record := by
  rw [firstContents, Contents.records_withWrites]
  exact Contents.records_withRecord_self ..

/-- The node that hears of the message accepts it. -/
theorem judge_firstMessage : subscriber.judge firstMessage = .ok .accept := by
  refine Engine.judge_accept_iff.mpr ⟨account, rfl, rfl, fun w hw => ?_⟩
  cases List.mem_singleton.mp hw
  have happroved := approved_write Topic.ofHub Octets.zero true "k" [1]
  exact ⟨happroved.derived, happroved.created, happroved.mayReplicate, happroved.mayWrite⟩

theorem ingestAll_first : Contents.empty.ingestAll firstMessage.writes =
    (Contents.empty.withRecord record).withValue record.id "k" [1] := by
  rw [firstMessage, message, Contents.ingestAll_cons, Contents.ingest, Contents.adopt_of_absent rfl]
  rfl

/-- What it holds then is the record with its value. -/
theorem holds_received :
    subscriberContract.Holds ((Contents.empty.withRecord record).withValue record.id "k" [1])
    (Session.run subscriber (.initial .empty .empty) [.receive firstMessage]).engine.storage := by
  have hreliable : subscriberContract.Reliable := KeyValue.tableContract.backend_reliable
  have hholds := (Engine.receive_of_reliable hreliable firstMessage .empty).after
    (s := .initial .empty .empty) ⟨KeyValue.readable_empty, KeyValue.contents_empty⟩
  rw [Engine.taken_of_accept judge_firstMessage, ingestAll_first] at hholds
  exact hholds

/-- What is signed for an account is recovered as that account's. -/
theorem recover_honest (addresses : List Address) {a : Address} {data signature : Bytes}
    (h : (honest addresses).sign a data = .ok signature) :
    (honest addresses).recover data signature = .ok a := by
  have ha : a = account := by
    by_contra hne
    rw [show (honest addresses).sign a _ = _ from if_neg hne] at h
    cases h
  rw [ha]
  rfl

theorem verifies_honest : subscriber.signer.Verifies publisher.signer where
  sender _ _ h := h
  recover _ _ _ h := recover_honest [account] h

end SealedStore.Sample

import SealedStore.Proofs.Draft.Reads
import SealedStore.Proofs.Sample.Exchange
import SealedStore.Proofs.Session.Simulation

/-! # What a node lists

A listing is read off one list of ids, which an initialization writes apart from the record.
`Backend.logged` keeps beside a backend the log of the records that were initialized, and changes
nothing else, so every run has its log.  Over a reliable backend the log tells the records that are
held, each once, and every list as the part of the log in its namespace and under its decryption
condition, in order (`Contents.Logs`).  With contents that are rooted this is what a node lists
after any run (`Session.listed_exactly`).
-/
namespace SealedStore

open Step

variable {σ τ α : Type}

/-! ## Contents and their log -/

namespace Contents

/-- **The log of contents**: the records that are held, each once, of which a list names those of
its namespace and decryption condition, in order. -/
structure Logs (c : Contents) (log : List Record) : Prop where
  nodup : (log.map Record.id).Nodup
  records : ∀ id r, c.records id = some r ↔ r ∈ log ∧ r.id = id
  index : ∀ space block, c.index space block =
    (log.filter fun r => r.decryptionCondition = block ∧ r.version = space).map Record.id

theorem logs_empty : empty.Logs [] := ⟨List.nodup_nil, fun _ _ => ⟨nofun, nofun⟩, fun _ _ => rfl⟩

namespace Logs

variable {c : Contents} {log : List Record} (h : c.Logs log)
include h

/-- Values do not count. -/
theorem of_eq {d : Contents} (hrecords : d.records = c.records) (hindex : d.index = c.index) :
    d.Logs log :=
  ⟨h.nodup, by rw [hrecords]; exact h.records, by rw [hindex]; exact h.index⟩

theorem notMem_of_absent {id : RecordId} (hid : c.records id = none) : id ∉ log.map Record.id := by
  intro hmem
  obtain ⟨q, hq, rfl⟩ := List.mem_map.mp hmem
  rw [(h.records q.id q).mpr ⟨hq, rfl⟩] at hid
  cases hid

/-- A new record comes last. -/
theorem withRecord {r : Record} (hr : c.records r.id = none) :
    (c.withRecord r).Logs (log ++ [r]) where
  nodup := by
    rw [List.map_append, List.nodup_append]
    refine ⟨h.nodup, List.nodup_singleton _, fun id hid _ hmem => ?_⟩
    rintro rfl
    exact h.notMem_of_absent hr (List.mem_singleton.mp hmem ▸ hid)
  records id q := by
    rw [List.mem_append, List.mem_singleton]
    by_cases hid : r.id = id
    · subst hid
      rw [records_withRecord_self, Option.some.injEq]
      constructor
      · rintro rfl
        exact ⟨.inr rfl, rfl⟩
      · rintro ⟨hq | rfl, hid⟩
        · exact absurd (hid ▸ List.mem_map_of_mem hq) (h.notMem_of_absent hr)
        · rfl
    · rw [records_withRecord_of_ne _ hid, h.records]
      refine ⟨fun hq => ⟨.inl hq.1, hq.2⟩, fun ⟨hq, hqid⟩ => ⟨hq.resolve_right ?_, hqid⟩⟩
      rintro rfl
      exact hid hqid
  index space block := by
    have hat : (r.version, r.decryptionCondition) = (space, block) ↔
        r.decryptionCondition = block ∧ r.version = space := by rw [Prod.mk.injEq, and_comm]
    simp only [Contents.withRecord, h.index, List.filter_append, List.map_append, hat]
    split
    · next hin => simp [hin]
    · next hout => simp [hout]

/-- **What is listed is the part of the log** in this namespace and under this condition. -/
theorem listing (block : BitVec 64) (space : String) :
    c.listing block space = log.filter fun r =>
      r.decryptionCondition = block ∧ r.version = space := by
  rw [Contents.listing, h.index, List.filterMap_map]
  refine (List.filterMap_eq_map_iff_forall_eq_some (g := id) |>.mpr fun r hr => ?_).trans
    (List.map_id _)
  exact (h.records r.id r).mpr ⟨(List.mem_filter.mp hr).1, rfl⟩

theorem mem_listing_iff {block : BitVec 64} {space : String} {r : Record} :
    r ∈ c.listing block space ↔ c.records r.id = some r ∧ r.decryptionCondition = block ∧
      r.version = space := by
  rw [h.listing, List.mem_filter, h.records, decide_eq_true_iff, and_iff_left rfl]

theorem nodup_listing (block : BitVec 64) (space : String) :
    ((c.listing block space).map Record.id).Nodup :=
  h.listing block space ▸ h.nodup.sublist (List.filter_sublist.map _)

end Logs

end Contents

/-! ## The log of a backend -/

namespace Backend

/-- The backend with a log of the records that were initialized, oldest first. -/
def logged (b : Backend σ) : Backend (σ × List Record) :=
  let inner := b.within (ρ := σ × List Record) Prod.fst fun s w => (s, w.2)
  { inner with
    init := fun r => do
      inner.init r
      Step.modify fun w => (w.1, w.2 ++ [r]) }

/-- **The log changes nothing.** -/
theorem mirrors_logged (b : Backend σ) : b.Mirrors (fun s w => w.1 = s) b.logged where
  start := .beside _
  stop := .beside _
  init _ := (Simulates.beside _).followed fun _ _ _ hw => ⟨rfl, hw⟩
  store _ _ _ := .beside _
  retrieve _ _ := .beside _
  fetch _ := .beside _
  list _ _ := .beside _

namespace Contract

variable {b : Backend σ} (C : b.Contract)

/-- What is seen of a backend with a log that is the log of what it holds. -/
def loggedView : Contents.View (σ × List Record) where
  see w := C.see w.1
  Valid w := C.Valid w.1 ∧ (C.see w.1).Logs w.2

variable {C} {c : Contents}

theorem holds_loggedView_iff {w : σ × List Record} :
    C.loggedView.Holds c w ↔ C.Holds c w.1 ∧ c.Logs w.2 := by
  constructor
  · rintro ⟨⟨hvalid, hlogs⟩, rfl⟩
    exact ⟨⟨hvalid, rfl⟩, hlogs⟩
  · rintro ⟨⟨hvalid, rfl⟩, hlogs⟩
    exact ⟨⟨hvalid, hlogs⟩, rfl⟩

/-- A step that leaves the log alone. -/
theorem ensures_loggedView {m : Step σ α} {Q : α → σ → Prop} {E : StoreError → σ → Prop}
    (hm : Ensures (C.Holds c) m Q E) :
    Ensures (C.loggedView.Holds c) (m.within Prod.fst fun s w => (s, w.2))
      (fun a w => Q a w.1 ∧ c.Logs w.2) fun e w => E e w.1 ∧ c.Logs w.2 := by
  intro w hw
  obtain ⟨hholds, hlogs⟩ := holds_loggedView_iff.mp hw
  exact ((hm.beside w.2).mono (fun _ hs => hs) (fun _ _ hs => ⟨hs.1, hs.2 ▸ hlogs⟩)
    fun _ _ hs => ⟨hs.1, hs.2 ▸ hlogs⟩) w ⟨hholds, rfl⟩

theorem keeps_loggedView {m : Step σ α} (hm : Keeps (C.Holds c) m) :
    Keeps (C.loggedView.Holds c) (m.within Prod.fst fun s w => (s, w.2)) :=
  (ensures_loggedView hm).mono (fun _ hw => hw) (fun _ _ => holds_loggedView_iff.mpr) fun _ _ =>
    holds_loggedView_iff.mpr

/-- **A reliable backend keeps its contract with a log**, and the log tells what it holds. -/
def Reliable.logged (hC : C.Reliable) : b.logged.Contract where
  toView := C.loggedView
  start c := keeps_loggedView (C.start c)
  stop c := keeps_loggedView (C.stop c)
  init c r := by
    refine .bind (Q := fun _ w => c.records r.id = none ∧ C.Holds (c.withRecord r) w.1 ∧ c.Logs w.2)
      ?_ fun _ => .modify fun w hw =>
        ⟨hw.1, holds_loggedView_iff.mpr ⟨hw.2.1, hw.2.2.withRecord hw.1⟩⟩
    refine (ensures_loggedView (hC.init_ensures c r)).mono (fun _ hw => hw)
      (fun _ _ hw => ⟨hw.1.1, hw.1.2, hw.2⟩) fun _ _ hw => ?_
    exact ⟨c, .nothing, fun _ => hw.1.2.1, holds_loggedView_iff.mpr ⟨hw.1.2.2, hw.2⟩⟩
  store c r key value hr := (ensures_loggedView (C.store c r key value hr)).mono (fun _ hw => hw)
    (fun _ _ hw => ⟨hw.1.1, holds_loggedView_iff.mpr ⟨hw.1.2, hw.2.of_eq rfl rfl⟩⟩)
    fun _ _ => holds_loggedView_iff.mpr
  retrieve c r key := (ensures_loggedView (C.retrieve c r key)).mono (fun _ hw => hw)
    (fun _ _ hw => ⟨hw.1.1, holds_loggedView_iff.mpr ⟨hw.1.2, hw.2⟩⟩)
    fun _ _ hw => ⟨hw.1.1, holds_loggedView_iff.mpr ⟨hw.1.2, hw.2⟩⟩
  fetch c id := (ensures_loggedView (C.fetch c id)).mono (fun _ hw => hw)
    (fun _ _ hw => ⟨hw.1.1, holds_loggedView_iff.mpr ⟨hw.1.2, hw.2⟩⟩)
    fun _ _ => holds_loggedView_iff.mpr
  list c block space := (ensures_loggedView (C.list c block space)).mono (fun _ hw => hw)
    (fun _ _ hw => ⟨hw.1.1, holds_loggedView_iff.mpr ⟨hw.1.2, hw.2⟩⟩)
    fun _ _ => holds_loggedView_iff.mpr

end Contract

end Backend

/-! ## Runs -/

namespace Session

/-- A run with the log of the records that it initializes. -/
def runLogged (e : Engine σ τ) (storage : σ) (topic : τ) (events : List Event) :
    Session (σ × List Record) τ :=
  run (e.withBackend e.backend.logged) (initial (storage, []) topic) events

/-- The records that a run initializes, in order. -/
def log (e : Engine σ τ) (storage : σ) (topic : τ) (events : List Event) : List Record :=
  (runLogged e storage topic events).engine.storage.2

/-- **Exact listings**: what is fetched is on the log, once; what is listed is the part of the log
with the namespace and decryption condition, in order; and values are under records that are
fetched, those of the backend and the outbox apart. -/
structure ListsExactly (e : Engine σ τ) (log : List Record) (s : Engine.State σ τ) : Prop where
  once : (log.map Record.id).Nodup
  fetched : ∀ id r, (e.fetch id).outcome s = .ok r ↔ r ∈ log ∧ r.id = id
  listed : ∀ block space, (e.list block space).outcome s =
    .ok (log.filter fun r => r.decryptionCondition = block ∧ r.version = space)
  values : ∀ r key v, r.id ≠ Record.mempool.id → r.id ≠ Record.outbox.id →
    (e.backend.retrieve r key).outcome s.storage = .ok v → ∃ q, (e.fetch r.id).outcome s = .ok q

variable {e : Engine σ τ} {C : e.backend.Contract}

/-- Contents that have a log, and values under records alone, are listed exactly. -/
theorem listsExactly_of_logs (hC : C.Reliable) {log : List Record} {s : Engine.State σ τ}
    (hvalid : C.Valid s.storage) (hlogs : (C.see s.storage).Logs log)
    (hrooted : (C.see s.storage).Rooted) :
    ListsExactly e log s := by
  have hholds : (Engine.view C.toView).Holds (C.see s.storage) s := ⟨hvalid, rfl⟩
  have hfetch : ∀ id r, (e.fetch id).outcome s = .ok r ↔ (C.see s.storage).records id = some r := by
    intro id r
    rw [(Engine.fetch_gives hC _ id).outcome hholds, Contents.record_ok_iff]
  refine ⟨hlogs.nodup, fun id r => (hfetch id r).trans (hlogs.records id r), fun block space => ?_,
    fun r key v hmempool houtbox hv => ?_⟩
  · rw [(Engine.list_gives hC _ block space).outcome hholds, hlogs.listing]
  · have hvalue := ((C.retrieve _ r key).ok (s := s.storage) ⟨hvalid, rfl⟩ hv).1 hmempool
    have hheld := hrooted.values r.id key houtbox (by rw [hvalue]; exact nofun)
    obtain ⟨q, hq⟩ := Option.ne_none_iff_exists'.mp hheld
    exact ⟨q, (hfetch r.id q).mpr hq⟩

/-- The log of a run is that of what the run leaves, and keeping it changes nothing else. -/
theorem logs_run (hC : C.Reliable) {storage : σ} (hvalid : C.Valid storage)
    (hempty : C.see storage = .empty) (topic : τ) (events : List Event) :
    Like (fun s w => w.1 = s) (fun _ => True) (run e (initial storage topic) events)
        (runLogged e storage topic events) ∧
      (C.see (run e (initial storage topic) events).engine.storage).Logs
      (log e storage topic events) := by
  have hlike : Like (fun s w => w.1 = s) (fun _ => True) (run e (initial storage topic) events)
      (runLogged e storage topic events) :=
    run_simulates e.backend.mirrors_logged ⟨⟨(storage, []), rfl, rfl⟩, rfl, fun _ _ => rfl⟩ events
  refine ⟨hlike, ?_⟩
  have hlogged : hC.logged.Valid (storage, []) := ⟨hvalid, hempty ▸ Contents.logs_empty⟩
  have hsound : Sound (e := e.withBackend e.backend.logged) hC.logged
      (runLogged e storage topic events) :=
    run_sound (sound_initial (e := e.withBackend e.backend.logged) hlogged
      (congrArg Contents.records hempty) topic) events
  obtain ⟨⟨w, hw, hengine⟩, -, -⟩ := hlike
  have hrun : (runLogged e storage topic events).engine.storage = w := by
    rw [hengine]
    rfl
  have hlogs : (C.see w.1).Logs w.2 := hrun ▸ hsound.valid.2
  rwa [log, hrun, ← hw]

/-- Whatever a run leads to has a log. -/
theorem Reachable.logs (hC : C.Reliable) {s : Session σ τ} (h : Reachable C s) :
    ∃ log, (C.see s.engine.storage).Logs log := by
  obtain ⟨storage, topic, events, hvalid, hempty, rfl⟩ := h
  exact ⟨_, (logs_run hC hvalid hempty topic events).2⟩

/-- **A node lists exactly what it holds.**  After any run from an empty backend that fails no call,
whatever commits succeed or are refused in it and whatever messages arrive, what is fetched and
listed is told by the log of the run, which changes nothing else. -/
theorem listed_exactly (hC : C.Reliable) {storage : σ} (hvalid : C.Valid storage)
    (hempty : C.see storage = .empty) (topic : τ) (events : List Event) :
    Like (fun s w => w.1 = s) (fun _ => True) (run e (initial storage topic) events)
        (runLogged e storage topic events) ∧
      ListsExactly e (log e storage topic events)
        (run e (initial storage topic) events).engine := by
  obtain ⟨hlike, hlogs⟩ := logs_run hC hvalid hempty topic events
  have hreached : Reachable C (run e (initial storage topic) events) :=
    ⟨storage, topic, events, hvalid, hempty, rfl⟩
  exact ⟨hlike, listsExactly_of_logs hC hreached.sound.valid hlogs hreached.rooted.held⟩

/-- The statement at a node that commits the sample record in memory, and at one that hears of it
and keeps it as text: both list it. -/
theorem listed_exactly_record :
    let s := run Sample.publisher (initial Memory.empty .empty) (Sample.staging ++ [.finalize 0])
    let t := run Sample.subscriber (initial .empty .empty) [.receive Sample.firstMessage]
    ListsExactly Sample.publisher
        (log Sample.publisher .empty .empty (Sample.staging ++ [.finalize 0])) s.engine ∧
      ListsExactly Sample.subscriber
        (log Sample.subscriber .empty .empty [.receive Sample.firstMessage]) t.engine ∧
      (Sample.publisher.list Sample.record.decryptionCondition Sample.record.version).outcome
        s.engine = .ok [Sample.record] ∧
      (Sample.subscriber.list Sample.record.decryptionCondition Sample.record.version).outcome
        t.engine = .ok [Sample.record] := by
  intro s t
  have hmemory : Sample.publisherContract.Reliable := Memory.contract_reliable
  have hpairs : Sample.subscriberContract.Reliable := KeyValue.tableContract.backend_reliable
  have hempty : Sample.subscriberContract.Holds .empty .empty :=
    ⟨KeyValue.readable_empty, KeyValue.contents_empty⟩
  have hfirst : (Contents.empty.withRecord Sample.record).Logs [Sample.record] :=
    Contents.logs_empty.withRecord rfl
  refine ⟨(listed_exactly hmemory trivial rfl .empty _).2,
    (listed_exactly hpairs hempty.1 hempty.2 .empty _).2, ?_, ?_⟩
  · have hlogs : Sample.firstContents.Logs [Sample.record] := by
      have hsame := (Contents.empty.agreesOff_pushed [] Sample.firstMessage).withRecord
        Sample.record
      exact hfirst.of_eq ((Contents.records_withWrites ..).trans hsame.records)
        ((Contents.index_withWrites ..).trans hsame.index)
    have hsee : Sample.publisherContract.see s.engine.storage = Sample.firstContents :=
      Sample.see_first
    have hholds : (Engine.view Sample.publisherContract.toView).Holds
        Sample.firstContents s.engine :=
      ⟨trivial, hsee⟩
    refine ((Engine.list_gives hmemory _ _ _).outcome hholds).trans ?_
    rw [hlogs.listing]
    simp
  · have hlogs := hfirst.of_eq
      (d := (Contents.empty.withRecord Sample.record).withValue Sample.record.id "k" [1]) rfl rfl
    refine ((Engine.list_gives hpairs _ _ _).outcome (s := t.engine) Sample.holds_received).trans ?_
    rw [hlogs.listing]
    simp

end Session
end SealedStore

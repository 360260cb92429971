import Mathlib.Data.Set.Card
import SealedStore.Proofs.Replication.Fates
import SealedStore.Proofs.Session.Listings
import SealedStore.Proofs.Session.Upkeep

/-! # The counters of an engine

The counters are raised in four places: where a batch is committed, where a finalization succeeds,
where a message arrives and where each of its writes is applied.  Three equations hold of them after
any run over any backend: they follow the messages that arrived and the finalizations that were
reported as successful (`Tells`).

Two more compare them with the backend.  `Backend.tallied` notes beside a backend the ids under
which values are kept, and changes nothing else.  Over a reliable backend each step leaves at most
one record and one value that are not counted yet (`Owes`), and the count follows at once.  So the
counters tell the records that are held and the values that were kept (`counters_account`), as long
as no finalization is handed a record or a write under one of the ids that lists and the outbox are
kept under: those are counted as well (`counters_exceed_of_internal`).
-/
namespace SealedStore

open Step hiding run

variable {σ τ : Type}

/-- The ids under which lists and the outbox are kept. -/
def Record.Internal (id : RecordId) : Prop := id = Record.mempool.id ∨ id = Record.outbox.id

instance : DecidablePred Record.Internal := fun _ => inferInstanceAs (Decidable (_ ∨ _))

theorem Record.not_internal_of_derived {r : Record} (h : r.derivedId = r.id) :
    ¬ Record.Internal r.id :=
  h ▸ not_or.mpr ⟨r.derivedId_ne_mempool, r.derivedId_ne_outbox⟩

/-! ## Runs -/

namespace Accounting

open Engine (State)

/-- What an engine is called to do, and the messages that its loop consumes. -/
inductive Event where
  | start
  | stop
  | finalize (tx : Transaction) (records : List Record) (writes : List StoreWrite)
  /-- The loop takes a message from the subscription. -/
  | consume (m : Message)
  /-- The next message that was handed over is published. -/
  | publish

namespace Event

/-- What an engine does. -/
def step (e : Engine σ τ) : Event → Step (State σ τ) Unit
  | start => e.start
  | stop => e.stop
  | finalize tx rs ws => e.finalize tx rs ws
  | consume m => e.consume m
  | publish => e.publishNext

/-- Whether the event is a finalization. -/
def isFinalize : Event → Bool
  | finalize .. => true
  | _ => false

/-- The message that is consumed. -/
def message? : Event → Option Message
  | consume m => some m
  | _ => none

/-- Whether a finalization hands over nothing under an internal id. -/
def Ordinary : Event → Prop
  | finalize _ rs ws => (∀ r ∈ rs, ¬ Record.Internal r.id) ∧ ∀ w ∈ ws, ¬ Record.Internal w.record.id
  | _ => True

end Event

/-- Events with what they returned. -/
abbrev History := List (Event × Except StoreError Unit)

namespace History

/-- The messages that were consumed. -/
def consumed (h : History) : List Message := h.filterMap fun x => x.1.message?

/-- The number of finalizations that returned no error. -/
def finalized (h : History) : Nat := h.countP fun x => x.1.isFinalize && x.2.isOk

theorem consumed_append (h k : History) : consumed (h ++ k) = consumed h ++ consumed k :=
  List.filterMap_append

theorem finalized_append (h k : History) : finalized (h ++ k) = finalized h + finalized k :=
  List.countP_append

end History

/-- The state after events. -/
def run (e : Engine σ τ) (events : List Event) (s : State σ τ) : State σ τ :=
  events.foldl (fun s ev => (ev.step e).after s) s

/-- The events with what they return. -/
def history (e : Engine σ τ) : List Event → State σ τ → History
  | [], _ => []
  | ev :: events, s => (ev, (ev.step e).outcome s) :: history e events ((ev.step e).after s)

/-! ## What the counters tell of events -/

/-- What the counters tell of the messages that were consumed and the
finalizations that succeeded. -/
structure Tells (e : Engine σ τ) (ms : List Message) (finalized : Nat) (t : Metrics) : Prop where
  received : t.count .messagesReceived = t.count .messagesRejected + t.count .messagesEchoDropped +
    (ms.filter e.accepts).length
  replicated : t.count .writesReplicated + t.count .writesReplicationFailed =
    (e.acceptedWrites ms).length
  finalized : t.count .finalizeTotal = finalized

/-- What is counted of other things. -/
def Unrelated (metric : Metric) : Prop :=
  metric ∈ [Metric.recordsInitialized, .writesCommitted, .finalizeDuration, .messagesPublished,
    .messagesPublishFailed]

section
variable {e : Engine σ τ} {ms : List Message} {n : Nat} {t : Metrics}

theorem tells_empty : Tells e [] 0 .empty := ⟨rfl, rfl, rfl⟩

theorem Tells.unrelated (h : Tells e ms n t) {metric : Metric} (hmetric : Unrelated metric) :
    Tells e ms n (t.add metric 1) := by
  have hcount : ∀ k, ¬ Unrelated k → (t.add metric 1).count k = t.count k := by
    intro k hk
    rw [Metrics.count_add, if_neg]
    rintro rfl
    exact hk hmetric
  refine ⟨?_, ?_, ?_⟩
  · rw [hcount _ (by simp [Unrelated]), hcount _ (by simp [Unrelated]),
      hcount _ (by simp [Unrelated])]
    exact h.received
  · rw [hcount _ (by simp [Unrelated]), hcount _ (by simp [Unrelated])]
    exact h.replicated
  · rw [hcount _ (by simp [Unrelated])]
    exact h.finalized

/-- Whether the counters of a state tell this. -/
abbrev Told (e : Engine σ τ) (ms : List Message) (n : Nat) (s : State σ τ) : Prop :=
  Tells e ms n s.metrics

theorem onStorage_told {α : Type} (m : Step σ α) : Keeps (Told e ms n) (Engine.onStorage m) :=
  .of_cases (fun _ _ hs _ => hs) fun _ _ hs _ => hs

theorem count_told {metric : Metric} (hmetric : Unrelated metric) :
    Keeps (Told (σ := σ) (τ := τ) e ms n) (Engine.count metric) := fun _ hs => hs.unrelated hmetric

/-- What an engine does besides leaves this alone. -/
theorem routine_told : e.Routine (Told e ms n) where
  start := onStorage_told _
  stop := onStorage_told _
  topic _ _ hs := hs
  journal _ _ hs := hs
  pending := onStorage_told _
  push _ := onStorage_told _
  acknowledge _ := onStorage_told _
  subscription _ _ hs := hs
  outgoing _ _ hs := hs
  published := count_told (by simp [Unrelated])
  refused := count_told (by simp [Unrelated])

theorem commit_told (rs : List Record) (ws : List StoreWrite) :
    Keeps (Told e ms n) (e.commit rs ws) := by
  refine .bind (.forEach fun r _ => ?_) fun _ => .forEach fun w _ => ?_
  · exact .bind (onStorage_told _) fun _ => count_told (by simp [Unrelated])
  · exact .bind (onStorage_told _) fun _ => count_told (by simp [Unrelated])

/-- A finalization is counted if it succeeds. -/
theorem finalize_told (tx : Transaction) (rs : List Record) (ws : List StoreWrite) :
    Ensures (Told e ms n) (e.finalize tx rs ws) (fun _ => Told e ms (n + 1))
      fun _ => Told e ms n := by
  refine routine_told.ensures_finalize tx (commit_told rs ws) fun s _ hs => ?_
  have hcounted : Tells e ms (n + 1) (s.metrics.add .finalizeTotal 1) := by
    refine ⟨?_, ?_, ?_⟩
    · simpa [Metrics.count_add] using hs.received
    · simpa [Metrics.count_add] using hs.replicated
    · simp [Metrics.count_add, hs.finalized]
  exact hcounted.unrelated (by simp [Unrelated])

/-! ### Messages -/

/-- The state after a message that is rejected. -/
theorem consume_of_reject {m : Message} {err : StoreError}
    (h : e.judge m = .error err) (s : State σ τ) :
    (e.consume m).after s =
      { s with metrics := (s.metrics.add .messagesReceived 1).add .messagesRejected 1 } := by
  simp [Engine.consume, after, bind_apply, Engine.count, Engine.receive_of_reject h]

/-- The state after one of the engine's own. -/
theorem consume_of_echo {m : Message} (h : e.judge m = .ok .echo) (s : State σ τ) :
    (e.consume m).after s =
      { s with metrics := (s.metrics.add .messagesReceived 1).add .messagesEchoDropped 1 } := by
  simp [Engine.consume, after, bind_apply, Engine.receive_of_echo h]

/-- The state after a message that is applied. -/
theorem consume_of_accept {m : Message} (h : e.judge m = .ok .accept) (s : State σ τ) :
    (e.consume m).after s = m.writes.foldl (fun s w => (e.applyWrite w).after s)
      { s with metrics := s.metrics.add .messagesReceived 1 } := by
  simp [Engine.consume, after, bind_apply, Engine.receive_of_accept h,
    forEach_apply Engine.applyWrite_outcome]

/-- Applying a write counts a record and the fate of the write, and nothing else. -/
theorem applyWrite_metrics {P : Metrics → Prop} (w : StoreWrite)
    (hP : ∀ t, ∀ metric ∈ [Metric.recordsInitialized, .writesReplicated, .writesReplicationFailed],
      P t → P (t.add metric 1)) : Keeps (fun s => P s.metrics) (e.applyWrite w) := by
  have hcount : ∀ metric ∈ [Metric.recordsInitialized, .writesReplicated, .writesReplicationFailed],
      Keeps (fun s : State σ τ => P s.metrics) (Engine.count metric) :=
        fun metric hmetric s hs => hP _ _ hmetric hs
  have hstorage : ∀ {α : Type} (m : Step σ α), Keeps (fun s : State σ τ => P s.metrics)
      (Engine.onStorage m) :=
    fun m => .of_cases (fun _ _ hs _ => hs) fun _ _ hs _ => hs
  refine Engine.applyWrite_parts (N := fun s => P s.metrics) (M := fun s => P s.metrics)
    (K := fun s => P s.metrics) (F := fun s => P s.metrics) ?_ (hcount _ (by simp)) (hstorage _)
    (hcount _ (by simp)) (hcount _ (by simp))
  exact (hstorage _).mono (fun _ hs => hs) (fun _ _ hs => hs) fun _ s hs =>
    (ite_self (P s.metrics)).symm ▸ hs

/-- What applying writes leaves of the other counters. -/
theorem applyWrites_count {k : Metric} (ws : List StoreWrite) (s : State σ τ)
    (hk : k ∉ [Metric.recordsInitialized, .writesReplicated, .writesReplicationFailed]) :
    (ws.foldl (fun s w => (e.applyWrite w).after s) s).metrics.count k = s.metrics.count k := by
  have hadd :
      ∀ t : Metrics,
      ∀ metric ∈ [Metric.recordsInitialized, .writesReplicated, .writesReplicationFailed],
        t.count k = s.metrics.count k → (t.add metric 1).count k = s.metrics.count k := by
    intro t metric hmetric ht
    rw [Metrics.count_add, if_neg, ht]
    rintro rfl
    exact hk hmetric
  refine List.foldlRecOn ws _ (motive := fun t : State σ τ => t.metrics.count k = s.metrics.count k)
    rfl fun t ht w _ => ?_
  exact (applyWrite_metrics (P := fun t : Metrics => t.count k = s.metrics.count k) w hadd).after ht

/-- A message more is judged and taken in by itself. -/
theorem Tells.concat {m : Message} {t' : Metrics} (h : Tells e ms n t)
    (hreceived : t'.count .messagesReceived +
      (t.count .messagesRejected + t.count .messagesEchoDropped) =
      t.count .messagesReceived + (t'.count .messagesRejected + t'.count .messagesEchoDropped) +
        if e.accepts m then 1 else 0)
    (hreplicated : t'.count .writesReplicated + t'.count .writesReplicationFailed =
      t.count .writesReplicated + t.count .writesReplicationFailed + (e.taken m).length)
    (hfinalized : t'.count .finalizeTotal = t.count .finalizeTotal) : Tells e (ms ++ [m]) n t' := by
  have hlength : ((ms ++ [m]).filter e.accepts).length =
      (ms.filter e.accepts).length + if e.accepts m then 1 else 0 := by
    rw [List.filter_append, List.length_append, List.filter_cons, List.filter_nil]
    split <;> rfl
  have hwrites : e.acceptedWrites (ms ++ [m]) = e.acceptedWrites ms ++ e.taken m := by
    rw [← Engine.flatMap_taken, List.flatMap_append, Engine.flatMap_taken, List.flatMap_singleton]
  refine ⟨?_, ?_, hfinalized.trans h.finalized⟩
  · have hbefore := h.received
    omega
  · rw [hreplicated, h.replicated, hwrites, List.length_append]

/-- A message that is not accepted is counted among the rejected ones or among the echoes. -/
theorem Tells.passed {m : Message} (h : Tells e ms n t)
    (hm : e.judge m ≠ .ok .accept) {metric : Metric}
    (hmetric : metric = .messagesRejected ∨ metric = .messagesEchoDropped) :
    Tells e (ms ++ [m]) n ((t.add .messagesReceived 1).add metric 1) := by
  have haccepts : e.accepts m = false := decide_eq_false hm
  rcases hmetric with rfl | rfl
  all_goals
    apply h.concat
    · simp [Metrics.count_add, haccepts]
      omega
    · simp [Metrics.count_add, Engine.taken_of_ne_accept hm]
    · simp [Metrics.count_add]

/-- **A message is counted** as what becomes of it, and so is each of its writes. -/
theorem consume_told (m : Message) {s : State σ τ} (hs : Told e ms n s) :
    Told e (ms ++ [m]) n ((e.consume m).after s) := by
  cases hverdict : e.judge m with
  | error err =>
    rw [Told, consume_of_reject hverdict]
    exact Tells.passed hs (by simp [hverdict]) (.inl rfl)
  | ok verdict =>
    cases verdict with
    | echo =>
      rw [Told, consume_of_echo hverdict]
      exact Tells.passed hs (by simp [hverdict]) (.inr rfl)
    | accept =>
      rw [Told, consume_of_accept hverdict]
      apply hs.concat
      · rw [applyWrites_count _ _ (by decide), applyWrites_count _ _ (by decide),
          applyWrites_count _ _ (by decide)]
        simp [Metrics.count_add, Engine.accepts, hverdict]
        omega
      · -- each write is counted once, under one of two names
        obtain ⟨-, hkept, hmissed⟩ := Engine.applyWrites_fates (e := e) m.writes
          { s with metrics := s.metrics.add .messagesReceived 1 }
        have hlength :=
          StoreWrite.Fates.length_kept_add_missed (e.backend.fates m.writes s.storage).1
        have htried := congrArg List.length (e.backend.map_fst_fates m.writes s.storage)
        rw [List.length_map] at htried
        rw [hkept, hmissed, Engine.taken_of_accept hverdict]
        simp only [Metrics.count_add, reduceCtorEq, if_false]
        omega
      · rw [applyWrites_count _ _ (by decide)]
        simp [Metrics.count_add]

/-! ### Runs -/

/-- **One event**: the counters tell its message and its success as well. -/
theorem step_told (ev : Event) {s : State σ τ} (hs : Told e ms n s) :
    let h : History := [(ev, (ev.step e).outcome s)]
    Told e (ms ++ h.consumed) (n + h.finalized) ((ev.step e).after s) := by
  have hroutine {m : Step (State σ τ) Unit} (hm : Keeps (Told e ms n) m) :
      Told e (ms ++ []) (n + 0) (m.after s) := by
    rw [List.append_nil]
    exact hm.after hs
  cases ev with
  | start => exact hroutine routine_told.keeps_start
  | stop => exact hroutine routine_told.keeps_stop
  | publish => exact hroutine routine_told.keeps_publishNext
  | consume m => exact consume_told m hs
  | finalize tx rs ws =>
    have hfinalize : Ensures (Told e ms n) (e.finalize tx rs ws) _ _ := finalize_told tx rs ws
    intro h
    show Told e (ms ++ []) (n + h.finalized) ((e.finalize tx rs ws).after s)
    rw [List.append_nil]
    cases hout : (e.finalize tx rs ws).outcome s with
    | ok _ =>
      have hcount : h.finalized = 1 := by
        simp [h, History.finalized, Event.isFinalize, Event.step, hout, Except.isOk, Except.toBool]
      rw [hcount]
      exact hfinalize.ok hs hout
    | error _ =>
      have hcount : h.finalized = 0 := by
        simp [h, History.finalized, Event.isFinalize, Event.step, hout, Except.isOk, Except.toBool]
      rw [hcount]
      exact hfinalize.error hs hout

/-- **Any events.** -/
theorem run_told (events : List Event) {s : State σ τ} (hs : Told e ms n s) :
    let h := history e events s
    Told e (ms ++ h.consumed) (n + h.finalized) (run e events s) := by
  induction events generalizing ms n s with
  | nil =>
    show Told e (ms ++ []) n s
    rwa [List.append_nil]
  | cons ev events ih =>
    intro h
    have hrest := ih (step_told ev hs)
    have hsplit : h = [(ev, (ev.step e).outcome s)] ++ history e events ((ev.step e).after s) := rfl
    rw [hsplit, History.consumed_append, History.finalized_append,
      ← List.append_assoc, ← Nat.add_assoc]
    exact hrest

end

end Accounting

/-! ## What is kept -/

/-- The backend with the ids under which values were kept, oldest first. -/
def Backend.tallied (b : Backend σ) : Backend (σ × List RecordId) :=
  let inner := b.within (ρ := σ × List RecordId) Prod.fst fun s w => (s, w.2)
  { inner with
    store := fun r key value => do
      let q ← inner.store r key value
      Step.modify fun w => (w.1, w.2 ++ [r.id])
      pure q }

/-- **The tally changes nothing.** -/
theorem Backend.mirrors_tallied (b : Backend σ) : b.Mirrors (fun s w => w.1 = s) b.tallied where
  start := .beside _
  stop := .beside _
  init _ := .beside _
  store _ _ _ := (Simulates.beside _).followed fun _ _ _ hw => ⟨rfl, hw⟩
  retrieve _ _ := .beside _
  fetch _ := .beside _
  list _ _ := .beside _

namespace Accounting

open Engine (State)

/-- The number of values kept under ids that are not internal. -/
def ordinary (ids : List RecordId) : Nat := ids.countP fun id => ¬ Record.Internal id

theorem ordinary_concat (ids : List RecordId) (id : RecordId) :
    ordinary (ids ++ [id]) = ordinary ids + if Record.Internal id then 0 else 1 := by
  simp [ordinary, List.countP_append, List.countP_cons]

section
variable {e : Engine σ τ} (C : e.backend.Contract)

/-- Whether a storage with its tally holds `records` records, none of them internal, and has kept
`values` values under ids that are not internal. -/
def Keeping (records values : Nat) (w : σ × List RecordId) : Prop :=
  (∃ c log, C.Holds c w.1 ∧ c.Logs log ∧ (∀ r ∈ log, ¬ Record.Internal r.id) ∧
    log.length = records) ∧ ordinary w.2 = values

variable {C} {records values : Nat}

/-- A step on the storage that leaves the contents alone. -/
theorem keeps_keeping {α : Type} {m : Step σ α} (hm : ∀ c, Keeps (C.Holds c) m) :
    Keeps (Keeping C records values) (m.within Prod.fst fun s w => (s, w.2)) := by
  rintro w ⟨⟨c, log, hholds, hlog⟩, hvalues⟩
  have hafter := (hm c).beside w.2 w ⟨hholds, rfl⟩
  split at hafter
  · exact ⟨⟨c, log, hafter.1, hlog⟩, hafter.2 ▸ hvalues⟩
  · exact ⟨⟨c, log, hafter.1, hlog⟩, hafter.2 ▸ hvalues⟩

variable (hC : C.Reliable)
include hC

/-- A record that is initialized is held, and one that is refused changes nothing. -/
theorem init_keeping {r : Record} (hr : ¬ Record.Internal r.id) :
    Ensures (Keeping C records values) (e.backend.tallied.init r)
      (fun _ => Keeping C (records + 1) values) fun _ => Keeping C records values := by
  rintro w ⟨⟨c, log, hholds, hlogs, hordinary, hlength⟩, hvalues⟩
  have hafter := (hC.init_ensures c r).beside w.2 w ⟨hholds, rfl⟩
  split at hafter
  · next heq =>
    obtain ⟨⟨habsent, hafter⟩, hsame⟩ := hafter
    rw [show e.backend.tallied.init r w = _ from heq]
    refine ⟨⟨_, log ++ [r], hafter, hlogs.withRecord habsent, ?_, ?_⟩, hsame ▸ hvalues⟩
    · intro q hq
      rcases List.mem_append.mp hq with hq | hq
      · exact hordinary q hq
      · exact List.mem_singleton.mp hq ▸ hr
    · rw [List.length_append, hlength]
      rfl
  · next heq =>
    obtain ⟨⟨-, -, hafter⟩, hsame⟩ := hafter
    rw [show e.backend.tallied.init r w = _ from heq]
    exact ⟨⟨c, log, hafter, hlogs, hordinary, hlength⟩, hsame ▸ hvalues⟩

/-- A value is kept and noted. -/
theorem store_keeping {r : Record} (key : String) (value : Bytes) (hr : r.id ≠ Record.mempool.id)
    {E : StoreError → σ × List RecordId → Prop} :
    Ensures (Keeping C records values) (e.backend.tallied.store r key value)
      (fun _ => Keeping C records (values + if Record.Internal r.id then 0 else 1)) E := by
  rintro w ⟨⟨c, log, hholds, hlogs, hlog⟩, hvalues⟩
  have hkept := (hC.store_ensures c key value hr (E := fun _ _ => False)).beside w.2
  refine Ensures.bind (Q := fun _ u => C.Holds (c.withValue r.id key value) u.1 ∧ u.2 = w.2)
    (hkept.mono (fun _ hu => hu) (fun _ _ hu => hu) fun _ _ hu => hu.1.elim)
    (fun q => ?_) w ⟨hholds, rfl⟩
  refine .bind (.modify fun u hu => ?_) fun _ => .pure fun u hu => hu
  refine ⟨⟨_, log, hu.1, hlogs.of_eq rfl rfl, hlog⟩, ?_⟩
  rw [ordinary_concat, hu.2, hvalues]

/-- The outbox keeps its own in the storage. -/
theorem storeOutbox_keeping (key : String) (raw : Bytes) :
    Keeps (Keeping C records values) (e.backend.tallied.store Record.outbox key raw) :=
  (store_keeping hC key raw Outbox.outbox_id_ne_mempool).mono (fun _ hw => hw)
    (fun _ _ hw => by rwa [if_pos (.inr rfl)] at hw) fun _ _ hw => hw

theorem push_keeping (m : Message) :
    Keeps (Keeping C records values) (Outbox.push e.backend.tallied m) :=
  Outbox.keeps_push (fun _ => keeps_keeping fun c => Outbox.retrieveOutbox_keeps C c _)
    (fun key raw _ => storeOutbox_keeping hC key raw) m

theorem acknowledge_keeping (d : Octets 32) :
    Keeps (Keeping C records values) (Outbox.acknowledge e.backend.tallied d) :=
  Outbox.keeps_acknowledge (fun _ => keeps_keeping fun c => Outbox.retrieveOutbox_keeps C c _)
    (fun key raw _ => storeOutbox_keeping hC key raw) d

end

/-! ### What is kept and not counted yet -/

/-- How many records were initialized, as the counters tell. -/
def records (t : Metrics) : Nat := t.count .recordsInitialized

/-- How many values were kept, as the counters tell. -/
def values (t : Metrics) : Nat := t.count .writesCommitted + t.count .writesReplicated

section
variable {e : Engine σ τ} (C : e.backend.Contract)

/-- Whether the counters tell what is kept, this many records and values apart. -/
def Owes (moreRecords moreValues : Nat) (s : State (σ × List RecordId) τ) : Prop :=
  Keeping C (records s.metrics + moreRecords) (values s.metrics + moreValues) s.storage

variable {C} {i j : Nat}

/-- A step on the storage. -/
theorem onStorage_owes {α : Type} {m : Step (σ × List RecordId) α} {k l : Nat}
    (h : ∀ n v, Ensures (Keeping C n v) m (fun _ => Keeping C (n + k) (v + l))
      fun _ => Keeping C n v) :
    Ensures (Owes (τ := τ) C 0 0) (Engine.onStorage m) (fun _ => Owes C k l)
      fun _ => Owes C 0 0 := by
  refine .within fun s hs => ?_
  rintro _ rfl
  exact h _ _ s.storage hs

theorem onStorage_settled {α : Type} {m : Step (σ × List RecordId) α}
    (h : ∀ n v, Keeps (Keeping C n v) m) : Keeps (Owes (τ := τ) C 0 0) (Engine.onStorage m) :=
  onStorage_owes (k := 0) (l := 0) h

/-- Counting pays what is owed. -/
theorem count_owes {metric : Metric} {k l : Nat}
    (hrecords : ∀ t : Metrics, records (t.add metric 1) + i = records t + k)
    (hvalues : ∀ t : Metrics, values (t.add metric 1) + j = values t + l) :
    Ensures (Owes (τ := τ) C k l) (Engine.count metric) (fun _ => Owes C i j)
      fun _ => Owes C 0 0 := by
  intro s hs
  show Keeping C (records (s.metrics.add metric 1) + i)
    (values (s.metrics.add metric 1) + j) s.storage
  rw [hrecords, hvalues]
  exact hs

theorem count_record : Ensures (Owes (τ := τ) C 1 0) (Engine.count .recordsInitialized)
    (fun _ => Owes C 0 0) fun _ => Owes C 0 0 :=
  count_owes (by simp [records, Metrics.count_add]) (by simp [values, Metrics.count_add])

theorem count_committed :
    Ensures (Owes (τ := τ) C 0 1) (Engine.count .writesCommitted) (fun _ => Owes C 0 0)
    fun _ => Owes C 0 0 := by
  refine count_owes (by simp [records, Metrics.count_add]) fun t => ?_
  simp [values, Metrics.count_add]
  omega

theorem count_replicated :
    Ensures (Owes (τ := τ) C 0 1) (Engine.count .writesReplicated) (fun _ => Owes C 0 0)
    fun _ => Owes C 0 0 := by
  refine count_owes (by simp [records, Metrics.count_add]) fun t => ?_
  simp [values, Metrics.count_add]
  omega

/-- What is counted of other things pays nothing. -/
theorem count_other {metric : Metric}
    (hmetric : metric ∉ [Metric.recordsInitialized, .writesCommitted, .writesReplicated]) :
    Keeps (Owes (τ := τ) C 0 0) (Engine.count metric) := by
  rw [List.mem_cons, List.mem_cons, List.mem_singleton, not_or, not_or] at hmetric
  obtain ⟨hrecords, hcommitted, hreplicated⟩ := hmetric
  refine count_owes (fun t => ?_) fun t => ?_
  · simp [records, Metrics.count_add, hrecords]
  · simp [values, Metrics.count_add, hcommitted, hreplicated]

variable (hC : C.Reliable)
include hC

theorem init_owes {r : Record} (hr : ¬ Record.Internal r.id) : Ensures (Owes (τ := τ) C 0 0)
    (Engine.onStorage (e.backend.tallied.init r)) (fun _ => Owes C 1 0) fun _ => Owes C 0 0 :=
  onStorage_owes fun _ _ => init_keeping hC hr

theorem store_owes {r : Record} (key : String) (value : Bytes) (hr : ¬ Record.Internal r.id) :
    Ensures (Owes (τ := τ) C 0 0) (Engine.onStorage (e.backend.tallied.store r key value))
      (fun _ => Owes C 0 1) fun _ => Owes C 0 0 := by
  refine onStorage_owes fun n v => ?_
  have hstore : Ensures (Keeping C n v) _ _ fun _ => Keeping C n v :=
    store_keeping hC key value fun hid => hr (.inl hid)
  rwa [if_neg hr] at hstore

/-- What an engine does besides leaves nothing to count. -/
theorem routine_owes : (e.withBackend e.backend.tallied).Routine (Owes C 0 0) where
  start := onStorage_settled fun _ _ => keeps_keeping C.start
  stop := onStorage_settled fun _ _ => keeps_keeping C.stop
  topic _ _ hs := hs
  journal _ _ hs := hs
  pending := onStorage_settled fun _ _ => Outbox.keeps_pending fun _ =>
    keeps_keeping fun c => Outbox.retrieveOutbox_keeps C c _
  push m := onStorage_settled fun _ _ => push_keeping hC m
  acknowledge d := onStorage_settled fun _ _ => acknowledge_keeping hC d
  subscription _ _ hs := hs
  outgoing _ _ hs := hs
  published := count_other (by decide)
  refused := count_other (by decide)

/-- Each record and each value of a batch is counted once it is kept. -/
theorem commit_owes {rs : List Record} {ws : List StoreWrite}
    (hrs : ∀ r ∈ rs, ¬ Record.Internal r.id) (hws : ∀ w ∈ ws, ¬ Record.Internal w.record.id) :
    Keeps (Owes C 0 0) ((e.withBackend e.backend.tallied).commit rs ws) := by
  refine .bind (.forEach fun r hr => ?_) fun _ => .forEach fun w hw => ?_
  · exact .bind (init_owes hC (hrs r hr)) fun _ => count_record
  · exact .bind (store_owes hC w.key w.value (hws w hw)) fun _ => count_committed

/-- The record and the value of a write are each counted if they are kept. -/
theorem applyWrite_owes {w : StoreWrite} (hw : ¬ Record.Internal w.record.id) :
    Keeps (Owes C 0 0) ((e.withBackend e.backend.tallied).applyWrite w) := by
  refine Engine.applyWrite_parts (N := Owes C 1 0) (M := Owes C 0 0) (K := Owes C 0 1)
    (F := Owes C 0 0) ?_ count_record (store_owes hC w.key w.value hw) count_replicated
    (count_other (by decide))
  exact (init_owes hC hw).mono (fun _ hs => hs) (fun _ _ hs => hs) fun _ s hs =>
    (ite_self (Owes C 0 0 s)).symm ▸ hs

/-- The writes of an accepted message are under derived ids, which are not internal. -/
theorem consume_owes (m : Message) :
    Keeps (Owes C 0 0) ((e.withBackend e.backend.tallied).consume m) := by
  have hreceive : Keeps (Owes C 0 0) ((e.withBackend e.backend.tallied).receive m) := by
    refine Engine.receive_parts (R := Owes C 0 0) (count_other (by decide)) (fun _ _ _ hs => hs)
      (fun _ => count_other (by decide)) fun haccept => .forEach fun w hw => applyWrite_owes hC ?_
    obtain ⟨a, -, -, happroved⟩ := Engine.judge_accept_iff.mp haccept
    exact Record.not_internal_of_derived (happroved w hw).derived
  exact .bind_attempt hreceive (fun _ => .pure fun _ hs => hs) fun _ => count_other (by decide)

/-- **One event** leaves nothing to count. -/
theorem step_owes {ev : Event} (hev : ev.Ordinary) :
    Keeps (Owes C 0 0) (ev.step (e.withBackend e.backend.tallied)) := by
  cases ev with
  | start => exact (routine_owes hC).keeps_start
  | stop => exact (routine_owes hC).keeps_stop
  | publish => exact (routine_owes hC).keeps_publishNext
  | consume m => exact consume_owes hC m
  | finalize tx rs ws =>
    refine (routine_owes hC).ensures_finalize tx (commit_owes hC hev.1 hev.2)
      fun s outgoing hs => ?_
    have htotal : Keeps (Owes C 0 0) (Engine.count .finalizeTotal) := count_other (by decide)
    have hduration : Keeps (Owes C 0 0) (Engine.count .finalizeDuration) := count_other (by decide)
    exact hduration { s with outgoing, metrics := _ } (htotal s hs)

/-- **Any events.** -/
theorem run_owes {events : List Event} (hevents : ∀ ev ∈ events, ev.Ordinary)
    {s : State (σ × List RecordId) τ} (hs : Owes C 0 0 s) :
    Owes C 0 0 (run (e.withBackend e.backend.tallied) events s) :=
  List.foldlRecOn events _ hs fun _ ht ev hev => (step_owes hC (hevents ev hev)).after ht

end

/-! ## The counters -/

section
variable {e : Engine σ τ}

theorem step_simulates (ev : Event) : Simulates (State.Like fun s w => w.1 = s) (ev.step e)
    (ev.step (e.withBackend e.backend.tallied)) := by
  have h := e.backend.mirrors_tallied
  cases ev with
  | start => exact Engine.start_simulates h
  | stop => exact Engine.stop_simulates h
  | finalize tx rs ws => exact Engine.finalize_simulates h.toSimulates tx rs ws
  | publish => exact Engine.publishNext_simulates h
  | consume m =>
    refine (Engine.receive_simulates h m).attempt.bind fun received => ?_
    cases received with
    | ok _ => exact .pure ()
    | error _ => exact Engine.count_simulates _

/-- The run with the tally differs in the tally alone. -/
theorem run_simulates (events : List Event) {s : State σ τ} {u : State (σ × List RecordId) τ}
    (h : State.Like (fun s w => w.1 = s) s u) :
    State.Like (fun s w => w.1 = s) (run e events s)
      (run (e.withBackend e.backend.tallied) events u) := by
  induction events generalizing s u with
  | nil => exact h
  | cons ev events ih => exact ih (step_simulates ev s u h).2

/-- The ids under which a run keeps values, in order. -/
def tally (e : Engine σ τ) (events : List Event) (storage : σ) (topic : τ) : List RecordId :=
  (run (e.withBackend e.backend.tallied) events (.initial (storage, []) topic)).storage.2

/-- What the counters tell of the backend: how many records it holds that are not internal, and how
many values were kept under ids that are not. -/
structure Matches (e : Engine σ τ) (ids : List RecordId) (s : State σ τ) : Prop where
  initialized : s.metrics.count .recordsInitialized =
    {id | ¬ Record.Internal id ∧ ∃ r, (e.fetch id).outcome s = .ok r}.ncard
  kept : s.metrics.count .writesCommitted + s.metrics.count .writesReplicated = ordinary ids

/-- Where nothing is left to count, the counters tell of the backend. -/
theorem Owes.matches {C : e.backend.Contract} (hC : C.Reliable) {s : State σ τ}
    {ids : List RecordId} (h : Owes C 0 0 (s.withStorage (s.storage, ids))) : Matches e ids s := by
  obtain ⟨⟨c, log, hholds, hlogs, hordinary, hlength⟩, hvalues⟩ := h
  have hfetch : ∀ id, (∃ r, (e.fetch id).outcome s = .ok r) ↔ id ∈ log.map Record.id := by
    intro id
    have hheld : (Engine.view C.toView).Holds c s := hholds
    rw [(Engine.fetch_gives hC c id).outcome hheld, List.mem_map]
    exact exists_congr fun r => Contents.record_ok_iff.trans (hlogs.records id r)
  have hset : {id | ¬ Record.Internal id ∧ ∃ r, (e.fetch id).outcome s = .ok r} =
      ((log.map Record.id).toFinset : Set RecordId) := by
    ext id
    rw [Set.mem_ofPred_eq, List.coe_toFinset, Set.mem_ofPred_eq, hfetch]
    refine ⟨fun hid => hid.2, fun hid => ⟨?_, hid⟩⟩
    obtain ⟨r, hr, rfl⟩ := List.mem_map.mp hid
    exact hordinary r hr
  refine ⟨?_, hvalues.symm⟩
  rw [hset, Set.ncard_coe_finset, List.toFinset_card_of_nodup hlogs.nodup, List.length_map]
  exact hlength.symm

/-- **The counters account for what happened.**  After any run from an empty backend that fails no
call, every message that was received is counted as rejected, as an echo or was applied, every write
of an applied message is counted as replicated or as failed, and so is every finalization that
returned no error.  Provided that no finalization is handed a record or a write under an internal
id, the counters are also those of the backend: one for each record that is held, and one for each
value that was kept, internal ones apart. -/
theorem counters_account {C : e.backend.Contract} (hC : C.Reliable) {storage : σ}
    (hvalid : C.Valid storage) (hempty : C.see storage = .empty) (topic : τ) (events : List Event) :
    let s := run e events (.initial storage topic)
    let h := history e events (.initial storage topic)
    Tells e h.consumed h.finalized s.metrics ∧
      State.Like (fun s w => w.1 = s) s
        (run (e.withBackend e.backend.tallied) events (.initial (storage, []) topic)) ∧
      ((∀ ev ∈ events, ev.Ordinary) → Matches e (tally e events storage topic) s) := by
  intro s h
  have hlike : State.Like (fun s w => w.1 = s) s
      (run (e.withBackend e.backend.tallied) events (.initial (storage, []) topic)) :=
    run_simulates events ⟨(storage, []), rfl, rfl⟩
  refine ⟨?_, hlike, fun hevents => ?_⟩
  · have htold : Told e ([] ++ h.consumed) (0 + h.finalized) s := run_told events tells_empty
    rwa [List.nil_append, Nat.zero_add] at htold
  · have hfirst : Owes (τ := τ) C 0 0 (.initial (storage, []) topic) :=
      ⟨⟨.empty, [], ⟨hvalid, hempty⟩, Contents.logs_empty, List.forall_mem_nil _, rfl⟩, rfl⟩
    have howes := run_owes hC hevents hfirst
    obtain ⟨⟨_, ids⟩, rfl, hrun⟩ := hlike
    have hids : tally e events storage topic = ids := by
      rw [tally, hrun]
      rfl
    rw [hrun] at howes
    rw [hids]
    exact howes.matches hC

/-- The statement at a node in memory that commits the sample record with a value, hears of another
value under it and of its own message. -/
theorem counters_account_heard :
    let e : Engine Memory (Hub Message) := Sample.engine Octets.zero false
    let heard := Sample.message (Octets.replicate 16 1) [Sample.write "k" [2]]
    let events : List Event :=
      [.finalize Sample.tx [Sample.record] [Sample.write "k" [1]], .consume heard,
        .consume Sample.firstMessage]
    let s := run e events (.initial .empty .empty)
    e.accepts heard = true ∧ (∀ ev ∈ events, ev.Ordinary) ∧
      (history e events (.initial .empty .empty)).finalized = 1 ∧
        Tells e [heard, Sample.firstMessage] 1 s.metrics ∧
      Matches e (tally e events .empty .empty) s := by
  intro e heard events s
  have haccepts : e.accepts heard = true :=
    decide_eq_true (Sample.judge_message _ _ _ (by decide) fun w hw =>
      ⟨_, _, List.mem_singleton.mp hw⟩)
  have hrecord : ¬ Record.Internal Sample.record.id :=
    Record.not_internal_of_derived Sample.derivedId_record
  have hevents : ∀ ev ∈ events, ev.Ordinary := by
    simp [events, Event.Ordinary, Sample.write, hrecord]
  obtain ⟨htells, -, hmatches⟩ :=
    counters_account (C := Sample.contract ..) (Sample.contract_reliable ..) trivial
    (Sample.see_empty ..) Hub.empty events
  exact ⟨haccepts, hevents, rfl, htells, hmatches hevents⟩

/-- **What a finalization is handed under an internal id is counted as well**, although neither a
record nor a value comes of it that counts. -/
theorem counters_exceed_of_internal :
    let e : Engine Memory (Hub Message) := Sample.engine Octets.zero false
    let events : List Event :=
      [.finalize Sample.tx [Record.outbox] [⟨Record.outbox, Sample.account, "k", [1]⟩]]
    let s := run e events (.initial .empty .empty)
    s.metrics.count .recordsInitialized = 1 ∧
      (∀ id r, (e.fetch id).outcome s = .ok r → Record.Internal id) ∧
      s.metrics.count .writesCommitted = 1 ∧ ordinary (tally e events .empty .empty) = 0 ∧
      ¬ Matches e (tally e events .empty .empty) s := by
  intro e events s
  have htally : tally e events .empty .empty = [Record.outbox.id] := rfl
  have hordinary : ordinary (tally e events .empty .empty) = 0 := by
    rw [htally]
    decide
  have hcommitted : s.metrics.count .writesCommitted = 1 := rfl
  refine ⟨rfl, fun id r hr => ?_, hcommitted, hordinary, fun h => ?_⟩
  · have hheld : (e.fetch id).outcome s = s.storage.record id := rfl
    have hrecords : s.storage.records = Table.empty.insert Record.outbox.id Record.outbox := rfl
    rw [hheld, Memory.record, hrecords, Table.find?_insert] at hr
    by_cases hid : Record.outbox.id = id
    · exact .inr hid.symm
    · rw [if_neg hid] at hr
      cases hr
  · have hkept := h.kept
    rw [hordinary, hcommitted] at hkept
    omega

end

end Accounting
end SealedStore

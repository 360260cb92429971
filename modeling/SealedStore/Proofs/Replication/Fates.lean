import SealedStore.Proofs.Backend.Storage
import SealedStore.Proofs.Replication.Filter
import SealedStore.Proofs.Session.Simulation

/-! # What becomes of each write of a message

A write of an accepted message meets two calls that may fail, and its fate is told by their answers
alone (`Backend.fate`): its record is refused, or its value is, or both are taken.  Whatever the
backend, applying a message is reading off the fates of its writes in turn, and each write is
counted once (`Engine.applyWrites_fates`).  Where refusals change nothing and never say that a
record is there, as over a reliable backend behind any check, the fates tell what is held afterwards
(`Contents.settleAll`): the values that were taken, in the order of the message, and the records
that were admitted.  So one write that fails neither stops the others nor leaves a value without its
record (`Engine.receive_settles`).
-/
namespace SealedStore

open Step

variable {σ ω τ : Type}

/-! ## Fates -/

/-- What becomes of a write. -/
inductive StoreWrite.Fate where
  /-- Its record was refused. -/
  | barred
  /-- Its record was kept or was there, and its value was refused. -/
  | opened
  /-- Its value was kept. -/
  | kept
deriving DecidableEq

/-- Writes with their fates. -/
abbrev StoreWrite.Fates := List (StoreWrite × StoreWrite.Fate)

namespace StoreWrite.Fates

/-- The writes whose value was kept. -/
def kept (fs : Fates) : List StoreWrite := (fs.filter fun f => f.2 = .kept).map (·.1)

/-- The writes whose value was not kept. -/
def missed (fs : Fates) : List StoreWrite := (fs.filter fun f => f.2 ≠ .kept).map (·.1)

/-- The writes whose record was kept or was there. -/
def admitted (fs : Fates) : List StoreWrite := (fs.filter fun f => f.2 ≠ .barred).map (·.1)

theorem length_kept_add_missed (fs : Fates) : fs.kept.length + fs.missed.length = fs.length := by
  simp only [kept, missed, List.length_map, ne_eq, decide_not]
  exact (List.length_eq_length_filter_add _).symm

/-- A value is kept only under a record that was admitted. -/
theorem mem_admitted_of_kept {fs : Fates} {w : StoreWrite} (hw : w ∈ fs.kept) :
    w ∈ fs.admitted := by
  obtain ⟨f, hf, rfl⟩ := List.mem_map.mp hw
  obtain ⟨hf, hkept⟩ := List.mem_filter.mp hf
  refine List.mem_map_of_mem (List.mem_filter.mpr ⟨hf, decide_eq_true ?_⟩)
  rw [of_decide_eq_true hkept]
  exact nofun

end StoreWrite.Fates

namespace Backend

/-- Offers the value of a write. -/
def offer (b : Backend σ) (w : StoreWrite) (s : σ) : StoreWrite.Fate × σ :=
  match b.store w.record w.key w.value s with
  | (.ok _, t) => (.kept, t)
  | (.error _, t) => (.opened, t)

/-- **The fate of a write**, as the answers of the backend tell it, and the state that they leave:
the value is offered if the record was kept or is said to be there. -/
def fate (b : Backend σ) (w : StoreWrite) (s : σ) : StoreWrite.Fate × σ :=
  match b.init w.record s with
  | (.ok _, t) => b.offer w t
  | (.error err, t) => if err.isAlreadyPresent then b.offer w t else (.barred, t)

/-- The fates of writes in turn, and the state in the end. -/
def fates (b : Backend σ) : List StoreWrite → σ → StoreWrite.Fates × σ
  | [], s => ([], s)
  | w :: ws, s =>
    let first := b.fate w s
    let rest := fates b ws first.2
    ((w, first.1) :: rest.1, rest.2)

/-- Every write has its fate. -/
theorem map_fst_fates (b : Backend σ) (ws : List StoreWrite) (s : σ) :
    (b.fates ws s).1.map (·.1) = ws := by
  induction ws generalizing s with
  | nil => rfl
  | cons w ws ih => exact congrArg (w :: ·) (ih _)

end Backend

/-! ## What fates leave -/

namespace Contents

/-- The contents after a write with this fate. -/
def settle (c : Contents) (f : StoreWrite × StoreWrite.Fate) : Contents :=
  match f.2 with
  | .barred => c
  | .opened => c.adopt f.1.record
  | .kept => c.ingest f.1

/-- The contents after writes with these fates. -/
def settleAll (c : Contents) (fs : StoreWrite.Fates) : Contents := fs.foldl settle c

variable (c : Contents) (fs : StoreWrite.Fates)

/-- **Values go by the last write that was kept.** -/
theorem values_settleAll (id : RecordId) (key : String) :
    (c.settleAll fs).values id key = (StoreWrite.latest? fs.kept id key).or (c.values id key) := by
  induction fs generalizing c with
  | nil => rfl
  | cons f fs ih =>
    obtain ⟨w, fate⟩ := f
    show ((c.settle (w, fate)).settleAll fs).values id key = _
    rw [ih]
    cases fate with
    | barred => rfl
    | opened => rw [settle, values_adopt]; rfl
    | kept =>
      show _ = (StoreWrite.latest? (w :: StoreWrite.Fates.kept fs) id key).or _
      rw [settle, values_ingest, StoreWrite.latest?_cons w (StoreWrite.Fates.kept fs),
        Option.or_assoc]

/-- **Records go by the first write that was admitted.** -/
theorem records_settleAll (id : RecordId) : (c.settleAll fs).records id =
    (c.records id).or ((fs.admitted.find? fun w => w.record.id = id).map (·.record)) := by
  induction fs generalizing c with
  | nil => simp [settleAll, StoreWrite.Fates.admitted]
  | cons f fs ih =>
    obtain ⟨w, fate⟩ := f
    have hadopt : ((c.adopt w.record).settleAll fs).records id = (c.records id).or
        (((w :: StoreWrite.Fates.admitted fs).find? fun v => v.record.id = id).map (·.record)) := by
      rw [ih, records_adopt, Option.or_assoc, List.find?_cons]
      by_cases hid : w.record.id = id <;> simp [hid]
    show ((c.settle (w, fate)).settleAll fs).records id = _
    cases fate with
    | barred => exact ih c
    | opened => exact hadopt
    | kept =>
      rw [settle, ih, records_ingest, ← ih]
      exact hadopt

/-- **No value comes to be without a record.** -/
theorem settleAll_rooted {id : RecordId} (h : c.records id = none → ∀ key, c.values id key = none)
    (hnone : (c.settleAll fs).records id = none) (key : String) :
    (c.settleAll fs).values id key = none := by
  rw [records_settleAll, Option.or_eq_none_iff, Option.map_eq_none_iff, List.find?_eq_none] at hnone
  obtain ⟨hrecord, hadmitted⟩ := hnone
  have hkept : StoreWrite.latest? fs.kept id key = none :=
    StoreWrite.latest?_eq_none_iff.mpr fun w hw hid =>
      absurd (decide_eq_true hid) (hadmitted w (StoreWrite.Fates.mem_admitted_of_kept hw))
  rw [values_settleAll, hkept, h hrecord key]
  rfl

end Contents

/-! ## Applying writes, over any backend -/

namespace Engine

variable {e : Engine σ τ}

/-- What applying writes with these fates counts. -/
structure Counts (fs : StoreWrite.Fates) (s t : State σ τ) : Prop where
  replicated : t.metrics.count .writesReplicated = s.metrics.count .writesReplicated +
    fs.kept.length
  failed : t.metrics.count .writesReplicationFailed =
    s.metrics.count .writesReplicationFailed + fs.missed.length

/-- The metric that counts a write with this fate. -/
def metricOf : StoreWrite.Fate → Metric
  | .kept => .writesReplicated
  | _ => .writesReplicationFailed

theorem Counts.single (w : StoreWrite) (fate : StoreWrite.Fate) {s t : State σ τ}
    (h : t.metrics = s.metrics.add (metricOf fate) 1) : Counts [(w, fate)] s t := by
  cases fate <;> constructor <;>
    simp [h, metricOf, Metrics.count_add, StoreWrite.Fates.kept, StoreWrite.Fates.missed]

/-- What is counted before, under another metric, does not matter. -/
theorem Counts.of_other {metric : Metric} (hreplicated : metric ≠ .writesReplicated)
    (hfailed : metric ≠ .writesReplicationFailed) {fs : StoreWrite.Fates} {s t u : State σ τ}
    (ht : t.metrics = s.metrics.add metric 1) (h : Counts fs t u) : Counts fs s u := by
  refine ⟨h.replicated.trans ?_, h.failed.trans ?_⟩
  · rw [ht, Metrics.count_add, if_neg hreplicated]
  · rw [ht, Metrics.count_add, if_neg hfailed]

theorem Counts.cons {f : StoreWrite × StoreWrite.Fate} {fs : StoreWrite.Fates} {s t u : State σ τ}
    (h : Counts [f] s t) (h' : Counts fs t u) : Counts (f :: fs) s u := by
  have hkept : StoreWrite.Fates.kept (f :: fs) = StoreWrite.Fates.kept [f] ++ fs.kept := by
    rw [StoreWrite.Fates.kept, ← List.singleton_append, List.filter_append, List.map_append]
    rfl
  have hmissed : StoreWrite.Fates.missed (f :: fs) = StoreWrite.Fates.missed [f] ++ fs.missed := by
    rw [StoreWrite.Fates.missed, ← List.singleton_append, List.filter_append, List.map_append]
    rfl
  refine ⟨?_, ?_⟩
  · rw [h'.replicated, h.replicated, hkept, List.length_append, Nat.add_assoc]
  · rw [h'.failed, h.failed, hmissed, List.length_append, Nat.add_assoc]

/-- The value of a write is offered and counted. -/
theorem keep_fate (w : StoreWrite) (s : State σ τ) :
    ((applyWrite.keep e w).after s).storage = (e.backend.offer w s.storage).2 ∧
      Counts [(w, (e.backend.offer w s.storage).1)] s ((applyWrite.keep e w).after s) := by
  unfold applyWrite.keep Backend.offer
  cases hkept : e.backend.store w.record w.key w.value s.storage with
  | mk r t =>
    have hmade : (onStorage (e.backend.store w.record w.key w.value)).attempt s =
        (.ok r, { s with storage := t }) := by simp [onStorage, hkept]
    rw [after, bind_of_ok hmade]
    cases r with
    | ok _ => exact ⟨rfl, .single w .kept rfl⟩
    | error _ => exact ⟨rfl, .single w .opened rfl⟩

/-- **A write has the fate that the backend's answers tell**, and is counted once. -/
theorem applyWrite_fate (w : StoreWrite) (s : State σ τ) :
    ((e.applyWrite w).after s).storage = (e.backend.fate w s.storage).2 ∧
      Counts [(w, (e.backend.fate w s.storage).1)] s ((e.applyWrite w).after s) := by
  unfold applyWrite Backend.fate
  cases hinit : e.backend.init w.record s.storage with
  | mk r t =>
    have hmade : (onStorage (e.backend.init w.record)).attempt s =
        (.ok r, { s with storage := t }) := by
      simp [onStorage, hinit]
    rw [after, bind_of_ok hmade]
    cases r with
    | ok _ =>
      -- the record is counted as well, under its own name
      obtain ⟨hstorage, hcounts⟩ := keep_fate (e := e) w
        { s with storage := t, metrics := s.metrics.add .recordsInitialized 1 }
      exact ⟨hstorage, hcounts.of_other (by decide) (by decide) rfl⟩
    | error err =>
      show ((if err.isAlreadyPresent then _ else _ : Step (State σ τ) Unit).after _).storage =
        (if err.isAlreadyPresent then _ else _ : StoreWrite.Fate × σ).2 ∧
          Counts [(w, (if err.isAlreadyPresent then _ else _ : StoreWrite.Fate × σ).1)] s
            ((if err.isAlreadyPresent then _ else _ : Step (State σ τ) Unit).after _)
      split
      · obtain ⟨hstorage, hcounts⟩ := keep_fate (e := e) w { s with storage := t }
        exact ⟨hstorage, hcounts.replicated, hcounts.failed⟩
      · exact ⟨rfl, .single w .barred rfl⟩

/-- **Writes that are applied in turn have their fates in turn**, whichever of them fail. -/
theorem applyWrites_fates (ws : List StoreWrite) (s : State σ τ) :
    let t := ws.foldl (fun s w => (e.applyWrite w).after s) s
    t.storage = (e.backend.fates ws s.storage).2 ∧ Counts (e.backend.fates ws s.storage).1 s t := by
  induction ws generalizing s with
  | nil => exact ⟨rfl, rfl, rfl⟩
  | cons w ws ih =>
    obtain ⟨hstorage, hcounts⟩ := applyWrite_fate (e := e) w s
    obtain ⟨hrest, hcountsrest⟩ := ih ((e.applyWrite w).after s)
    rw [hstorage] at hrest hcountsrest
    exact ⟨hrest, hcounts.cons hcountsrest⟩

end Engine

/-! ## Refusals that change nothing -/

namespace Backend

/-- A backend of which a call takes effect or is refused and changes nothing, and which says of a
record that it is there only where it is. -/
structure RefusesCleanly (b : Backend σ) (V : Contents.View σ) : Prop where
  init : ∀ c r, Ensures (V.Holds c) (b.init r) (fun _ => V.Holds (c.adopt r))
    fun err => V.Holds (if err.isAlreadyPresent then c.adopt r else c)
  store : ∀ c r key value, r.id ≠ Record.mempool.id → Ensures (V.Holds c) (b.store r key value)
    (fun _ => V.Holds (c.withValue r.id key value)) fun _ => V.Holds c

/-- **A reliable backend behind a check** that never says that a record is there. -/
theorem Contract.Reliable.guarded {b : Backend σ} {C : b.Contract} (hC : C.Reliable)
    {gate : Call → Step ω Unit}
    (hgate : ∀ r x err, (gate (.init r)).outcome x = .error err → err.isAlreadyPresent = false) :
    (b.guarded gate).RefusesCleanly (C.toView.comap Prod.fst) where
  init c r := by
    have hinit : Ensures (C.Holds c) (b.init r) (fun _ => C.Holds (c.adopt r))
        fun err => C.Holds (if err.isAlreadyPresent then c.adopt r else c) := by
      refine (hC.init_ensures c r).mono (fun _ hs => hs) (fun _ s hs => ?_) fun err s hs => ?_
      · rw [Contents.adopt_of_absent hs.1]
        exact hs.2
      · rw [if_pos hs.1, Contents.adopt_of_present hs.2.1]
        exact hs.2.2
    refine hinit.behind_check fun err x s herr hs => ?_
    rwa [hgate r x err herr, if_neg Bool.false_ne_true]
  store c r key value hr := (hC.store_ensures c key value hr).behind_check fun _ _ _ _ hs => hs

namespace RefusesCleanly

variable {b : Backend σ} {V : Contents.View σ} (hb : b.RefusesCleanly V) {c : Contents} {s : σ}
include hb

/-- An offered value is kept or nothing is changed. -/
theorem holds_offer {w : StoreWrite} (hw : w.record.id ≠ Record.mempool.id)
    (hs : V.Holds (c.adopt w.record) s) :
    V.Holds (c.settle (w, (b.offer w s).1)) (b.offer w s).2 := by
  have hstore := hb.store (c.adopt w.record) w.record w.key w.value hw s hs
  unfold offer
  cases hout : b.store w.record w.key w.value s with
  | mk r t =>
    rw [hout] at hstore
    cases r <;> exact hstore

/-- **The fate of a write tells what it leaves.** -/
theorem holds_fate {w : StoreWrite} (hw : w.record.id ≠ Record.mempool.id) (hs : V.Holds c s) :
    V.Holds (c.settle (w, (b.fate w s).1)) (b.fate w s).2 := by
  have hinit := hb.init c w.record s hs
  unfold fate
  cases hout : b.init w.record s with
  | mk r t =>
    rw [hout] at hinit
    cases r with
    | ok _ => exact hb.holds_offer hw hinit
    | error err =>
      dsimp only at hinit ⊢
      split
      · next hpresent =>
        rw [if_pos hpresent] at hinit
        exact hb.holds_offer hw hinit
      · next habsent => rwa [if_neg habsent] at hinit

/-- **The fates of writes tell what they leave.** -/
theorem holds_fates {ws : List StoreWrite} (hws : ∀ w ∈ ws, w.record.id ≠ Record.mempool.id)
    (hs : V.Holds c s) :
    V.Holds (c.settleAll (b.fates ws s).1) (b.fates ws s).2 := by
  induction ws generalizing c s with
  | nil => exact hs
  | cons w ws ih =>
    exact ih (fun v hv => hws v (List.mem_cons_of_mem w hv))
      (hb.holds_fate (hws w List.mem_cons_self) hs)

end RefusesCleanly

end Backend

/-! ## A message under refusals -/

namespace Engine

/-- The engine with a check before every call to its backend. -/
def guarded (e : Engine σ τ) (gate : Backend.Call → Step ω Unit) : Engine (σ × ω) τ :=
  e.withBackend (e.backend.guarded gate)

/-- **A message that is applied write by write**, from a state whose storage is seen through `V`. -/
structure SettlesWrites (e : Engine σ τ) (V : Contents.View σ) (m : Message) (s : State σ τ)
    (fs : StoreWrite.Fates) : Prop where
  /-- No refusal is reported. -/
  outcome : (e.receive m).outcome s = .ok ()
  /-- Every write was tried, in order. -/
  tried : fs.map (·.1) = m.writes
  contents : V.Holds ((V.see s.storage).settleAll fs) ((e.receive m).after s).storage
  /-- The values of the writes that were kept, in order, over the old ones. -/
  values : ∀ id key, (V.see ((e.receive m).after s).storage).values id key =
    (StoreWrite.latest? fs.kept id key).or ((V.see s.storage).values id key)
  /-- The old records, and of each new id the first one that was admitted. -/
  records : ∀ id, (V.see ((e.receive m).after s).storage).records id =
    ((V.see s.storage).records id).or ((fs.admitted.find? fun w => w.record.id = id).map (·.record))
  /-- No value comes to be without a record. -/
  rooted :
    ∀ id, ((V.see s.storage).records id = none → ∀ key, (V.see s.storage).values id key = none) →
    (V.see ((e.receive m).after s).storage).records id = none →
      ∀ key, (V.see ((e.receive m).after s).storage).values id key = none
  counts : Counts fs s ((e.receive m).after s)
  /-- Each write is counted once. -/
  total : fs.kept.length + fs.missed.length = m.writes.length

/-- An accepted message is applied write by write over any backend whose refusals change nothing. -/
theorem receive_of_refusesCleanly {e : Engine σ τ} {V : Contents.View σ}
    (hb : e.backend.RefusesCleanly V)
    {m : Message} (hm : e.judge m = .ok .accept) {s : State σ τ} (hs : V.Valid s.storage) :
    e.SettlesWrites V m s (e.backend.fates m.writes s.storage).1 := by
  have hws : ∀ w ∈ m.writes, w.record.id ≠ Record.mempool.id := fun w hw =>
    id_ne_mempool_of_taken (taken_of_accept hm ▸ hw)
  have hreceive : (e.receive m).after s = m.writes.foldl (fun s w => (e.applyWrite w).after s)
      { s with metrics := s.metrics.add .messagesReceived 1 } := by
    rw [after, receive_of_accept hm, forEach_apply applyWrite_outcome]
  obtain ⟨hstorage, hcounts⟩ := applyWrites_fates (e := e) m.writes
    { s with metrics := s.metrics.add .messagesReceived 1 }
  rw [← hreceive] at hstorage hcounts
  have hholds : V.Holds ((V.see s.storage).settleAll (e.backend.fates m.writes s.storage).1)
      ((e.receive m).after s).storage := hstorage ▸ hb.holds_fates hws ⟨hs, rfl⟩
  have htried := Backend.map_fst_fates e.backend m.writes s.storage
  exact
    { outcome := by rw [receive_outcome, hm]; rfl
      tried := htried
      contents := hholds
      values := fun id key => hholds.2 ▸ Contents.values_settleAll ..
      records := fun id => hholds.2 ▸ Contents.records_settleAll ..
      rooted := fun id h hnone key => by
        rw [hholds.2] at hnone ⊢
        exact Contents.settleAll_rooted _ _ h hnone key
      counts := hcounts.of_other (by decide) (by decide) rfl
      total := by
        rw [StoreWrite.Fates.length_kept_add_missed, ← congrArg List.length htried,
          List.length_map] }

/-- **A message is applied write by write, whatever calls of its writes are refused.**  Before every
call to a reliable backend stands a check with a state of its own, which refuses any calls it likes
with any error, but never says that a record is there.  An accepted message succeeds; of each write
the backend's answers tell the fate, and the fates tell what is held and what is counted. -/
theorem receive_settles (e : Engine σ τ) {C : e.backend.Contract} (hC : C.Reliable)
    {gate : Backend.Call → Step ω Unit}
    (hgate : ∀ r x err, (gate (.init r)).outcome x = .error err → err.isAlreadyPresent = false)
    {m : Message} (hm : e.judge m = .ok .accept) {s : State (σ × ω) τ} (hs : C.Valid s.storage.1) :
    (e.guarded gate).SettlesWrites (C.toView.comap Prod.fst) m s
      ((e.guarded gate).backend.fates m.writes s.storage).1 := by
  refine receive_of_refusesCleanly (hC.guarded hgate) ?_ hs
  exact ((sameIdentity_withBackend e (e.backend.guarded gate)).judge m).trans hm

/-- The statement at a message of three writes under one record, behind a plan that
refuses the first record and the first value: the second write finds its record free, and
the third finds it there. -/
theorem receive_settles_three_writes :
    let e := Sample.engine (Octets.replicate 16 1) false
    let C := Sample.contract Topic.ofHub (Octets.replicate 16 1) false
    let plan : Fault.Plan := [⟨"init_record", "", 0, some 1⟩, ⟨"store", "", 0, some 1⟩]
    let s : State (Memory × Fault.Plan) (Hub Message) := .initial (Memory.empty, plan) .empty
    let m := Sample.message Octets.zero
      [Sample.write "k" [1], Sample.write "l" [2], Sample.write "m" [3]]
    C.Reliable ∧ e.judge m = .ok .accept ∧ C.Valid s.storage.1 ∧
      (e.guarded Fault.Plan.callGate).SettlesWrites (C.toView.comap Prod.fst) m s
        [(Sample.write "k" [1], .barred), (Sample.write "l" [2], .opened),
          (Sample.write "m" [3], .kept)] := by
  intro e C plan s m
  have hC : C.Reliable := Sample.contract_reliable ..
  have hm : e.judge m = .ok .accept := by
    refine Sample.judge_message Topic.ofHub (Octets.replicate 16 1) false (by decide) fun w hw => ?_
    simp only [List.mem_cons, List.not_mem_nil, or_false] at hw
    rcases hw with rfl | rfl | rfl <;> exact ⟨_, _, rfl⟩
  have hgate : ∀ r x err, (Fault.Plan.callGate (.init r)).outcome x = .error err →
      err.isAlreadyPresent = false := by
    intro r x err herr
    obtain ⟨text, rfl⟩ := Fault.Plan.eq_of_gate_error herr
    rfl
  have hfates : ((e.guarded Fault.Plan.callGate).backend.fates m.writes s.storage).1 =
      [(Sample.write "k" [1], .barred), (Sample.write "l" [2], .opened),
        (Sample.write "m" [3], .kept)] := by
    decide +kernel
  have hsettles := receive_settles e hC hgate hm (s := s) trivial
  rw [hfates] at hsettles
  exact ⟨hC, hm, trivial, hsettles⟩

end Engine
end SealedStore

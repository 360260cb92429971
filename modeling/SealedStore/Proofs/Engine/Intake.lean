import SealedStore.Engine.Intake
import SealedStore.Proofs.Engine.Storage
import SealedStore.Proofs.Record.Identity

/-! # What a message may do

A message is accepted if its author is known and every one of its writes is approved
(`judge_accept_iff`).  What is shown of messages is shown of the calls that they make: a message is
its verdict and its writes (`receive_parts`), and a write is an initialization and a store
(`applyWrite_parts`).  So over any backend that keeps its contract, an accepted message is absorbed:
of each write nothing, its record or all of it is kept (`receive_ensures`).  Over a reliable backend
all of it is kept (`receive_of_reliable`).
-/
namespace SealedStore

open Step

namespace Engine

variable {σ τ : Type} {e : Engine σ τ}

/-! ## The verdict -/

/-- What is checked of a write in a message of an account. -/
structure Approved (e : Engine σ τ) (author : Address) (w : StoreWrite) : Prop where
  derived : w.record.derivedId = w.record.id
  /-- The record bears the signature of the account that created it. -/
  created : ∃ tx creator, w.record.creationTx = some tx ∧ e.signer.sender tx = .ok creator ∧
    e.signer.recover w.record.signableBytes w.record.signature = .ok creator
  mayReplicate : author ∈ w.record.allowedStores
  mayWrite : w.caller ∈ w.record.allowedPeekers

theorem checkRecord_ok_iff {r : Record} : e.checkRecord r = .ok () ↔ r.derivedId = r.id ∧
    ∃ tx creator, r.creationTx = some tx ∧ e.signer.sender tx = .ok creator ∧
      e.signer.recover r.signableBytes r.signature = .ok creator := by
  unfold checkRecord
  by_cases hid : r.derivedId = r.id
  · cases htx : r.creationTx with
    | none => simp [hid, Check.throw_ne_ok]
    | some tx =>
      have hsigned : ∀ creator signedBy : Address,
          (if signedBy ≠ creator then throw (.signerMismatch creator signedBy) else pure () :
            Except StoreError Unit) = .ok () ↔ creator = signedBy := by
        intro creator signedBy
        by_cases h : signedBy = creator
        · simp [h, Check.pure_ok_iff]
        · simp [h, Check.throw_ne_ok, Ne.symm h]
      simp only [hid, not_true_eq_false, if_false, ne_eq, Check.bind_ok_iff, hsigned, true_and,
        Option.some.injEq, exists_and_left, exists_eq_left']
      constructor
      · rintro ⟨creator, hs, _, hr, rfl⟩
        exact ⟨creator, hs, hr⟩
      · rintro ⟨creator, hs, hr⟩
        exact ⟨creator, hs, creator, hr, rfl⟩
  · simp [hid, Check.bind_ok_iff, Check.throw_ne_ok]

theorem checkWrite_ok_iff {a : Address} {w : StoreWrite} :
    e.checkWrite a w = .ok () ↔ Approved e a w := by
  unfold checkWrite
  rw [Check.seq_ok_iff, checkRecord_ok_iff]
  constructor
  · rintro ⟨⟨hid, hcreated⟩, h⟩
    split at h
    · cases h
    · next hs =>
      unfold checkPeeker at h
      split at h
      · next hp =>
        exact
          { derived := hid
            created := hcreated
            mayReplicate := by simpa [Record.isStore] using hs
            mayWrite := by simpa [Record.isPeeker] using hp }
      · cases h
  · intro h
    refine ⟨⟨h.derived, h.created⟩, ?_⟩
    simp [checkPeeker, Record.isStore, Record.isPeeker, h.mayReplicate, h.mayWrite]

theorem checkWrites_ok_iff {a : Address} {ws : List StoreWrite} :
    e.checkWrites a ws = .ok () ↔ ∀ w ∈ ws, Approved e a w := by
  induction ws with
  | nil => simp [checkWrites]
  | cons w ws ih => rw [List.forall_mem_cons, checkWrites, Check.seq_ok_iff, checkWrite_ok_iff, ih]

theorem author_ok_iff {m : Message} {a : Address} : e.author m = .ok a ↔
    e.signer.recover m.signableBytes m.signature = .ok a ∧ e.signer.sender m.sourceTx = .ok a := by
  unfold author
  simp only [Check.bind_ok_iff]
  constructor
  · rintro ⟨signedBy, hr, sender, hs, h⟩
    split at h
    · next heq =>
      cases Check.pure_ok_iff.mp h
      exact ⟨hr, heq ▸ hs⟩
    · cases h
  · rintro ⟨hr, hs⟩
    exact ⟨a, hr, a, hs, by simp [Check.pure_ok_iff]⟩

/-- **The verdict on a message whose author is known**: an echo if it is the engine's own, and
accepted if it is another one's and each of its writes is approved. -/
theorem judge_ok_iff {m : Message} {verdict : Verdict} :
    e.judge m = .ok verdict ↔ ∃ a, e.author m = .ok a ∧
    (e.isOwn m a = true ∧ verdict = .echo ∨
      e.isOwn m a = false ∧ verdict = .accept ∧ ∀ w ∈ m.writes, Approved e a w) := by
  unfold judge
  rw [Check.bind_ok_iff]
  refine exists_congr fun a => and_congr_right fun _ => ?_
  split
  · next ho =>
    rw [Check.pure_ok_iff, eq_comm]
    simp [ho]
  · next ho =>
    rw [Check.seq_ok_iff, checkWrites_ok_iff, Check.pure_ok_iff, eq_comm, and_comm]
    simp [ho]

/-- **A message is accepted** if it is another engine's and each of its writes is approved. -/
theorem judge_accept_iff {m : Message} : e.judge m = .ok .accept ↔
    ∃ a, e.author m = .ok a ∧ e.isOwn m a = false ∧ ∀ w ∈ m.writes, Approved e a w := by
  simp [judge_ok_iff]

/-- A message is an echo if it is the engine's own. -/
theorem judge_echo_iff {m : Message} :
    e.judge m = .ok .echo ↔ ∃ a, e.author m = .ok a ∧ e.isOwn m a = true := by
  simp [judge_ok_iff]

/-- The writes of a message that are applied: all of them if it is accepted. -/
def taken (e : Engine σ τ) (m : Message) : List StoreWrite :=
  match e.judge m with
  | .ok .accept => m.writes
  | _ => []

theorem taken_of_accept {m : Message} (h : e.judge m = .ok .accept) : e.taken m = m.writes := by
  simp [taken, h]

theorem taken_of_ne_accept {m : Message} (h : e.judge m ≠ .ok .accept) : e.taken m = [] := by
  unfold taken
  split
  · next haccept => exact absurd haccept h
  · rfl

theorem approved_of_taken {m : Message} {w : StoreWrite} (hw : w ∈ e.taken m) :
    w ∈ m.writes ∧ ∃ a, e.author m = .ok a ∧ Approved e a w := by
  unfold taken at hw
  split at hw
  · next h =>
    obtain ⟨a, ha, -, happroved⟩ := judge_accept_iff.mp h
    exact ⟨hw, a, ha, happroved w hw⟩
  · cases hw

/-- No write that is applied goes under the mempool record. -/
theorem id_ne_mempool_of_taken {m : Message} {w : StoreWrite} (hw : w ∈ e.taken m) :
    w.record.id ≠ Record.mempool.id := by
  obtain ⟨-, _, -, h⟩ := approved_of_taken hw
  exact h.derived ▸ w.record.derivedId_ne_mempool

/-! ## The effect of a message -/

/-- **A message in parts.**  `R` holds once it is counted, and then each
verdict goes its own way. -/
theorem receive_parts {m : Message} {P R Q : State σ τ → Prop} {E : StoreError → State σ τ → Prop}
    (hreceived : Ensures P (count .messagesReceived) (fun _ => R) E)
    (hreject : ∀ err, e.judge m = .error err → ∀ s, R s → E err s)
    (hecho : e.judge m = .ok .echo → Ensures R (count .messagesEchoDropped) (fun _ => Q) E)
    (haccept : e.judge m = .ok .accept → Ensures R (forEach m.writes e.applyWrite) (fun _ => Q) E) :
    Ensures P (e.receive m) (fun _ => Q) E := by
  refine .bind hreceived fun _ => ?_
  refine .bind (Q := fun verdict s => e.judge m = .ok verdict ∧ R s)
    (.ofExcept (fun _ _ hverdict hs => ⟨hverdict, hs⟩) fun err s herr hs => hreject err herr s hs)
    fun verdict => .of_fact fun hverdict => ?_
  cases verdict with
  | echo => exact hecho hverdict
  | accept => exact haccept hverdict

/-- **To receive a message is to apply what is taken of it**, as far as the storage can tell. -/
theorem receive_taken {m : Message} {P Q : σ → Prop}
    (h : Ensures (fun s : State σ τ => P s.storage) (forEach (e.taken m) e.applyWrite)
      (fun _ s => Q s.storage) fun _ s => Q s.storage) :
    Ensures (fun s : State σ τ => P s.storage) (e.receive m) (fun _ s => Q s.storage)
      fun _ s => Q s.storage := by
  have hnothing : e.judge m ≠ .ok .accept → ∀ s : State σ τ, P s.storage → Q s.storage := by
    intro hverdict
    rw [taken_of_ne_accept hverdict] at h
    exact h
  refine receive_parts (R := fun s => P s.storage) (fun _ hs => hs) ?_ ?_ ?_
  · exact fun _ herr => hnothing (by simp [herr])
  · exact fun hecho => hnothing (by simp [hecho])
  · intro haccept
    rwa [taken_of_accept haccept] at h

/-! ## The effect of a write -/

/-- **A write in parts.**  `N` holds where its record is kept, `M` where the record is there,
`K` where the value is kept, and `F` where something fails.  The write itself does not fail,
whatever its calls do. -/
theorem applyWrite_parts {w : StoreWrite} {P N M K F Q : State σ τ → Prop}
    {E : StoreError → State σ τ → Prop}
    (hinit : Ensures P (onStorage (e.backend.init w.record)) (fun _ => N)
      fun err s => if err.isAlreadyPresent then M s else F s)
    (hnew : Ensures N (count .recordsInitialized) (fun _ => M) E)
    (hstore : Ensures M (onStorage (e.backend.store w.record w.key w.value)) (fun _ => K)
      fun _ => F)
    (hkept : Ensures K (count .writesReplicated) (fun _ => Q) E)
    (hfailed : Ensures F (count .writesReplicationFailed) (fun _ => Q) E) :
    Ensures P (e.applyWrite w) (fun _ => Q) E := by
  have hkeep : Ensures M (applyWrite.keep e w) (fun _ => Q) E :=
    .bind_attempt hstore (fun _ => hkept) fun _ => hfailed
  refine .bind_attempt hinit (fun _ => .bind hnew fun _ => hkeep) fun err => ?_
  show Ensures _ (if err.isAlreadyPresent then _ else _) _ _
  split
  · exact hkeep
  · exact hfailed

/-- What a write does to the storage is what its calls do. -/
theorem applyWrite_calls {w : StoreWrite} {P M Q : σ → Prop} {E : StoreError → State σ τ → Prop}
    (hinit : Ensures P (e.backend.init w.record) (fun _ => M)
      fun err s => if err.isAlreadyPresent then M s else Q s)
    (hstore : Ensures M (e.backend.store w.record w.key w.value) (fun _ => Q) fun _ => Q) :
    Ensures (fun s : State σ τ => P s.storage) (e.applyWrite w) (fun _ s => Q s.storage) E :=
  applyWrite_parts (onStorage_ensures hinit) (fun _ hs => hs)
    (onStorage_ensures hstore) (fun _ hs => hs) fun _ hs => hs

section
variable {ρ υ : Type} {f : Engine ρ υ} {T : State σ τ → State ρ υ → Prop}
  (hcount : ∀ metric, Simulates T (count metric) (count metric))
include hcount

/-- A write runs alike where its calls do. -/
theorem applyWrite_alike {w : StoreWrite}
    (hinit : Simulates T (onStorage (e.backend.init w.record))
      (onStorage (f.backend.init w.record)))
    (hstore : Simulates T (onStorage (e.backend.store w.record w.key w.value))
      (onStorage (f.backend.store w.record w.key w.value))) :
    Simulates T (e.applyWrite w) (f.applyWrite w) := by
  have hkeep : Simulates T (applyWrite.keep e w) (applyWrite.keep f w) := by
    refine hstore.attempt.bind fun kept => ?_
    cases kept with
    | ok _ => exact hcount _
    | error _ => exact hcount _
  refine hinit.attempt.bind fun made => ?_
  cases made with
  | ok _ => exact (hcount _).bind fun _ => hkeep
  | error err =>
    show Simulates _ (if err.isAlreadyPresent then _ else _) (if err.isAlreadyPresent then _ else _)
    split
    · exact hkeep
    · exact hcount _

/-- A message of one verdict runs alike where its writes do. -/
theorem receive_alike {m : Message} (hverdict : f.judge m = e.judge m)
    (hwrites : ∀ w, Simulates T (e.applyWrite w) (f.applyWrite w)) :
    Simulates T (e.receive m) (f.receive m) := by
  unfold receive
  rw [hverdict]
  refine (hcount _).bind fun _ => (Simulates.ofExcept (e.judge m)).bind fun verdict => ?_
  cases verdict with
  | echo => exact hcount _
  | accept => exact .forEach hwrites m.writes

end

variable (C : e.backend.Contract)

/-- Of a write nothing is kept, its record, or all of it. -/
theorem applyWrite_ensures {w : StoreWrite} (hw : w.record.id ≠ Record.mempool.id) (c : Contents)
    {E : StoreError → State σ τ → Prop} : Ensures ((view C.toView).Holds c) (e.applyWrite w)
      (fun _ s => ∃ d, (c.Tried w.record d ∨ d = c.adopt w.record ∨ d = c.ingest w) ∧
        (view C.toView).Holds d s) E := by
  refine applyWrite_calls (P := C.Holds c) (M := C.Holds (c.adopt w.record))
    (Q := fun s => ∃ d, (c.Tried w.record d ∨ d = c.adopt w.record ∨ d = c.ingest w) ∧ C.Holds d s)
    ?_ ?_
  · refine (C.init c w.record).mono (fun _ hs => hs) (fun _ s hs => ?_) fun err s hs => ?_
    · rw [Contents.adopt_of_absent hs.1]
      exact hs.2
    · obtain ⟨d, htried, hpresent, hs⟩ := hs
      split
      · next herr =>
        have hheld := hpresent herr
        rwa [Contents.adopt_of_present hheld, ← htried.eq_of_present hheld]
      · exact ⟨d, .inl htried, hs⟩
  · refine (C.store _ w.record w.key w.value hw).mono (fun _ hs => hs) (fun _ s hs => ?_)
      fun _ s hs => ?_
    · exact ⟨_, .inr (.inr rfl), hs.2⟩
    · exact ⟨_, .inr (.inl rfl), hs⟩

theorem applyWrites_ensures {ws : List StoreWrite} (hws : ∀ w ∈ ws, w.record.id ≠ Record.mempool.id)
    (c : Contents) {E : StoreError → State σ τ → Prop} :
    Ensures ((view C.toView).Holds c) (forEach ws e.applyWrite)
      (fun _ s => ∃ d, Contents.Absorbs ws c d ∧ (view C.toView).Holds d s) E := by
  induction ws generalizing c with
  | nil => exact .pure fun s hs => ⟨c, .nil c, hs⟩
  | cons w ws ih =>
    refine .bind (applyWrite_ensures C (hws w List.mem_cons_self) c) fun _ => ?_
    refine .of_exists fun d => .of_fact fun hd => ?_
    refine (ih (fun v hv => hws v (List.mem_cons_of_mem w hv)) d).mono (fun _ hs => hs)
      (fun _ s hs => ?_) fun _ _ hs => hs
    obtain ⟨f, hf, hs⟩ := hs
    rcases hd with htried | rfl | rfl
    · exact ⟨f, .tried htried hf, hs⟩
    · exact ⟨f, .record hf, hs⟩
    · exact ⟨f, .all hf, hs⟩

/-- **An accepted message is absorbed**, and any other changes nothing. -/
theorem receive_ensures (m : Message) (c : Contents) :
    Ensures ((view C.toView).Holds c) (e.receive m)
    (fun _ s => ∃ d, Contents.Absorbs (e.taken m) c d ∧ (view C.toView).Holds d s)
    fun _ s => ∃ d, Contents.Absorbs (e.taken m) c d ∧ (view C.toView).Holds d s :=
  receive_taken (P := C.Holds c) (Q := fun s => ∃ d, Contents.Absorbs (e.taken m) c d ∧ C.Holds d s)
    (applyWrites_ensures C (fun _ hw => id_ne_mempool_of_taken hw) c)

/-- What is held after a message is what was held, with the message absorbed. -/
theorem absorbs_receive (m : Message) {c : Contents} {s : State σ τ}
    (hs : (view C.toView).Holds c s) :
    Contents.Absorbs (e.taken m) c (C.see ((e.receive m).after s).storage) ∧
      C.Valid ((e.receive m).after s).storage := by
  obtain ⟨d, hd, hvalid, rfl⟩ := (receive_ensures C m c).after hs
  exact ⟨hd, hvalid⟩

/-! ## Over a reliable backend -/

variable {C} (hC : C.Reliable)
include hC

/-- A record is there afterwards, whether it is new or not. -/
theorem adopt_of_reliable (c : Contents) (r : Record) : Ensures (C.Holds c) (e.backend.init r)
    (fun _ => C.Holds (c.adopt r)) fun err s =>
      err.isAlreadyPresent = true ∧ C.Holds (c.adopt r) s := by
  refine (hC.init_ensures c r).mono (fun _ hs => hs) (fun _ s hs => ?_) fun _ s hs => ?_
  · rw [Contents.adopt_of_absent hs.1]
    exact hs.2
  · rw [Contents.adopt_of_present hs.2.1]
    exact ⟨hs.1, hs.2.2⟩

/-- A write is kept as a whole. -/
theorem applyWrite_of_reliable {w : StoreWrite} (hw : w.record.id ≠ Record.mempool.id)
    (c : Contents) {E : StoreError → State σ τ → Prop} :
      Ensures ((view C.toView).Holds c) (e.applyWrite w)
      (fun _ => (view C.toView).Holds (c.ingest w)) E := by
  refine applyWrite_calls (P := C.Holds c) (M := C.Holds (c.adopt w.record))
    (Q := C.Holds (c.ingest w)) ?_ (hC.store_ensures _ w.key w.value hw)
  refine (adopt_of_reliable hC c w.record).mono (fun _ hs => hs) (fun _ _ hs => hs)
    fun err s hs => ?_
  rw [if_pos hs.1]
  exact hs.2

theorem applyWrites_of_reliable {ws : List StoreWrite}
    (hws : ∀ w ∈ ws, w.record.id ≠ Record.mempool.id)
    (c : Contents) {E : StoreError → State σ τ → Prop} :
    Ensures ((view C.toView).Holds c) (forEach ws e.applyWrite)
      (fun _ => (view C.toView).Holds (c.ingestAll ws)) E := by
  induction ws generalizing c with
  | nil => exact .pure fun s hs => hs
  | cons w ws ih =>
    refine .bind (applyWrite_of_reliable hC (hws w List.mem_cons_self) c) fun _ => ?_
    exact ih (fun v hv => hws v (List.mem_cons_of_mem w hv)) (c.ingest w)

/-- **All of an accepted message is taken in**, and nothing of any other. -/
theorem receive_of_reliable (m : Message) (c : Contents) :
    Ensures ((view C.toView).Holds c) (e.receive m)
      (fun _ => (view C.toView).Holds (c.ingestAll (e.taken m)))
      fun _ => (view C.toView).Holds (c.ingestAll (e.taken m)) :=
  receive_taken (P := C.Holds c) (Q := C.Holds (c.ingestAll (e.taken m)))
    (applyWrites_of_reliable hC (fun _ hw => id_ne_mempool_of_taken hw) c)

end Engine
end SealedStore

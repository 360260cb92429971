import SealedStore.Proofs.Replication.Redelivery

/-! # Intake is a filter

A message is judged before any of it is applied, so intake is a filter on messages:
`deliver_filters` says that what is left after any messages is what the writes of the accepted ones
leave, taken in order, each by keeping its record if the id is free and then its value.  A rejected
message is counted and does nothing else, and no verdict looks at what is stored.

That nothing fails in the backend is `Backend.Serves`: the one error of an `init` is that the record
is there already, and no `store` fails.
-/
namespace SealedStore

open Step

variable {σ τ : Type}

/-! ## Applying writes without judging them -/

namespace Backend

/-- The state once a record was kept, if its id was free, and a value under it. -/
def ingest (b : Backend σ) (s : σ) (w : StoreWrite) : σ :=
  (b.store w.record w.key w.value).after ((b.init w.record).after s)

/-- The state after writes were taken in, in order. -/
def ingestAll (b : Backend σ) (s : σ) (ws : List StoreWrite) : σ := ws.foldl b.ingest s

/-- A backend that does not fail in states with `P`, and keeps to them. -/
structure Serves (b : Backend σ) (P : σ → Prop) : Prop where
  init : ∀ r, Ensures P (b.init r) (fun _ => P) fun err s => err.isAlreadyPresent = true ∧ P s
  store : ∀ r key value, r.id ≠ Record.mempool.id →
    Ensures P (b.store r key value) (fun _ => P) fun _ _ => False

variable {b : Backend σ}

theorem ingestAll_append (s : σ) (ws vs : List StoreWrite) :
    b.ingestAll s (ws ++ vs) = b.ingestAll (b.ingestAll s ws) vs := List.foldl_append

theorem Serves.ingest {P : σ → Prop} (hb : b.Serves P) {s : σ} (hs : P s) {w : StoreWrite}
    (hw : w.record.id ≠ Record.mempool.id) : P (b.ingest s w) := by
  have hinit : Keeps P (b.init w.record) :=
    (hb.init w.record).mono (fun _ h => h) (fun _ _ h => h) fun _ _ h => h.2
  have hstore : Keeps P (b.store w.record w.key w.value) :=
    (hb.store w.record w.key w.value hw).mono (fun _ h => h) (fun _ _ h => h) fun _ _ h => h.elim
  exact hstore.after (hinit.after hs)

/-- A reliable backend does not fail in the states that its contract speaks of. -/
theorem Contract.Reliable.serves {C : b.Contract} (hC : C.Reliable) : b.Serves C.Valid where
  init r := by
    intro s hs
    refine (hC.init_ensures (C.see s) r).mono (fun _ h => h) ?_ ?_ s ⟨hs, rfl⟩
    · exact fun _ _ h => h.2.1
    · exact fun _ _ h => ⟨h.1, h.2.2.1⟩
  store r key value hr := by
    intro s hs
    refine (hC.store_ensures (C.see s) key value hr).mono (fun _ h => h) ?_
      (fun _ _ h => h) s ⟨hs, rfl⟩
    exact fun _ _ h => h.1

end Backend

namespace Engine

variable (e : Engine σ τ)

/-- Whether a message is accepted. -/
def accepts (m : Message) : Bool := e.judge m = .ok .accept

/-- The writes of the accepted ones among messages, in order. -/
def acceptedWrites (ms : List Message) : List StoreWrite := (ms.filter e.accepts).flatMap (·.writes)

variable {e}

theorem taken_eq (m : Message) : e.taken m = if e.accepts m then m.writes else [] := by
  unfold taken accepts
  split
  · next h => simp [h]
  · next h => rw [if_neg fun haccept => h (of_decide_eq_true haccept)]

theorem flatMap_taken (ms : List Message) : ms.flatMap e.taken = e.acceptedWrites ms := by
  induction ms with
  | nil => rfl
  | cons m ms ih =>
    rw [List.flatMap_cons, ih, taken_eq, acceptedWrites, acceptedWrites, List.filter_cons]
    split <;> rfl

/-! ## What a verdict depends on -/

theorem judge_error_iff_ne {m : Message} :
    (∃ err, e.judge m = .error err) ↔ e.judge m ≠ .ok .echo ∧ e.judge m ≠ .ok .accept := by
  cases e.judge m with
  | error err => simp
  | ok verdict => cases verdict <;> simp

/-- **A message is rejected** if its signature is not that of its transaction's sender, or if it is
another engine's and one of its writes, wherever it stands, is not approved. -/
theorem judge_error_iff {m : Message} : (∃ err, e.judge m = .error err) ↔
    (∀ a, e.author m ≠ .ok a) ∨
      ∃ a, e.author m = .ok a ∧ e.isOwn m a = false ∧ ∃ w ∈ m.writes, ¬ e.Approved a w := by
  rw [judge_error_iff_ne, Ne, Ne, judge_echo_iff, judge_accept_iff]
  cases e.author m with
  | error err => simp
  | ok a => cases hown : e.isOwn m a <;> simp [hown]

/-- Whether two engines have the same name, the same addresses, and the same means of
recovering signers. -/
structure SameIdentity {ρ υ : Type} (e : Engine σ τ) (f : Engine ρ υ) : Prop where
  uuid : f.uuid = e.uuid
  addresses : ∀ a, a ∈ f.signer.addresses ↔ a ∈ e.signer.addresses
  recover : f.signer.recover = e.signer.recover
  sender : f.signer.sender = e.signer.sender

section
variable {ρ υ : Type} {f : Engine ρ υ} (h : e.SameIdentity f)
include h

theorem SameIdentity.checkWrites (a : Address) (ws : List StoreWrite) :
    f.checkWrites a ws = e.checkWrites a ws := by
  induction ws with
  | nil => rfl
  | cons w ws ih =>
    simp only [Engine.checkWrites, checkWrite, checkRecord, h.recover, h.sender, ih]

/-- **A verdict depends on the message and on the engine's identity alone.** -/
theorem SameIdentity.judge (m : Message) : f.judge m = e.judge m := by
  have hown : ∀ a, f.isOwn m a = e.isOwn m a := by
    intro a
    rw [isOwn, isOwn, h.uuid, Bool.eq_iff_iff]
    simp [h.addresses a]
  simp only [Engine.judge, author, h.recover, h.sender, h.checkWrites, hown]

end

/-! ## What a message does -/

/-- To apply a write never fails as a step; a failure of the backend is counted. -/
theorem applyWrite_outcome (w : StoreWrite) (s : State σ τ) :
    (e.applyWrite w).outcome s = .ok () := by
  have happlied : Ensures (fun _ : State σ τ => True) (e.applyWrite w) (fun _ _ => True)
      fun _ _ => False := by
    refine applyWrite_calls (P := fun _ => True) (M := fun _ => True)
      (Q := fun _ => True) ?_ (.nothing _)
    exact (Ensures.nothing _).mono (fun _ hs => hs) (fun _ _ hs => hs) fun _ _ _ => by simp
  obtain ⟨_, hok, -⟩ := happlied.exists_ok (s := s) trivial
  exact hok

/-- Where nothing fails, a write is taken in. -/
theorem storage_applyWrite {P : σ → Prop} (hb : e.backend.Serves P) (w : StoreWrite) {s : State σ τ}
    (hs : P s.storage) : ((e.applyWrite w).after s).storage = e.backend.ingest s.storage w := by
  refine (applyWrite_calls (P := fun t => t = s.storage)
    (M := fun t => t = (e.backend.init w.record).after s.storage)
    (Q := fun t => t = e.backend.ingest s.storage w) (.of_cases ?_ ?_) (.of_cases ?_ ?_)).after rfl
  · rintro _ _ rfl -
    rfl
  · rintro _ err rfl herr
    rw [if_pos ((hb.init w.record).error hs herr).1]
  · rintro _ _ rfl -
    rfl
  · rintro _ _ rfl -
    rfl

theorem receive_of_reject {m : Message} {err : StoreError}
    (h : e.judge m = .error err) (s : State σ τ) :
    e.receive m s = (.error err, { s with metrics := s.metrics.add .messagesReceived 1 }) := by
  simp [receive, bind_apply, count, h]

theorem receive_of_echo {m : Message} (h : e.judge m = .ok .echo) (s : State σ τ) :
    e.receive m s = (.ok (), { s with
      metrics := (s.metrics.add .messagesReceived 1).add .messagesEchoDropped 1 }) := by
  simp [receive, bind_apply, count, h]

theorem receive_of_accept {m : Message} (h : e.judge m = .ok .accept) (s : State σ τ) :
    e.receive m s = forEach m.writes e.applyWrite
      { s with metrics := s.metrics.add .messagesReceived 1 } := by
  simp [receive, bind_apply, count, h]

/-- Only the verdict can make a message fail. -/
theorem receive_outcome (m : Message) (s : State σ τ) :
    (e.receive m).outcome s = (e.judge m).map fun _ => () := by
  rw [outcome]
  cases hverdict : e.judge m with
  | error err => rw [receive_of_reject hverdict]; rfl
  | ok verdict =>
    cases verdict with
    | echo => rw [receive_of_echo hverdict]; rfl
    | accept => rw [receive_of_accept hverdict, forEach_apply applyWrite_outcome]; rfl

/-- A message that the subscription brought never stops the engine, and does what it does when it is
received. -/
theorem consume_apply (m : Message) (s : State σ τ) : (e.consume m).outcome s = .ok () ∧
    ((e.consume m).after s).storage = ((e.receive m).after s).storage := by
  unfold consume
  cases hreceived : e.receive m s with
  | mk r t => cases r <;> simp [outcome, after, bind_apply, count, hreceived]

section
variable {P : σ → Prop} (hb : e.backend.Serves P)
include hb

/-- Writes that are applied one after the other are taken in. -/
theorem storage_applyWrites {ws : List StoreWrite} (hws : ∀ w ∈ ws, w.record.id ≠ Record.mempool.id)
    {s : State σ τ} (hs : P s.storage) :
    (ws.foldl (fun s w => (e.applyWrite w).after s) s).storage = e.backend.ingestAll s.storage ws ∧
      P (e.backend.ingestAll s.storage ws) := by
  induction ws generalizing s with
  | nil => exact ⟨rfl, hs⟩
  | cons w ws ih =>
    have hw := storage_applyWrite hb w hs
    have hrest := ih (fun v hv => hws v (List.mem_cons_of_mem w hv)) (s := (e.applyWrite w).after s)
      (hw ▸ hb.ingest hs (hws w List.mem_cons_self))
    rwa [hw] at hrest

/-- **One message**: all of its writes are taken in if it is accepted, and none otherwise. -/
theorem storage_receive (m : Message) {s : State σ τ} (hs : P s.storage) :
    ((e.receive m).after s).storage = e.backend.ingestAll s.storage (e.taken m) ∧
      P ((e.receive m).after s).storage := by
  refine (receive_taken (P := fun t => t = s.storage)
    (Q := fun t => t = e.backend.ingestAll s.storage (e.taken m) ∧ P t) fun t ht => ?_).after rfl
  rw [forEach_apply applyWrite_outcome]
  obtain ⟨hstorage, hkept⟩ :=
    storage_applyWrites hb (fun _ hw => id_ne_mempool_of_taken hw) (ht ▸ hs)
  rw [ht] at hstorage hkept
  exact ⟨hstorage, hstorage ▸ hkept⟩

/-- **Any messages**: the writes of the accepted ones are taken in, in order. -/
theorem storage_deliver (ms : List Message) {s : State σ τ} (hs : P s.storage) :
    (e.deliver s ms).storage = e.backend.ingestAll s.storage (e.acceptedWrites ms) := by
  rw [← flatMap_taken]
  induction ms generalizing s with
  | nil => rfl
  | cons m ms ih =>
    obtain ⟨hstorage, hkept⟩ := storage_receive hb m hs
    rw [List.flatMap_cons, Backend.ingestAll_append, ← hstorage]
    exact ih hkept

end

/-! ## Intake as a filter -/

/-- **What intake does with messages**, from a state of the engine. -/
structure FiltersIntake (e : Engine σ τ) (s : State σ τ) (ms : List Message) : Prop where
  /-- What is left is what the writes of the accepted messages leave, taken in as they come. -/
  storage : (e.deliver s ms).storage = e.backend.ingestAll s.storage (e.acceptedWrites ms)
  /-- A record is kept where none has its id, and a value replaces the one before it. -/
  contents : ∀ C : e.backend.Contract, C.Reliable → C.Valid s.storage →
    C.see (e.deliver s ms).storage = (C.see s.storage).ingestAll (e.acceptedWrites ms)
  /-- A rejected message is counted, and nothing else comes of it. -/
  rejected : ∀ m err, e.judge m = .error err → ∀ t, e.receive m t =
    (.error err, { t with metrics := t.metrics.add .messagesReceived 1 })
  /-- Nor does anything else that comes of the messages depend on it. -/
  without : ∀ before m after, ms = before ++ m :: after → (∃ err, e.judge m = .error err) →
    (e.deliver s ms).storage = (e.deliver s (before ++ after)).storage
  /-- One bad write among those of another engine's message is enough, and so is a bad signature. -/
  bad : ∀ m, (∃ err, e.judge m = .error err) ↔ (∀ a, e.author m ≠ .ok a) ∨
    ∃ a, e.author m = .ok a ∧ e.isOwn m a = false ∧ ∃ w ∈ m.writes, ¬ e.Approved a w
  /-- The verdict is the same in every state. -/
  verdict : ∀ m t, (e.receive m).outcome t = (e.judge m).map fun _ => ()
  /-- It is the same for every engine of this identity, whatever its backend. -/
  identity : ∀ {ρ υ : Type} (f : Engine ρ υ), e.SameIdentity f → ∀ m, f.judge m = e.judge m
  /-- No message stops the engine that consumes it. -/
  consumed : ∀ m t, (e.consume m).outcome t = .ok () ∧
    ((e.consume m).after t).storage = ((e.receive m).after t).storage

/-- **Intake is an all-or-nothing filter**, whatever the messages and whatever is stored, if nothing
fails in the backend. -/
theorem deliver_filters {P : σ → Prop} (hb : e.backend.Serves P) {s : State σ τ} (hs : P s.storage)
    (ms : List Message) : e.FiltersIntake s ms where
  storage := storage_deliver hb ms hs
  contents C hC hvalid := by
    have hdelivered := holds_deliver hC ms (s := s) ⟨hvalid, rfl⟩
    rw [← flatMap_taken]
    exact hdelivered.2
  rejected _ _ h t := receive_of_reject h t
  without before m after hms := by
    rintro ⟨err, hreject⟩
    have hnone : e.taken m = [] := by rw [taken, hreject]
    rw [storage_deliver hb _ hs, storage_deliver hb _ hs, hms, ← flatMap_taken, ← flatMap_taken,
      List.flatMap_append, List.flatMap_append, List.flatMap_cons, hnone, List.nil_append]
  bad _ := judge_error_iff
  verdict := receive_outcome
  identity _ h := h.judge
  consumed := consume_apply

/-! ## Three messages -/

section

/-- The name of the engine that they arrive at. -/
private def home : Uuid := Octets.replicate 16 1

/-- A write by an account that may not write. -/
private def intrusion : StoreWrite := ⟨Sample.record, Octets.zero, "k", [9]⟩

/-- The engine's own message, one with a bad write behind a good one, and a good one. -/
private def arrivals : List Message :=
  [Sample.message home [Sample.write "k" [1]],
    Sample.message Octets.zero [Sample.write "k" [2], intrusion],
    Sample.message Octets.zero [Sample.write "k" [3]]]

private theorem judge_home : (Sample.engine home false).judge
    (Sample.message home [Sample.write "k" [1]]) = .ok .echo :=
  judge_echo_iff.mpr
  ⟨Sample.account, rfl, by simp [isOwn, Sample.message, Sample.node, Sample.signer]⟩

private theorem judge_intrusion : ∃ err, (Sample.engine home false).judge
    (Sample.message Octets.zero [Sample.write "k" [2], intrusion]) = .error err := by
  refine judge_error_iff.mpr
    (.inr ⟨Sample.account, rfl, ?_, intrusion, by simp [Sample.message], ?_⟩)
  · have hne : (Octets.zero : Uuid) ≠ home := by decide
    simp [isOwn, Sample.message, Sample.node, hne]
  · intro h
    have hpeeker : (Octets.zero : Address) ∈ Sample.record.allowedPeekers := h.mayWrite
    rw [Sample.allowed_record.1, List.mem_singleton] at hpeeker
    exact absurd hpeeker (by decide)

private theorem judge_good : (Sample.engine home false).judge
    (Sample.message Octets.zero [Sample.write "k" [3]]) = .ok .accept :=
  Sample.judge_message Topic.ofHub home false (by decide) fun _ hw =>
    ⟨"k", [3], List.mem_singleton.mp hw⟩

end

/-- The statement at these messages, of which one is accepted. -/
theorem deliver_filters_arrivals :
    let e := Sample.engine home false
    let s : State Memory (Hub Message) := .initial Memory.empty .empty
    e.backend.Serves (fun _ => True) ∧ e.FiltersIntake s arrivals ∧
      e.acceptedWrites arrivals = [Sample.write "k" [3]] := by
  intro e s
  have hb : e.backend.Serves fun _ => True := Memory.contract_reliable.serves
  refine ⟨hb, deliver_filters hb trivial arrivals, ?_⟩
  obtain ⟨err, hreject⟩ := judge_intrusion
  rw [acceptedWrites, arrivals, List.filter_cons_of_neg (by simp [accepts, e, judge_home]),
    List.filter_cons_of_neg (by simp [accepts, e, hreject]),
    List.filter_cons_of_pos (by simp [accepts, e, judge_good])]
  rfl

end Engine
end SealedStore

import SealedStore.Proofs.Backend.Equivalence
import SealedStore.Proofs.Engine.Simulation
import SealedStore.Proofs.Sample.Node

/-! # What a finalization applies

A batch is a sequence of calls: each record is initialized, in order, then each value is stored.
Once its message is signed and deposited, a finalization makes these calls up to the first that
fails, and what it leaves outside the outbox is what the calls before that one keep.  So it succeeds
just where all of them take effect, and only then it hands its message over:
`Engine.finalize_applies`, for records in memory whatever calls are refused.
-/
namespace SealedStore

open Step

variable {σ τ ω : Type}

/-! ## Calls in order -/

/-- The contents with what a call keeps. -/
def Contents.withCall (c : Contents) : Backend.Call → Contents
  | .init r => c.withRecord r
  | .store r key value => c.withValue r.id key value
  | _ => c

/-- The contents with what calls keep, in order. -/
def Contents.withCalls (c : Contents) (calls : List Backend.Call) : Contents :=
  calls.foldl Contents.withCall c

namespace Backend

/-- The calls that succeed one after the other, up to the first that fails. -/
def served (b : Backend σ) : List Call → σ → List Call
  | [], _ => []
  | call :: calls, s => match b.answer call s with
    | (.ok _, t) => call :: b.served calls t
    | (.error _, _) => []

/-- Makes one call after the other, up to the first that fails. -/
def perform (b : Backend σ) (calls : List Call) : Step σ Unit :=
  Step.forEach calls fun call => do let _ ← b.answer call

/-- **A backend whose calls are all or nothing**: each has its effect or leaves
what is seen as it was. -/
def AllOrNothing (b : Backend σ) (see : σ → Contents) : Prop :=
  ∀ call s, see ((b.answer call).after s) = match (b.answer call).outcome s with
    | .ok _ => (see s).withCall call
    | .error _ => see s

section
variable {b : Backend σ} {call : Call} {s t : σ} (calls : List Call)

theorem served_of_ok {a : Answer} (h : b.answer call s = (.ok a, t)) :
    b.served (call :: calls) s = call :: b.served calls t := by rw [served, h]

theorem served_of_error {err : StoreError} (h : b.answer call s = (.error err, t)) :
    b.served (call :: calls) s = [] := by rw [served, h]

theorem perform_of_ok {a : Answer} (h : b.answer call s = (.ok a, t)) :
    b.perform (call :: calls) s = b.perform calls t := by
  have hcall : (do let _ ← b.answer call : Step σ Unit) s = (.ok (), t) := bind_of_ok h
  exact bind_of_ok hcall

theorem perform_of_error {err : StoreError} (h : b.answer call s = (.error err, t)) :
    b.perform (call :: calls) s = (.error err, t) := by
  have hcall : (do let _ ← b.answer call : Step σ Unit) s = (.error err, t) := bind_of_error h
  exact bind_of_error hcall

end

theorem perform_append (b : Backend σ) (calls more : List Call) :
    b.perform (calls ++ more) = (b.perform calls >>= fun _ => b.perform more) := by
  funext s
  induction calls generalizing s with
  | nil => rfl
  | cons call calls ih =>
    rcases hcall : b.answer call s with ⟨_ | a, t⟩
    · rw [List.cons_append, perform_of_error _ hcall, bind_of_error (perform_of_error calls hcall)]
    · rw [List.cons_append, perform_of_ok _ hcall, ih, bind_apply, bind_apply,
        perform_of_ok calls hcall]

theorem prefix_of_served (b : Backend σ) (calls : List Call) (s : σ) :
    b.served calls s <+: calls := by
  induction calls generalizing s with
  | nil => exact List.prefix_rfl
  | cons call calls ih =>
    rcases hcall : b.answer call s with ⟨_ | a, t⟩
    · exact served_of_error calls hcall ▸ List.nil_prefix
    · exact served_of_ok calls hcall ▸ List.cons_prefix_cons.mpr ⟨rfl, ih t⟩

/-- All calls are served just where none fails. -/
theorem perform_ok_iff (b : Backend σ) (calls : List Call) (s : σ) :
    (b.perform calls).outcome s = .ok () ↔ b.served calls s = calls := by
  induction calls generalizing s with
  | nil => exact ⟨fun _ => rfl, fun _ => rfl⟩
  | cons call calls ih =>
    rcases hcall : b.answer call s with ⟨_ | a, t⟩
    · rw [outcome, perform_of_error calls hcall, served_of_error calls hcall]
      exact iff_of_false (by simp) (by simp)
    · rw [outcome, perform_of_ok calls hcall, served_of_ok calls hcall, List.cons_inj_right]
      exact ih t

/-- **What calls keep** that are all or nothing: what those keep that are served. -/
theorem AllOrNothing.see_perform {b : Backend σ} {see : σ → Contents} (hb : b.AllOrNothing see)
    (calls : List Call) (s : σ) :
    see ((b.perform calls).after s) = (see s).withCalls (b.served calls s) := by
  induction calls generalizing s with
  | nil => rfl
  | cons call calls ih =>
    have hsee := hb call s
    rcases hcall : b.answer call s with ⟨_ | a, t⟩ <;> rw [outcome, after, hcall] at hsee
    · rw [after, perform_of_error calls hcall, served_of_error calls hcall]
      exact hsee
    · rw [after, perform_of_ok calls hcall, served_of_ok calls hcall]
      exact (ih t).trans (congrArg (Contents.withCalls · (b.served calls t)) hsee)

/-- A step behind a check is made if the check is passed. -/
theorem behind_check_apply {α β : Type} (check : Step ω Unit) (m : Step σ α)
    (f : α → β) (s : σ × ω) :
    ((do check.within Prod.snd fun w s => (s.1, w)
         m.within Prod.fst fun t s => (t, s.2) : Step (σ × ω) α) >>= fun a => pure (f a)) s =
      match check s.2 with
      | (.ok _, w) => (((m.outcome s.1).map f), (m.after s.1, w))
      | (.error err, w) => (.error err, (s.1, w)) := by
  rw [map_apply, outcome, after, bind_apply, within_apply]
  rcases check s.2 with ⟨_ | _, w⟩ <;> rfl

theorem answer_guarded (b : Backend σ) (gate : Call → Step ω Unit) (call : Call) (s : σ × ω) :
    (b.guarded gate).answer call s = match gate call s.2 with
      | (.ok _, w) => ((b.answer call).outcome s.1, ((b.answer call).after s.1, w))
      | (.error err, w) => (.error err, (s.1, w)) := by
  cases call <;> refine (behind_check_apply ..).trans ?_ <;>
    rw [answer, outcome, after, outcome, after, map_apply] <;> rfl

/-- Calls that are all or nothing stay so where any of them may be refused. -/
theorem AllOrNothing.guarded {b : Backend σ} {see : σ → Contents} (hb : b.AllOrNothing see)
    (gate : Call → Step ω Unit) : (b.guarded gate).AllOrNothing fun s => see s.1 := by
  intro call s
  rw [outcome, after, answer_guarded]
  rcases gate call s.2 with ⟨_ | _, w⟩
  · rfl
  · exact hb call s.1

end Backend

/-- **Calls in memory are all or nothing.** -/
theorem Memory.allOrNothing : Memory.backend.AllOrNothing Memory.contents := by
  intro call m
  cases call with
  | init r =>
    by_cases hr : m.contents.records r.id = none
    · rw [outcome, after, Backend.answer, map_apply, outcome, after,
        show Memory.backend.init r m = _ from Memory.init_of_absent hr]
      exact Memory.contents_withRecord m r
    · rw [outcome, after, Backend.answer, map_apply, outcome, after,
        show Memory.backend.init r m = _ from Memory.init_of_present hr]
      rfl
  | store r key value => exact Memory.contents_withValue ..
  | retrieve r key =>
    rw [outcome, after, Backend.answer, map_apply]
    show m.contents = match (m.lookup r.id key).map Backend.Answer.value with
      | .ok _ => m.contents
      | .error _ => m.contents
    cases m.lookup r.id key <;> rfl
  | fetch id =>
    rw [outcome, after, Backend.answer, map_apply]
    show m.contents = match (m.record id).map Backend.Answer.record with
      | .ok _ => m.contents
      | .error _ => m.contents
    cases m.record id <;> rfl
  | start => rfl
  | stop => rfl
  | list block space => rfl

/-! ## What the outbox leaves alone -/

namespace Contents

/-- Whether two contents differ at most in the values under the outbox's own keys. -/
structure AgreesOffMail (c d : Contents) : Prop where
  records : d.records = c.records
  index : d.index = c.index
  values : ∀ id key, ¬ (id = Record.outbox.id ∧ Outbox.IsOwnKey key) →
    d.values id key = c.values id key

namespace AgreesOffMail

variable {c d f : Contents}

theorem refl (c : Contents) : AgreesOffMail c c := ⟨rfl, rfl, fun _ _ _ => rfl⟩

theorem trans (h : AgreesOffMail c d) (h' : AgreesOffMail d f) : AgreesOffMail c f :=
  ⟨h'.records.trans h.records, h'.index.trans h.index, fun id key hkey =>
    (h'.values id key hkey).trans (h.values id key hkey)⟩

/-- A value under one of the outbox's own keys. -/
theorem of_mail (c : Contents) {key : String} (hkey : Outbox.IsOwnKey key) (raw : Bytes) :
    AgreesOffMail c (c.withValue Record.outbox.id key raw) := by
  refine ⟨rfl, rfl, fun id k hk => values_withValue_of_ne c raw ?_⟩
  rintro ⟨rfl, rfl⟩
  exact hk ⟨rfl, hkey⟩

theorem withCall (h : AgreesOffMail c d) (call : Backend.Call) :
    AgreesOffMail (c.withCall call) (d.withCall call) := by
  cases call with
  | init r =>
    refine ⟨?_, ?_, h.values⟩
    · simp only [Contents.withCall, Contents.withRecord, h.records]
    · simp only [Contents.withCall, Contents.withRecord, h.index]
  | store r key value =>
    refine ⟨h.records, h.index, fun id k hk => ?_⟩
    simp only [Contents.withCall, Contents.withValue, h.values id k hk]
  | _ => exact h

theorem withCalls (h : AgreesOffMail c d) (calls : List Backend.Call) :
    AgreesOffMail (c.withCalls calls) (d.withCalls calls) := by
  induction calls generalizing c d with
  | nil => exact h
  | cons call calls ih => exact ih (h.withCall call)

end AgreesOffMail
end Contents

namespace Engine

variable {e : Engine σ τ} {see : σ → Contents} (hb : e.backend.AllOrNothing see)

/-- What is seen differs from `c` under the outbox's own keys alone. -/
abbrev OffMail (see : σ → Contents) (c : Contents) (s : State σ τ) : Prop :=
  c.AgreesOffMail (see s.storage)

section
include hb

theorem retrieve_offMail (c : Contents) (key : String) :
    Keeps (fun s => c.AgreesOffMail (see s)) (e.backend.retrieve Record.outbox key) := by
  refine .of_after fun s hs => ?_
  have hcall := hb (.retrieve Record.outbox key) s
  rw [show (e.backend.answer (.retrieve Record.outbox key)).after s = _ from after_map ..] at hcall
  rw [hcall]
  split <;> exact hs

theorem store_offMail (c : Contents) {key : String} (hkey : Outbox.IsOwnKey key) (raw : Bytes) :
    Keeps (fun s => c.AgreesOffMail (see s)) (e.backend.store Record.outbox key raw) := by
  refine .of_after fun s hs => ?_
  have hcall := hb (.store Record.outbox key raw) s
  rw [show (e.backend.answer (.store Record.outbox key raw)).after s = _ from after_map ..] at hcall
  rw [hcall]
  split
  · exact hs.trans (.of_mail _ hkey raw)
  · exact hs

/-- **A deposit touches nothing but the outbox's own keys**, whatever fails. -/
theorem deposit_offMail (c : Contents) (message : Option Message) :
    Keeps (OffMail (τ := τ) see c) (e.deposit message) := by
  refine keeps_deposit (fun m => ?_) message
  have hpush : Keeps (fun s => c.AgreesOffMail (see s)) (Outbox.push e.backend m) :=
    Outbox.keeps_push (fun key => retrieve_offMail hb c key)
      (fun key raw hkey => store_offMail hb c hkey raw) m
  exact onStorage_ensures hpush

/-- **A withdrawal touches nothing but the outbox's own keys**, whatever fails. -/
theorem withdraw_offMail (c : Contents) (digest : Option (Octets 32)) :
    Keeps (OffMail (τ := τ) see c) (e.withdraw digest) := by
  refine keeps_withdraw (fun d => ?_) digest
  have hacknowledge : Keeps (fun s => c.AgreesOffMail (see s)) (Outbox.acknowledge e.backend d) :=
    Outbox.keeps_acknowledge (fun key => retrieve_offMail hb c key)
      (fun key raw hkey => store_offMail hb c hkey raw) d
  exact onStorage_ensures hacknowledge

end

/-! ## The commit as calls in order -/

/-- The calls that a batch asks for, in order. -/
def batchCalls (rs : List Record) (ws : List StoreWrite) : List Backend.Call :=
  rs.map .init ++ ws.map fun w => .store w.record w.key w.value

/-- A call that is counted is a call of the storage. -/
theorem counted_simulates {α : Type} (m : Step σ α) (f : α → Backend.Answer) (metric : Metric) :
    Simulates (fun storage (s : State σ τ) => s.storage = storage)
      (do let _ ← (m >>= fun a => pure (f a) : Step σ Backend.Answer))
      (do let _ ← onStorage m; count metric) := by
  rintro _ s rfl
  rw [outcome, outcome, after, after, bind_apply, bind_apply, map_apply, onStorage,
    within_apply, outcome, after]
  rcases m s.storage with ⟨_ | _, t⟩ <;> exact ⟨rfl, rfl⟩

/-- Counted calls are calls of the storage. -/
theorem counted_forEach {α : Type} {b : Backend σ} {call : α → Backend.Call}
    {f : α → Step (State σ τ) Unit}
    (h : ∀ x, Simulates (fun storage (s : State σ τ) => s.storage = storage)
      (do let _ ← b.answer (call x)) (f x)) (xs : List α) :
    Simulates (fun storage (s : State σ τ) => s.storage = storage) (b.perform (xs.map call))
      (Step.forEach xs f) := by
  induction xs with
  | nil => exact .pure ()
  | cons x xs ih => exact (h x).bind fun _ => ih

/-- **A commit makes the calls of its batch in order**, up to the first that fails. -/
theorem commit_performs (rs : List Record) (ws : List StoreWrite) (s : State σ τ) :
    (e.commit rs ws).outcome s = (e.backend.perform (batchCalls rs ws)).outcome s.storage ∧
      ((e.commit rs ws).after s).storage = (e.backend.perform (batchCalls rs ws)).after
        s.storage := by
  have hcommit : Simulates (fun storage (s : State σ τ) => s.storage = storage)
      (e.backend.perform (batchCalls rs ws)) (e.commit rs ws) := by
    rw [batchCalls, Backend.perform_append]
    refine (counted_forEach (fun r => ?_) rs).bind fun _ => counted_forEach (fun w => ?_) ws
    · exact counted_simulates (e.backend.init r) (fun _ => .done) _
    · exact counted_simulates (e.backend.store w.record w.key w.value) .record _
  exact hcommit s.storage s rfl

/-! ## The finalization -/

/-- The calls of a batch that take effect in a finalization; `none` where it is refused before the
first of them, for want of a sender or a signature or because its message cannot be deposited. -/
def applied (e : Engine σ τ) (tx : Transaction) (rs : List Record)
    (ws : List StoreWrite) (s : State σ τ) :
    Option (List Backend.Call) :=
  match e.signer.sender tx with
  | .error _ => none
  | .ok author =>
    match e.compose tx author ws with
    | .error _ => none
    | .ok message =>
      match e.deposit message s with
      | (.error _, _) => none
      | (.ok _, t) => some (e.backend.served (batchCalls rs ws) t.storage)

/-- **How a finalization ends.**  It is refused with nothing done but a deposit that failed, or its
calls are made: all of them, or up to one that fails, and then the message is withdrawn. -/
inductive Ends (e : Engine σ τ) (tx : Transaction) (rs : List Record)
    (ws : List StoreWrite) (s : State σ τ) :
    Except StoreError Unit × State σ τ → Option (List Backend.Call) → Prop where
  | unsigned {err : StoreError} :
      e.signer.sender tx = .error err → Ends e tx rs ws s (.error .unsignedFinalize, s) none
  | unsignable {author : Address} {err : StoreError} : e.signer.sender tx = .ok author →
      e.compose tx author ws = .error err → Ends e tx rs ws s (.error err, s) none
  | undeposited {message : Option Message} {err : StoreError} {t : State σ τ} :
      e.Composes tx ws message →
      e.deposit message s = (.error err, t) → Ends e tx rs ws s (.error err, t) none
  | cut {message : Option Message} {digest : Option (Octets 32)}
      {err : StoreError} {t : State σ τ} :
      e.Composes tx ws message → e.deposit message s = (.ok digest, t) →
      (e.commit rs ws).outcome t = .error err →
      Ends e tx rs ws s (.error err, (e.withdraw digest).after ((e.commit rs ws).after t))
        (some (e.backend.served (batchCalls rs ws) t.storage))
  | done {message : Option Message} {digest : Option (Octets 32)} {t u : State σ τ} :
      e.Composes tx ws message →
      e.deposit message s = (.ok digest, t) → (e.commit rs ws).outcome t = .ok () →
      u.storage = ((e.commit rs ws).after t).storage →
      Ends e tx rs ws s (.ok (), u) (some (e.backend.served (batchCalls rs ws) t.storage))

/-- A withdrawal does not fail. -/
theorem withdraw_outcome (digest : Option (Octets 32)) (s : State σ τ) :
    (e.withdraw digest).outcome s = .ok () := by
  cases digest <;> rfl

theorem ends_finalize (tx : Transaction) (rs : List Record) (ws : List StoreWrite) (s : State σ τ) :
    e.Ends tx rs ws s (e.finalize tx rs ws s) (e.applied tx rs ws s) := by
  unfold finalize applied
  cases hauthor : e.signer.sender tx with
  | error err => exact .unsigned hauthor
  | ok author =>
    simp only
    cases hmessage : e.compose tx author ws with
    | error err => exact .unsignable hauthor hmessage
    | ok message =>
      have hcomposes : e.Composes tx ws message := ⟨author, hauthor, hmessage⟩
      rw [bind_of_ok (ofExcept_apply (.ok message) s)]
      simp only
      rcases hdeposit : e.deposit message s with ⟨err | digest, t⟩
      · rw [bind_of_error hdeposit]
        exact .undeposited hcomposes hdeposit
      · rw [bind_of_ok hdeposit, bind_of_ok (attempt_apply (e.commit rs ws) t)]
        rcases hcommit : e.commit rs ws t with ⟨err | ⟨⟩, u⟩
        · have hcut : Ends e tx rs ws s _ _ := .cut hcomposes hdeposit (congrArg Prod.fst hcommit)
          rw [show (e.commit rs ws).after t = u from congrArg Prod.snd hcommit] at hcut
          have hwithdraw : e.withdraw digest u = (.ok (), (e.withdraw digest).after u) :=
            Prod.ext (withdraw_outcome digest u) rfl
          show Ends e tx rs ws s ((e.withdraw digest >>= fun _ => Step.fail err) u) _
          rw [bind_of_ok hwithdraw]
          exact hcut
        · exact .done hcomposes hdeposit (congrArg Prod.fst hcommit)
            (congrArg (·.2.storage) hcommit).symm

/-- **What a finalization leaves outside the outbox's own keys** is what the calls of its batch
keep that take effect. -/
theorem finalize_offMail (hb : e.backend.AllOrNothing see) (tx : Transaction) (rs : List Record)
    (ws : List StoreWrite) (s : State σ τ) :
    OffMail see ((see s.storage).withCalls ((e.applied tx rs ws s).getD []))
      ((e.finalize tx rs ws).after s) := by
  have hdeposit {message : Option Message} {r : Except StoreError (Option (Octets 32))}
      {t : State σ τ} (h : e.deposit message s = (r, t)) : OffMail see (see s.storage) t := by
    have hkeeps := (deposit_offMail (τ := τ) hb (see s.storage) message).after (s := s) (.refl _)
    rwa [after, h] at hkeeps
  have hcommit {t : State σ τ} (h : OffMail see (see s.storage) t) :
      OffMail see ((see s.storage).withCalls (e.backend.served (batchCalls rs ws) t.storage))
        ((e.commit rs ws).after t) := by
    have hkept := h.withCalls (e.backend.served (batchCalls rs ws) t.storage)
    rwa [← hb.see_perform, ← (commit_performs rs ws t).2] at hkept
  have hends := ends_finalize (e := e) tx rs ws s
  rw [after]
  generalize e.finalize tx rs ws s = ended, e.applied tx rs ws s = calls at hends
  cases hends with
  | unsigned _ => exact .refl _
  | unsignable _ _ => exact .refl _
  | undeposited _ hd => exact hdeposit hd
  | cut _ hd _ => exact (withdraw_offMail hb _ _).after (hcommit (hdeposit hd))
  | done _ hd _ hstorage =>
    have hkept := hcommit (hdeposit hd)
    rwa [OffMail, ← hstorage] at hkept

/-- **A finalization succeeds** just where all calls of its batch take effect. -/
theorem finalize_ok_iff_applied (tx : Transaction) (rs : List Record)
    (ws : List StoreWrite) (s : State σ τ) :
    (e.finalize tx rs ws).outcome s = .ok () ↔ e.applied tx rs ws s = some (batchCalls rs ws) := by
  have hserved (t : State σ τ) : (e.commit rs ws).outcome t = .ok () ↔
      e.backend.served (batchCalls rs ws) t.storage = batchCalls rs ws := by
    rw [(commit_performs rs ws t).1, Backend.perform_ok_iff]
  have hends := ends_finalize (e := e) tx rs ws s
  rw [outcome]
  generalize e.finalize tx rs ws s = ended, e.applied tx rs ws s = calls at hends
  cases hends with
  | unsigned _ => exact iff_of_false (by simp) (by simp)
  | unsignable _ _ => exact iff_of_false (by simp) (by simp)
  | undeposited _ _ => exact iff_of_false (by simp) (by simp)
  | cut _ _ hcommit =>
    refine iff_of_false (by simp) fun h => ?_
    rw [(hserved _).mpr (Option.some.inj h)] at hcommit
    cases hcommit
  | done _ _ hcommit _ => exact ⟨fun _ => congrArg some ((hserved _).mp hcommit), fun _ => rfl⟩

/-- The calls that take effect are the first ones of the batch. -/
theorem prefix_of_applied {tx : Transaction} {rs : List Record}
    {ws : List StoreWrite} {s : State σ τ}
    {calls : List Backend.Call} (h : e.applied tx rs ws s = some calls) :
    calls <+: batchCalls rs ws := by
  have hends := ends_finalize (e := e) tx rs ws s
  rw [h] at hends
  generalize e.finalize tx rs ws s = ended at hends
  cases hends <;> exact Backend.prefix_of_served ..

/-- Among the first calls of a batch there is a value only behind all records. -/
theorem inits_prefix_of_store {rs : List Record} {ws : List StoreWrite} {calls : List Backend.Call}
    (hcalls : calls <+: batchCalls rs ws) {r : Record} {key : String} {value : Bytes}
    (hstore : .store r key value ∈ calls) : rs.map .init <+: calls := by
  rcases List.prefix_or_prefix_of_prefix hcalls
    (List.prefix_append (rs.map Backend.Call.init) _) with h | h
  · obtain ⟨q, -, hq⟩ := List.mem_map.mp (h.subset hstore)
    cases hq
  · exact h

/-! ### Batches that are refused -/

theorem finalize_of_unsigned {tx : Transaction} {err : StoreError}
    (h : e.signer.sender tx = .error err)
    (rs : List Record) (ws : List StoreWrite) (s : State σ τ) :
    e.applied tx rs ws s = none ∧ e.finalize tx rs ws s = (.error .unsignedFinalize, s) := by
  rw [applied, finalize, h]
  exact ⟨rfl, rfl⟩

theorem finalize_of_uncomposed {tx : Transaction} {ws : List StoreWrite} {author : Address}
    {err : StoreError} (hauthor : e.signer.sender tx = .ok author)
    (hcompose : e.compose tx author ws = .error err) (rs : List Record) (s : State σ τ) :
    e.applied tx rs ws s = none ∧ e.finalize tx rs ws s = (.error err, s) := by
  rw [applied, finalize, hauthor]
  simp only [hcompose]
  exact ⟨trivial, rfl⟩

/-- What cannot be signed is not composed. -/
theorem compose_of_unsignable {tx : Transaction} {ws : List StoreWrite} {author : Address}
    {err : StoreError} (hws : ws ≠ [])
    (hsign : e.signer.sign author (⟨tx, ws, e.uuid, []⟩ : Message).signableBytes = .error err) :
    e.compose tx author ws = .error err := by
  rw [compose, if_neg (by simpa using hws)]
  simp only [hsign]
  rfl

theorem finalize_of_undeposited {tx : Transaction} {ws : List StoreWrite} {m : Message}
    {err : StoreError} {s : State σ τ} (hm : e.Composes tx ws (some m))
    (hkeeps : e.keepsOutbox = true)
    (hpush : (Outbox.push e.backend m).outcome s.storage = .error err) (rs : List Record) :
    e.applied tx rs ws s = none ∧ (e.finalize tx rs ws).outcome s = .error err := by
  obtain ⟨author, hauthor, hcompose⟩ := hm
  have hdeposit : e.deposit (some m) s =
      (.error err, { s with storage := (Outbox.push e.backend m).after s.storage }) := by
    show (if e.keepsOutbox then _ else _ : Step (State σ τ) (Option (Octets 32))) s = _
    rw [if_pos hkeeps]
    exact bind_of_error (Prod.ext hpush rfl)
  rw [outcome, applied, finalize, hauthor]
  simp only [hcompose, hdeposit]
  rw [bind_of_ok (ofExcept_apply _ s), bind_of_error hdeposit]
  exact ⟨trivial, rfl⟩

/-! ### The message of a batch -/

/-- A batch that succeeds hands over the message of its writes, if there are any. -/
theorem finalize_publishes {tx : Transaction} {rs : List Record}
    {ws : List StoreWrite} {s : State σ τ}
    (hok : (e.finalize tx rs ws).outcome s = .ok ()) (hws : ws ≠ []) :
    ∃ m, e.Composes tx ws (some m) ∧ ((e.finalize tx rs ws).after s).outgoing =
      s.outgoing ++ [m] := by
  obtain ⟨message, hmessage, -, hout⟩ :=
    (finalize_hands_over tx rs ws s.topic s.outgoing).ok ⟨rfl, rfl⟩ hok
  cases message with
  | none => exact absurd hmessage.flatMap_writes.symm hws
  | some m => exact ⟨m, hmessage, hout⟩

/-- A batch that fails or has no writes hands over nothing. -/
theorem finalize_publishes_nothing {tx : Transaction} {rs : List Record}
    {ws : List StoreWrite} {s : State σ τ}
    (h : ¬ ((e.finalize tx rs ws).outcome s = .ok () ∧ ws ≠ [])) :
    ((e.finalize tx rs ws).after s).outgoing = s.outgoing := by
  have hhands := finalize_hands_over (e := e) tx rs ws s.topic s.outgoing
  cases hout : (e.finalize tx rs ws).outcome s with
  | error err => exact (hhands.error ⟨rfl, rfl⟩ hout).2
  | ok _ =>
    obtain ⟨message, hmessage, -, ho⟩ := hhands.ok ⟨rfl, rfl⟩ hout
    cases message with
    | none => rw [ho, Option.toList_none, List.append_nil]
    | some m => exact absurd ⟨hout, hmessage.writes_ne_nil⟩ h

/-- **The exact effect of a finalization** over records in memory, whatever calls are refused.  What
it leaves outside the outbox's own keys is what the first calls of its batch keep that succeed, and
it succeeds just where these are all.  A batch is refused, with none of its calls made, for want of
a sender or of a signature, and where its message cannot be put into the outbox.  A batch with
writes that succeeds hands one message to publication: just its writes, in order, in the engine's
name and signed by the sender; all others hand over none. -/
theorem finalize_applies (gate : Backend.Call → Step ω Unit) (e : Engine σ τ) (tx : Transaction)
    (rs : List Record) (ws : List StoreWrite) (s : State (Memory × ω) τ) :
    let node := e.withBackend (Memory.backend.guarded gate)
    let applied := node.applied tx rs ws s
    let outcome := (node.finalize tx rs ws).outcome s
    let t := (node.finalize tx rs ws).after s
    (s.storage.1.contents.withCalls (applied.getD [])).AgreesOffMail t.storage.1.contents ∧
      (∀ calls, applied = some calls → calls <+: batchCalls rs ws ∧
        ∀ r key value, .store r key value ∈ calls → rs.map .init <+: calls) ∧
      (∀ err, node.signer.sender tx = .error err → applied = none ∧
        outcome = .error .unsignedFinalize ∧ t = s) ∧
      (∀ author err, node.signer.sender tx = .ok author → ws ≠ [] →
        node.signer.sign author (⟨tx, ws, node.uuid, []⟩ : Message).signableBytes = .error err →
          applied = none ∧ outcome = .error err ∧ t = s) ∧
      (∀ m err, node.Composes tx ws (some m) → node.keepsOutbox = true →
        (Outbox.push node.backend m).outcome s.storage = .error err → applied = none ∧
          outcome = .error err) ∧
      (outcome = .ok () ↔ applied = some (batchCalls rs ws)) ∧
      (outcome = .ok () → ws ≠ [] → ∃ m author, t.outgoing = s.outgoing ++ [m] ∧ m.writes = ws ∧
        m.origin = node.uuid ∧ m.sourceTx = tx ∧ node.signer.sender tx = .ok author ∧
        node.signer.sign author m.signableBytes = .ok m.signature) ∧
      (¬ (outcome = .ok () ∧ ws ≠ []) → t.outgoing = s.outgoing) := by
  intro node applied outcome t
  have hb : node.backend.AllOrNothing fun storage => storage.1.contents :=
    Memory.allOrNothing.guarded gate
  refine ⟨finalize_offMail hb tx rs ws s, fun calls hcalls => ?_, fun err hsender => ?_,
    fun author err hauthor hws hsign => ?_, fun m err hm hkeeps hpush => ?_,
    finalize_ok_iff_applied tx rs ws s, fun hok hws => ?_, finalize_publishes_nothing⟩
  · exact ⟨prefix_of_applied hcalls, fun _ _ _ => inits_prefix_of_store (prefix_of_applied hcalls)⟩
  · obtain ⟨hnone, hrun⟩ := finalize_of_unsigned hsender rs ws s
    exact ⟨hnone, congrArg Prod.fst hrun, congrArg Prod.snd hrun⟩
  · obtain ⟨hnone, hrun⟩ := finalize_of_uncomposed hauthor (compose_of_unsignable hws hsign) rs s
    exact ⟨hnone, congrArg Prod.fst hrun, congrArg Prod.snd hrun⟩
  · exact finalize_of_undeposited hm hkeeps hpush rs
  · obtain ⟨m, hm, hout⟩ := finalize_publishes hok hws
    obtain ⟨htx, hwrites, horigin⟩ := hm.writes
    obtain ⟨author, hauthor, hsign⟩ := hm.signed
    exact ⟨m, author, hout, hwrites, horigin, htx, htx ▸ hauthor, hsign⟩

/-- A batch of three values of which the second is refused. -/
example :
    let r : Record := { Record.fresh Octets.zero 7 [] [] "sample" with id := Octets.replicate 16 1 }
    let gate (call : Backend.Call) : Step Unit Unit :=
      if call.subject = "b" then Step.fail (.backend "injected store") else pure ()
    let node := (Sample.engine Octets.zero false).withBackend (Memory.backend.guarded gate)
    node.applied Sample.tx [r] [⟨r, Sample.account, "a", [1]⟩, ⟨r, Sample.account, "b", [2]⟩,
      ⟨r, Sample.account, "c", [3]⟩] (.initial (.empty, ()) .empty) =
        some [.init r, .store r "a" [1]] := by
  rfl

end Engine
end SealedStore

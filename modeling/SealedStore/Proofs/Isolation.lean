import SealedStore.Proofs.Backend.WriteOnce
import SealedStore.Proofs.Draft.Reads
import SealedStore.Proofs.Sample.Exchange
import SealedStore.Proofs.Session.Operation

/-! # Drafts are isolated

A draft that is not finalized cannot be observed.  All that it does to its engine is to read, so a
run without its calls gives every other call the same reply and leaves the same storage, topic and
drafts, as far as any call can tell (`trace_others`).  Between two commits the replies to its own
calls are told by these calls and by what is held (`trace_own`).  Both together are
`Session.drafts_isolated`.

That a read leaves the backend as it was is `Backend.ReadsQuietly`; the backend in memory reads
quietly, and so does the one over any key-value store that refuses nothing.
-/
namespace SealedStore

open Step

variable {σ ρ τ α β : Type}

/-! ## Backends that read quietly -/

/-- Steps are alike if they are once something is made of their results that tells these apart. -/
theorem Step.Simulates.of_map {T : σ → ρ → Prop} {m : Step σ α} {n : Step ρ α} {f : α → β}
    (hf : Function.Injective f)
    (h : Simulates T (m >>= fun a => Pure.pure (f a)) (n >>= fun a => Pure.pure (f a))) :
    Simulates T m n := by
  intro s r hsr
  obtain ⟨hout, hafter⟩ := h s r hsr
  simp only [outcome, after, map_apply] at hout hafter
  refine ⟨?_, hafter⟩
  simp only [outcome]
  cases hm : (m s).1 with
  | ok a =>
    cases hn : (n r).1 with
    | ok b =>
      rw [hm, hn] at hout
      rw [hf (Except.ok.inj hout)]
    | error e =>
      rw [hm, hn] at hout
      cases hout
  | error e =>
    cases hn : (n r).1 with
    | ok b =>
      rw [hm, hn] at hout
      cases hout
    | error e' =>
      rw [hm, hn] at hout
      cases hout
      rfl

namespace Backend

/-- Whether all calls are answered alike from two states. -/
def SameAnswers (b : Backend σ) (s t : σ) : Prop := ∀ calls, b.answers calls t = b.answers calls s

/-- Whether no read changes what calls are answered. -/
structure ReadsQuietly (b : Backend σ) : Prop where
  fetch : ∀ id s, b.SameAnswers s ((b.fetch id).after s)
  retrieve : ∀ r key s, b.SameAnswers s ((b.retrieve r key).after s)
  list : ∀ block space s, b.SameAnswers s ((b.list block space).after s)

theorem answer_simulates (b : Backend σ) (call : Call) :
    Step.Simulates b.SameAnswers (b.answer call) (b.answer call) := by
  intro s t h
  exact ⟨(List.cons.inj (h [call])).1, fun calls => (List.cons.inj (h (call :: calls))).2⟩

/-- Where all calls are answered alike, all operations run alike. -/
theorem mirrors_self (b : Backend σ) : b.Mirrors b.SameAnswers b where
  start := .of_map (f := fun _ => Answer.done) (fun _ _ _ => rfl) (b.answer_simulates .start)
  stop := .of_map (f := fun _ => Answer.done) (fun _ _ _ => rfl) (b.answer_simulates .stop)
  init r := .of_map (f := fun _ => Answer.done) (fun _ _ _ => rfl) (b.answer_simulates (.init r))
  store r key value := .of_map (fun _ _ => Answer.record.inj)
    (b.answer_simulates (.store r key value))
  retrieve r key := .of_map (fun _ _ => Answer.value.inj) (b.answer_simulates (.retrieve r key))
  fetch id := .of_map (fun _ _ => Answer.record.inj) (b.answer_simulates (.fetch id))
  list block space := .of_map (fun _ _ => Answer.records.inj)
    (b.answer_simulates (.list block space))

end Backend

theorem Memory.readsQuietly : backend.ReadsQuietly where
  fetch _ _ _ := rfl
  retrieve _ _ _ _ := rfl
  list _ _ _ _ := rfl

/-- **Reads of records over a key-value store are quiet**, since they change no entry. -/
theorem KeyValue.Contract.readsQuietly {kv : KeyValue σ} (K : kv.Contract fun _ => False) :
    kv.backend.ReadsQuietly := by
  have hget : ∀ s k, Keeps (fun t => K.see s = K.see t) (kv.get k) := by
    intro s k t ht
    exact (K.get (K.see s) k).mono (fun _ h => h) (fun _ _ h => h.2.symm)
      (fun _ _ h => h.2.symm) t ht.symm
  have hquiet : ∀ {α : Type} {m : Step σ α}, (∀ s, Keeps (fun t => K.see s = K.see t) m) →
      ∀ s, kv.backend.SameAnswers s (m.after s) := fun hm s =>
    K.answers_eq_of_see ((hm s).after rfl)
  exact ⟨fun id => hquiet fun s => fetch_keeps (hget s) id,
    fun r key => hquiet fun s => retrieve_keeps (hget s) r key,
    fun block space => hquiet fun s => list_keeps (hget s) block space⟩

theorem Engine.reads_like {e : Engine σ τ} (h : e.backend.ReadsQuietly) (u : State σ τ) :
    Draft.Reads e fun s => State.Like e.backend.SameAnswers s u := by
  have hstorage : ∀ {α : Type} {m : Step σ α}, (∀ s, e.backend.SameAnswers s (m.after s)) →
      ∀ t, Keeps (e.backend.SameAnswers · t) m := fun hm t =>
    .of_cases (fun s _ hs _ calls => (hs calls).trans (hm s calls).symm)
      fun s _ hs _ calls => (hs calls).trans (hm s calls).symm
  have hlike : ∀ {α : Type} {m : Step σ α}, (∀ t, Keeps (e.backend.SameAnswers · t) m) →
      Keeps (fun s => State.Like e.backend.SameAnswers s u) (onStorage (τ := τ) m) := by
    intro α m hm
    refine .within fun s hs => ?_
    obtain ⟨t, ht, rfl⟩ := hs
    exact (hm t).mono (fun _ h => h ▸ ht) (fun _ _ h => ⟨t, h, rfl⟩) fun _ _ h => ⟨t, h, rfl⟩
  refine ⟨fun id => hlike (hstorage (h.fetch id)), fun id caller key => hlike fun t => ?_,
    fun block space => hlike (hstorage (h.list block space))⟩
  refine .bind (hstorage (h.fetch id) t) fun r =>
    .bind (Q := fun _ => (e.backend.SameAnswers · t)) ?_ fun _ => ?_
  · exact .ofExcept (fun _ _ _ hs => hs) fun _ _ _ hs => hs
  · exact hstorage (h.retrieve r key) t

namespace Session

/-! ## Without the calls on one draft -/

variable {e : Engine σ τ} {s u : Session σ τ} {n : Nat}

theorem onDraft_of_begun {d : Draft} (hd : s.drafts[n]? = some d)
    {m : Step (Draft.Execution σ τ) α} :
    onDraft n m s =
      ⟨(m.after ⟨s.engine, d⟩).engine, s.drafts.set n (m.after ⟨s.engine, d⟩).draft⟩ := by
  rw [onDraft, hd]

/-- A call on a draft leaves the other drafts. -/
theorem drafts_onDraft (n : Nat) (m : Step (Draft.Execution σ τ) α) (s : Session σ τ) :
    (onDraft n m s).drafts.length = s.drafts.length ∧
      ∀ k, k ≠ n → (onDraft n m s).drafts[k]? = s.drafts[k]? := by
  unfold onDraft
  cases s.drafts[n]? with
  | none => exact ⟨rfl, fun _ _ => rfl⟩
  | some d => exact ⟨List.length_set, fun k hk => List.getElem?_set_ne (Ne.symm hk)⟩

theorem drafts_act {event : Event} (h : event.draft? = some n) :
    (act e s event).drafts.length = s.drafts.length ∧
      ∀ k, k ≠ n → (act e s event).drafts[k]? = s.drafts[k]? := by
  cases event with
  | init k r => exact Option.some.inj h ▸ drafts_onDraft ..
  | store k id caller key value => exact Option.some.inj h ▸ drafts_onDraft ..
  | retrieve k id caller key => exact Option.some.inj h ▸ drafts_onDraft ..
  | fetch k id => exact Option.some.inj h ▸ drafts_onDraft ..
  | list k block space => exact Option.some.inj h ▸ drafts_onDraft ..
  | finalize k => exact Option.some.inj h ▸ drafts_onDraft ..
  | _ => cases h

/-- Whether no call tells two sessions apart, save for calls on one draft. -/
abbrev LikeBut (e : Engine σ τ) (n : Nat) (s u : Session σ τ) : Prop :=
  Like e.backend.SameAnswers (· ≠ n) s u

theorem LikeBut.refl (e : Engine σ τ) (n : Nat) (s : Session σ τ) : LikeBut e n s s :=
  ⟨⟨s.engine.storage, fun _ => rfl, rfl⟩, rfl, fun _ _ => rfl⟩

/-- **A call on the draft changes nothing for the others.** -/
theorem LikeBut.own (h : LikeBut e n s u) (hquiet : e.backend.ReadsQuietly) {op : Operation}
    (hop : op.draft? = some n) (hfinal : op ≠ .event (.finalize n)) :
    LikeBut e n (op.after e s) u := by
  cases op with
  | event ev =>
    obtain ⟨hcount, hdrafts⟩ := drafts_act (e := e) (s := s) hop
    refine ⟨?_, h.count.trans hcount.symm, fun k hk => (h.drafts k hk).trans (hdrafts k hk).symm⟩
    exact act_reads (Engine.reads_like hquiet u.engine) h.engine hop
      fun hev => hfinal (congrArg _ hev)
  | _ => cases hop

/-- **Every other operation is answered alike.** -/
theorem LikeBut.other (h : LikeBut e n s u) {op : Operation} (hop : op.draft? ≠ some n) :
    op.reply e u = op.reply e s ∧ LikeBut e n (op.after e s) (op.after e u) := by
  have hself := e.backend.mirrors_self
  cases op with
  | event ev =>
    refine act_simulates hself h fun k hk hkn => hop ?_
    rw [← hkn]
    exact hk
  | retrieve id caller key => exact h.onEngine (Engine.retrieve_simulates hself id caller key) _
  | fetch id => exact h.onEngine (Engine.fetch_simulates hself id) _
  | list block space => exact h.onEngine (Engine.list_simulates hself block space) _

/-- **The replies to all others** are the same without the calls on the draft. -/
theorem trace_others (hquiet : e.backend.ReadsQuietly) {ops : List Operation}
    (hops : ∀ op ∈ ops, op ≠ .event (.finalize n)) (h : LikeBut e n s u) :
    trace e (ops.filter (·.draft? ≠ some n)) u = (trace e ops s).filter (·.1.draft? ≠ some n) ∧
      LikeBut e n (afterAll e ops s) (afterAll e (ops.filter (·.draft? ≠ some n)) u) := by
  induction ops generalizing s u with
  | nil => exact ⟨rfl, h⟩
  | cons op ops ih =>
    have hrest := fun p hp => hops p (List.mem_cons_of_mem op hp)
    by_cases hop : op.draft? = some n
    · have hafter := h.own hquiet hop (hops op List.mem_cons_self)
      simpa [trace, afterAll, hop] using ih hrest hafter
    · obtain ⟨hreply, hafter⟩ := h.other hop
      obtain ⟨htrace, hlike⟩ := ih hrest hafter
      simp only [List.filter_cons, trace, afterAll, ne_eq, hop, not_false_eq_true,
        decide_true, if_true, List.foldl_cons] at htrace hlike ⊢
      exact ⟨by rw [hreply, htrace], hlike⟩

/-- What cannot be told apart after two runs: what the backend answers, what waits in the outbox,
what was published and is to be, and the other drafts. -/
structure Unobserved (e : Engine σ τ) (n : Nat) (s u : Session σ τ) : Prop where
  answers : ∀ calls, e.backend.answers calls u.engine.storage =
    e.backend.answers calls s.engine.storage
  pending : (Outbox.pending e.backend).outcome u.engine.storage =
    (Outbox.pending e.backend).outcome s.engine.storage
  topic : u.engine.topic = s.engine.topic
  outgoing : u.engine.outgoing = s.engine.outgoing
  subscription : u.engine.subscription = s.engine.subscription
  metrics : u.engine.metrics = s.engine.metrics
  journal : u.engine.journal = s.engine.journal
  drafts : ∀ k, k ≠ n → u.drafts[k]? = s.drafts[k]?

theorem LikeBut.unobserved (h : LikeBut e n s u) : Unobserved e n s u := by
  obtain ⟨⟨storage, hstorage, hengine⟩, -, hdrafts⟩ := h
  have hpending := (e.backend.mirrors_self.pending _ _ hstorage).1
  refine ⟨?_, ?_, ?_, ?_, ?_, ?_, ?_, hdrafts⟩
  all_goals rw [hengine]
  · exact hstorage
  · exact hpending
  all_goals rfl

/-! ## Between two commits -/

end Session

namespace Contents

theorem AgreesOff.of_eq {c d : Contents} {id : RecordId} (h : d = c) : AgreesOff id c d :=
  h ▸ .refl ..

variable {c d : Contents} (h : AgreesOff Record.outbox.id c d)
include h

theorem AgreesOff.record_eq (id : RecordId) : d.record id = c.record id := by
  rw [Contents.record, h.records, Contents.record]

/-- No record of genuine contents is the outbox's, so a read is not of the outbox. -/
theorem AgreesOff.read_eq (hc : c.Genuine) (id : RecordId) (caller : Address) (key : String) :
    d.read id caller key = c.read id caller key := by
  rw [Contents.read, h.record_eq, Contents.read]
  refine Check.bind_congr fun r hr => Check.bind_congr fun _ _ => ?_
  obtain ⟨hid, hderived⟩ := hc id r (record_ok_iff.mp hr)
  have hne : r.id ≠ Record.outbox.id := hid ▸ hderived ▸ r.derivedId_ne_outbox
  rw [Contents.value, h.values _ hne, Backend.Contract.missing, h.records, Contents.value,
    Backend.Contract.missing]

theorem AgreesOff.listing_eq (block : BitVec 64) (space : String) :
    d.listing block space = c.listing block space := by
  rw [Contents.listing, h.index, h.records, Contents.listing]

end Contents

namespace Draft

/-- Whether two executions have the same draft, over contents that are the
same but for the outbox. -/
def SameBut (c : Contents) (d : Draft) (c' : Contents) (d' : Draft) : Prop :=
  d' = d ∧ Contents.AgreesOff Record.outbox.id c c'

section
variable {e : Engine σ τ} {C : e.backend.Contract}

theorem related_init (r : Record) : Simulates (Related C SameBut) (init e r) (init e r) := by
  have hlook : ∀ {α : Type} (f : Draft → Except StoreError α),
      Simulates (Related C SameBut) (look f) (look f) := by
    rintro α f x ⟨_, _⟩ ⟨c, c', hx, hy, hc, hc', rfl, hsame⟩
    exact ⟨rfl, c, c', hx, hy, hc, hc', rfl, hsame⟩
  refine (hlook _).bind fun _ => (hlook _).bind fun q => ?_
  rintro x ⟨_, _⟩ ⟨c, c', hx, hy, hc, hc', rfl, hsame⟩
  exact ⟨rfl, c, c', ⟨hx.1, rfl⟩, ⟨hy.1, rfl⟩, hc, hc', rfl, hsame⟩

variable (hC : C.Reliable)
include hC

theorem related_fetch (id : RecordId) :
    Simulates (Related C SameBut) (fetch e id) (fetch e id) := by
  refine related_of_gives (fun c d _ => fetch_gives c d hC id) ?_
  rintro c _ c' d - ⟨rfl, hsame⟩
  rw [record, hsame.record_eq, record]

theorem related_retrieve (id : RecordId) (caller : Address) (key : String) :
    Simulates (Related C SameBut) (retrieve e id caller key) (retrieve e id caller key) := by
  refine related_of_gives (fun c d hc => retrieve_gives d hC hc id caller key) ?_
  rintro c _ c' d hc ⟨rfl, hsame⟩
  have hrecord : record c' d id = record c d id := by rw [record, hsame.record_eq, record]
  rw [read, hrecord, hsame.read_eq hc, read]

theorem related_list (block : BitVec 64) (space : String) :
    Simulates (Related C SameBut) (list e block space) (list e block space) := by
  refine related_of_gives (fun c d _ => list_gives c d hC block space) ?_
  rintro c _ c' d - ⟨rfl, hsame⟩
  rw [listing, hsame.listing_eq, listing]

theorem related_put (id : RecordId) (caller : Address) (key : String) (value : Bytes) :
    Simulates (Related C SameBut) (store e id caller key value) (store e id caller key value) := by
  refine related_store hC ?_ ?_ key value
  · rintro c _ c' d ⟨rfl, hsame⟩
    rw [target, record, hsame.record_eq, target, record]
  · rintro c _ c' d w ⟨rfl, hsame⟩
    exact ⟨rfl, hsame⟩

end
end Draft

namespace Session

variable {e : Engine σ τ} {C : e.backend.Contract} {s u : Session σ τ} {n : Nat}

/-- Whether two sound sessions have the same draft under a number, and hold the same
but for the outbox. -/
structure Beside (C : e.backend.Contract) (n : Nat) (s u : Session σ τ) : Prop where
  left : Sound C s
  right : Sound C u
  draft : ∃ d, s.drafts[n]? = some d ∧ u.drafts[n]? = some d
  held : Contents.AgreesOff Record.outbox.id (C.see s.engine.storage) (C.see u.engine.storage)

/-- A call on the draft that both have. -/
theorem Beside.onDraft (h : Beside C n s u) {m : Step (Draft.Execution σ τ) α}
    (hm : Simulates (Draft.Related C Draft.SameBut) m m) (f : α → Backend.Answer)
    (hs : Sound C (onDraft n m s)) (hu : Sound C (onDraft n m u)) :
    draftReply n m f s = draftReply n m f u ∧ Beside C n (onDraft n m s) (onDraft n m u) := by
  obtain ⟨d, hsd, hud⟩ := h.draft
  have hrelated : Draft.Related C Draft.SameBut ⟨s.engine, d⟩ ⟨u.engine, d⟩ :=
    ⟨_, _, ⟨h.left.holds, rfl⟩, ⟨h.right.holds, rfl⟩, h.left.genuine, h.right.genuine, rfl, h.held⟩
  obtain ⟨hout, c, c', hx, hy, -, -, hdraft, hheld⟩ := hm _ _ hrelated
  rw [onDraft_of_begun hsd] at hs ⊢
  rw [onDraft_of_begun hud] at hu ⊢
  refine ⟨?_, hs, hu, ⟨(m.after ⟨s.engine, d⟩).draft, ?_, ?_⟩, ?_⟩
  · rw [draftReply, draftReply, hsd, hud, Option.map_some, Option.map_some, hout]
  · exact List.getElem?_set_self (List.getElem?_eq_some_iff.mp hsd).1
  · rw [← hdraft]
    exact List.getElem?_set_self (List.getElem?_eq_some_iff.mp hud).1
  · exact (Contents.AgreesOff.of_eq hx.1.2.symm).trans (hheld.trans (.of_eq hy.1.2))

/-- **A call on the draft is answered alike.** -/
theorem Beside.own (hC : C.Reliable) (h : Beside C n s u) {op : Operation}
    (hop : op.draft? = some n) (hcommits : ¬ op.Commits) :
    op.reply e s = op.reply e u ∧ Beside C n (op.after e s) (op.after e u) := by
  cases op with
  | event ev =>
    have hs := act_sound h.left ev
    have hu := act_sound h.right ev
    cases ev with
    | init k r =>
      cases hop
      exact h.onDraft (Draft.related_init r) _ hs hu
    | store k id caller key value =>
      cases hop
      exact h.onDraft (Draft.related_put hC id caller key value) _ hs hu
    | retrieve k id caller key =>
      cases hop
      exact h.onDraft (Draft.related_retrieve hC id caller key) _ hs hu
    | fetch k id =>
      cases hop
      exact h.onDraft (Draft.related_fetch hC id) _ hs hu
    | list k block space =>
      cases hop
      exact h.onDraft (Draft.related_list hC block space) _ hs hu
    | finalize k => exact absurd trivial hcommits
    | _ => cases hop
  | _ => cases hop

/-- What an operation that commits nothing leaves: the same contents but for the outbox. -/
theorem held_after (hs : Sound C s) {op : Operation} (hcommits : ¬ op.Commits) :
    Contents.AgreesOff Record.outbox.id (C.see s.engine.storage)
      (C.see (op.after e s).engine.storage) := by
  by_cases hop : ∃ ev, op = .event ev
  · obtain ⟨ev, rfl⟩ := hop
    by_cases hchanges : ev.Changes
    · cases ev with
      | publish =>
        obtain ⟨d, hd, -, hsee⟩ :=
          (Engine.publishNext_keeps C _).after (Outbox.HoldsOff.of_holds C _ hs.holds)
        exact hd.trans (.of_eq hsee)
      | finalize k => exact absurd trivial hcommits
      | put id key value => exact absurd trivial hcommits
      | receive m => exact absurd trivial hcommits
      | _ => exact hchanges.elim
    · exact .of_eq (see_act hs hchanges)
  · exact .of_eq (Operation.see_read hs (not_exists.mp hop))

/-- A draft is left alone by all but its own calls. -/
theorem draft_after {d : Draft} (hd : s.drafts[n]? = some d) {op : Operation}
    (hop : op.draft? ≠ some n) :
    (op.after e s).drafts[n]? = some d := by
  cases op with
  | event ev =>
    cases hcall : ev.draft? with
    | some k =>
      have hne : n ≠ k := fun hnk => hop (hnk ▸ hcall)
      exact ((drafts_act hcall).2 n hne).trans hd
    | none =>
      cases ev with
      | begin tx => exact List.getElem?_append_left (List.getElem?_eq_some_iff.mp hd).1 ▸ hd
      | start => exact hd
      | stop => exact hd
      | put id key value => exact hd
      | receive m => exact hd
      | publish => exact hd
      | _ => cases hcall
  | _ => exact hd

/-- Any other operation that commits nothing may be left out. -/
theorem Beside.other (h : Beside C n s u) {op : Operation} (hop : op.draft? ≠ some n)
    (hcommits : ¬ op.Commits) : Beside C n (op.after e s) u := by
  have hheld := held_after h.left hcommits
  obtain ⟨d, hsd, hud⟩ := h.draft
  refine ⟨op.sound_after h.left, h.right, ⟨d, draft_after hsd hop, hud⟩, ?_⟩
  exact ⟨h.held.records.trans hheld.records.symm, fun i hi =>
    (h.held.values i hi).trans (hheld.values i hi).symm, h.held.index.trans hheld.index.symm⟩

/-- **The replies to the calls on a draft** are those to these calls alone,
wherever the same is held. -/
theorem trace_own (hC : C.Reliable) {ops : List Operation} (hops : ∀ op ∈ ops, ¬ op.Commits)
    (h : Beside C n s u) : (trace e ops s).filter (·.1.draft? = some n) =
      trace e (ops.filter (·.draft? = some n)) u := by
  induction ops generalizing s u with
  | nil => rfl
  | cons op ops ih =>
    have hrest := fun p hp => hops p (List.mem_cons_of_mem op hp)
    have hcommits := hops op List.mem_cons_self
    by_cases hop : op.draft? = some n
    · obtain ⟨hreply, hafter⟩ := h.own hC hop hcommits
      have htrace := ih hrest hafter
      simp only [List.filter_cons, trace, hop, decide_true, if_true] at htrace ⊢
      rw [hreply, htrace]
    · simpa [trace, hop] using ih hrest (h.other hop hcommits)

/-! ## Isolation -/

/-- **Drafts are isolated.**  A run in which a draft is not finalized, without the calls on this
draft, gives every other operation the same reply, and nothing that it leaves behind can be told
apart.  And between two commits the replies to the calls on a draft are the same whatever else is
done, and wherever the same is committed. -/
theorem drafts_isolated (hquiet : e.backend.ReadsQuietly) (hC : C.Reliable) (n : Nat) :
    (∀ (s : Session σ τ) (ops : List Operation), (∀ op ∈ ops, op ≠ .event (.finalize n)) →
      let others := ops.filter (·.draft? ≠ some n)
      trace e others s = (trace e ops s).filter (·.1.draft? ≠ some n) ∧
        Unobserved e n (afterAll e ops s) (afterAll e others s)) ∧
    ∀ (s u : Session σ τ) (d : Draft), Sound C s → Sound C u → s.drafts[n]? = some d →
      u.drafts[n]? = some d → Contents.AgreesOff Record.outbox.id (C.see s.engine.storage)
        (C.see u.engine.storage) →
      ∀ xs ys : List Operation, (∀ op ∈ xs, ¬ op.Commits) → (∀ op ∈ ys, ¬ op.Commits) →
        xs.filter (·.draft? = some n) = ys.filter (·.draft? = some n) →
        (trace e xs s).filter (·.1.draft? = some n) = (trace e ys u).filter
        (·.1.draft? = some n) := by
  constructor
  · intro s ops hops
    obtain ⟨htrace, hlike⟩ := trace_others hquiet hops (.refl e n s)
    exact ⟨htrace, hlike.unobserved⟩
  · intro s u d hs hu hsd hud hheld xs ys hxs hys hown
    have hsu : Beside C n s u := ⟨hs, hu, ⟨d, hsd, hud⟩, hheld⟩
    have huu : Beside C n u u := ⟨hu, hu, ⟨d, hud, hud⟩, .refl ..⟩
    rw [trace_own hC hxs hsu, hown, trace_own hC hys huu]

/-- The statement where one draft stages a record and a value, and another one looks for the record,
as does a read past the drafts: neither finds it, whatever the first has done. -/
theorem drafts_isolated_staging :
    let e := Sample.publisher
    let C := Sample.publisherContract
    let start : Session Memory (Hub Message) := initial Memory.empty .empty
    let staging : List Operation := Sample.staging.map .event ++ [.event (.begin Sample.tx)]
    let look : List Operation := [.event (.fetch 1 Sample.record.id), .fetch Sample.record.id]
    let s := afterAll e staging start
    let u := afterAll e [.event (.begin Sample.tx), .event (.begin Sample.tx)] start
    e.backend.ReadsQuietly ∧ C.Reliable ∧ (∀ op ∈ staging ++ look, op ≠ .event (.finalize 0)) ∧
      trace e ((staging ++ look).filter (·.draft? ≠ some 0)) start =
        (trace e (staging ++ look) start).filter (·.1.draft? ≠ some 0) ∧
      (trace e (staging ++ look) start).map (·.2) =
        [some (.ok .done), some (.ok (.record Sample.record)), some (.ok (.record Sample.record)),
          some (.ok .done), some (.error (.recordNotFound Sample.record.id)),
          some (.error (.recordNotFound Sample.record.id))] ∧
      Sound C s ∧ Sound C u ∧ s.drafts[1]? = some (.begin Sample.tx) ∧
      u.drafts[1]? = some (.begin Sample.tx) ∧
      Contents.AgreesOff Record.outbox.id (C.see s.engine.storage) (C.see u.engine.storage) ∧
      (∀ op ∈ look, ¬ op.Commits) ∧
      (trace e look s).filter (·.1.draft? = some 1) =
        (trace e [.event (.fetch 1 Sample.record.id)] u).filter (·.1.draft? = some 1) := by
  intro e C start staging look s u
  have hquiet : e.backend.ReadsQuietly := Memory.readsQuietly
  have hC : C.Reliable := Memory.contract_reliable
  have hops : ∀ op ∈ staging ++ look, op ≠ .event (.finalize 0) := by
    simp [staging, look, Sample.staging]
  have hcommits : ∀ op ∈ look, ¬ op.Commits := by simp [look, Operation.Commits]
  have hempty : Sound C start := sound_initial trivial rfl _
  have hs : Sound C s := sound_afterAll hempty _
  have hu : Sound C u := sound_afterAll hempty _
  have hstaged : s = ⟨.initial Memory.empty .empty, [Sample.stagedDraft, .begin Sample.tx]⟩ := by
    have hrun : s = act e (run e start Sample.staging) (.begin Sample.tx) := rfl
    rw [hrun, Sample.run_staging]
    rfl
  have hagree : Contents.AgreesOff Record.outbox.id (C.see s.engine.storage)
      (C.see u.engine.storage) := by
    rw [hstaged]
    exact .refl ..
  have hsd : s.drafts[1]? = some (.begin Sample.tx) := by rw [hstaged]; rfl
  have hud : u.drafts[1]? = some (.begin Sample.tx) := rfl
  refine ⟨hquiet, hC, hops, ((drafts_isolated hquiet hC 0).1 start _ hops).1, ?_, hs,
    hu, hsd, hud, hagree, hcommits, (drafts_isolated hquiet hC 1).2 s u _ hs hu hsd hud hagree _
    _ hcommits ?_ rfl⟩
  · have hinit := Sample.init_bareRecord (.initial Memory.empty .empty)
    have hstore := Sample.store_record (.initial Memory.empty .empty)
    have hlook : Draft.fetch e Sample.record.id ⟨.initial Memory.empty .empty, .begin Sample.tx⟩ =
        (.error (.recordNotFound Sample.record.id),
          ⟨.initial Memory.empty .empty, .begin Sample.tx⟩) := rfl
    have hfetch : e.fetch Sample.record.id (.initial Memory.empty .empty) =
        (.error (.recordNotFound Sample.record.id), .initial Memory.empty .empty) := rfl
    simp [trace, staging, look, start, e, Sample.staging, Operation.reply, reply,
      draftReply, engineReply, Operation.after, act, onDraft, initial, Step.after, outcome,
      Except.map, hinit, hstore, hlook, hfetch]
  · simp [Operation.Commits]

end Session
end SealedStore

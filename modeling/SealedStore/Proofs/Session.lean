import SealedStore.Proofs.Draft
import SealedStore.Proofs.Engine.Intake

/-! # Runs of a node

A session is an engine with the drafts that were begun on it, and a run is any sequence of calls on
them, of messages that arrive and of publications.  Every run from a backend without records keeps
the session sound (`run_sound`): every record bears the id it is held under, that id is derived from
its contents, and so do the records that drafts stage and write under.  What else every run keeps,
of the contents and of each draft, is shown of the parts of an event alone (`Stable`).
-/
namespace SealedStore

open Step

/-- An engine's state and the drafts on it, oldest first. -/
structure Session (σ τ : Type) where
  engine : Engine.State σ τ
  drafts : List Draft

namespace Session

/-- What may happen on a node.  A draft is named by its number. -/
inductive Event where
  | start
  | stop
  | begin (tx : Transaction)
  | init (n : Nat) (r : Record)
  | store (n : Nat) (id : RecordId) (caller : Address) (key : String) (value : Bytes)
  | retrieve (n : Nat) (id : RecordId) (caller : Address) (key : String)
  | fetch (n : Nat) (id : RecordId)
  | list (n : Nat) (block : BitVec 64) (space : String)
  | finalize (n : Nat)
  /-- A value is stored without a draft. -/
  | put (id : RecordId) (key : String) (value : Bytes)
  | receive (m : Message)
  | publish

/-- Whether an event may change what is held. -/
def Event.Changes : Event → Prop
  | finalize _ => True
  | put .. => True
  | receive _ => True
  | publish => True
  | _ => False

/-- The draft that an event calls, if it is a call on a draft. -/
def Event.draft? : Event → Option Nat
  | init n _ => some n
  | store n .. => some n
  | retrieve n .. => some n
  | fetch n _ => some n
  | list n .. => some n
  | finalize n => some n
  | _ => none

variable {σ τ α : Type}

/-- A stopped engine that has done nothing, without drafts. -/
def initial (storage : σ) (topic : τ) : Session σ τ := ⟨.initial storage topic, []⟩

/-- The session after a step of the engine. -/
def onEngine (m : Step (Engine.State σ τ) α) (s : Session σ τ) : Session σ τ :=
  { s with engine := m.after s.engine }

/-- The session after a call on a draft, if there is one of this number. -/
def onDraft (n : Nat) (m : Step (Draft.Execution σ τ) α) (s : Session σ τ) : Session σ τ :=
  match s.drafts[n]? with
  | none => s
  | some d =>
    let x := m.after ⟨s.engine, d⟩
    ⟨x.engine, s.drafts.set n x.draft⟩

/-- The session after an event, whether or not the call succeeded. -/
def act (e : Engine σ τ) (s : Session σ τ) : Event → Session σ τ
  | .start => onEngine e.start s
  | .stop => onEngine e.stop s
  | .begin tx => { s with drafts := s.drafts ++ [Draft.begin tx] }
  | .init n r => onDraft n (Draft.init e r) s
  | .store n id caller key value => onDraft n (Draft.store e id caller key value) s
  | .retrieve n id caller key => onDraft n (Draft.retrieve e id caller key) s
  | .fetch n id => onDraft n (Draft.fetch e id) s
  | .list n block space => onDraft n (Draft.list e block space) s
  | .finalize n => onDraft n (Draft.finalize e) s
  | .put id key value => onEngine (e.store id key value) s
  | .receive m => onEngine (e.receive m) s
  | .publish => onEngine e.publishNext s

/-- The session after a run. -/
def run (e : Engine σ τ) (s : Session σ τ) (events : List Event) : Session σ τ :=
  events.foldl (act e) s

section
variable (e : Engine σ τ) (s : Session σ τ)

@[simp] theorem run_nil : run e s [] = s := rfl

@[simp] theorem run_cons (event : Event) (events : List Event) :
    run e s (event :: events) = run e (act e s event) events := rfl

theorem run_append (events more : List Event) :
    run e s (events ++ more) = run e (run e s events) more := List.foldl_append

@[simp] theorem engine_act_receive (m : Message) :
    (act e s (.receive m)).engine = (e.receive m).after s.engine := rfl

end

end Session

/-! ## Growing contents -/

namespace Contents

/-- Every record is an old one, or a new one that bears the id derived from its contents. -/
def GrowsTo (c d : Contents) : Prop := ∀ id, d.records id = c.records id ∨
  c.records id = none ∧ ∃ r : Record, r.id = id ∧ r.derivedId = id ∧ d.records id = some r

theorem GrowsTo.of_eq {c d : Contents} (h : d.records = c.records) : c.GrowsTo d :=
  fun id => .inl (by rw [h])

theorem GrowsTo.grows {c d : Contents} (h : c.GrowsTo d) : c.Grows d := by
  intro id r hr
  rcases h id with hd | ⟨hnone, -⟩
  · rw [hd, hr]
  · rw [hr] at hnone
    cases hnone

theorem GrowsTo.genuine {c d : Contents} (h : c.GrowsTo d) (hc : c.Genuine) : d.Genuine := by
  intro id r hr
  rcases h id with hd | ⟨-, q, hid, hderived, hq⟩
  · exact hc id r (hd ▸ hr)
  · rw [hq] at hr
    cases hr
    exact ⟨hid, hderived⟩

/-- Every record is an old one, or one of these. -/
def Gains (rs : List Record) (c d : Contents) : Prop := ∀ id, d.records id = c.records id ∨
  c.records id = none ∧ ∃ r ∈ rs, r.id = id ∧ d.records id = some r

theorem Gains.trans_agreesOff {rs : List Record} {c d f : Contents} {id : RecordId}
    (h : Gains rs c d) (hf : AgreesOff id d f) : Gains rs c f := by
  intro i
  rw [hf.records]
  exact h i

theorem Gains.growsTo {rs : List Record} {c d : Contents} (h : Gains rs c d)
    (hrs : ∀ r ∈ rs, r.derivedId = r.id) : c.GrowsTo d := by
  intro id
  rcases h id with hd | ⟨hnone, r, hr, rfl, hd⟩
  · exact .inl hd
  · exact .inr ⟨hnone, r, rfl, hrs r hr, hd⟩

theorem Absorbs.growsTo {ws : List StoreWrite} {c d : Contents} (h : Absorbs ws c d)
    (hws : ∀ w ∈ ws, w.record.derivedId = w.record.id) : c.GrowsTo d := by
  intro id
  rcases h.records id with hd | ⟨hnone, w, hw, rfl, hd⟩
  · exact .inl hd
  · exact .inr ⟨hnone, w.record, rfl, hws w hw, hd⟩

end Contents

/-! ## Sound sessions -/

namespace Session

variable {σ τ α : Type} {e : Engine σ τ}

/-- **A sound session**: what is held is genuine, and so is what drafts stage. -/
structure Sound (C : e.backend.Contract) (s : Session σ τ) : Prop where
  valid : C.Valid s.engine.storage
  genuine : (C.see s.engine.storage).Genuine
  drafts : ∀ d ∈ s.drafts, d.Sound (C.see s.engine.storage)

variable {C : e.backend.Contract}

theorem sound_initial {storage : σ} (hvalid : C.Valid storage)
    (hempty : (C.see storage).records = fun _ => none) (topic : τ) :
    Sound C (initial storage topic) := by
  refine ⟨hvalid, fun id r hr => ?_, List.forall_mem_nil _⟩
  rw [show (C.see (initial storage topic).engine.storage).records id = none from
    congrFun hempty id] at hr
  cases hr

/-- What is seen of a sound session. -/
theorem Sound.holds {s : Session σ τ} (h : Sound C s) :
    (Engine.view C.toView).Holds (C.see s.engine.storage) s.engine := ⟨h.valid, rfl⟩

/-- A step of the engine that lets the contents grow. -/
theorem Sound.onEngine {s : Session σ τ} (h : Sound C s) {m : Step (Engine.State σ τ) α}
    (hm : ∃ d, (C.see s.engine.storage).GrowsTo d ∧
      (Engine.view C.toView).Holds d (m.after s.engine)) :
    Sound C (onEngine m s) := by
  obtain ⟨d, hd, hvalid, rfl⟩ := hm
  exact ⟨hvalid, hd.genuine h.genuine, fun f hf => (h.drafts f hf).grow hd.grows⟩

/-- A call on a draft that lets the contents grow. -/
theorem Sound.onDraft {s : Session σ τ} (h : Sound C s) {n : Nat} {m : Step (Draft.Execution σ τ) α}
    (hm : ∀ draft ∈ s.drafts, ∃ d, (C.see s.engine.storage).GrowsTo d ∧
      Draft.Holds C d (m.after ⟨s.engine, draft⟩)) : Sound C (onDraft n m s) := by
  unfold Session.onDraft
  cases hn : s.drafts[n]? with
  | none => exact h
  | some draft =>
    obtain ⟨d, hd, ⟨hvalid, rfl⟩, hdraft⟩ := hm draft (List.mem_of_getElem? hn)
    refine ⟨hvalid, hd.genuine h.genuine, fun f hf => ?_⟩
    rcases List.mem_or_eq_of_mem_set hf with hf | rfl
    · exact (h.drafts f hf).grow hd.grows
    · exact hdraft

/-- No write of a sound draft goes under the mempool record. -/
theorem id_ne_mempool_of_sound {c : Contents} {d : Draft} (h : d.Sound c) {w : StoreWrite}
    (hw : w ∈ d.writes) : w.record.id ≠ Record.mempool.id :=
  (h.writes w hw).derived ▸ w.record.derivedId_ne_mempool

/-- **Calls that stage and look** leave what is held alone, and each draft is begun, or moves as
a call may make it. -/
theorem act_moves {c : Contents} {s : Session σ τ} (hs : (Engine.view C.toView).Holds c s.engine)
    {event : Event} (hevent : ¬ event.Changes) :
    (Engine.view C.toView).Holds c (act e s event).engine ∧ ∀ d ∈ (act e s event).drafts,
      (∃ tx, d = Draft.begin tx) ∨ ∃ f ∈ s.drafts, f.Moves e c d := by
  have hengine : ∀ {β : Type} {m : Step (Engine.State σ τ) β},
      Keeps ((Engine.view C.toView).Holds c) m →
      (Engine.view C.toView).Holds c (Session.onEngine m s).engine ∧
        ∀ d ∈ (Session.onEngine m s).drafts, (∃ tx, d = Draft.begin tx) ∨
          ∃ f ∈ s.drafts, f.Moves e c d :=
    fun hm => ⟨hm.after hs, fun d hd => .inr ⟨d, hd, .rest⟩⟩
  have hdraft : ∀ {β : Type} {n : Nat} {m : Step (Draft.Execution σ τ) β},
      (∀ f, Ensures (Draft.At C c f) m (fun _ => Draft.Moved C c f) fun _ => Draft.Moved C c f) →
      (Engine.view C.toView).Holds c (Session.onDraft n m s).engine ∧
        ∀ d ∈ (Session.onDraft n m s).drafts,
          (∃ tx, d = Draft.begin tx) ∨ ∃ f ∈ s.drafts, f.Moves e c d := by
    intro β n m hm
    unfold Session.onDraft
    cases hn : s.drafts[n]? with
    | none => exact ⟨hs, fun d hd => .inr ⟨d, hd, .rest⟩⟩
    | some f =>
      obtain ⟨hholds, hmoves⟩ := (hm f).after (s := ⟨s.engine, f⟩) ⟨hs, rfl⟩
      refine ⟨hholds, fun d hd => .inr ?_⟩
      rcases List.mem_or_eq_of_mem_set hd with hd | rfl
      · exact ⟨d, hd, .rest⟩
      · exact ⟨f, List.mem_of_getElem? hn, hmoves⟩
  have hread : ∀ {β : Type} {m : Step (Draft.Execution σ τ) β}, (∀ f, Keeps (Draft.At C c f) m) →
      ∀ f, Ensures (Draft.At C c f) m (fun _ => Draft.Moved C c f) fun _ => Draft.Moved C c f :=
    fun hm f => (hm f).mono (fun _ hx => hx) (fun _ _ hx => hx.moved) fun _ _ hx => hx.moved
  cases event with
  | start => exact hengine (Engine.start_keeps C c)
  | stop => exact hengine (Engine.stop_keeps C c)
  | begin tx =>
    refine ⟨hs, fun d hd => ?_⟩
    rcases List.mem_append.mp hd with hd | hd
    · exact .inr ⟨d, hd, .rest⟩
    · exact .inl ⟨tx, List.mem_singleton.mp hd⟩
  | init n r => exact hdraft fun f => Draft.init_moves C c f r
  | store n id caller key value => exact hdraft fun f => Draft.store_moves C c f id caller key value
  | retrieve n id caller key =>
    exact hdraft (hread fun f => Draft.retrieve_keeps C c f id caller key)
  | fetch n id => exact hdraft (hread fun f => Draft.fetch_keeps C c f id)
  | list n block space => exact hdraft (hread fun f => Draft.list_keeps C c f block space)
  | _ => exact absurd trivial hevent

theorem see_act {s : Session σ τ} (h : Sound C s) {event : Event} (hevent : ¬ event.Changes) :
    C.see (act e s event).engine.storage = C.see s.engine.storage := (act_moves h.holds hevent).1.2

theorem Sound.moves {s : Session σ τ} (h : Sound C s) {event : Event} (hevent : ¬ event.Changes) :
    Sound C (act e s event) := by
  obtain ⟨⟨hvalid, hsee⟩, hdrafts⟩ := act_moves h.holds hevent
  have hsame : C.see (act e s event).engine.storage = C.see s.engine.storage := hsee
  refine ⟨hvalid, hsame ▸ h.genuine, fun d hd => ?_⟩
  rw [hsame]
  rcases hdrafts d hd with ⟨tx, rfl⟩ | ⟨f, hf, hmoves⟩
  · exact .begin _ tx
  · exact (h.drafts f hf).moves h.genuine hmoves

/-- **A finalization** leaves what its draft staged, or the first part of it, and
may change the outbox. -/
theorem finalize_leaves (c : Contents) {x : Draft.Execution σ τ} (hx : Draft.Holds C c x) :
    ∃ d f, Contents.CommittedInPart x.draft.records.values x.draft.writes c d ∧
      Contents.AgreesOff Record.outbox.id d f ∧ Draft.Holds C f ((Draft.finalize e).after x) := by
  cases hfinal : x.draft.finalized with
  | true =>
    -- a closed draft is refused before anything is done
    rw [Step.after, Draft.finalize_of_finalized hfinal]
    exact ⟨c, c, .nothing, .refl .., hx⟩
  | false =>
    rw [Step.after, Draft.finalize_of_open hfinal]
    have hfinalize := Engine.finalize_holdsOff C c x.draft.tx x.draft.records.values
      fun w hw => id_ne_mempool_of_sound hx.2 hw
    have hafter : Ensures ((Engine.view C.toView).Holds c)
        (e.finalize x.draft.tx x.draft.records.values x.draft.writes)
        (fun _ s => ∃ d, Contents.CommittedInPart x.draft.records.values x.draft.writes c d ∧
          Engine.HoldsOff C d s)
        fun _ s => ∃ d, Contents.CommittedInPart x.draft.records.values x.draft.writes c d ∧
          Engine.HoldsOff C d s :=
      hfinalize.mono (fun _ hs => hs) (fun _ _ hs => ⟨_, .writes (List.prefix_refl _) hs.1, hs.2⟩)
        fun _ _ hs => hs
    obtain ⟨d, hd, f, hf, hs⟩ := hafter.after hx.1
    exact ⟨d, f, hd, hf, hs, Draft.sound_emptied ..⟩

/-- It keeps records of its draft alone, whether or not it succeeds. -/
theorem finalize_gains (c : Contents) {x : Draft.Execution σ τ} (hx : Draft.Holds C c x) :
    ∃ d, Contents.Gains x.draft.records.values c d ∧
      Draft.Holds C d ((Draft.finalize e).after x) := by
  obtain ⟨d, f, hd, hf, hholds⟩ := finalize_leaves c hx
  have hgains : Contents.Gains x.draft.records.values c d := hd.recordFrom
  exact ⟨f, hgains.trans_agreesOff hf, hholds⟩

theorem finalize_grows (c : Contents) {x : Draft.Execution σ τ} (hx : Draft.Holds C c x) :
    ∃ d, c.GrowsTo d ∧ Draft.Holds C d ((Draft.finalize e).after x) := by
  obtain ⟨d, hd, hholds⟩ := finalize_gains c hx
  exact ⟨d, hd.growsTo hx.2.staged, hholds⟩

/-- A value that is stored without a draft is stored under a record that is held. -/
theorem put_leaves (c : Contents) (hc : c.Genuine) {s : Engine.State σ τ}
    (hs : (Engine.view C.toView).Holds c s) (id : RecordId) (key : String) (value : Bytes) :
    ∃ d, (d = c ∨ c.records id ≠ none ∧ d = c.withValue id key value) ∧
      (Engine.view C.toView).Holds d ((e.store id key value).after s) := by
  have hstore : Ensures (C.Holds c) (do let r ← e.backend.fetch id; e.backend.store r key value)
      (fun _ s => ∃ d, (d = c ∨ c.records id ≠ none ∧ d = c.withValue id key value) ∧ C.Holds d s)
      fun _ s => ∃ d, (d = c ∨ c.records id ≠ none ∧ d = c.withValue id key value) ∧
        C.Holds d s := by
    refine .bind (Q := fun r s => c.records id = some r ∧ C.Holds c s) ?_
      fun r => .of_fact fun hr => ?_
    · exact (C.fetch c id).mono (fun _ hs => hs) (fun _ _ hs => hs) fun _ _ hs => ⟨c, .inl rfl, hs⟩
    · obtain ⟨rfl, hderived⟩ := hc id r hr
      have hne : r.id ≠ Record.mempool.id := hderived ▸ r.derivedId_ne_mempool
      have hheld : c.records r.id ≠ none := Option.ne_none_iff_exists'.mpr ⟨r, hr⟩
      refine (C.store c r key value hne).mono (fun _ hs => hs) (fun _ _ hs => ?_) fun _ _ hs => ?_
      · exact ⟨_, .inr ⟨hheld, rfl⟩, hs.2⟩
      · exact ⟨c, .inl rfl, hs⟩
  exact (Engine.onStorage_ensures hstore).after hs

theorem put_holds (c : Contents) (hc : c.Genuine) {s : Engine.State σ τ}
    (hs : (Engine.view C.toView).Holds c s) (id : RecordId) (key : String) (value : Bytes) :
    ∃ d, d.records = c.records ∧ (Engine.view C.toView).Holds d
      ((e.store id key value).after s) := by
  obtain ⟨d, hd, hholds⟩ := put_leaves c hc hs id key value
  refine ⟨d, ?_, hholds⟩
  rcases hd with rfl | ⟨-, rfl⟩ <;> rfl

theorem receive_grows (c : Contents) {s : Engine.State σ τ} (hs : (Engine.view C.toView).Holds c s)
    (m : Message) :
    ∃ d, c.GrowsTo d ∧ (Engine.view C.toView).Holds d ((e.receive m).after s) := by
  obtain ⟨hd, hvalid⟩ := Engine.absorbs_receive C m hs
  refine ⟨_, hd.growsTo fun w hw => ?_, hvalid, rfl⟩
  obtain ⟨-, _, -, happroved⟩ := Engine.approved_of_taken hw
  exact happroved.derived

/-- **Every event keeps a session sound.** -/
theorem act_sound {s : Session σ τ} (h : Sound C s) (event : Event) : Sound C (act e s event) := by
  cases event with
  | finalize n =>
    exact h.onDraft fun draft hdraft =>
      finalize_grows _ (x := ⟨s.engine, draft⟩) ⟨h.holds, h.drafts draft hdraft⟩
  | put id key value =>
    obtain ⟨d, hd, hs⟩ := put_holds _ h.genuine h.holds id key value
    exact h.onEngine ⟨d, .of_eq hd, hs⟩
  | receive m => exact h.onEngine (receive_grows _ h.holds m)
  | publish =>
    obtain ⟨d, hd, hs⟩ := (Engine.publishNext_keeps C _).after
      (Outbox.HoldsOff.of_holds C _ h.holds)
    exact h.onEngine ⟨d, .of_eq hd.records, hs⟩
  | _ => exact h.moves id

/-- **Every run keeps a session sound.** -/
theorem run_sound {s : Session σ τ} (h : Sound C s) (events : List Event) :
    Sound C (run e s events) := by
  induction events generalizing s with
  | nil => exact h
  | cons event events ih => exact ih (act_sound h event)

/-- A session that a run from an empty backend leads to. -/
def Reachable (C : e.backend.Contract) (s : Session σ τ) : Prop :=
  ∃ storage topic events, C.Valid storage ∧ C.see storage = .empty ∧
    s = run e (initial storage topic) events

theorem Reachable.sound {s : Session σ τ} (h : Reachable C s) : Sound C s := by
  obtain ⟨storage, topic, events, hvalid, hempty, rfl⟩ := h
  exact run_sound (sound_initial hvalid (by rw [hempty]; rfl) topic) events

/-! ## Invariants of contents and drafts -/

/-- A session whose contents have one property and whose drafts have another. -/
structure Has (P : Contents → Prop) (D : Draft → Prop) (C : e.backend.Contract) (s : Session σ τ) :
    Prop where
  held : P (C.see s.engine.storage)
  drafts : ∀ d ∈ s.drafts, D d

/-- **Properties of contents and of drafts that the parts of an event keep**, if the messages that
arrive are among `A`. -/
structure Stable (e : Engine σ τ) (A : Message → Prop) (P : Contents → Prop) (D : Draft → Prop) :
    Prop where
  begin : ∀ tx, D (.begin tx)
  emptied : ∀ d, D (Draft.emptied d)
  moves : ∀ {c d f}, P c → D d → Draft.Moves e c d f → D f
  committed : ∀ {c d f}, P c → D d → d.Sound c →
    Contents.CommittedInPart d.records.values d.writes c f → P f
  stored : ∀ {c id} key value, P c → c.records id ≠ none → P (c.withValue id key value)
  absorbed : ∀ {m c d}, A m → P c → Contents.Absorbs (e.taken m) c d → P d
  mail : ∀ {c d}, P c → Contents.AgreesOff Record.outbox.id c d → P d

section
variable {A : Message → Prop} {P : Contents → Prop} {D : Draft → Prop} {s : Session σ τ}

theorem Has.of_see {c : Contents} {t : Session σ τ} (hsee : C.see t.engine.storage = c) (hc : P c)
    (hdrafts : ∀ d ∈ t.drafts, D d) : Has P D C t := ⟨by rwa [hsee], hdrafts⟩

theorem Stable.act_moves (hstable : Stable e A P D) (hs : Sound C s)
    (h : Has P D C s) {event : Event} (hevent : ¬ event.Changes) : Has P D C (act e s event) := by
  obtain ⟨⟨-, hsee⟩, hdrafts⟩ := Session.act_moves hs.holds hevent
  refine .of_see hsee h.held fun d hd => ?_
  rcases hdrafts d hd with ⟨tx, rfl⟩ | ⟨f, hf, hmoves⟩
  · exact hstable.begin tx
  · exact hstable.moves h.held (h.drafts f hf) hmoves

theorem Stable.act_finalize (hstable : Stable e A P D) (hs : Sound C s)
    (h : Has P D C s) (n : Nat) :
    Has P D C (act e s (.finalize n)) := by
  show Has P D C (onDraft n (Draft.finalize e) s)
  unfold onDraft
  cases hn : s.drafts[n]? with
  | none => exact h
  | some d =>
    have hd := List.mem_of_getElem? hn
    have hsound := hs.drafts d hd
    obtain ⟨f, g, hf, hg, ⟨-, hsee⟩, -⟩ := finalize_leaves _ (x := ⟨s.engine, d⟩) ⟨hs.holds, hsound⟩
    have hcommitted := hstable.committed h.held (h.drafts d hd) hsound hf
    refine .of_see hsee (hstable.mail hcommitted hg) fun d' hd' => ?_
    rcases List.mem_or_eq_of_mem_set hd' with hd' | rfl
    · exact h.drafts d' hd'
    · rcases Draft.draft_finalize (e := e) ⟨s.engine, d⟩ with hsame | hempty
      · exact hsame ▸ h.drafts d hd
      · exact hempty ▸ hstable.emptied d

/-- **What the parts of an event keep is kept by every event.** -/
theorem Stable.act (hstable : Stable e A P D) (hs : Sound C s) (h : Has P D C s) {event : Event}
    (hevent : ∀ m, event = .receive m → A m) : Has P D C (act e s event) := by
  cases event with
  | finalize n => exact hstable.act_finalize hs h n
  | put id key value =>
    obtain ⟨d, hd, -, hsee⟩ := put_leaves _ hs.genuine hs.holds id key value
    refine .of_see hsee ?_ h.drafts
    rcases hd with rfl | ⟨hheld, rfl⟩
    · exact h.held
    · exact hstable.stored key value h.held hheld
  | receive m =>
    exact ⟨hstable.absorbed (hevent m rfl) h.held (Engine.absorbs_receive C m hs.holds).1, h.drafts⟩
  | publish =>
    obtain ⟨d, hd, -, hsee⟩ :=
      (Engine.publishNext_keeps C _).after (Outbox.HoldsOff.of_holds C _ hs.holds)
    exact .of_see hsee (hstable.mail h.held hd) h.drafts
  | _ => exact hstable.act_moves hs h id

theorem Stable.run (hstable : Stable e (fun _ => True) P D) (hs : Sound C s) (h : Has P D C s)
    (events : List Event) : Has P D C (run e s events) := by
  induction events generalizing s with
  | nil => exact h
  | cons event events ih => exact ih (act_sound hs event) (hstable.act hs h fun _ _ => trivial)

/-- **It is kept by every run** from an empty backend. -/
theorem Stable.reachable (hstable : Stable e (fun _ => True) P D) (hempty : P .empty)
    (h : Reachable C s) :
    Has P D C s := by
  obtain ⟨storage, topic, events, hvalid, hsee, rfl⟩ := h
  have hsound := sound_initial hvalid (by rw [hsee]; rfl) topic
  exact hstable.run hsound (.of_see hsee hempty (List.forall_mem_nil _)) events

end

end Session
end SealedStore

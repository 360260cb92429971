import SealedStore.Proofs.Backend.Equivalence
import SealedStore.Proofs.Engine.Simulation
import SealedStore.Proofs.Replication.Filter
import SealedStore.Proofs.Session

/-! # Nodes that run alike

Two nodes whose engines differ in their backends alone, one of which mirrors the other, give the
same replies to the same events and stay alike (`Session.act_simulates`).  Only the drafts that the
events call have to be the same; this lets two runs differ in one draft.
-/
namespace SealedStore

open Step

variable {σ ρ τ α β : Type}

/-! ## Messages -/

namespace Engine

theorem sameIdentity_withBackend (e : Engine σ τ) (d : Backend ρ) :
    e.SameIdentity (e.withBackend d) :=
  ⟨rfl, fun _ => .rfl, rfl, rfl⟩

variable {T : σ → ρ → Prop} {e : Engine σ τ} {d : Backend ρ} (h : e.backend.Mirrors T d)
include h

/-- **A message is judged and applied alike.** -/
theorem receive_simulates (m : Message) :
    Simulates (State.Like T) (e.receive m) ((e.withBackend d).receive m) :=
  receive_alike count_simulates ((e.sameIdentity_withBackend d).judge m) fun w =>
    applyWrite_alike count_simulates (onStorage_simulates (h.init w.record))
      (onStorage_simulates (h.store w.record w.key w.value))

end Engine

/-! ## Drafts -/

namespace Draft

/-- Whether two executions have the same draft, on engines that are alike. -/
structure Execution.Like (T : σ → ρ → Prop) (x : Execution σ τ) (y : Execution ρ τ) : Prop where
  engine : Engine.State.Like T x.engine y.engine
  draft : y.draft = x.draft

section
variable {T : σ → ρ → Prop}

theorem Execution.onEngine_simulates {m : Step (Engine.State σ τ) α} {n : Step (Engine.State ρ τ) α}
    (h : Simulates (Engine.State.Like T) m n) :
    Simulates (Execution.Like T) (onEngine m) (onEngine n) := by
  rintro x y ⟨hengine, hdraft⟩
  obtain ⟨hout, hafter⟩ := h x.engine y.engine hengine
  exact ⟨hout, hafter, hdraft⟩

theorem Execution.onDraft_simulates (m : Step Draft α) :
    Simulates (Execution.Like (τ := τ) T) (onDraft m) (onDraft m) := by
  rintro x ⟨_, _⟩ ⟨hengine, rfl⟩
  exact ⟨rfl, hengine, rfl⟩

theorem Execution.look_simulates (f : Draft → Except StoreError α) :
    Simulates (Execution.Like (τ := τ) T) (look f) (look f) := by
  rintro x ⟨_, _⟩ ⟨hengine, rfl⟩
  exact ⟨rfl, hengine, rfl⟩

variable {e : Engine σ τ} {d : Backend ρ}

theorem Execution.init_simulates (r : Record) :
    Simulates (Execution.Like T) (init e r) (init (e.withBackend d) r) :=
  (look_simulates _).bind fun _ => (look_simulates _).bind fun q =>
    onDraft_simulates (stageRecord q)

variable (h : e.backend.Mirrors T d)
include h

theorem Execution.fetch_simulates (id : RecordId) :
    Simulates (Execution.Like T) (fetch e id) (fetch (e.withBackend d) id) := by
  refine (look_simulates _).bind fun found => ?_
  cases found with
  | some r => exact .pure r
  | none => exact onEngine_simulates (Engine.fetch_simulates h id)

theorem Execution.store_simulates (id : RecordId) (caller : Address)
    (key : String) (value : Bytes) :
    Simulates (Execution.Like T) (store e id caller key value)
      (store (e.withBackend d) id caller key value) := by
  refine (look_simulates _).bind fun found => ?_
  cases found with
  | some r => exact onDraft_simulates _
  | none =>
    exact (onEngine_simulates (Engine.fetch_simulates h id)).bind fun r => onDraft_simulates _

theorem Execution.retrieve_simulates (id : RecordId) (caller : Address) (key : String) :
    Simulates (Execution.Like T) (retrieve e id caller key)
      (retrieve (e.withBackend d) id caller key) := by
  refine (look_simulates _).bind fun isStaged => (fetch_simulates h id).bind fun r => ?_
  refine (Simulates.ofExcept _).bind fun _ => (look_simulates _).bind fun found => ?_
  cases found with
  | some value => exact .pure value
  | none =>
    show Simulates _ (if isStaged = true then _ else _) (if isStaged = true then _ else _)
    split
    · exact .fail _
    · exact onEngine_simulates (Engine.retrieve_simulates h id caller key)

theorem Execution.list_simulates (block : BitVec 64) (space : String) :
    Simulates (Execution.Like T) (list e block space) (list (e.withBackend d) block space) :=
  (onEngine_simulates (Engine.list_simulates h block space)).bind fun _ => look_simulates _

theorem Execution.finalize_simulates :
    Simulates (Execution.Like T) (finalize e) (finalize (e.withBackend d)) :=
  (onDraft_simulates take).bind fun batch => (look_simulates _).bind fun tx =>
    onEngine_simulates (Engine.finalize_simulates h.toSimulates tx batch.1 batch.2)

end
end Draft

/-! ## Sessions -/

namespace Session

/-- What a step of the engine answers. -/
def engineReply (m : Step (Engine.State σ τ) α) (f : α → Backend.Answer) (s : Session σ τ) :
    Option (Except StoreError Backend.Answer) := some ((m.outcome s.engine).map f)

/-- What a call on a draft answers, if there is one of this number. -/
def draftReply (n : Nat) (m : Step (Draft.Execution σ τ) α) (f : α → Backend.Answer)
    (s : Session σ τ) :
    Option (Except StoreError Backend.Answer) :=
  s.drafts[n]?.map fun d => (m.outcome ⟨s.engine, d⟩).map f

/-- What an event answers; nothing if it calls a draft that was not begun. -/
def reply (e : Engine σ τ) (s : Session σ τ) : Event → Option (Except StoreError Backend.Answer)
  | .start => engineReply e.start (fun _ => .done) s
  | .stop => engineReply e.stop (fun _ => .done) s
  | .begin _ => some (.ok .done)
  | .init n r => draftReply n (Draft.init e r) .record s
  | .store n id caller key value => draftReply n (Draft.store e id caller key value) .record s
  | .retrieve n id caller key => draftReply n (Draft.retrieve e id caller key) .value s
  | .fetch n id => draftReply n (Draft.fetch e id) .record s
  | .list n block space => draftReply n (Draft.list e block space) .records s
  | .finalize n => draftReply n (Draft.finalize e) (fun _ => .done) s
  | .put id key value => engineReply (e.store id key value) .record s
  | .receive m => engineReply (e.receive m) (fun _ => .done) s
  | .publish => engineReply e.publishNext (fun _ => .done) s

/-- Whether two sessions are alike: their engines are, they have begun as many drafts, and those
with numbers in `A` are the same. -/
structure Like (T : σ → ρ → Prop) (A : Nat → Prop) (s : Session σ τ) (u : Session ρ τ) : Prop where
  engine : Engine.State.Like T s.engine u.engine
  count : u.drafts.length = s.drafts.length
  drafts : ∀ n, A n → u.drafts[n]? = s.drafts[n]?

section
variable {T : σ → ρ → Prop} {A : Nat → Prop} {s : Session σ τ} {u : Session ρ τ}

theorem Like.onEngine (h : Like T A s u) {m : Step (Engine.State σ τ) α}
    {n : Step (Engine.State ρ τ) α}
    (hm : Simulates (Engine.State.Like T) m n) (f : α → Backend.Answer) :
    engineReply n f u = engineReply m f s ∧ Like T A (onEngine m s) (onEngine n u) := by
  obtain ⟨hout, hafter⟩ := hm s.engine u.engine h.engine
  exact ⟨by rw [engineReply, engineReply, hout], hafter, h.count, h.drafts⟩

theorem Like.onDraft (h : Like T A s u) {k : Nat} (hk : A k) {m : Step (Draft.Execution σ τ) α}
    {n : Step (Draft.Execution ρ τ) α} (hm : Simulates (Draft.Execution.Like T) m n)
    (f : α → Backend.Answer) :
    draftReply k n f u = draftReply k m f s ∧ Like T A (onDraft k m s) (onDraft k n u) := by
  unfold draftReply Session.onDraft
  rw [h.drafts k hk]
  cases hdraft : s.drafts[k]? with
  | none => exact ⟨rfl, h⟩
  | some d =>
    obtain ⟨hout, hengine, hsame⟩ := hm ⟨s.engine, d⟩ ⟨u.engine, d⟩ ⟨h.engine, rfl⟩
    refine ⟨by rw [Option.map_some, Option.map_some, hout], hengine, ?_, fun i hi => ?_⟩
    · simp [h.count]
    · simp only [List.getElem?_set, hsame, h.count, h.drafts i hi]

variable {e : Engine σ τ} {d : Backend ρ} (hd : e.backend.Mirrors T d)
include hd

/-- **Alike sessions reply alike and stay so**, as long as the drafts that
are called are the same. -/
theorem act_simulates (h : Like T A s u) {event : Event}
    (hevent : ∀ n, event.draft? = some n → A n) :
    reply (e.withBackend d) u event = reply e s event ∧
      Like T A (act e s event) (act (e.withBackend d) u event) := by
  cases event with
  | start => exact h.onEngine (Engine.start_simulates hd) _
  | stop => exact h.onEngine (Engine.stop_simulates hd) _
  | begin tx =>
    refine ⟨rfl, h.engine, by simp [act, h.count], fun n hn => ?_⟩
    simp only [act, List.getElem?_append, h.count, h.drafts n hn]
  | init n r => exact h.onDraft (hevent n rfl) (Draft.Execution.init_simulates r) _
  | store n id caller key value =>
    exact h.onDraft (hevent n rfl) (Draft.Execution.store_simulates hd id caller key value) _
  | retrieve n id caller key =>
    exact h.onDraft (hevent n rfl) (Draft.Execution.retrieve_simulates hd id caller key) _
  | fetch n id => exact h.onDraft (hevent n rfl) (Draft.Execution.fetch_simulates hd id) _
  | list n block space =>
    exact h.onDraft (hevent n rfl) (Draft.Execution.list_simulates hd block space) _
  | finalize n => exact h.onDraft (hevent n rfl) (Draft.Execution.finalize_simulates hd) _
  | put id key value => exact h.onEngine (Engine.store_simulates hd id key value) _
  | receive m => exact h.onEngine (Engine.receive_simulates hd m) _
  | publish => exact h.onEngine (Engine.publishNext_simulates hd) _

/-- **Runs of the same events** leave alike sessions alike. -/
theorem run_simulates (h : Like T (fun _ => True) s u) (events : List Event) :
    Like T (fun _ => True) (run e s events) (run (e.withBackend d) u events) := by
  induction events generalizing s u with
  | nil => exact h
  | cons event events ih => exact ih (act_simulates hd h fun _ _ => trivial).2

end

end Session
end SealedStore

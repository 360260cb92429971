import SealedStore.Proofs.Session.Simulation
import SealedStore.Proofs.Session.Upkeep

/-! # Operations with replies

What is done on a node are the events of a run and reads of the engine past the drafts, each with
a reply (`Session.Operation`).  A read leaves what is seen of a sound session as it is, so
operations keep whatever events keep: soundness, properties of contents and drafts, and what the
upkeep of the backend keeps.
-/
namespace SealedStore

open Step

variable {σ τ α : Type}

namespace Session

/-- What is done on a node: an event, or a read of the engine past the drafts. -/
inductive Operation where
  | event (event : Event)
  | retrieve (id : RecordId) (caller : Address) (key : String)
  | fetch (id : RecordId)
  | list (block : BitVec 64) (space : String)

namespace Operation

/-- The draft that an operation calls, if it is a call on a draft. -/
def draft? : Operation → Option Nat
  | event ev => ev.draft?
  | _ => none

/-- Whether an operation may change what is committed. -/
def Commits : Operation → Prop
  | event (.finalize _) => True
  | event (.put ..) => True
  | event (.receive _) => True
  | _ => False

variable (e : Engine σ τ) (s : Session σ τ)

/-- The session after an operation. -/
def after : Operation → Session σ τ
  | event ev => act e s ev
  | retrieve id caller key => onEngine (e.retrieve id caller key) s
  | fetch id => onEngine (e.fetch id) s
  | list block space => onEngine (e.list block space) s

/-- What an operation answers; nothing if it calls a draft that was not begun. -/
def reply : Operation → Option (Except StoreError Backend.Answer)
  | event ev => Session.reply e s ev
  | retrieve id caller key => engineReply (e.retrieve id caller key) .value s
  | fetch id => engineReply (e.fetch id) .record s
  | list block space => engineReply (e.list block space) .records s

end Operation

/-- Operations with their replies, in order. -/
def trace (e : Engine σ τ) : List Operation → Session σ τ →
    List (Operation × Option (Except StoreError Backend.Answer))
  | [], _ => []
  | op :: ops, s => (op, op.reply e s) :: trace e ops (op.after e s)

/-- The session after operations. -/
def afterAll (e : Engine σ τ) (ops : List Operation) (s : Session σ τ) : Session σ τ :=
  ops.foldl (Operation.after e) s

/-! ## What operations keep -/

section
variable {e : Engine σ τ} {C : e.backend.Contract} {s : Session σ τ}

/-- A read of the engine changes nothing that is seen. -/
theorem Sound.onEngine_read (hs : Sound C s) {m : Step (Engine.State σ τ) α}
    (hm : Keeps ((Engine.view C.toView).Holds (C.see s.engine.storage)) m) :
    Sound C (Session.onEngine m s) ∧
      C.see (Session.onEngine m s).engine.storage = C.see s.engine.storage :=
  ⟨hs.onEngine ⟨_, .of_eq rfl, hm.after hs.holds⟩, (hm.after hs.holds).2⟩

namespace Operation

theorem drafts_read (e : Engine σ τ) (s : Session σ τ) {op : Operation}
    (hop : ∀ ev, op ≠ event ev) :
    (op.after e s).drafts = s.drafts := by
  cases op with
  | event ev => exact absurd rfl (hop ev)
  | _ => rfl

theorem read_after (hs : Sound C s) {op : Operation} (hop : ∀ ev, op ≠ event ev) :
    Sound C (op.after e s) ∧ C.see (op.after e s).engine.storage = C.see s.engine.storage := by
  cases op with
  | event ev => exact absurd rfl (hop ev)
  | retrieve id caller key => exact hs.onEngine_read (Engine.retrieve_keeps C _ id caller key)
  | fetch id =>
    exact hs.onEngine_read ((Engine.fetch_ensures C _ id).mono (fun _ h => h) (fun _ _ h => h.2)
      fun _ _ h => h)
  | list block space => exact hs.onEngine_read (Engine.list_keeps C _ block space)

theorem see_read (hs : Sound C s) {op : Operation} (hop : ∀ ev, op ≠ event ev) :
    C.see (op.after e s).engine.storage = C.see s.engine.storage := (read_after hs hop).2

theorem sound_after (op : Operation) (hs : Sound C s) : Sound C (op.after e s) := by
  by_cases hop : ∃ ev, op = event ev
  · obtain ⟨ev, rfl⟩ := hop
    exact act_sound hs ev
  · exact (read_after hs (not_exists.mp hop)).1

/-- What the parts of an event keep every operation keeps. -/
theorem has_after {P : Contents → Prop} {D : Draft → Prop} (hstable : Stable e (fun _ => True) P D)
    (op : Operation) (hs : Sound C s) (h : Has P D C s) : Has P D C (op.after e s) := by
  by_cases hop : ∃ ev, op = event ev
  · obtain ⟨ev, rfl⟩ := hop
    exact hstable.act hs h fun _ _ => trivial
  · have hread := not_exists.mp hop
    exact .of_see (see_read hs hread) h.held (drafts_read e s hread ▸ h.drafts)

/-- **What all operations of a node's backend keep every operation keeps.** -/
theorem after_upkeep {P : σ → Prop} (h : e.backend.Upkeep P) (op : Operation) (hs : Sound C s)
    (hP : P s.engine.storage) : P (op.after e s).engine.storage := by
  have hreads := Engine.reads_stored h
  cases op with
  | event ev => exact act_upkeep h hs hP ev
  | retrieve id caller key => exact (hreads.retrieve id caller key).after hP
  | fetch id => exact (hreads.fetch id).after hP
  | list block space => exact (hreads.list block space).after hP

end Operation

theorem sound_afterAll (hs : Sound C s) (ops : List Operation) : Sound C (afterAll e ops s) := by
  induction ops generalizing s with
  | nil => exact hs
  | cons op ops ih => exact ih (op.sound_after hs)

theorem has_afterAll {P : Contents → Prop} {D : Draft → Prop}
    (hstable : Stable e (fun _ => True) P D)
    (hs : Sound C s) (h : Has P D C s) (ops : List Operation) : Has P D C (afterAll e ops s) := by
  induction ops generalizing s with
  | nil => exact h
  | cons op ops ih => exact ih (op.sound_after hs) (op.has_after hstable hs h)

theorem afterAll_upkeep {P : σ → Prop} (h : e.backend.Upkeep P) (hs : Sound C s)
    (hP : P s.engine.storage) (ops : List Operation) : P (afterAll e ops s).engine.storage := by
  induction ops generalizing s with
  | nil => exact hP
  | cons op ops ih => exact ih (op.sound_after hs) (op.after_upkeep h hs hP)

end

end Session
end SealedStore

import SealedStore.Engine.Basic
import SealedStore.Proofs.Backend.History

/-! # Engines that run alike

Two engines that differ in their backends alone commit alike wherever their backends keep and find
values alike (`Engine.finalize_simulates`).  Where one backend mirrors the other in every operation
(`Backend.Mirrors`), so do starting and stopping, reading and publishing.
-/
namespace SealedStore

open Step

variable {σ ρ τ : Type}

/-! ## The outbox -/

namespace Backend.Simulates

variable {T : σ → ρ → Prop} {b : Backend σ} {d : Backend ρ} (h : b.Simulates T d)
include h

theorem readPending : Step.Simulates T (Outbox.readPending b) (Outbox.readPending d) := by
  refine (h.retrieve _ _).attempt.bind fun found => ?_
  cases found with
  | ok raw => exact .ofExcept _
  | error e =>
    show Step.Simulates T (if e.isNotFound then _ else _) (if e.isNotFound then _ else _)
    split
    · exact .pure []
    · exact .fail e

theorem writePending (ds : List (Octets 32)) :
    Step.Simulates T (Outbox.writePending b ds) (Outbox.writePending d ds) :=
  (h.store _ _ _).bind fun _ => .pure ()

theorem writeMessage (k : Octets 32) (raw : Bytes) :
    Step.Simulates T (Outbox.writeMessage b k raw) (Outbox.writeMessage d k raw) :=
  (h.store _ _ _).bind fun _ => .pure ()

theorem push (m : Message) : Step.Simulates T (Outbox.push b m) (Outbox.push d m) := by
  refine (h.writeMessage _ _).bind fun _ => h.readPending.bind fun ds => ?_
  show Step.Simulates T (if ds.contains m.digest then _ else _)
    (if ds.contains m.digest then _ else _)
  split
  · exact .pure _
  · exact (h.writePending _).bind fun _ => .pure _

theorem acknowledge (k : Octets 32) :
    Step.Simulates T (Outbox.acknowledge b k) (Outbox.acknowledge d k) := by
  refine h.readPending.bind fun ds => ?_
  show Step.Simulates T (if ds.contains k then _ else _) (if ds.contains k then _ else _)
  split
  · exact (h.writePending _).bind fun _ => h.writeMessage _ _
  · exact .pure ()

theorem readMessages (ds : List (Octets 32)) :
    Step.Simulates T (Outbox.readMessages b ds) (Outbox.readMessages d ds) := by
  induction ds with
  | nil => exact .pure []
  | cons k ds ih =>
    refine (h.retrieve _ _).attempt.bind fun found => ih.bind fun rest => ?_
    cases found.toOption.bind Message.decode? with
    | some m => exact .pure _
    | none => exact .pure _

theorem pending : Step.Simulates T (Outbox.pending b) (Outbox.pending d) :=
  h.readPending.bind fun ds => h.readMessages ds

end Backend.Simulates

/-- A backend that runs as another one in all its operations. -/
structure Backend.Mirrors (T : σ → ρ → Prop) (b : Backend σ) (d : Backend ρ) : Prop
    extends Backend.Simulates T b d where
  start : Step.Simulates T b.start d.start
  stop : Step.Simulates T b.stop d.stop
  fetch : ∀ id, Step.Simulates T (b.fetch id) (d.fetch id)
  list : ∀ block space, Step.Simulates T (b.list block space) (d.list block space)

/-! ## The engine -/

namespace Engine

/-- The engine over another backend. -/
def withBackend (e : Engine σ τ) (d : Backend ρ) : Engine ρ τ :=
  ⟨d, e.topic, e.signer, e.uuid, e.keepsOutbox⟩

/-- The state with another storage. -/
def State.withStorage (s : State σ τ) (storage : ρ) : State ρ τ :=
  ⟨storage, s.topic, s.subscription, s.outgoing, s.metrics, s.journal⟩

/-- Whether two states differ in their storages alone, which `T` relates. -/
def State.Like (T : σ → ρ → Prop) (s : State σ τ) (u : State ρ τ) : Prop :=
  ∃ storage, T s.storage storage ∧ u = s.withStorage storage

section
variable {T : σ → ρ → Prop} {α : Type}

theorem onStorage_simulates {m : Step σ α} {n : Step ρ α} (h : Simulates T m n) :
    Simulates (State.Like (τ := τ) T) (onStorage m) (onStorage n) := by
  rintro s _ ⟨w, hw, rfl⟩
  obtain ⟨hout, hafter⟩ := h s.storage w hw
  exact ⟨hout, _, hafter, rfl⟩

theorem count_simulates (metric : Metric) :
    Simulates (State.Like (τ := τ) T) (count metric) (count metric) := by
  rintro s _ ⟨w, hw, rfl⟩
  exact ⟨rfl, w, hw, rfl⟩

variable {e : Engine σ τ} {d : Backend ρ} (h : e.backend.Simulates T d)
include h

theorem deposit_simulates (message : Option Message) :
    Simulates (State.Like T) (e.deposit message) ((e.withBackend d).deposit message) := by
  unfold deposit
  cases message with
  | none => exact .pure none
  | some m =>
    show Simulates _ (if e.keepsOutbox then _ else _) (if e.keepsOutbox then _ else _)
    split
    · exact (onStorage_simulates (h.push m)).bind fun _ => .pure _
    · exact .pure none

theorem withdraw_simulates (digest : Option (Octets 32)) :
    Simulates (State.Like T) (e.withdraw digest) ((e.withBackend d).withdraw digest) := by
  unfold withdraw
  cases digest with
  | none => exact .pure ()
  | some k => exact (onStorage_simulates (h.acknowledge k)).ignore

theorem commit_simulates (rs : List Record) (ws : List StoreWrite) :
    Simulates (State.Like T) (e.commit rs ws) ((e.withBackend d).commit rs ws) := by
  refine (Simulates.forEach (fun r => ?_) rs).bind fun _ => .forEach (fun w => ?_) ws
  · exact (onStorage_simulates (h.init r)).bind fun _ => count_simulates _
  · exact (onStorage_simulates (h.store _ _ _)).bind fun _ => count_simulates _

/-- **A finalization runs alike** over backends that do. -/
theorem finalize_simulates (tx : Transaction) (rs : List Record) (ws : List StoreWrite) :
    Simulates (State.Like T) (e.finalize tx rs ws) ((e.withBackend d).finalize tx rs ws) := by
  unfold finalize
  rw [show (e.withBackend d).signer.sender tx = e.signer.sender tx from rfl]
  cases e.signer.sender tx with
  | error _ => exact .fail _
  | ok author =>
    refine (Simulates.ofExcept (e.compose tx author ws)).bind fun message => ?_
    refine (deposit_simulates h message).bind fun digest => ?_
    refine (commit_simulates h rs ws).attempt.bind fun committed => ?_
    cases committed with
    | error err => exact (withdraw_simulates h digest).bind fun _ => .fail err
    | ok _ =>
      refine (count_simulates _).bind fun _ => ?_
      refine Simulates.bind (n := enqueue message.toList) ?_ fun _ => count_simulates _
      rintro s _ ⟨w, hw, rfl⟩
      exact ⟨rfl, w, hw, rfl⟩

end

/-! ## All that an engine does -/

section
variable {T : σ → ρ → Prop} {α : Type}

theorem onTopic_simulates (m : Step τ α) : Simulates (State.Like T) (onTopic m) (onTopic m) := by
  rintro s _ ⟨w, hw, rfl⟩
  exact ⟨rfl, w, hw, rfl⟩

theorem lifecycle_simulates {component : Component} {starting : Bool} {call : Step (State σ τ) Unit}
    {call' : Step (State ρ τ) Unit} (h : Simulates (State.Like T) call call') :
    Simulates (State.Like T) (lifecycle component starting call)
      (lifecycle component starting call') := by
  refine h.attempt.bind fun result => ?_
  refine Simulates.bind ?_ fun _ => .ofExcept result
  rintro s _ ⟨w, hw, rfl⟩
  exact ⟨rfl, w, hw, rfl⟩

variable {e : Engine σ τ} {d : Backend ρ} (h : e.backend.Mirrors T d)

theorem startTopic_simulates :
    Simulates (State.Like T) e.startTopic (e.withBackend d).startTopic :=
  lifecycle_simulates (onTopic_simulates _)

theorem stopTopic_simulates :
    Simulates (State.Like T) e.stopTopic (e.withBackend d).stopTopic :=
  lifecycle_simulates (onTopic_simulates _)

include h

theorem stopBackend_simulates :
    Simulates (State.Like T) e.stopBackend (e.withBackend d).stopBackend :=
  lifecycle_simulates (onStorage_simulates h.stop)

theorem connect_simulates : Simulates (State.Like T) e.connect (e.withBackend d).connect := by
  refine (lifecycle_simulates (onStorage_simulates h.start)).bind fun _ => ?_
  refine startTopic_simulates.attempt.bind fun started => ?_
  cases started with
  | error err => exact (stopBackend_simulates h).ignore.bind fun _ => .fail err
  | ok _ =>
    refine (onTopic_simulates e.topic.subscribe).attempt.bind fun subscribed => ?_
    cases subscribed with
    | error err =>
      exact stopTopic_simulates.ignore.bind fun _ => (stopBackend_simulates h).ignore.bind
        fun _ => .fail err
    | ok n => exact .pure n

theorem requeuePending_simulates :
    Simulates (State.Like T) e.requeuePending (e.withBackend d).requeuePending := by
  refine (onStorage_simulates h.pending).attempt.bind fun found => ?_
  cases found with
  | ok ms =>
    rintro s _ ⟨w, hw, rfl⟩
    exact ⟨rfl, w, hw, rfl⟩
  | error _ => exact .pure ()

theorem start_simulates : Simulates (State.Like T) e.start (e.withBackend d).start := by
  have hrunning : Simulates (State.Like T) (gets (State.running (σ := σ) (τ := τ)))
      (gets State.running) := by
    rintro s _ ⟨w, hw, rfl⟩
    exact ⟨rfl, w, hw, rfl⟩
  refine hrunning.bind fun running => ?_
  cases running with
  | true => exact .fail _
  | false =>
    refine (connect_simulates h).bind fun n => ?_
    refine Simulates.bind (n := setSubscription (some n)) ?_ fun _ => ?_
    · rintro s _ ⟨w, hw, rfl⟩
      exact ⟨rfl, w, hw, rfl⟩
    · show Simulates _ (if e.keepsOutbox then _ else _) (if e.keepsOutbox then _ else _)
      split
      · exact requeuePending_simulates h
      · exact .pure ()

theorem stop_simulates : Simulates (State.Like T) e.stop (e.withBackend d).stop := by
  have hsubscription : Simulates (State.Like T) (gets (State.subscription (σ := σ) (τ := τ)))
      (gets State.subscription) := by
    rintro s _ ⟨w, hw, rfl⟩
    exact ⟨rfl, w, hw, rfl⟩
  refine hsubscription.bind fun subscription => ?_
  cases subscription with
  | none => exact .pure ()
  | some n =>
    refine Simulates.bind (n := (e.withBackend d).detach n) ?_ fun _ => ?_
    · rintro s _ ⟨w, hw, rfl⟩
      exact ⟨rfl, w, hw, rfl⟩
    · refine stopTopic_simulates.attempt.bind fun topic => ?_
      refine (stopBackend_simulates h).attempt.bind fun backend => ?_
      exact (Simulates.ofExcept topic).bind fun _ => .ofExcept backend

/-! ### Records and values -/

theorem fetch_simulates (id : RecordId) :
    Simulates (State.Like T) (e.fetch id) ((e.withBackend d).fetch id) :=
  onStorage_simulates (h.fetch id)

theorem list_simulates (block : BitVec 64) (space : String) :
    Simulates (State.Like T) (e.list block space) ((e.withBackend d).list block space) :=
  onStorage_simulates (h.list block space)

theorem store_simulates (id : RecordId) (key : String) (value : Bytes) :
    Simulates (State.Like T) (e.store id key value) ((e.withBackend d).store id key value) :=
  onStorage_simulates ((h.fetch id).bind fun r => h.store r key value)

theorem retrieve_simulates (id : RecordId) (caller : Address) (key : String) :
    Simulates (State.Like T) (e.retrieve id caller key)
      ((e.withBackend d).retrieve id caller key) :=
  onStorage_simulates ((h.fetch id).bind fun r =>
    (Simulates.ofExcept _).bind fun _ => h.retrieve r key)

/-! ### Messages -/

theorem publish_simulates (m : Message) :
    Simulates (State.Like T) (e.publish m) ((e.withBackend d).publish m) := by
  refine (onTopic_simulates (e.topic.publish m)).attempt.bind fun published => ?_
  cases published with
  | error _ => exact count_simulates _
  | ok _ =>
    refine (count_simulates _).bind fun _ => ?_
    show Simulates _ (if e.keepsOutbox then _ else _) (if e.keepsOutbox then _ else _)
    split
    · exact (onStorage_simulates (h.acknowledge _)).ignore
    · exact .pure ()

theorem publishNext_simulates :
    Simulates (State.Like T) e.publishNext (e.withBackend d).publishNext := by
  have houtgoing : Simulates (State.Like T) (gets (State.outgoing (σ := σ) (τ := τ)))
      (gets State.outgoing) := by
    rintro s _ ⟨w, hw, rfl⟩
    exact ⟨rfl, w, hw, rfl⟩
  refine houtgoing.bind fun outgoing => ?_
  cases outgoing with
  | nil => exact .pure ()
  | cons m rest =>
    refine Simulates.bind ?_ fun _ => publish_simulates h m
    rintro s _ ⟨w, hw, rfl⟩
    exact ⟨rfl, w, hw, rfl⟩

end

end Engine
end SealedStore

import SealedStore.Proofs.Interleaving
import SealedStore.Proofs.Sample.Node
import SealedStore.Shutdown

/-! # Who sleeps through a shutdown

Requests to shut down, calls that wait for one and calls that stop the engine take turns on one
coordinator.  A request that finds the node running owes a notification until it has sent it,
and no other ever does; so what was sent and what is owed make one together, once the node no
longer runs (`Accounted`).

There is one way around it: a stop of the engine sets the last phase, from the running phase too,
and notifies nobody.  Requests behind it are ignored, and a waiter that has looked at the phase
before it is not woken any more.  This is just when a shutdown is slept through
(`slept_through_iff`).
-/
namespace SealedStore.Shutdown

open Step hiding run
open Interleaving Coordinator

variable {σ τ : Type}

/-! ## Calls in steps -/

/-- A call on a coordinator. -/
inductive Request where
  | shutdown
  | wait
  | stopEngine (limit takes : Duration)
deriving DecidableEq

/-- How far a call has come. -/
inductive Progress where
  | begun
  /-- A request that has left the running phase and is about to notify. -/
  | owing
  /-- A waiter that is about to look at the phase. -/
  | subscribed (subscription : Nat)
  /-- A waiter that has found the node running. -/
  | receiving (subscription : Nat)
  /-- The engine was called to stop, the phase is about to be set. -/
  | stopped (result : Except StoreError Unit)
  | returned (result : Except StoreError Unit)
deriving DecidableEq

/-- What the calls share. -/
structure Shared (σ τ : Type) where
  coordinator : Coordinator
  engine : Engine.State σ τ

/-- How far a call that waits has come. -/
def Progress.ofWaiter : Waiter → Progress
  | .subscribed k => .subscribed k
  | .receiving k => .receiving k
  | .returned => .returned (.ok ())

/-- The next step of a call. -/
def advance (e : Engine σ τ) : Request → Progress → Shared σ τ → Progress × Shared σ τ
  | .shutdown, .begun, s =>
    let y := s.coordinator.request
    (if y.1 then .owing else .returned (.ok ()), { s with coordinator := y.2 })
  | .shutdown, .owing, s => (.returned (.ok ()), { s with coordinator := s.coordinator.notify })
  | .wait, .begun, s =>
    let y := s.coordinator.subscribe
    (.ofWaiter y.1, { s with coordinator := y.2 })
  | .wait, .subscribed k, s =>
    let y := s.coordinator.advance (.subscribed k)
    (.ofWaiter y.1, { s with coordinator := y.2 })
  | .wait, .receiving k, s =>
    let y := s.coordinator.advance (.receiving k)
    (.ofWaiter y.1, { s with coordinator := y.2 })
  | .stopEngine limit takes, .begun, s =>
    let y := stopWithin e limit takes s.engine
    (.stopped y.1, { s with engine := y.2 })
  | .stopEngine _ _, .stopped result, s =>
    (.returned result, { s with coordinator := s.coordinator.finish })
  | _, p, s => (p, s)

/-- Calls on one coordinator. -/
abbrev Calls (σ τ : Type) := Interleaving (Shared σ τ) Request Progress

/-- Calls that are about to be made on a node that runs. -/
abbrev start (engine : Engine.State σ τ) (requests : List Request) : Calls σ τ :=
  begin ⟨.running, engine⟩ requests .begun

variable {e : Engine σ τ}

/-! ### Calls that are not overtaken -/

theorem alone_shutdown (s : Shared σ τ) :
    run (advance e) (begin s [.shutdown] .begun) [0, 0] =
      ⟨{ s with coordinator := s.coordinator.shutdown }, [(.shutdown, .returned (.ok ()))]⟩ := by
  by_cases hrun : s.coordinator.phase = .running <;>
    simp [run, next, begin, advance, request, Coordinator.shutdown, hrun]

theorem alone_wait (s : Shared σ τ) :
    run (advance e) (begin s [.wait] .begun) [0, 0, 0] =
      ⟨{ s with coordinator := s.coordinator.wait.2 },
        [(.wait, .ofWaiter s.coordinator.wait.1)]⟩ := by
  by_cases hrun : s.coordinator.phase = .running
  · rcases hreceive :
      s.coordinator.subscribe.2.notices.receive s.coordinator.notices.fresh with ⟨_ | _, _⟩ <;>
      simp_all [run, next, begin, advance, Coordinator.wait, Coordinator.advance,
        Coordinator.subscribe, Hub.subscribe, Progress.ofWaiter]
  · simp [run, next, begin, advance, Coordinator.wait, Coordinator.advance,
      Coordinator.subscribe, hrun, Progress.ofWaiter]

theorem alone_stopEngine (s : Shared σ τ) (limit takes : Duration) :
    run (advance e) (begin s [.stopEngine limit takes] .begun) [0, 0] =
      ⟨⟨s.coordinator.finish, (stopWithin e limit takes).after s.engine⟩,
        [(.stopEngine limit takes, .returned ((stopWithin e limit takes).outcome s.engine))]⟩ := rfl

/-! ## What a step does -/

/-- Whether a call is at a point from which it makes a step. -/
def Progress.moves : Request → Progress → Bool
  | .shutdown, .begun | .shutdown, .owing => true
  | .wait, .begun | .wait, .subscribed _ | .wait, .receiving _ => true
  | .stopEngine _ _, .begun | .stopEngine _ _, .stopped _ => true
  | _, _ => false

/-- **What a step of a call does to the coordinator.** -/
inductive Acts (c : Coordinator) : Request → Progress → Progress → Coordinator → Prop
  | requests : c.phase = .running → Acts c .shutdown .begun .owing { c with phase := .shuttingDown }
  | isIgnored : c.phase ≠ .running → Acts c .shutdown .begun (.returned (.ok ())) c
  | notifies : Acts c .shutdown .owing (.returned (.ok ())) c.notify
  | subscribes : Acts c .wait .begun (.subscribed c.notices.fresh) c.subscribe.2
  | settles (k : Nat) : c.phase = .running → Acts c .wait (.subscribed k) (.receiving k) c
  | passes (k : Nat) : c.phase ≠ .running →
      Acts c .wait (.subscribed k) (.returned (.ok ())) { c with notices := c.notices.cancel k }
  | wakes (k : Nat) : (c.notices.receive k).1 ≠ none →
      Acts c .wait (.receiving k) (.returned (.ok ()))
      { c with notices := (c.notices.receive k).2.cancel k }
  | sleeps (k : Nat) : (c.notices.receive k).1 = none → Acts c .wait (.receiving k) (.receiving k) c
  | stops (limit takes : Duration) (result : Except StoreError Unit) :
      Acts c (.stopEngine limit takes) .begun (.stopped result) c
  | finishes (limit takes : Duration) (result : Except StoreError Unit) :
      Acts c (.stopEngine limit takes) (.stopped result) (.returned result) c.finish
  | idle {request : Request} {p : Progress} :
      Progress.moves request p = false → Acts c request p p c

theorem advance_acts (request : Request) (p : Progress) (s : Shared σ τ) :
    Acts s.coordinator request p (advance e request p s).1
      (advance e request p s).2.coordinator := by
  unfold advance
  split
  · rw [Coordinator.request]
    split
    · exact .requests ‹_›
    · exact .isIgnored ‹_›
  · exact .notifies
  · exact .subscribes
  · next k =>
    rw [Coordinator.advance]
    split
    · exact .settles k ‹_›
    · exact .passes k ‹_›
  · next k =>
    rw [Coordinator.advance]
    rcases hreceive : s.coordinator.notices.receive k with ⟨_ | _, notices⟩
    · exact .sleeps k (congrArg Prod.fst hreceive)
    · have hsome : (s.coordinator.notices.receive k).1 ≠ none := by
        rw [hreceive]
        exact nofun
      have hwakes := Acts.wakes k hsome
      rwa [hreceive] at hwakes
  · exact .stops _ _ _
  · exact .finishes _ _ _
  · next hshutdown howing hwait hsubscribed hreceiving hstop hstopped =>
    refine .idle ?_
    unfold Progress.moves
    split <;> simp_all

/-- The order of the phases. -/
def Phase.rank : Phase → Nat
  | running => 0
  | shuttingDown => 1
  | shutdown => 2

/-- Whether a call owes the notification. -/
def owes (call : Request × Progress) : Bool := call.2 = .owing

/-- Whether a call is about to set the last phase. -/
def closes : Request × Progress → Bool
  | (.stopEngine _ _, .stopped _) => true
  | _ => false

theorem moves_of_closes {request : Request} {p : Progress} (h : closes (request, p) = true) :
    Progress.moves request p = true := by
  unfold closes at h
  split at h
  · next hcall =>
    obtain ⟨rfl, rfl⟩ := Prod.mk.inj hcall
    rfl
  · cases h

/-- The subscription that a call has open. -/
def Progress.subscription? : Progress → Option Nat
  | subscribed k => some k
  | receiving k => some k
  | _ => none

namespace Acts

variable {c d : Coordinator} {request : Request} {p q : Progress}

/-- **The phase moves forward only.** -/
theorem rank_le (h : Acts c request p q d) : c.phase.rank ≤ d.phase.rank := by
  cases h with
  | requests hrun =>
    rw [hrun]
    exact Nat.zero_le _
  | finishes =>
    show c.phase.rank ≤ 2
    cases c.phase <;> decide
  | _ => exact Nat.le_refl _

/-- A node that no longer runs does not run again. -/
theorem ne_running (h : Acts c request p q d) (hended : c.phase ≠ .running) :
    d.phase ≠ .running := by
  intro hrun
  have hrank := h.rank_le
  rw [hrun] at hrank
  cases hphase : c.phase with
  | running => exact hended hphase
  | shuttingDown | shutdown =>
    rw [hphase] at hrank
    exact absurd hrank (by decide)

/-- A request that has returned was ignored on a node that does not run, or
has sent what it owed. -/
theorem of_answered {result : Except StoreError Unit}
    (h : Acts c .shutdown p (.returned result) d) :
    c.phase ≠ .running ∨ p = .owing ∨ p = .returned result := by
  cases h with
  | isIgnored hended => exact .inl hended
  | notifies => exact .inr (.inl rfl)
  | idle => exact .inr (.inr rfl)

/-- A waiter for whom there is no notification goes on waiting. -/
theorem of_receiving {k : Nat} (h : Acts c .wait (.receiving k) q d)
    (hnone : (c.notices.receive k).1 = none) :
    q = .receiving k := by
  cases h with
  | wakes _ hsome => exact absurd hnone hsome
  | sleeps => rfl
  | idle => rfl

/-- A step of a request that leaves the running phase, a step that sets the last phase, or one that
leaves the phase and what is owed together with what was sent. -/
theorem account (h : Acts c request p q d) :
    (c.phase = .running ∧ d.phase = .shuttingDown ∧ closes (request, p) = false ∧
        d.notices.published.size + (owes (request, q)).toNat =
          c.notices.published.size + (owes (request, p)).toNat + 1) ∨
      d.notices.published.size + (owes (request, q)).toNat =
          c.notices.published.size + (owes (request, p)).toNat ∧
        (d.phase = c.phase ∧ closes (request, p) = false ∨ d.phase = .shutdown ∧
          closes (request, p) = true) := by
  cases h with
  | requests hrun => exact .inl ⟨hrun, rfl, rfl, rfl⟩
  | notifies => exact .inr ⟨by simp [owes, notify, Hub.publish], .inl ⟨rfl, rfl⟩⟩
  | finishes limit takes result => exact .inr ⟨rfl, .inr ⟨rfl, rfl⟩⟩
  | wakes k hsome =>
    refine .inr ⟨?_, .inl ⟨rfl, rfl⟩⟩
    show (c.notices.receive k).2.published.size + _ = _
    rw [Hub.published_receive]
    rfl
  | idle hidle =>
    refine .inr ⟨rfl, .inl ⟨rfl, Bool.eq_false_iff.mpr (mt moves_of_closes ?_)⟩⟩
    rw [hidle]
    exact Bool.false_ne_true
  | _ => exact .inr ⟨rfl, .inl ⟨rfl, rfl⟩⟩

/-- Subscriptions are numbered upwards. -/
theorem fresh_le (h : Acts c request p q d) : c.notices.fresh ≤ d.notices.fresh := by
  cases h with
  | subscribes => exact Nat.le_succ _
  | wakes k =>
    exact Nat.le_of_eq (Hub.fresh_receive _ _).symm
  | _ => exact Nat.le_refl _

/-- Nothing that was sent is taken back. -/
theorem size_le (h : Acts c request p q d) :
    c.notices.published.size ≤ d.notices.published.size := by
  cases h with
  | notifies => simp [notify, Hub.publish]
  | wakes k =>
    exact Nat.le_of_eq (congrArg Array.size (Hub.published_receive c.notices k)).symm
  | _ => exact Nat.le_refl _

/-- A step leaves the subscriptions of other calls alone. -/
theorem find?_of_ne (h : Acts c request p q d) {k : Nat} (hk : k < c.notices.fresh)
    (hne : p.subscription? ≠ some k) :
    d.notices.positions.find? k = c.notices.positions.find? k := by
  cases h with
  | subscribes => exact Table.find?_insert_of_ne _ _ (Nat.ne_of_gt hk)
  | passes j =>
    have hjk : j ≠ k := fun hjk => hne (congrArg some hjk)
    exact (Table.find?_erase _ _ _).trans (if_neg hjk)
  | wakes j =>
    have hjk : j ≠ k := fun hjk => hne (congrArg some hjk)
    exact ((Table.find?_erase _ _ _).trans (if_neg hjk)).trans (Hub.positions_receive_of_ne _ hjk)
  | _ => rfl

/-- The subscription that a call has open after a step it has just opened or had before. -/
theorem own (h : Acts c request p q d) {k : Nat} (hq : q.subscription? = some k) :
    q = .subscribed k ∧ k = c.notices.fresh ∧ d = c.subscribe.2 ∨
      p.subscription? = some k ∧ d = c ∧ (q = p ∨ q = .receiving k ∧ c.phase = .running) := by
  cases h with
  | subscribes =>
    cases hq
    exact .inl ⟨rfl, rfl, rfl⟩
  | settles j hrun =>
    cases hq
    exact .inr ⟨rfl, rfl, .inr ⟨rfl, hrun⟩⟩
  | sleeps j =>
    cases hq
    exact .inr ⟨rfl, rfl, .inl rfl⟩
  | idle => exact .inr ⟨hq, rfl, .inl rfl⟩
  | _ => exact nomatch hq

end Acts

/-! ## What every step keeps -/

/-- Whether a move is a stop of the engine that sets the last phase while the node runs. -/
def Overtakes (s : Calls σ τ) (n : Nat) : Prop :=
  s.shared.coordinator.phase = .running ∧ ∃ call, s.calls[n]? = some call ∧ closes call = true

/-- Whether a stop of the engine is the first to end the running phase. -/
def Overtaken (e : Engine σ τ) : Calls σ τ → List Nat → Prop
  | _, [] => False
  | s, n :: moves => Overtakes s n ∨ Overtaken e (next (advance e) s n) moves

/-- What was sent and what is owed. -/
def due (s : Calls σ τ) : Nat := s.shared.coordinator.notices.published.size + s.calls.countP owes

/-- **The account of a coordinator**: as long as the node runs nothing was sent and nothing is
owed, and afterwards one notification was sent or is owed, unless the running phase was ended
without any.  No two waiters share a subscription, and one that has found the node running was
subscribed before anything was sent. -/
structure Accounted (overtaken : Prop) (s : Calls σ τ) : Prop where
  quiet : s.shared.coordinator.phase = .running ∨ overtaken → due s = 0
  told : s.shared.coordinator.phase ≠ .running → ¬ overtaken → due s = 1
  ended : overtaken → s.shared.coordinator.phase ≠ .running
  asked : ∀ (n : Nat) (result : Except StoreError Unit),
    s.calls[n]? = some (.shutdown, .returned result) →
    s.shared.coordinator.phase ≠ .running
  fresh : ∀ (n : Nat) (r : Request) (p : Progress) (k : Nat), s.calls[n]? = some (r, p) →
    p.subscription? = some k → k < s.shared.coordinator.notices.fresh
  alone : ∀ (m n : Nat) (r q : Request) (p x : Progress) (k : Nat), s.calls[m]? = some (r, p) →
    s.calls[n]? = some (q, x) → p.subscription? = some k → x.subscription? = some k → m = n
  early : ∀ (n : Nat) (r : Request) (p : Progress) (k : Nat), s.calls[n]? = some (r, p) →
    p.subscription? = some k → ∃ position ≤ s.shared.coordinator.notices.published.size,
      s.shared.coordinator.notices.positions.find? k = some position ∧
        (p = .receiving k → position = 0)

namespace Accounted

variable {overtaken : Prop} {s : Calls σ τ} {n : Nat} {r : Request} {p : Progress}

theorem size_le_one (h : Accounted overtaken s) :
    s.shared.coordinator.notices.published.size ≤ 1 := by
  have hdue : s.shared.coordinator.notices.published.size ≤ due s := Nat.le_add_right _ _
  by_cases hover : overtaken
  · rw [h.quiet (.inr hover)] at hdue
    omega
  · by_cases hrun : s.shared.coordinator.phase = .running
    · rw [h.quiet (.inl hrun)] at hdue
      omega
    · rwa [h.told hrun hover] at hdue

/-- A step changes what is due by the request that it grants. -/
theorem due_step {q : Progress} {t : Shared σ τ} (hn : s.calls[n]? = some (r, p))
    (hacts : Acts s.shared.coordinator r p q t.coordinator) :
    s.shared.coordinator.phase = .running ∧ t.coordinator.phase = .shuttingDown ∧ ¬ Overtakes s n ∧
        due ⟨t, s.calls.set n (r, q)⟩ = due s + 1 ∨
      due ⟨t, s.calls.set n (r, q)⟩ = due s ∧
        (t.coordinator.phase = s.shared.coordinator.phase ∧ ¬ Overtakes s n ∨
          t.coordinator.phase = .shutdown ∧
            (s.shared.coordinator.phase = .running → Overtakes s n)) := by
  have hset := countP_set_add hn (r, q) owes
  have hnot : closes (r, p) = false → ¬ Overtakes s n := by
    rintro hstays ⟨-, call, hcall, hfinishes⟩
    rw [hn] at hcall
    cases hcall
    rw [hstays] at hfinishes
    cases hfinishes
  simp only [due]
  rcases hacts.account with
    ⟨hrun, hphase, hstays, hmade⟩ | ⟨hmade, ⟨hphase, hstays⟩ | ⟨hphase, hfinishes⟩⟩
  · exact .inl ⟨hrun, hphase, hnot hstays, by omega⟩
  · exact .inr ⟨by omega, .inl ⟨hphase, hnot hstays⟩⟩
  · exact .inr ⟨by omega, .inr ⟨hphase, fun hrun => ⟨hrun, _, hn, hfinishes⟩⟩⟩

section Step

variable {q : Progress} {t : Shared σ τ} (h : Accounted overtaken s)
  (hn : s.calls[n]? = some (r, p)) (hacts : Acts s.shared.coordinator r p q t.coordinator)
include h hn hacts

theorem early_step (m : Nat) (x : Request) (y : Progress) (k : Nat)
    (hm : (s.calls.set n (r, q))[m]? = some (x, y)) (hy : y.subscription? = some k) :
    ∃ position ≤ t.coordinator.notices.published.size,
      t.coordinator.notices.positions.find? k = some position ∧
        (y = .receiving k → position = 0) := by
  rcases getElem?_set_cases hm with ⟨-, hcall⟩ | ⟨hne, hm⟩
  · obtain ⟨rfl, rfl⟩ := Prod.mk.inj hcall
    rcases hacts.own hy with ⟨rfl, rfl, ht⟩ | ⟨hp, ht, hsame⟩
    · rw [ht]
      exact ⟨_, Nat.le_refl _, Table.find?_insert_self _ _ _, nofun⟩
    · obtain ⟨position, hle, hfind, hzero⟩ := h.early n x p k hn hp
      rw [ht]
      refine ⟨position, hle, hfind, fun hreceiving => ?_⟩
      rcases hsame with rfl | ⟨-, hrun⟩
      · exact hzero hreceiving
      · -- nothing is sent while the node runs
        have hdue := h.quiet (.inl hrun)
        rw [due] at hdue
        omega
  · obtain ⟨position, hle, hfind, hzero⟩ := h.early m x y k hm hy
    have hother : p.subscription? ≠ some k := fun hp => hne (h.alone m n x r y p k hm hn hy hp)
    refine ⟨position, Nat.le_trans hle hacts.size_le, ?_, hzero⟩
    rw [hacts.find?_of_ne (h.fresh m x y k hm hy) hother, hfind]

/-- A request has returned from a node that no longer runs. -/
theorem asked_step (m : Nat) (result : Except StoreError Unit)
    (hm : (s.calls.set n (r, q))[m]? = some (.shutdown, .returned result)) :
    t.coordinator.phase ≠ .running := by
  refine hacts.ne_running ?_
  rcases getElem?_set_cases hm with ⟨-, hcall⟩ | ⟨-, hm⟩
  · obtain ⟨rfl, rfl⟩ := Prod.mk.inj hcall
    rcases hacts.of_answered with hended | rfl | rfl
    · exact hended
    · intro hrun
      have howed : 0 < s.calls.countP owes :=
        List.countP_pos_iff.mpr ⟨_, List.mem_of_getElem? hn, rfl⟩
      have hdue := h.quiet (.inl hrun)
      rw [due] at hdue
      omega
    · exact h.asked n result hn
  · exact h.asked m result hm

theorem fresh_step (m : Nat) (x : Request) (y : Progress) (k : Nat)
    (hm : (s.calls.set n (r, q))[m]? = some (x, y)) (hy : y.subscription? = some k) :
    k < t.coordinator.notices.fresh := by
  rcases getElem?_set_cases hm with ⟨-, hcall⟩ | ⟨-, hm⟩
  · obtain ⟨rfl, rfl⟩ := Prod.mk.inj hcall
    rcases hacts.own hy with ⟨-, rfl, ht⟩ | ⟨hp, -, -⟩
    · rw [ht]
      exact Nat.lt_succ_self _
    · exact Nat.lt_of_lt_of_le (h.fresh n x p k hn hp) hacts.fresh_le
  · exact Nat.lt_of_lt_of_le (h.fresh m x y k hm hy) hacts.fresh_le

/-- No other call has the subscription of the call that makes the step. -/
theorem other_step {m : Nat} {x : Request} {y : Progress} {k : Nat} (hm : s.calls[m]? = some (x, y))
    (hy : y.subscription? = some k) (hq : q.subscription? = some k) : m = n := by
  rcases hacts.own hq with ⟨-, rfl, -⟩ | ⟨hp, -, -⟩
  · exact absurd (h.fresh m x y _ hm hy) (Nat.lt_irrefl _)
  · exact h.alone m n x r y p k hm hn hy hp

/-- **A step keeps the account.** -/
theorem step : Accounted (overtaken ∨ Overtakes s n) ⟨t, s.calls.set n (r, q)⟩ where
  quiet hquiet := by
    rcases due_step hn hacts with ⟨hrun, hphase, hnot, -⟩ | ⟨hdue, ⟨hphase, hnot⟩ | ⟨hphase, -⟩⟩
    · rcases hquiet with ht | hover | hover
      · exact nomatch hphase.symm.trans ht
      · exact absurd hrun (h.ended hover)
      · exact absurd hover hnot
    · rw [hdue]
      exact h.quiet (hquiet.imp hphase.symm.trans (Or.resolve_right · hnot))
    · rw [hdue]
      rcases hquiet with ht | hover | ⟨hrun, -⟩
      · exact nomatch hphase.symm.trans ht
      · exact h.quiet (.inr hover)
      · exact h.quiet (.inl hrun)
  told hended hnot := by
    obtain ⟨hnever, hnot⟩ := not_or.mp hnot
    rcases due_step hn hacts with ⟨hrun, -, -, hdue⟩ | ⟨hdue, ⟨hphase, -⟩ | ⟨-, hover⟩⟩
    · rw [hdue, h.quiet (.inl hrun)]
    · rw [hdue]
      exact h.told (fun hrun => hended (hphase.trans hrun)) hnever
    · rw [hdue]
      exact h.told (fun hrun => hnot (hover hrun)) hnever
  ended := by
    rintro (hover | hover)
    · exact hacts.ne_running (h.ended hover)
    · rcases due_step hn hacts with ⟨-, -, hnot, -⟩ | ⟨-, ⟨-, hnot⟩ | ⟨hphase, -⟩⟩
      · exact absurd hover hnot
      · exact absurd hover hnot
      · show t.coordinator.phase ≠ .running
        rw [hphase]
        exact nofun
  asked := h.asked_step hn hacts
  fresh := h.fresh_step hn hacts
  alone m l x z y w k hm hl hy hw := by
    rcases getElem?_set_cases hm with ⟨rfl, hcall⟩ | ⟨-, hother⟩ <;>
      rcases getElem?_set_cases hl with ⟨rfl, hcall'⟩ | ⟨-, hother'⟩
    · rfl
    · obtain ⟨rfl, rfl⟩ := Prod.mk.inj hcall
      exact (h.other_step hn hacts hother' hw hy).symm
    · obtain ⟨rfl, rfl⟩ := Prod.mk.inj hcall'
      exact h.other_step hn hacts hother hy hw
    · exact h.alone m l x z y w k hother hother' hy hw
  early := h.early_step hn hacts

end Step

theorem congr (h : Accounted overtaken s) {other : Prop} (hiff : overtaken ↔ other) :
    Accounted other s :=
  propext hiff ▸ h

/-- **Every run keeps the account.** -/
theorem run (h : Accounted overtaken s) (moves : List Nat) :
    Accounted (overtaken ∨ Overtaken e s moves) (run (advance e) s moves) := by
  induction moves generalizing s overtaken with
  | nil => exact h.congr (or_iff_left id).symm
  | cons n moves ih =>
    have hnext : Accounted (overtaken ∨ Overtakes s n) (next (advance e) s n) := by
      cases hn : s.calls[n]? with
      | none =>
        have hnot : ¬ Overtakes s n := by
          rintro ⟨-, call, hcall, -⟩
          rw [hn] at hcall
          cases hcall
        rw [next, hn]
        exact h.congr (or_iff_left hnot).symm
      | some call =>
        rw [next_of_getElem? hn]
        exact h.step hn (advance_acts call.1 call.2 s.shared)
    exact (ih hnext).congr or_assoc

theorem start (engine : Engine.State σ τ) (requests : List Request) :
    Accounted False (start engine requests) := by
  have hnone : (Shutdown.start engine requests).calls.countP owes = 0 :=
    countP_first (fun _ => rfl) requests
  refine ⟨fun _ => ?_, fun hended => absurd rfl hended, nofun, fun n result hn => ?_,
    fun n r p k hn hp => ?_, fun m n r q p x k hm hn hp => ?_, fun n r p k hn hp => ?_⟩
  · rw [due, hnone]
    rfl
  · exact nomatch eq_first hn
  · rw [eq_first hn] at hp
    exact nomatch hp
  · rw [eq_first hm] at hp
    exact nomatch hp
  · rw [eq_first hn] at hp
    exact nomatch hp

/-- A waiter that has found the node running hears of a shutdown just if a notification was sent. -/
theorem receive_eq_none_iff (h : Accounted overtaken s) {k : Nat}
    (hn : s.calls[n]? = some (r, .receiving k)) :
    (s.shared.coordinator.notices.receive k).1 = none ↔
      s.shared.coordinator.notices.published.size = 0 := by
  obtain ⟨position, -, hfind, hzero⟩ := h.early n r _ k hn rfl
  have hsize := h.size_le_one
  have holdest : max position s.shared.coordinator.notices.oldest = 0 := by
    rw [hzero rfl, Hub.oldest, Hub.capacity]
    omega
  rw [Hub.receive, hfind]
  simp only [holdest]
  cases hfirst : s.shared.coordinator.notices.published[0]? with
  | none =>
    have hle := Array.getElem?_eq_none_iff.mp hfirst
    exact ⟨fun _ => by omega, fun _ => rfl⟩
  | some _ =>
    obtain ⟨hlt, -⟩ := Array.getElem?_eq_some_iff.mp hfirst
    exact ⟨nofun, fun hempty => by omega⟩

end Accounted

/-! ## Sleeping through -/

/-- Whether a call waits for a notification and there is none for it. -/
def Asleep (s : Calls σ τ) (n : Nat) : Prop :=
  ∃ k, s.calls[n]? = some (.wait, .receiving k) ∧ (s.shared.coordinator.notices.receive k).1 = none

/-- Whether a shutdown is slept through: a request for it has returned, a waiter is asleep, and no
call owes the notification. -/
def SleptThrough (s : Calls σ τ) : Prop :=
  (∃ (n : Nat) (result : Except StoreError Unit),
    s.calls[n]? = some (.shutdown, .returned result)) ∧
    (∃ n, Asleep s n) ∧ ∀ call ∈ s.calls, owes call = false

/-- Where the running phase was ended without a notification, a waiter that has found the
node running sleeps. -/
theorem asleep_of_overtaken {s : Calls σ τ} (h : Accounted True s) {n k : Nat}
    (hn : s.calls[n]? = some (.wait, .receiving k)) : Asleep s n := by
  refine ⟨k, hn, (h.receive_eq_none_iff hn).mpr ?_⟩
  have hdue := h.quiet (.inr trivial)
  rw [due] at hdue
  omega

/-- It sleeps for good. -/
theorem sleeps_on {s : Calls σ τ} (h : Accounted True s) {n k : Nat}
    (hn : s.calls[n]? = some (.wait, .receiving k)) (moves : List Nat) :
    Asleep (run (advance e) s moves) n := by
  have hkept : Accounted True (run (advance e) s moves) ∧
      (run (advance e) s moves).calls[n]? = some (.wait, .receiving k) := by
    refine run_induction (I := fun t : Calls σ τ => Accounted True t ∧
      t.calls[n]? = some (.wait, .receiving k)) ?_ ⟨h, hn⟩ moves
    rintro t m r p ⟨ht, hwaits⟩ hm
    have hacts := advance_acts (e := e) r p t.shared
    refine ⟨(ht.step hm hacts).congr ⟨fun _ => trivial, .inl⟩, ?_⟩
    by_cases hmn : m = n
    · subst hmn
      obtain ⟨rfl, rfl⟩ := Prod.mk.inj (Option.some.inj (hm.symm.trans hwaits))
      obtain ⟨j, hj, hnone⟩ := asleep_of_overtaken ht hwaits
      obtain ⟨-, hk⟩ := Prod.mk.inj (Option.some.inj (hwaits.symm.trans hj))
      cases hk
      show (t.calls.set m _)[m]? = _
      rw [List.getElem?_set_self (List.getElem?_eq_some_iff.mp hm).1, hacts.of_receiving hnone]
    · exact (List.getElem?_set_ne hmn).trans hwaits
  exact asleep_of_overtaken hkept.1 hkept.2

/-- **When a shutdown is slept through.**  However calls on a coordinator take turns, the phase
moves forward only and at most one notification is sent.  A request that has returned is slept
through by a waiter just if a stop of the engine was the first to end the running phase and the
waiter had looked at the phase before; such a waiter is never woken. -/
theorem slept_through_iff (e : Engine σ τ) (engine : Engine.State σ τ) (requests : List Request)
    (moves : List Nat) :
    let s := run (advance e) (start engine requests) moves
    (∀ more, s.shared.coordinator.phase.rank ≤
      (run (advance e) s more).shared.coordinator.phase.rank) ∧
      s.shared.coordinator.notices.published.size ≤ 1 ∧
      (SleptThrough s ↔
        (∃ (n : Nat) (result : Except StoreError Unit),
          s.calls[n]? = some (.shutdown, .returned result)) ∧
          (∃ (n k : Nat), s.calls[n]? = some (.wait, .receiving k)) ∧
            Overtaken e (start engine requests) moves) ∧
      (Overtaken e (start engine requests) moves →
        ∀ n k : Nat, s.calls[n]? = some (.wait, .receiving k) →
        ∀ more, Asleep (run (advance e) s more) n) := by
  intro s
  have haccount : Accounted (Overtaken e (start engine requests) moves) s :=
    ((Accounted.start engine requests).run moves).congr (or_iff_right id)
  have hover : Overtaken e (start engine requests) moves → Accounted True s := fun hover =>
    haccount.congr (iff_true_intro hover)
  refine ⟨fun more => ?_, haccount.size_le_one, ⟨?_, ?_⟩, fun hlost n k hn more =>
    sleeps_on (hover hlost) hn more⟩
  · refine run_induction (I := fun t : Calls σ τ =>
      s.shared.coordinator.phase.rank ≤ t.shared.coordinator.phase.rank) ?_ (Nat.le_refl _) more
    exact fun t n r p ht _ => Nat.le_trans ht (advance_acts r p t.shared).rank_le
  · rintro ⟨⟨m, result, hm⟩, ⟨n, k, hn, hnone⟩, hnobody⟩
    refine ⟨⟨m, result, hm⟩, ⟨n, k, hn⟩, ?_⟩
    by_contra hnot
    have hdue := haccount.told (haccount.asked m result hm) hnot
    rw [due, (haccount.receive_eq_none_iff hn).mp hnone, List.countP_eq_zero.mpr
      fun c hc => ?_] at hdue
    · exact nomatch hdue
    · rw [hnobody c hc]
      exact Bool.false_ne_true
  · rintro ⟨hasked, ⟨n, k, hn⟩, hlost⟩
    refine ⟨hasked, ⟨n, asleep_of_overtaken (hover hlost) hn⟩, fun c hc => ?_⟩
    have hdue := haccount.quiet (.inr hlost)
    rw [due] at hdue
    exact Bool.eq_false_iff.mpr (List.countP_eq_zero.mp (by omega) c hc)

/-- A waiter finds the node running, the engine is stopped, and the request that
comes then is ignored. -/
theorem shutdown_slept_through :
    let requests := [.wait, .stopEngine ⟨0⟩ ⟨0⟩, .shutdown]
    let s := run (advance (Sample.engine Octets.zero false))
      (start (.initial .empty .empty) requests) [0, 0, 1, 1, 2]
    s.calls = [(.wait, .receiving 0), (.stopEngine ⟨0⟩ ⟨0⟩, .returned (.ok ())),
      (.shutdown, .returned (.ok ()))] ∧
      SleptThrough s := by
  intro requests s
  have hcalls : s.calls =
    [(.wait, .receiving 0), (.stopEngine ⟨0⟩ ⟨0⟩, .returned (.ok ())),
      (.shutdown, .returned (.ok ()))] := rfl
  refine ⟨hcalls, ⟨2, .ok (), rfl⟩, ⟨0, 0, rfl, rfl⟩, ?_⟩
  rw [hcalls]
  decide

end SealedStore.Shutdown

import SealedStore.Hub

/-! # What a subscription receives

Messages are published on one hub, subscriptions are opened, read and closed, all in any order.
A receiver that has fallen behind is told so first and then tries again, and anything may
happen in between; `Hub.skip` is that first half of a call, and a call in one piece does the
same (`Hub.receive_skip`).

Messages are numbered as they are published.  What a subscription has received determines what it
receives next: the message right behind its last one, or the oldest that is kept, whichever is later
(`Hub.Follows`).  What is done with other subscriptions changes nothing that this depends on
(`Hub.Alike`).  Together: `Hub.fan_out`.
-/
namespace SealedStore

namespace Table

variable {κ ν : Type} [DecidableEq κ]

theorem put_put (k : κ) (u v : ν) (es : List (κ × ν)) : put k v (put k u es) = put k v es := by
  induction es with
  | nil => simp [put]
  | cons e r ih =>
    obtain ⟨l, w⟩ := e
    by_cases hl : l = k <;> simp [put, hl, ih]

theorem put_of_look {k : κ} {v : ν} {es : List (κ × ν)} (h : look k es = some v) :
    put k v es = es := by
  induction es with
  | nil => cases h
  | cons e r ih =>
    obtain ⟨l, w⟩ := e
    by_cases hl : l = k
    · subst hl
      simp only [look, if_true, Option.some.injEq] at h
      simp [put, h]
    · simp only [look, hl, if_false] at h
      simp [put, hl, ih h]

end Table

namespace Hub

variable {α β : Type} {h : Hub α} {s : Nat}

/-! ## One call -/

/-- Moves a subscription that has fallen behind to the oldest message that is kept. -/
def skip (h : Hub α) (s : Nat) : Hub α :=
  match h.positions.find? s with
  | none => h
  | some p => { h with positions := h.positions.insert s (max p h.oldest) }

/-- The number of the first message that is kept from a position on. -/
def ahead? (h : Hub α) (p : Nat) : Option Nat :=
  if max p h.oldest < h.published.size then some (max p h.oldest) else none

/-- The number of the message that a subscription would receive. -/
def next? (h : Hub α) (s : Nat) : Option Nat := (h.positions.find? s).bind h.ahead?

theorem ahead?_eq_some_iff {p q : Nat} :
    h.ahead? p = some q ↔ q = max p h.oldest ∧ q < h.published.size := by
  unfold ahead?
  constructor
  · intro hq
    obtain ⟨hlt, rfl⟩ := Option.ite_none_right_eq_some.mp hq |>.imp id Option.some.inj
    exact ⟨rfl, hlt⟩
  · rintro ⟨rfl, hlt⟩
    rw [if_pos hlt]

/-- With nothing to receive a subscription is at the end, and not behind. -/
theorem ahead?_eq_none_iff {p : Nat} : h.ahead? p = none ↔ h.published.size ≤ p := by
  unfold ahead? oldest capacity
  rw [ite_eq_right_iff]
  constructor
  · intro hq
    by_cases hlt : p < h.published.size
    · exact absurd (hq (by omega)) (Option.some_ne_none _)
    · exact Nat.le_of_not_lt hlt
  · intro hle hlt
    omega

theorem receive_of_position {p : Nat} (hp : h.positions.find? s = some p) :
    h.receive s = match h.ahead? p with
      | none => (none, h)
      | some q => (h.published[q]?, { h with positions := h.positions.insert s (q + 1) }) := by
  rw [receive, hp]
  dsimp only
  cases hq : h.ahead? p with
  | none =>
    have hle := ahead?_eq_none_iff.mp hq
    rw [Array.getElem?_eq_none (by omega)]
  | some q =>
    obtain ⟨rfl, hlt⟩ := ahead?_eq_some_iff.mp hq
    dsimp only
    rw [Array.getElem?_eq_getElem hlt]

/-- What a subscription receives is the message with its next number. -/
theorem receive_fst (h : Hub α) (s : Nat) :
    (h.receive s).1 = (h.next? s).bind (h.published[·]?) := by
  cases hp : h.positions.find? s with
  | none => simp [receive, next?, hp]
  | some p =>
    rw [receive_of_position hp, next?, hp, Option.bind_some]
    cases h.ahead? p <;> rfl

/-- **To be told of a lag and then to receive is to receive.** -/
theorem receive_skip (h : Hub α) (s : Nat) : (h.skip s).receive s = h.receive s := by
  cases hp : h.positions.find? s with
  | none => rw [skip, hp]
  | some p =>
    have hskip : h.skip s = { h with positions := h.positions.insert s (max p h.oldest) } := by
      rw [skip, hp]
    have hfind : (h.skip s).positions.find? s = some (max p h.oldest) := by
      rw [hskip, Table.find?_insert_self]
    have hahead : (h.skip s).ahead? (max p h.oldest) = h.ahead? p := by
      rw [hskip]
      show h.ahead? (max p h.oldest) = _
      simp only [ahead?, Nat.max_assoc, Nat.max_self]
    rw [receive_of_position hp, receive_of_position hfind, hahead, hskip]
    cases hq : h.ahead? p with
    | some q => simp [Table.insert, Table.put_put]
    | none =>
      have hbehind : max p h.oldest = p := by
        have hle := ahead?_eq_none_iff.mp hq
        unfold oldest
        omega
      rw [hbehind, Table.insert, Table.put_of_look hp]

/-! ## Runs -/

/-- What may happen on a hub.  Every transport of the hub publishes on it alike. -/
inductive Event (α : Type) where
  | publish (m : α)
  | subscribe
  /-- A receiver is told that it has fallen behind. -/
  | skip (s : Nat)
  | receive (s : Nat)
  | cancel (s : Nat)

/-- The hub after an event. -/
def act (h : Hub α) : Event α → Hub α
  | .publish m => h.publish m
  | .subscribe => h.subscribe.2
  | .skip s => h.skip s
  | .receive s => (h.receive s).2
  | .cancel s => h.cancel s

/-- The hub after a run. -/
def run (h : Hub α) (events : List (Event α)) : Hub α := events.foldl act h

namespace Event

/-- The message that an event publishes. -/
def message? : Event α → Option α
  | publish m => some m
  | _ => none

/-- Whether an event publishes something or is done with this subscription. -/
def concerns (s : Nat) : Event α → Bool
  | publish _ => true
  | subscribe => false
  | skip t => t = s
  | receive t => t = s
  | cancel t => t = s

/-- The number that a subscription receives in an event. -/
def number? (s : Nat) (h : Hub α) : Event α → Option Nat
  | receive t => if t = s then h.next? s else none
  | _ => none

/-- The message that a subscription receives in an event. -/
def heard? (s : Nat) (h : Hub α) : Event α → Option α
  | receive t => if t = s then (h.receive s).1 else none
  | _ => none

end Event

/-- What is read off the events of a run, in order. -/
def gather (f : Hub α → Event α → Option β) : Hub α → List (Event α) → List β
  | _, [] => []
  | h, event :: r => (f h event).toList ++ gather f (h.act event) r

/-- The numbers of the messages that a subscription receives in a run. -/
def numbers (s : Nat) (h : Hub α) (events : List (Event α)) : List Nat :=
  gather (Event.number? s) h events

/-- The messages that a subscription receives in a run. -/
def heard (s : Nat) (h : Hub α) (events : List (Event α)) : List α :=
  gather (Event.heard? s) h events

theorem published_act (h : Hub α) (event : Event α) :
    (h.act event).published.toList = h.published.toList ++ event.message?.toList := by
  cases event with
  | publish m => exact published_publish h m
  | skip t =>
    rw [act, skip]
    cases h.positions.find? t <;> simp [Event.message?]
  | receive t => simp [act, Event.message?]
  | _ => exact (List.append_nil _).symm

/-- **What is published stays in its order**, with what is new behind it. -/
theorem published_run (h : Hub α) (events : List (Event α)) :
    (run h events).published.toList = h.published.toList ++ events.filterMap Event.message? := by
  induction events generalizing h with
  | nil => simp [run]
  | cons event events ih =>
    show (run (h.act event) events).published.toList = _
    rw [ih, published_act, List.append_assoc]
    cases hm : event.message? <;> simp [hm]

theorem size_act (h : Hub α) (event : Event α) :
    h.published.size ≤ (h.act event).published.size := by
  rw [← Array.length_toList, ← Array.length_toList, published_act, List.length_append]
  exact Nat.le_add_right _ _

theorem fresh_act (h : Hub α) (event : Event α) : h.fresh ≤ (h.act event).fresh := by
  cases event with
  | subscribe => exact Nat.le_succ _
  | skip t =>
    rw [act, skip]
    cases h.positions.find? t <;> exact Nat.le_refl _
  | receive t => exact Nat.le_of_eq (fresh_receive h t).symm
  | _ => exact Nat.le_refl _

theorem fresh_run (h : Hub α) (events : List (Event α)) : h.fresh ≤ (run h events).fresh := by
  induction events generalizing h with
  | nil => exact Nat.le_refl _
  | cons event events ih => exact Nat.le_trans (fresh_act h event) (ih (h.act event))

/-! ## One subscription among the others -/

/-- The number behind the last one that was received, or the first one of all. -/
def due (start : Nat) (seen : List Nat) : Nat := (seen.getLast?.map (· + 1)).getD start

@[simp] theorem due_concat (start : Nat) (seen : List Nat) (q : Nat) :
    due start (seen ++ [q]) = q + 1 := by
  simp [due]

theorem due_cases (start : Nat) (seen : List Nat) :
    due start seen = start ∨ ∃ n ∈ seen, due start seen = n + 1 := by
  unfold due
  cases hseen : seen.getLast? with
  | none => exact .inl rfl
  | some n => exact .inr ⟨n, List.mem_of_getLast? hseen, rfl⟩

/-- **What a subscription has received**, since it was opened in front of the message `start`:
numbers that grow, and every message in between, unless so many are behind it that it is not kept
any more.  Its position says which message is due, unless that is not kept either. -/
structure Follows (s start : Nat) (h : Hub α) (seen : List Nat) : Prop where
  fresh : s < h.fresh
  start_le : start ≤ due start seen
  due_le : due start seen ≤ h.published.size
  position : ∃ p, h.positions.find? s = some p ∧ max p h.oldest = max (due start seen) h.oldest
  ordered : seen.Pairwise (· < ·)
  bounds : ∀ n ∈ seen, start ≤ n ∧ n < due start seen
  kept : ∀ n, start ≤ n → n < due start seen → n ∈ seen ∨ n + capacity < h.published.size

/-- What is not done with a subscription itself leaves its position. -/
theorem find?_act {event : Event α} (hfresh : s < h.fresh) (hskip : event ≠ .skip s)
    (hreceive : event ≠ .receive s) (hcancel : event ≠ .cancel s) :
    (h.act event).positions.find? s = h.positions.find? s := by
  cases event with
  | publish m => rfl
  | subscribe => exact Table.find?_insert_of_ne _ _ (Nat.ne_of_gt hfresh)
  | skip t =>
    have hne : t ≠ s := fun hts => hskip (hts ▸ rfl)
    rw [act, skip]
    cases h.positions.find? t with
    | none => rfl
    | some p => exact Table.find?_insert_of_ne _ _ hne
  | receive t => exact positions_receive_of_ne h fun hts => hreceive (hts ▸ rfl)
  | cancel t =>
    have hne : t ≠ s := fun hts => hcancel (hts ▸ rfl)
    show (h.positions.erase t).find? s = _
    rw [Table.find?_erase, if_neg hne]

namespace Follows

variable {g : Hub α} {start : Nat} {seen : List Nat}

/-- A subscription that is opened has received nothing. -/
theorem opened (h : Hub α) : Follows h.fresh h.published.size h.subscribe.2 [] where
  fresh := Nat.lt_succ_self _
  start_le := Nat.le_refl _
  due_le := Nat.le_refl _
  position := ⟨_, Table.find?_insert_self .., rfl⟩
  ordered := .nil
  bounds := List.forall_mem_nil _
  kept _ hn hlt := absurd hn (Nat.not_le_of_lt hlt)

/-- Its next number is the one that is due, or the oldest that is kept. -/
theorem next?_eq (hf : Follows s start h seen) : h.next? s = h.ahead? (due start seen) := by
  obtain ⟨p, hp, hmax⟩ := hf.position
  rw [next?, hp, Option.bind_some, ahead?, ahead?, hmax]

/-- What is neither received nor due any more has too many messages behind it. -/
theorem missed (hf : Follows s start h seen) {n : Nat} (hn : start ≤ n)
    (hlt : n < max (due start seen) h.oldest) :
    n ∈ seen ∨ n + 1 + capacity ≤ h.published.size := by
  by_cases hdue : n < due start seen
  · exact (hf.kept n hn hdue).imp_right fun hlost => by omega
  · refine .inr ?_
    unfold oldest at hlt
    omega

/-- **Its next message** is behind all that it has received, the one that is due or else the oldest
that is kept, and what it jumps over has too many messages behind it. -/
theorem of_next?_eq_some (hf : Follows s start h seen) {q : Nat} (hq : h.next? s = some q) :
    (∃ m, (h.receive s).1 = some m ∧ h.published[q]? = some m) ∧ start ≤ q ∧ (∀ n ∈ seen, n < q) ∧
      (q = start ∨ (∃ n ∈ seen, q = n + 1) ∨ q = h.oldest) ∧
      ∀ n, start ≤ n → n < q → n ∈ seen ∨ n + 1 + capacity ≤ h.published.size := by
  obtain ⟨hmax, hlt⟩ := ahead?_eq_some_iff.mp (hf.next?_eq ▸ hq)
  have hmessage : h.published[q]? = some h.published[q] := Array.getElem?_eq_getElem hlt
  have hstart := hf.start_le
  refine ⟨⟨_, ?_, hmessage⟩,
    by omega, fun n hn => ?_, ?_, fun n hn hnq => hf.missed hn (hmax ▸ hnq)⟩
  · rw [receive_fst, hq, Option.bind_some, hmessage]
  · have := (hf.bounds n hn).2
    omega
  · by_cases hbehind : due start seen < h.oldest
    · exact .inr (.inr (by omega))
    · have hdue : q = due start seen := by omega
      rw [hdue]
      exact (due_cases start seen).imp_right .inl

/-- Where it has no next message, it has received or so missed everything. -/
theorem of_next?_eq_none (hf : Follows s start h seen) (hq : h.next? s = none) :
    (h.receive s).1 = none ∧
      ∀ n, start ≤ n → n < h.published.size → n ∈ seen ∨ n + 1 + capacity ≤ h.published.size := by
  have hle := ahead?_eq_none_iff.mp (hf.next?_eq ▸ hq)
  rw [receive_fst, hq]
  exact ⟨rfl, fun n hn hlt => hf.missed hn (by omega)⟩

/-- Nothing is received, and more may be published. -/
theorem grow (hf : Follows s start h seen) (hfresh : h.fresh ≤ g.fresh)
    (hsize : h.published.size ≤ g.published.size)
    (hposition : ∃ p, g.positions.find? s = some p ∧
      max p g.oldest = max (due start seen) g.oldest) :
    Follows s start g seen where
  fresh := Nat.lt_of_lt_of_le hf.fresh hfresh
  start_le := hf.start_le
  due_le := Nat.le_trans hf.due_le hsize
  position := hposition
  ordered := hf.ordered
  bounds := hf.bounds
  kept n hn hlt := (hf.kept n hn hlt).imp_right fun hlost => Nat.lt_of_lt_of_le hlost hsize

/-- The next message is received. -/
theorem receive (hf : Follows s start h seen) {q : Nat} (hq : h.next? s = some q) :
    Follows s start (h.receive s).2 (seen ++ [q]) := by
  obtain ⟨hmax, hlt⟩ := ahead?_eq_some_iff.mp (hf.next?_eq ▸ hq)
  obtain ⟨p, hp, -⟩ := hf.position
  have hafter : (h.receive s).2 = { h with positions := h.positions.insert s (q + 1) } := by
    rw [next?, hp, Option.bind_some] at hq
    rw [receive_of_position hp, hq]
  have hstart := hf.start_le
  rw [hafter]
  refine ⟨hf.fresh, ?_, ?_, ⟨q + 1, Table.find?_insert_self .., ?_⟩, ?_, ?_, ?_⟩
  · rw [due_concat]
    omega
  · rw [due_concat]
    exact hlt
  · rw [due_concat]
  · refine List.pairwise_append.mpr ⟨hf.ordered, List.pairwise_singleton _ _, fun n hn m hm => ?_⟩
    obtain rfl := List.mem_singleton.mp hm
    have := (hf.bounds n hn).2
    omega
  · intro n hn
    rw [due_concat]
    rcases List.mem_append.mp hn with hn | hn
    · have := hf.bounds n hn
      omega
    · obtain rfl := List.mem_singleton.mp hn
      omega
  · -- what lies between the message that was due and this one is not kept any more
    intro n hn hnq
    rw [due_concat] at hnq
    by_cases hdue : n < due start seen
    · exact (hf.kept n hn hdue).imp_left fun hmem => List.mem_append_left _ hmem
    · by_cases heq : n = q
      · exact .inl (List.mem_append_right _ (List.mem_singleton.mpr heq))
      · refine .inr ?_
        show n + capacity < h.published.size
        unfold oldest at hmax
        omega

/-- **Every event** but its own end keeps what a subscription has received in order. -/
theorem act (hf : Follows s start h seen) {event : Event α} (hcancel : event ≠ .cancel s) :
    Follows s start (h.act event) (seen ++ (event.number? s h).toList) := by
  obtain ⟨p, hp, hmax⟩ := hf.position
  by_cases hreceive : event = .receive s
  · subst hreceive
    have hnumber : (Event.receive s : Event α).number? s h = h.next? s := if_pos rfl
    rw [hnumber]
    cases hq : h.next? s with
    | some q => exact hf.receive hq
    | none =>
      have hsame : (h.receive s).2 = h := by
        rw [next?, hp, Option.bind_some] at hq
        rw [receive_of_position hp, hq]
      rw [Hub.act, hsame, Option.toList_none, List.append_nil]
      exact hf
  · have hnumber : event.number? s h = none := by
      cases event with
      | receive t =>
        have hne : t ≠ s := fun hts => hreceive (hts ▸ rfl)
        exact if_neg hne
      | _ => rfl
    rw [hnumber, Option.toList_none, List.append_nil]
    have hsize := size_act h event
    by_cases hskip : event = .skip s
    · subst hskip
      have hafter :
          h.act (.skip s) = { h with positions := h.positions.insert s (max p h.oldest) } := by
        rw [Hub.act, skip, hp]
      rw [hafter]
      refine hf.grow (Nat.le_refl _) (Nat.le_refl _) ⟨_, Table.find?_insert_self .., ?_⟩
      show max (max p h.oldest) h.oldest = max _ h.oldest
      omega
    · refine hf.grow (fresh_act h event) hsize ⟨p, ?_, ?_⟩
      · rw [find?_act hf.fresh hskip hreceive hcancel, hp]
      · unfold oldest at hmax ⊢
        omega

/-- **So does every run.** -/
theorem run (hf : Follows s start h seen) {events : List (Event α)} (hcancel : .cancel s ∉ events) :
    Follows s start (run h events) (seen ++ numbers s h events) := by
  induction events generalizing h seen with
  | nil =>
    rw [numbers, gather, List.append_nil]
    exact hf
  | cons event events ih =>
    rw [List.mem_cons, not_or] at hcancel
    have hrest := ih (hf.act (Ne.symm hcancel.1)) hcancel.2
    rw [List.append_assoc] at hrest
    exact hrest

end Follows

/-- What was closed stays closed, and receives nothing. -/
theorem closed_run (hclosed : h.positions.find? s = none) (hfresh : s < h.fresh)
    (events : List (Event α)) :
    numbers s h events = [] ∧ (run h events).positions.find? s = none := by
  induction events generalizing h with
  | nil => exact ⟨rfl, hclosed⟩
  | cons event events ih =>
    have hnext : h.next? s = none := by rw [next?, hclosed, Option.bind_none]
    have hnumber : event.number? s h = none := by
      cases event with
      | receive t => exact (ite_eq_right_iff.mpr fun _ => hnext)
      | _ => rfl
    have hafter : (h.act event).positions.find? s = none := by
      by_cases hskip : event = .skip s
      · rw [hskip, Hub.act, skip, hclosed]
        exact hclosed
      by_cases hreceive : event = .receive s
      · rw [hreceive, Hub.act, Hub.receive, hclosed]
        exact hclosed
      by_cases hcancel : event = .cancel s
      · rw [hcancel]
        exact (Table.find?_erase ..).trans (if_pos rfl)
      · rw [find?_act hfresh hskip hreceive hcancel, hclosed]
    obtain ⟨hnumbers, hrun⟩ := ih hafter (Nat.lt_of_lt_of_le hfresh (fresh_act h event))
    refine ⟨?_, hrun⟩
    rw [numbers, gather, hnumber]
    exact hnumbers

/-- Numbers that are received grow from where the subscription was opened, whether or not
it was closed since. -/
theorem Follows.ordered_run {start : Nat} {seen : List Nat} (hf : Follows s start h seen)
    (events : List (Event α)) :
    (seen ++ numbers s h events).Pairwise (· < ·) ∧
      ∀ n ∈ seen ++ numbers s h events, start ≤ n := by
  induction events generalizing h seen with
  | nil =>
    rw [numbers, gather, List.append_nil]
    exact ⟨hf.ordered, fun n hn => (hf.bounds n hn).1⟩
  | cons event events ih =>
    by_cases hcancel : event = .cancel s
    · have hclosed : (h.act event).positions.find? s = none := by
        rw [hcancel]
        exact (Table.find?_erase ..).trans (if_pos rfl)
      have hrest := (closed_run hclosed (Nat.lt_of_lt_of_le hf.fresh (fresh_act h event)) events).1
      have hnone : numbers s h (event :: events) = [] := by
        subst hcancel
        exact hrest
      rw [hnone, List.append_nil]
      exact ⟨hf.ordered, fun n hn => (hf.bounds n hn).1⟩
    · have hrest := ih (hf.act hcancel)
      rw [List.append_assoc] at hrest
      exact hrest

/-! ## Messages by their numbers -/

/-- A message keeps its number. -/
theorem getElem?_run {q : Nat} (hq : q < h.published.size) (events : List (Event α)) :
    (run h events).published[q]? = h.published[q]? := by
  rw [← Array.getElem?_toList, ← Array.getElem?_toList, published_run, List.getElem?_append_left]
  rwa [Array.length_toList]

/-- What is received are the messages with the numbers that are received. -/
theorem heard_eq (h : Hub α) (s : Nat) (events : List (Event α)) :
    heard s h events = (numbers s h events).filterMap ((run h events).published[·]?) := by
  induction events generalizing h with
  | nil => rfl
  | cons event events ih =>
    have hhead : event.heard? s h = (event.number? s h).bind
        ((run (h.act event) events).published[·]?) := by
      cases event with
      | receive t =>
        rw [Event.heard?, Event.number?]
        by_cases hts : t = s
        · subst hts
          rw [if_pos rfl, if_pos rfl, receive_fst]
          cases hq : h.next? t with
          | none => rfl
          | some q =>
            obtain ⟨p, -, hp⟩ := Option.bind_eq_some_iff.mp hq
            have hlt := (ahead?_eq_some_iff.mp hp).2
            rw [Option.bind_some, Option.bind_some,
              getElem?_run (Nat.lt_of_lt_of_le hlt (size_act ..)), act, published_receive]
        · rw [if_neg hts, if_neg hts, Option.bind_none]
      | _ => rfl
    show (event.heard? s h).toList ++ heard s (h.act event) events = _
    rw [ih, hhead]
    show _ = ((event.number? s h).toList ++ numbers s (h.act event) events).filterMap _
    rw [List.filterMap_append]
    congr 1
    cases event.number? s h with
    | none => rfl
    | some q =>
      show _ = [q].filterMap ((run (h.act event) events).published[·]?)
      rw [Option.bind_some, List.filterMap_cons, List.filterMap_nil]
      cases (run (h.act event) events).published[q]? <;> rfl

/-- Items under growing numbers are a subsequence. -/
theorem filterMap_getElem?_sublist {l : List α} {ns : List Nat}
    (hns : ns.Pairwise (· < ·)) {p : Nat}
    (hp : ∀ n ∈ ns, p ≤ n) : (ns.filterMap (l[·]?)).Sublist (l.drop p) := by
  induction ns generalizing p with
  | nil => exact List.nil_sublist _
  | cons n ns ih =>
    obtain ⟨hn, hns⟩ := List.pairwise_cons.mp hns
    rw [List.filterMap_cons]
    cases hl : l[n]? with
    | none => exact ih hns fun k hk => hp k (List.mem_cons_of_mem _ hk)
    | some a =>
      obtain ⟨hlt, rfl⟩ := List.getElem?_eq_some_iff.mp hl
      have hrest := ih hns (p := n + 1) fun k hk => hn k hk
      have hdrop : (l.drop n).Sublist (l.drop p) :=
        List.drop_sublist_drop_left l (hp n List.mem_cons_self)
      rw [List.drop_eq_getElem_cons hlt] at hdrop
      exact (hrest.cons_cons _).trans hdrop

/-! ## What others do -/

/-- Two hubs that look alike to a subscription. -/
structure Alike (s : Nat) (h g : Hub α) : Prop where
  published : g.published = h.published
  position : g.positions.find? s = h.positions.find? s
  fresh : s < h.fresh
  fresh' : s < g.fresh

namespace Alike

variable {g : Hub α}

theorem next?_eq (ha : Alike s h g) : g.next? s = h.next? s := by
  have hahead : g.ahead? = h.ahead? := by
    funext p
    rw [ahead?, ahead?, oldest, oldest, ha.published]
  rw [next?, next?, ha.position, hahead]

/-- It receives the same on both. -/
theorem receive_eq (ha : Alike s h g) : (g.receive s).1 = (h.receive s).1 := by
  rw [receive_fst, receive_fst, ha.next?_eq, ha.published]

/-- What is done with others is not seen. -/
theorem others (ha : Alike s h g) {event : Event α} (hevent : event.concerns s = false) :
    Alike s (h.act event) g := by
  have hmessage : event.message? = none := by cases event <;> first | rfl | cases hevent
  refine ⟨?_, ?_, Nat.lt_of_lt_of_le ha.fresh (fresh_act h event), ha.fresh'⟩
  · rw [ha.published, ← Array.toList_inj, published_act, hmessage,
      Option.toList_none, List.append_nil]
  · rw [ha.position, find?_act ha.fresh] <;> (rintro rfl; simp [Event.concerns] at hevent)

/-- What is published, and what is done with the subscription itself, is seen alike. -/
theorem both (ha : Alike s h g) {event : Event α} (hevent : event.concerns s = true) :
    Alike s (h.act event) (g.act event) := by
  have hfresh := Nat.lt_of_lt_of_le ha.fresh (fresh_act h event)
  have hfresh' := Nat.lt_of_lt_of_le ha.fresh' (fresh_act g event)
  have hpublished : (g.act event).published = (h.act event).published := by
    rw [← Array.toList_inj, published_act, published_act, ha.published]
  refine ⟨hpublished, ?_, hfresh, hfresh'⟩
  have holdest : g.oldest = h.oldest := by rw [oldest, oldest, ha.published]
  cases event with
  | publish m => exact ha.position
  | subscribe => cases hevent
  | skip t =>
    obtain rfl : t = s := of_decide_eq_true hevent
    rw [act, act, skip, skip, ha.position]
    cases hp : h.positions.find? t with
    | none => rw [ha.position, hp]
    | some p => rw [holdest]; simp only [Table.find?_insert_self]
  | receive t =>
    obtain rfl : t = s := of_decide_eq_true hevent
    have hnext := ha.next?_eq
    cases hp : h.positions.find? t with
    | none =>
      have hp' := ha.position.trans hp
      rw [act, act, receive, receive, hp, hp']
      exact hp'.trans hp.symm
    | some p =>
      have hp' := ha.position.trans hp
      rw [next?, next?, hp, hp', Option.bind_some, Option.bind_some] at hnext
      rw [act, act, receive_of_position hp, receive_of_position hp', hnext]
      cases h.ahead? p with
      | none => exact ha.position
      | some q => exact (Table.find?_insert_self ..).trans (Table.find?_insert_self ..).symm
  | cancel t =>
    obtain rfl : t = s := of_decide_eq_true hevent
    exact (Table.find?_erase ..).trans
      ((if_pos rfl).trans ((Table.find?_erase ..).trans (if_pos rfl)).symm)

/-- **A run looks to a subscription as if no other had ever done anything.** -/
theorem run (ha : Alike s h g) (events : List (Event α)) :
    Alike s (run h events) (run g (events.filter (Event.concerns s))) := by
  induction events generalizing h g with
  | nil => exact ha
  | cons event events ih =>
    cases hevent : event.concerns s with
    | true =>
      rw [List.filter_cons_of_pos hevent]
      exact ih (ha.both hevent)
    | false =>
      rw [List.filter_cons_of_neg (Bool.eq_false_iff.mp hevent)]
      exact ih (ha.others hevent)

end Alike

/-- **Fan-out is in order, at most once, and loses on lag alone.**  From where a subscription was
opened, whatever is then done with the hub and its subscriptions, in any order:
* it receives a subsequence of what is published, and each message is the one with the
  number that it received;
* while it is open, the next number is behind all that it received, right behind the last one or
  else that of the oldest message that is kept, and a message that it misses has at least `capacity`
  messages behind it; and if it receives nothing, it has received or so missed everything;
* once it is closed it receives nothing;
* it receives what it would receive if nobody else had opened, read or closed a subscription. -/
theorem fan_out (h : Hub α) (events : List (Event α)) :
    let s := h.subscribe.1
    let opened := h.subscribe.2
    let start := h.published.size
    let u := run opened events
    let seen := numbers s opened events
    u.published.toList = h.published.toList ++ events.filterMap Event.message? ∧
      (heard s opened events).Sublist (events.filterMap Event.message?) ∧
      heard s opened events = seen.filterMap (u.published[·]?) ∧
      (.cancel s ∉ events →
        (∀ q, u.next? s = some q →
          (∃ m, (u.receive s).1 = some m ∧ u.published[q]? = some m) ∧ start ≤ q ∧
            (∀ n ∈ seen, n < q) ∧ (q = start ∨ (∃ n ∈ seen, q = n + 1) ∨ q = u.oldest) ∧
            ∀ n, start ≤ n → n < q → n ∈ seen ∨ n + 1 + capacity ≤ u.published.size) ∧
        (u.next? s = none →
          (u.receive s).1 = none ∧
            ∀ n, start ≤ n → n < u.published.size → n ∈ seen ∨
              n + 1 + capacity ≤ u.published.size)) ∧
      (∀ more, ((run (u.cancel s) more).receive s).1 = none) ∧
      (u.receive s).1 = ((run opened (events.filter (Event.concerns s))).receive s).1 := by
  intro s opened start u seen
  have hopened : Follows s start opened [] := .opened h
  have hpublished : u.published.toList = h.published.toList ++ events.filterMap Event.message? :=
    published_run ..
  refine ⟨hpublished, ?_, heard_eq opened s events, ?_, ?_, ?_⟩
  · obtain ⟨hordered, hstart⟩ := hopened.ordered_run events
    have hsub := filterMap_getElem?_sublist (l := u.published.toList) hordered hstart
    rw [hpublished, show start = h.published.toList.length from
      Array.length_toList.symm, List.drop_left, ← hpublished] at hsub
    simp only [Array.getElem?_toList] at hsub
    exact heard_eq opened s events ▸ hsub
  · intro hcancel
    have hu : Follows s start u seen := hopened.run hcancel
    exact ⟨fun q hq => hu.of_next?_eq_some hq, fun hq => hu.of_next?_eq_none hq⟩
  · intro more
    have hfresh : s < u.fresh := Nat.lt_of_lt_of_le hopened.fresh (fresh_run opened events)
    have hclosed : (u.cancel s).positions.find? s = none :=
      (Table.find?_erase ..).trans (if_pos rfl)
    rw [receive_fst, next?, (closed_run hclosed hfresh more).2]
    rfl
  · have halike : Alike s opened opened := ⟨rfl, rfl, hopened.fresh, hopened.fresh⟩
    exact (halike.run events).receive_eq.symm

/-- Messages that are published in a row. -/
theorem run_publish (h : Hub α) (ms : List α) :
    run h (ms.map Event.publish) = { h with published := h.published ++ ms } := by
  induction ms generalizing h with
  | nil => simp [run]
  | cons m ms ih =>
    show run (h.publish m) (ms.map Event.publish) = _
    rw [ih]
    simp [publish]

/-- One message more than is kept: the first is missed and the second received.  A subscription to
which nothing is published has missed nothing. -/
theorem fan_out_lagging :
    let opened := (Hub.empty : Hub Nat).subscribe.2
    let events := (List.range (capacity + 1)).map Event.publish
    let u := run opened events
    .cancel 0 ∉ events ∧ u.next? 0 = some 1 ∧ (u.receive 0).1 = some 1 ∧
      (0 ∈ numbers 0 opened events ∨ 0 + 1 + capacity ≤ u.published.size) ∧
      opened.next? 0 = none ∧ (opened.receive 0).1 = none := by
  intro opened events u
  have hcancel : .cancel 0 ∉ events := by simp [events]
  have hrun : ∀ ms : List Nat, run opened (ms.map Event.publish) =
      { opened with published := ms.toArray } := by
    intro ms
    rw [run_publish]
    simp [opened, Hub.empty, subscribe]
  have hu : u = run opened ((List.range (capacity + 1)).map Event.publish) := rfl
  have hpublished : u.published = (List.range (capacity + 1)).toArray := by rw [hu, hrun]
  have hsize : u.published.size = capacity + 1 := by
    rw [hpublished, List.size_toArray, List.length_range]
  have hnext : u.next? 0 = some 1 := by
    have hposition : u.positions.find? 0 = some 0 := by
      rw [hu, hrun]
      rfl
    rw [next?, hposition, Option.bind_some, ahead?, oldest, hsize]
    rfl
  have hnone : opened.next? 0 = none := rfl
  obtain ⟨-, -, -, hopen, -⟩ := fan_out Hub.empty events
  obtain ⟨-, -, -, hempty, -⟩ := fan_out (Hub.empty : Hub Nat) []
  obtain ⟨⟨m, hreceive, hm⟩, -, -, -, hmissed⟩ := (hopen hcancel).1 1 hnext
  have hm1 : m = 1 := by
    rw [hpublished, List.getElem?_toArray, List.getElem?_range (by decide)] at hm
    exact (Option.some.inj hm).symm
  exact ⟨hcancel, hnext, hm1 ▸ hreceive, hmissed 0 (Nat.le_refl _) Nat.one_pos, hnone,
    ((hempty List.not_mem_nil).2 hnone).1⟩

end Hub
end SealedStore

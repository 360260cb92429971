import SealedStore.Table
/-!
# Fan-out in one process

A hub keeps the latest messages and a position for each subscription.  A subscription receives every
message published after it was opened, in order, except that one which falls more than `capacity`
messages behind skips to the oldest that is still kept.  Main statements: publishing extends the
log, and receiving moves one subscription alone.
-/
namespace SealedStore

/-- How many messages are kept for a subscription that lags. -/
def Hub.capacity : Nat := 1024

/-- The messages published so far and the subscriptions that read them. -/
structure Hub (α : Type) where
  /-- Every message, oldest first. -/
  published : Array α
  /-- For each open subscription, the number of the message that it reads next. -/
  positions : Table Nat Nat
  /-- The number of the next subscription. -/
  fresh : Nat

namespace Hub

variable {α : Type}

/-- No messages and no subscriptions. -/
def empty : Hub α := ⟨#[], .empty, 0⟩

instance : Inhabited (Hub α) := ⟨empty⟩

/-- How many subscriptions are open. -/
def subscribers (h : Hub α) : Nat := h.positions.entries.length

/-- Opens a subscription to what is published from now on. -/
def subscribe (h : Hub α) : Nat × Hub α :=
  (h.fresh, { h with
    positions := h.positions.insert h.fresh h.published.size
    fresh := h.fresh + 1 })

/-- Closes a subscription. -/
def cancel (h : Hub α) (s : Nat) : Hub α := { h with positions := h.positions.erase s }

/-- Publishes a message to every subscription. -/
def publish (h : Hub α) (m : α) : Hub α := { h with published := h.published.push m }

/-- The number of the oldest message that is kept. -/
def oldest (h : Hub α) : Nat := h.published.size - capacity

/-- The next message of a subscription, if there is one. -/
def receive (h : Hub α) (s : Nat) : Option α × Hub α :=
  match h.positions.find? s with
  | none => (none, h)
  | some p =>
    let q := max p h.oldest
    match h.published[q]? with
    | none => (none, h)
    | some m => (some m, { h with positions := h.positions.insert s (q + 1) })

/-! ## What the operations leave alone -/

@[simp] theorem published_publish (h : Hub α) (m : α) :
    (h.publish m).published.toList = h.published.toList ++ [m] := by simp [publish]

@[simp] theorem published_receive (h : Hub α) (s : Nat) :
    (h.receive s).2.published = h.published := by
  unfold receive
  split
  · rfl
  · dsimp only
    split <;> rfl

@[simp] theorem fresh_receive (h : Hub α) (s : Nat) : (h.receive s).2.fresh = h.fresh := by
  unfold receive
  split
  · rfl
  · dsimp only
    split <;> rfl

theorem positions_receive_of_ne (h : Hub α) {s t : Nat} (hne : s ≠ t) :
    (h.receive s).2.positions.find? t = h.positions.find? t := by
  unfold receive
  split
  · rfl
  · dsimp only
    split
    · rfl
    · simp [Table.find?_insert, hne]

end Hub
end SealedStore

import SealedStore.Proofs.Backend.Index
import SealedStore.Proofs.Rooted

/-! # What reads answer

Over a reliable backend the answer of a read is told by what is held and by what the draft has
staged: `Contents.record`, `Contents.read` and `Contents.listing` for the engine, `Draft.record`,
`Draft.read` and `Draft.listing` for a draft on it.  So is the outcome of `Draft.store`, which
stages its value if `Draft.target` gives the record to stage it under.
-/
namespace SealedStore

open Step

variable {σ τ : Type}

/-! ## The engine -/

namespace Contents

/-- The record with an id. -/
def record (c : Contents) (id : RecordId) : Except StoreError Record :=
  match c.records id with
  | some r => .ok r
  | none => .error (.recordNotFound id)

/-- The value under a record and a key. -/
def value (c : Contents) (id : RecordId) (key : String) : Except StoreError Bytes :=
  match c.values id key with
  | some v => .ok v
  | none => .error (Backend.Contract.missing c id key)

/-- The value under a record and a key, for those who may read it. -/
def read (c : Contents) (id : RecordId) (caller : Address) (key : String) :
    Except StoreError Bytes := do
  let r ← c.record id
  Engine.checkPeeker r id caller .retrieve
  c.value r.id key

theorem record_ok_iff {c : Contents} {id : RecordId} {r : Record} :
    c.record id = .ok r ↔ c.records id = some r := by
  unfold record
  cases c.records id <;> simp

end Contents

/-- A record is fetched as it is held. -/
theorem Backend.Contract.Reliable.fetch_gives {b : Backend σ} {C : b.Contract}
    (hC : C.Reliable) (c : Contents)
    (id : RecordId) : Gives (C.Holds c) (b.fetch id) (c.record id) := by
  refine .of_keeps ((C.fetch c id).mono (fun _ hs => hs) (fun _ _ hs => hs.2) fun _ _ hs => hs) ?_
  rintro s ⟨hs, rfl⟩
  exact hC.fetch id s hs

namespace Engine

variable {e : Engine σ τ} {C : e.backend.Contract} (hC : C.Reliable) (c : Contents)
include hC

theorem fetch_gives (id : RecordId) : Gives ((view C.toView).Holds c) (e.fetch id) (c.record id) :=
  onStorage_ensures (hC.fetch_gives c id)

theorem list_gives (block : BitVec 64) (space : String) :
    Gives ((view C.toView).Holds c) (e.list block space) (.ok (c.listing block space)) := by
  refine onStorage_ensures (P := C.Holds c) (Gives.of_keeps ?_ ?_)
  · exact (C.list c block space).mono (fun _ hs => hs) (fun _ _ hs => hs.2) fun _ _ hs => hs
  · rintro s ⟨hs, rfl⟩
    exact hC.list block space s hs

theorem retrieve_gives {c : Contents} (hc : c.Genuine) (id : RecordId)
    (caller : Address) (key : String) :
    Gives ((view C.toView).Holds c) (e.retrieve id caller key) (c.read id caller key) := by
  refine onStorage_ensures (P := C.Holds c) ((hC.fetch_gives c id).bind fun r hr =>
    (Gives.ofExcept _).bind fun _ _ => ?_)
  -- the record is not the backend's own, so the contract speaks of its values
  obtain ⟨hid, hderived⟩ := hc id r (Contents.record_ok_iff.mp hr)
  have hne : r.id ≠ Record.mempool.id := hid ▸ hderived ▸ r.derivedId_ne_mempool
  refine .of_keeps ((C.retrieve c r key).mono (fun _ hs => hs) (fun _ _ hs => hs.2)
    fun _ _ hs => hs.2) ?_
  rintro s ⟨hs, rfl⟩
  exact hC.retrieve r key s hne hs

end Engine

/-! ## Drafts -/

namespace Draft

/-- The record with an id, staged or held. -/
def record (c : Contents) (d : Draft) (id : RecordId) : Except StoreError Record :=
  match d.records.find? id with
  | some r => .ok r
  | none => c.record id

/-- The value under a record and a key, for those who may read it. -/
def read (c : Contents) (d : Draft) (id : RecordId) (caller : Address) (key : String) :
    Except StoreError Bytes := do
  let r ← record c d id
  Engine.checkPeeker r id caller .retrieve
  match d.staged? id key with
  | some value => .ok value
  | none => if d.records.contains id then .error (.keyNotFound id key) else c.read id caller key

/-- The records of a namespace with a decryption condition, held and staged. -/
def listing (c : Contents) (d : Draft) (block : BitVec 64) (space : String) : List Record :=
  merge (c.listing block space) (d.listed block space)

/-- The record that a value is staged under, for those who may write it. -/
def target (c : Contents) (d : Draft) (id : RecordId) (caller : Address) :
    Except StoreError Record := do
  d.checkOpen
  let r ← record c d id
  Engine.checkPeeker r id caller .store
  pure r

/-- The draft with one write more. -/
def withWrite (d : Draft) (w : StoreWrite) : Draft := { d with writes := d.writes ++ [w] }

variable {e : Engine σ τ} (C : e.backend.Contract) (c : Contents) (d : Draft)

theorem look_gives {α : Type} (f : Draft → Except StoreError α) : Gives (At C c d) (look f) (f d) :=
  .of_keeps (look_keeps C c d f) fun _ hx => congrArg f hx.2

theorem onEngine_gives {α : Type} {m : Step (Engine.State σ τ) α} {x : Except StoreError α}
    (h : Gives ((Engine.view C.toView).Holds c) m x) : Gives (At C c d) (onEngine m) x := by
  refine .within fun y hy => ?_
  exact h.mono (fun _ hs => hs ▸ hy.1) (fun _ _ hs => ⟨hs.1, hs.2, hy.2⟩)
    fun _ _ hs => ⟨hs.1, hs.2, hy.2⟩

variable {C} (hC : C.Reliable)
include hC

theorem fetch_gives (id : RecordId) : Gives (At C c d) (fetch e id) (record c d id) := by
  refine (look_gives C c d _).bind (g := fun found => match found with
    | some r => .ok r
    | none => c.record id) fun found _ => ?_
  cases found with
  | some r => exact .pure r
  | none => exact onEngine_gives C c d (Engine.fetch_gives hC c id)

theorem retrieve_gives {c : Contents} (hc : c.Genuine) (id : RecordId)
    (caller : Address) (key : String) :
    Gives (At C c d) (retrieve e id caller key) (read c d id caller key) := by
  refine (look_gives C c d _).bind (g := fun _ => read c d id caller key) fun isStaged hstaged => ?_
  cases Except.ok.inj hstaged
  refine (fetch_gives c d hC id).bind fun r _ => (Gives.ofExcept _).bind fun _ _ => ?_
  refine (look_gives C c d _).bind (g := fun found => match found with
    | some value => .ok value
    | none => if d.records.contains id then .error (.keyNotFound id key) else c.read id caller key)
    fun found _ => ?_
  cases found with
  | some value => exact .pure value
  | none =>
    show Gives _ (if d.records.contains id then _ else _) (if d.records.contains id then _ else _)
    split
    · exact .fail _
    · exact onEngine_gives C c d (Engine.retrieve_gives hC hc id caller key)

theorem list_gives (block : BitVec 64) (space : String) :
    Gives (At C c d) (list e block space) (.ok (listing c d block space)) := by
  refine (onEngine_gives C c d (Engine.list_gives hC c block space)).bind
    (g := fun _ => .ok (listing c d block space)) fun committed hcommitted => ?_
  cases Except.ok.inj hcommitted
  exact look_gives C c d _

omit hC in
/-- The record is known and the draft is open: the value is staged unless the
account may not write it. -/
theorem completeStore_ensures {id : RecordId} {r : Record} (hopen : d.checkOpen = .ok ())
    (hr : record c d id = .ok r) (caller : Address) (key : String) (value : Bytes) :
    Ensures (At C c d) (onDraft (completeStore r id caller key value))
      (fun q x => d.target c id caller = .ok q ∧ At C c (d.withWrite ⟨q, caller, key, value⟩) x)
      fun err x => d.target c id caller = .error err ∧ At C c d x := by
  have htarget : d.target c id caller = (do Engine.checkPeeker r id caller .store; pure r) := by
    rw [target, hopen, hr]
    rfl
  rintro ⟨s, _⟩ ⟨hs, rfl⟩
  rw [htarget]
  cases hpeeker : Engine.checkPeeker r id caller .store with
  | error err => simpa [onDraft, completeStore, hpeeker, bind_apply] using ⟨hs, rfl⟩
  | ok _ => simpa [onDraft, completeStore, hpeeker, hopen, bind_apply] using ⟨hs, rfl⟩

/-- **A value is staged under the record that admits it**, and nothing is staged where none does. -/
theorem store_ensures (id : RecordId) (caller : Address) (key : String) (value : Bytes) :
    Ensures (At C c d) (store e id caller key value)
      (fun r x => d.target c id caller = .ok r ∧ At C c (d.withWrite ⟨r, caller, key, value⟩) x)
      fun err x => d.target c id caller = .error err ∧ At C c d x := by
  refine .bind (Q := fun found x => beginStore id d = .ok found ∧ At C c d x) ?_ fun found =>
    .of_fact fun hfound => ?_
  · refine (look_gives C c d (beginStore id)).mono (fun _ hx => hx) (fun _ _ hx => hx)
      fun err x hx => ⟨?_, hx.2⟩
    cases hopen : d.checkOpen with
    | ok _ =>
      rw [beginStore, hopen] at hx
      cases hx.1
    | error closed =>
      rw [beginStore, hopen] at hx
      cases hx.1
      rw [target, hopen]
      rfl
  · obtain ⟨⟨⟩, hopen, hfound⟩ := Check.bind_ok_iff.mp hfound
    have hfind : d.records.find? id = found := Except.ok.inj hfound
    cases found with
    | some r =>
      exact completeStore_ensures c d hopen (by rw [record, hfind]) caller key value
    | none =>
      have hrecord : record c d id = c.record id := by rw [record, hfind]
      refine .bind (Q := fun r x => c.record id = .ok r ∧ At C c d x) ?_
        fun r => .of_fact fun hr => ?_
      · refine (onEngine_gives C c d (Engine.fetch_gives hC c id)).mono (fun _ hx => hx)
          (fun _ _ hx => hx) fun err x hx => ⟨?_, hx.2⟩
        rw [target, hopen, hrecord, hx.1]
        rfl
      · exact completeStore_ensures c d hopen (hrecord.trans hr) caller key value

theorem store_of_refused {id : RecordId} {caller : Address} {err : StoreError}
    (h : d.target c id caller = .error err) (key : String) (value : Bytes) :
    Gives (At C c d) (store e id caller key value) (.error err) := by
  refine (store_ensures c d hC id caller key value).mono (fun _ hx => hx) (fun r x hx => ?_)
    fun _ x hx => ?_
  · cases h.symm.trans hx.1
  · exact ⟨h.symm.trans hx.1, hx.2⟩

theorem store_of_target {id : RecordId} {caller : Address} {r : Record}
    (h : d.target c id caller = .ok r) (key : String) (value : Bytes) :
    Ensures (At C c d) (store e id caller key value)
      (fun q x => q = r ∧ At C c (d.withWrite ⟨r, caller, key, value⟩) x) fun _ _ => False := by
  refine (store_ensures c d hC id caller key value).mono (fun _ hx => hx) (fun q x hx => ?_)
    fun _ x hx => ?_
  · cases h.symm.trans hx.1
    exact ⟨rfl, hx.2⟩
  · cases h.symm.trans hx.1

/-! ## Two executions -/

/-- Whether two executions over genuine contents are related in what is held and what is staged. -/
def Related (C : e.backend.Contract) (R : Contents → Draft → Contents → Draft → Prop)
    (x y : Execution σ τ) : Prop :=
  ∃ c c', At C c x.draft x ∧ At C c' y.draft y ∧ c.Genuine ∧ c'.Genuine ∧
  R c x.draft c' y.draft

section
variable {α : Type} {R : Contents → Draft → Contents → Draft → Prop}

omit hC in
/-- A question whose answer is the same on whatever is related. -/
theorem related_of_gives {m : Step (Execution σ τ) α} {f : Contents → Draft → Except StoreError α}
    (hm : ∀ c d, c.Genuine → Gives (At C c d) m (f c d))
    (hf : ∀ c d c' d', c.Genuine → R c d c' d' → f c' d' = f c d) :
    Simulates (Related C R) m m := by
  rintro x y ⟨c, c', hx, hy, hc, hc', hrelated⟩
  have hxdraft := (hm c x.draft hc).keeps.after hx
  have hydraft := (hm c' y.draft hc').keeps.after hy
  refine ⟨?_, c, c', ⟨hxdraft.1, rfl⟩, ⟨hydraft.1, rfl⟩, hc, hc', ?_⟩
  · rw [(hm c x.draft hc).outcome hx, (hm c' y.draft hc').outcome hy, hf c _ c' _ hc hrelated]
  · rw [hxdraft.2, hydraft.2]
    exact hrelated

/-- A value is staged in both executions, under the same record, or refused in both. -/
theorem related_store {id : RecordId} {caller : Address}
    (htarget : ∀ c d c' d', R c d c' d' → target c' d' id caller = target c d id caller)
    (hwrite : ∀ c d c' d' w, R c d c' d' → R c (d.withWrite w) c' (d'.withWrite w))
    (key : String) (value : Bytes) :
    Simulates (Related C R) (store e id caller key value) (store e id caller key value) := by
  rintro x y ⟨c, c', hx, hy, hc, hc', hrelated⟩
  have hsame := htarget c x.draft c' y.draft hrelated
  cases hout : target c x.draft id caller with
  | error err =>
    have hxstore := store_of_refused c x.draft hC hout key value
    have hystore := store_of_refused c' y.draft hC (hsame.trans hout) key value
    have hxafter := hxstore.keeps.after hx
    have hyafter := hystore.keeps.after hy
    refine ⟨(hystore.outcome hy).trans (hxstore.outcome hx).symm, c, c',
      ⟨hxafter.1, rfl⟩, ⟨hyafter.1, rfl⟩, hc, hc', ?_⟩
    rw [hxafter.2, hyafter.2]
    exact hrelated
  | ok r =>
    obtain ⟨_, hxout, rfl, hxholds, hxdraft⟩ :=
      (store_of_target c x.draft hC hout key value).exists_ok hx
    obtain ⟨_, hyout, rfl, hyholds, hydraft⟩ :=
      (store_of_target c' y.draft hC (hsame.trans hout) key value).exists_ok hy
    refine ⟨hyout.trans hxout.symm, c, c', ⟨hxholds, rfl⟩, ⟨hyholds, rfl⟩, hc, hc', ?_⟩
    rw [hxdraft, hydraft]
    exact hwrite _ _ _ _ _ hrelated

end

end Draft
end SealedStore

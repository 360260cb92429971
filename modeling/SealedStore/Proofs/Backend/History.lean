import SealedStore.Proofs.Outbox

/-! # The writes of a key-value store, one by one

`KeyValue.noted` is a key-value store that notes every write with the state that it left, so that a
step over it tells all the states at which it may have been cut off.  The notes change nothing else:
what is made of such a store runs as over the store itself (`KeyValue.simulates_noted`,
`KeyValue.Simulates.backend`).

`Contract.Through R` says that each of a step's writes left entries with `R`, and which keys it
wrote, in order; there is one rule for each operation of the backend.
-/
namespace SealedStore

open Step

variable {σ ρ : Type}

/-! ## Stores and backends that run alike -/

/-- A key-value store that runs as another one on the states that `T` relates. -/
structure KeyValue.Simulates (T : σ → ρ → Prop) (kv : KeyValue σ) (l : KeyValue ρ) : Prop where
  get : ∀ k, Step.Simulates T (kv.get k) (l.get k)
  put : ∀ k v, Step.Simulates T (kv.put k v) (l.put k v)
  putIfAbsent : ∀ k v, Step.Simulates T (kv.putIfAbsent k v) (l.putIfAbsent k v)

/-- A backend whose records and values run as those of another one. -/
structure Backend.Simulates (T : σ → ρ → Prop) (b : Backend σ) (d : Backend ρ) : Prop where
  init : ∀ r, Step.Simulates T (b.init r) (d.init r)
  store : ∀ r key value, Step.Simulates T (b.store r key value) (d.store r key value)
  retrieve : ∀ r key, Step.Simulates T (b.retrieve r key) (d.retrieve r key)

namespace KeyValue.Simulates

variable {T : σ → ρ → Prop} {kv : KeyValue σ} {l : KeyValue ρ} (h : kv.Simulates T l)
include h

theorem retrieve (r : Record) (key : String) :
    Step.Simulates T (kv.retrieve r key) (l.retrieve r key) := by
  refine (h.get _).bind fun v => ?_
  cases v with
  | some v => exact .pure v
  | none =>
    show Step.Simulates T (if r.id = Record.mempool.id then _ else _)
      (if r.id = Record.mempool.id then _ else _)
    split
    · exact .fail _
    · refine (h.get _).bind fun held => ?_
      cases held with
      | some _ => exact .fail _
      | none => exact .fail _

theorem store (r : Record) (key : String) (value : Bytes) :
    Step.Simulates T (kv.store r key value) (l.store r key value) :=
  (h.put _ _).bind fun _ => .pure r

theorem claim (r : Record) : Step.Simulates T (kv.claim r) (l.claim r) := by
  refine (h.putIfAbsent _ _).bind fun made => ?_
  cases made with
  | true => exact .pure ()
  | false => exact .fail _

theorem readIndex (key : String) : Step.Simulates T (kv.readIndex key) (l.readIndex key) := by
  refine (h.retrieve _ _).attempt.bind fun found => ?_
  cases found with
  | ok raw => exact .ofExcept _
  | error e =>
    show Step.Simulates T (if e.isNotFound then _ else _) (if e.isNotFound then _ else _)
    split
    · exact .pure []
    · exact .fail e

theorem enlist (r : Record) : Step.Simulates T (kv.enlist r) (l.enlist r) :=
  (h.readIndex _).bind fun _ => (h.store _ _ _).bind fun _ => .pure ()

theorem fetch (id : RecordId) : Step.Simulates T (kv.fetch id) (l.fetch id) := by
  refine (h.get _).bind fun held => ?_
  cases held with
  | some raw => exact .ofExcept _
  | none => exact .fail _

theorem fetchAll (ids : List RecordId) : Step.Simulates T (kv.fetchAll ids) (l.fetchAll ids) := by
  induction ids with
  | nil => exact .pure []
  | cons id ids ih =>
    refine (h.fetch id).attempt.bind fun found => ?_
    cases found with
    | ok r => exact ih.bind fun _ => .pure _
    | error e =>
      cases e with
      | recordNotFound _ => exact ih
      | _ => exact .fail _

theorem list (block : BitVec 64) (space : String) :
    Step.Simulates T (kv.list block space) (l.list block space) :=
  (h.readIndex _).bind h.fetchAll

/-- Records over the one run as records over the other. -/
theorem backend : kv.backend.Simulates T l.backend where
  init r := (h.claim r).bind fun _ => h.enlist r
  store := h.store
  retrieve := h.retrieve

end KeyValue.Simulates

namespace KeyValue

/-! ## Notes -/

/-- Writes, oldest first, each with the state that it left. -/
abbrev History (σ : Type) : Type := List (Call × σ)

/-- Notes a write. -/
def note (call : Call) : Step (σ × History σ) Unit :=
  Step.modify fun w => (w.1, w.2 ++ [(call, w.1)])

/-- The store with every write noted.  A value that was found in place and not put is no write. -/
def noted (kv : KeyValue σ) : KeyValue (σ × History σ) :=
  let inner := kv.within (ρ := σ × History σ) Prod.fst fun s w => (s, w.2)
  { start := inner.start
    stop := inner.stop
    get := inner.get
    put := fun k v => do
      inner.put k v
      note (.put k v)
    putIfAbsent := fun k v => do
      if ← inner.putIfAbsent k v then do
        note (.putIfAbsent k v)
        pure true
      else pure false }

/-- **Notes change nothing.** -/
theorem simulates_noted (kv : KeyValue σ) : kv.Simulates (fun s w => w.1 = s) kv.noted where
  get k := Step.Simulates.beside _
  put k v := (Step.Simulates.beside _).followed fun _ _ _ hw => ⟨rfl, hw⟩
  putIfAbsent k v := (Step.Simulates.beside _).followed fun made _ _ hw => by
    cases made with
    | true => exact ⟨rfl, hw⟩
    | false => exact ⟨rfl, hw⟩

/-! ## Steps of one write -/

section
variable {l : KeyValue ρ} {P : ρ → Prop} (hget : ∀ k, Keeps P (l.get k))
include hget

theorem retrieve_keeps (r : Record) (key : String) : Keeps P (l.retrieve r key) := by
  refine .bind (hget _) fun v => ?_
  cases v with
  | some v => exact .pure fun _ hs => hs
  | none =>
    show Keeps _ (if r.id = Record.mempool.id then _ else _)
    split
    · exact .fail fun _ hs => hs
    · refine .bind (hget _) fun held => ?_
      cases held with
      | some _ => exact .fail fun _ hs => hs
      | none => exact .fail fun _ hs => hs

theorem readIndex_keeps (key : String) : Keeps P (l.readIndex key) := by
  refine .bind (Q := fun _ => P) (.attempt (retrieve_keeps hget _ _)) fun found => ?_
  cases found with
  | ok raw => exact .ofExcept (fun _ _ _ hs => hs) fun _ _ _ hs => hs
  | error e =>
    show Keeps _ (if e.isNotFound then _ else _)
    split
    · exact .pure fun _ hs => hs
    · exact .fail fun _ hs => hs

theorem fetch_keeps (id : RecordId) : Keeps P (l.fetch id) := by
  refine .bind (hget _) fun held => ?_
  cases held with
  | some raw => exact .ofExcept (fun _ _ _ hs => hs) fun _ _ _ hs => hs
  | none => exact .fail fun _ hs => hs

theorem fetchAll_keeps (ids : List RecordId) : Keeps P (l.fetchAll ids) := by
  induction ids with
  | nil => exact .pure fun _ hs => hs
  | cons id ids ih =>
    refine .bind (Q := fun _ => P) (.attempt (fetch_keeps hget id)) fun found => ?_
    cases found with
    | ok r => exact .bind ih fun _ => .pure fun _ hs => hs
    | error e =>
      cases e with
      | recordNotFound _ => exact ih
      | _ => exact .fail fun _ hs => hs

theorem list_keeps (block : BitVec 64) (space : String) : Keeps P (l.list block space) :=
  .bind (readIndex_keeps hget _) (fetchAll_keeps hget)

omit hget in
theorem store_keeps {r : Record} {key : String} (hput : ∀ v, Keeps P (l.put (valueKey r.id key) v))
    (value : Bytes) : Keeps P (l.store r key value) :=
  .bind (hput value) fun _ => .pure fun _ hs => hs

omit hget in
theorem claim_keeps {r : Record} (hput : ∀ v, Keeps P (l.putIfAbsent (recordKey r.id) v)) :
    Keeps P (l.claim r) := by
  refine .bind (hput _) fun made => ?_
  cases made with
  | true => exact .pure fun _ hs => hs
  | false => exact .fail fun _ hs => hs

theorem enlist_keeps {r : Record}
    (hput : ∀ v, Keeps P (l.put (listKey r.version r.decryptionCondition) v)) :
    Keeps P (l.enlist r) :=
  .bind (readIndex_keeps hget _) fun _ =>
    .bind (store_keeps (r := Record.mempool) hput _) fun _ => .pure fun _ hs => hs

end

variable {kv : KeyValue σ} {F : StoreError → Prop} {α β : Type}

namespace Contract

variable (K : kv.Contract F)

/-- A state with these entries, after these writes. -/
def At (t : String → Option Bytes) (past : History σ) (w : σ × History σ) : Prop :=
  K.see w.1 = t ∧ w.2 = past

/-- The state that one write under this key left, after those that were noted before. -/
def Wrote (k : String) (t : String → Option Bytes) (past : History σ) (w : σ × History σ) : Prop :=
  ∃ (call : Call) (v : Bytes), call.subject = k ∧ K.At (update t k v) (past ++ [(call, w.1)]) w

/-- **A step of one write**, under this key: where it succeeds it does this and nothing else. -/
def Writes (m : Step (σ × History σ) α) (k : String) : Prop :=
  ∀ t past, Ensures (K.At t past) m (fun _ => K.Wrote k t past) fun _ _ => True

variable {K}

/-- What comes before and only reads does not count. -/
theorem Writes.after_reading {n : Step (σ × History σ) β}
    {f : β → Step (σ × History σ) α} {k : String}
    (hn : ∀ t past, Keeps (K.At t past) n) (hf : ∀ b, K.Writes (f b) k) : K.Writes (n >>= f) k :=
  fun t past =>
    .bind ((hn t past).mono (fun _ hw => hw) (fun _ _ hw => hw) fun _ _ _ => trivial) fun b =>
      hf b t past

/-- What comes behind and changes nothing does not count. -/
theorem Writes.map {m : Step (σ × History σ) α} {k : String} (h : K.Writes m k) (f : α → β) :
    K.Writes (do pure (f (← m))) k := fun t past => .bind (h t past) fun _ => .pure fun _ hw => hw

variable (K)

theorem get_keeps (t : String → Option Bytes) (past : History σ) (k : String) :
    Keeps (K.At t past) (kv.noted.get k) :=
  ((K.get t k).beside past).mono (fun _ hw => hw) (fun _ _ hw => ⟨hw.1.2, hw.2⟩) fun _ _ hw =>
    ⟨hw.1.2, hw.2⟩

theorem put_writes (k : String) (v : Bytes) : K.Writes (kv.noted.put k v) k := by
  intro t past
  refine .bind (((K.put t k v).beside past).mono (fun _ hw => hw) (fun _ _ hw => hw)
    fun _ _ _ => trivial) fun _ => .modify fun w hw => ?_
  exact ⟨.put k v, v, rfl, hw.1, by rw [hw.2]⟩

theorem store_writes (r : Record) (key : String) (value : Bytes) :
    K.Writes (kv.noted.store r key value) (valueKey r.id key) :=
  (K.put_writes _ value).map fun _ => r

/-- A record that is claimed was not there, so that it is written. -/
theorem claim_writes (r : Record) : K.Writes (kv.noted.claim r) (recordKey r.id) := by
  intro t past
  refine .bind (Q := fun made w => made = true → K.Wrote (recordKey r.id) t past w) ?_
    fun made => ?_
  · refine .bind (((K.putIfAbsent t _ r.encode).beside past).mono (fun _ hw => hw)
      (fun _ _ hw => hw) fun _ _ _ => trivial) fun made => ?_
    cases made with
    | true =>
      refine .bind (Q := fun _ => K.Wrote (recordKey r.id) t past) (.modify fun w hw => ?_) fun _ =>
        .pure fun _ hw _ => hw
      exact ⟨.putIfAbsent (recordKey r.id) r.encode, r.encode, rfl, hw.1.2, by rw [hw.2]⟩
    | false => exact .pure fun _ _ h => absurd h (by decide)
  · cases made with
    | true => exact .pure fun _ hw => hw rfl
    | false => exact .fail fun _ _ => trivial

theorem enlist_writes (r : Record) :
    K.Writes (kv.noted.enlist r) (listKey r.version r.decryptionCondition) :=
  .after_reading (fun t past => readIndex_keeps (K.get_keeps t past) _) fun _ =>
    (K.store_writes Record.mempool _ _).map fun _ => ()

/-! ## What does not depend on a key -/

/-- Whether what holds of entries holds of them with any value under a key. -/
def Bears (R : (String → Option Bytes) → Prop) (k : String) : Prop := ∀ t v, R t → R (update t k v)

section
variable {R : (String → Option Bytes) → Prop}

/-- What reads and changes no entry. -/
theorem keeps_of_reads {m : Step σ α} (hm : ∀ t, Ensures (K.see · = t) m (fun _ s => K.see s = t)
    fun e s => F e ∧ K.see s = t) : Keeps (fun s => R (K.see s)) m := by
  intro s hs
  exact (hm (K.see s)).mono (fun _ hu => hu) (fun _ _ hu => hu ▸ hs) (fun _ _ hu => hu.2 ▸ hs) s rfl

theorem keeps_get (k : String) : Keeps (fun s => R (K.see s)) (kv.get k) :=
  K.keeps_of_reads fun t => (K.get t k).mono (fun _ hs => hs) (fun _ _ hs => hs.2) fun _ _ hs => hs

theorem keeps_put {k : String} (hk : Bears R k) (v : Bytes) :
    Keeps (fun s => R (K.see s)) (kv.put k v) := by
  intro s hs
  exact (K.put (K.see s) k v).mono (fun _ hu => hu) (fun _ _ hu => hu ▸ hk _ v hs)
    (fun _ _ hu => hu.2 ▸ hs) s rfl

theorem keeps_putIfAbsent {k : String} (hk : Bears R k) (v : Bytes) :
    Keeps (fun s => R (K.see s)) (kv.putIfAbsent k v) := by
  intro s hs
  refine (K.putIfAbsent (K.see s) k v).mono (fun _ hu => hu) (fun made _ hu => ?_)
    (fun _ _ hu => hu.2 ▸ hs) s rfl
  cases made with
  | true => exact hu.2 ▸ hk _ v hs
  | false => exact hu.2 ▸ hs

theorem keeps_store {r : Record} {key : String} (hk : Bears R (valueKey r.id key)) (value : Bytes) :
    Keeps (fun s => R (K.see s)) (kv.store r key value) :=
  store_keeps (fun v => K.keeps_put hk v) value

theorem keeps_claim {r : Record} (hk : Bears R (recordKey r.id)) :
    Keeps (fun s => R (K.see s)) (kv.claim r) :=
  claim_keeps fun v => K.keeps_putIfAbsent hk v

theorem keeps_enlist {r : Record} (hk : Bears R (listKey r.version r.decryptionCondition)) :
    Keeps (fun s => R (K.see s)) (kv.enlist r) := enlist_keeps K.keeps_get fun v => K.keeps_put hk v

end

/-! ## Steps of many writes -/

/-- `R` holds, the writes since `past` went under these keys, in order, and each
left entries with `R`. -/
structure Through (R : (String → Option Bytes) → Prop) (past : History σ) (keys : List String)
    (w : σ × History σ) : Prop where
  now : R (K.see w.1)
  since : ∃ points, w.2 = past ++ points ∧ points.map (·.1.subject) = keys ∧
    ∀ p ∈ points, R (K.see p.2)

variable {K} {R : (String → Option Bytes) → Prop} {past : History σ} {keys : List String}

/-- No write yet. -/
theorem Through.nil {w : σ × History σ} (h : R (K.see w.1)) : K.Through R w.2 [] w :=
  ⟨h, [], (List.append_nil _).symm, rfl, nofun⟩

/-- **One write more.** -/
theorem Writes.through {m : Step (σ × History σ) α} {k : String} (h : K.Writes m k)
    (hk : Bears R k) :
    Ensures (K.Through R past keys) m (fun _ => K.Through R past (keys ++ [k]))
      fun _ _ => True := by
  refine .of_cases (fun w _ hw hout => ?_) fun _ _ _ _ => trivial
  obtain ⟨hnow, points, hpoints, rfl, hall⟩ := hw
  obtain ⟨call, v, rfl, hsee, hpast⟩ := (h (K.see w.1) w.2).ok ⟨rfl, rfl⟩ hout
  have hafter : R (K.see (m.after w).1) := hsee ▸ hk _ v hnow
  refine ⟨hafter, points ++ [(call, (m.after w).1)], ?_, List.map_append, ?_⟩
  · rw [hpast, hpoints, List.append_assoc]
  · intro p hp
    rcases List.mem_append.mp hp with hp | hp
    · exact hall p hp
    · cases List.mem_singleton.mp hp
      exact hafter

variable (K)

/-- A record that is kept and listed takes two writes. -/
theorem init_through {r : Record} (hrecord : Bears R (recordKey r.id))
    (hlist : Bears R (listKey r.version r.decryptionCondition)) :
    Ensures (K.Through R past keys) (kv.noted.init r)
      (fun _ => K.Through R past
        (keys ++ [recordKey r.id, listKey r.version r.decryptionCondition]))
      fun _ _ => True := by
  refine .bind ((K.claim_writes r).through hrecord) fun _ => ?_
  refine ((K.enlist_writes r).through hlist).mono (fun _ hw => hw) (fun _ _ hw => ?_)
    fun _ _ hw => hw
  rwa [List.append_assoc] at hw

end Contract

/-! ## The outbox over a key-value store -/

/-- **A key-value store that refuses nothing serves the outbox**, whatever its entries are. -/
theorem Contract.served (K : kv.Contract fun _ => False) :
    Outbox.Served kv.backend fun c _ s => contents (K.see s) = c where
  store c _ key raw := by
    rintro s rfl
    have hstore : Ensures (K.see · = K.see s) (kv.store Record.outbox key raw)
        (fun _ u => contents (K.see u) = (contents (K.see s)).withValue Record.outbox.id key raw)
        fun _ _ => False := by
      refine .bind ((K.put _ _ raw).mono (fun _ hs => hs) (fun _ _ hs => hs) fun _ _ hs => hs.1)
        fun _ => .pure fun u hu => ?_
      rw [hu, contents_update_valueKey Outbox.outbox_id_ne_mempool]
    exact hstore s rfl
  retrieve c _ key := by
    rintro s rfl
    have hvalue := values_contents (K.see s) Outbox.outbox_id_ne_mempool key
    refine ((retrieve_unknown K Record.outbox key).mono (fun _ hs => hs) (fun v u hu => ?_)
      fun e u hu => ?_) s rfl
    · exact ⟨hvalue.trans hu.1, by rw [hu.2]⟩
    · obtain ⟨hfault | ⟨hnone, rfl⟩, hu⟩ := hu
      · exact hfault.elim
      · exact ⟨⟨hvalue.trans hnone, isNotFound_unknown ..⟩, by rw [hu]⟩

/-- What a step ensures, one that notes its writes ensures as well. -/
theorem ensures_noted {m : Step σ α} {n : Step (σ × History σ) α}
    (h : Step.Simulates (fun s w => w.1 = s) m n)
    {P : σ → Prop} {Q : α → σ → Prop} {E : StoreError → σ → Prop} (hm : Ensures P m Q E) :
    Ensures (fun w => P w.1) n (fun a w => Q a w.1) fun e w => E e w.1 := by
  refine .of_cases (fun w a hw hout => ?_) fun w e hw hout => ?_
  · obtain ⟨hsame, hafter⟩ := h w.1 w rfl
    rw [hafter]
    exact hm.ok hw (hsame.symm.trans hout)
  · obtain ⟨hsame, hafter⟩ := h w.1 w rfl
    rw [hafter]
    exact hm.error hw (hsame.symm.trans hout)

/-- **The writes of the outbox**, in order, are those under the outbox record. -/
theorem Contract.served_noted (K : kv.Contract fun _ => False) :
    Outbox.Served kv.noted.backend fun c keys w =>
      contents (K.see w.1) = c ∧ w.2.map (·.1.subject) = keys.map (valueKey Record.outbox.id) where
  store c keys key raw := by
    have hsee := ensures_noted ((simulates_noted kv).store Record.outbox key raw)
      (K.served.store c [] key raw)
    have hpast : Ensures (fun w => w.2.map (·.1.subject) = keys.map (valueKey Record.outbox.id))
        (kv.noted.store Record.outbox key raw)
        (fun _ w => w.2.map (·.1.subject) = (keys ++ [key]).map (valueKey Record.outbox.id))
        fun _ _ => True := by
      refine .of_cases (fun w _ hw hout => ?_) fun _ _ _ _ => trivial
      obtain ⟨call, _, hcall, -, hpast⟩ :=
        (K.store_writes Record.outbox key raw (K.see w.1) w.2).ok ⟨rfl, rfl⟩ hout
      rw [hpast, List.map_append, hw, List.map_append, List.map_singleton, hcall,
        List.map_singleton]
    exact (hsee.and hpast).mono (fun _ hw => hw) (fun _ _ hw => hw) fun _ _ hw => hw.1
  retrieve c keys key := by
    have hsee := ensures_noted ((simulates_noted kv).retrieve Record.outbox key)
      (K.served.retrieve c [] key)
    have hpast : Keeps (fun w => w.2.map (·.1.subject) = keys.map (valueKey Record.outbox.id))
        (kv.noted.retrieve Record.outbox key) :=
      retrieve_keeps (fun _ => .of_cases (fun _ _ hw _ => hw) fun _ _ hw _ => hw) _ _
    exact (hsee.and hpast).mono (fun _ hw => hw) (fun _ _ hw => ⟨hw.1.1, hw.1.2, hw.2⟩)
      fun _ _ hw => ⟨hw.1.1, hw.1.2, hw.2⟩

end KeyValue
end SealedStore

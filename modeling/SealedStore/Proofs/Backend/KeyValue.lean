import SealedStore.Proofs.Backend.Contract
import SealedStore.Proofs.Backend.Entries

/-! # Records over a key-value store keep the contract

A key-value store may refuse calls.  `KeyValue.Contract kv F` says that its errors are among `F`,
and one proof for each operation of the backend serves every `F`: with errors that say nothing of
records it gives `Contract.backend`, with none at all `Contract.backend_reliable`.

A record is claimed before it is listed, each in a call of its own.  So a record that could not be
listed is there, and no list names a record that is not.
-/
namespace SealedStore.KeyValue

open Step

variable {σ ρ ω : Type} {t : String → Option Bytes}

/-! ## What a key-value store promises -/

/-- **The contract of a key-value store** whose errors are among `F`: a call that
fails does nothing. -/
structure Contract (kv : KeyValue σ) (F : StoreError → Prop) where
  see : σ → String → Option Bytes
  start : ∀ t, Ensures (see · = t) kv.start (fun _ s => see s = t) fun e s => F e ∧ see s = t
  stop : ∀ t, Ensures (see · = t) kv.stop (fun _ s => see s = t) fun e s => F e ∧ see s = t
  get : ∀ t k, Ensures (see · = t) (kv.get k) (fun v s => v = t k ∧ see s = t)
    fun e s => F e ∧ see s = t
  put : ∀ t k v, Ensures (see · = t) (kv.put k v) (fun _ s => see s = update t k v)
    fun e s => F e ∧ see s = t
  putIfAbsent : ∀ t k v, Ensures (see · = t) (kv.putIfAbsent k v)
    (fun made s => if made then t k = none ∧ see s = update t k v else t k ≠ none ∧ see s = t)
    fun e s => F e ∧ see s = t

/-- Errors that say nothing of records and keys. -/
def Mute (F : StoreError → Prop) : Prop :=
  ∀ e, F e → e.isAlreadyPresent = false ∧ e.isNotFound = false

variable {kv : KeyValue σ} {F : StoreError → Prop} (K : kv.Contract F)

/-! ## What the backend's operations do -/

/-- Why a value that is not there cannot be retrieved. -/
def unknown (t : String → Option Bytes) (id : RecordId) (key : String) : StoreError :=
  if id = Record.mempool.id ∨ (t (recordKey id)).isSome then .keyNotFound id key
  else .recordNotFound id

theorem isNotFound_unknown (t : String → Option Bytes) (id : RecordId) (key : String) :
    (unknown t id key).isNotFound = true := by
  unfold unknown
  split <;> rfl

theorem Readable.unknown_eq_missing (ht : Readable t) {id : RecordId} (hid : id ≠ Record.mempool.id)
    (key : String) : unknown t id key = Backend.Contract.missing (contents t) id key := by
  have hrecord : (t (recordKey id)).isSome = ((contents t).records id).isSome := by
    rw [Bool.eq_iff_iff, Option.isSome_iff_ne_none, Option.isSome_iff_ne_none, ne_eq, ne_eq,
      ht.records_eq_none_iff]
  simp [unknown, Backend.Contract.missing, hid, hrecord]

/-- A retrieval does not ask whether records and lists can be read. -/
theorem retrieve_unknown (r : Record) (key : String) : Ensures (K.see · = t) (kv.retrieve r key)
    (fun v s => t (valueKey r.id key) = some v ∧ K.see s = t)
    fun e s => (F e ∨ t (valueKey r.id key) = none ∧ e = unknown t r.id key) ∧ K.see s = t := by
  refine .bind ((K.get t _).mono (fun _ hs => hs) (fun _ _ hs => hs)
    fun _ _ hs => ⟨.inl hs.1, hs.2⟩) fun v => .of_fact fun hv => ?_
  cases v with
  | some v => exact .pure fun _ hs => ⟨hv.symm, hs⟩
  | none =>
    show Ensures _ (if r.id = Record.mempool.id then _ else _) _ _
    split
    · next hid => exact .fail fun _ hs => ⟨.inr ⟨hv.symm, (if_pos (.inl hid)).symm⟩, hs⟩
    · next hid =>
      refine .bind ((K.get t _).mono (fun _ hs => hs) (fun _ _ hs => hs) fun _ _ hs =>
        ⟨.inl hs.1, hs.2⟩) fun held => .of_fact fun hheld => ?_
      cases held with
      | some raw => exact .fail fun _ hs => ⟨.inr ⟨hv.symm, by simp [unknown, ← hheld]⟩, hs⟩
      | none => exact .fail fun _ hs => ⟨.inr ⟨hv.symm, by simp [unknown, ← hheld, hid]⟩, hs⟩

theorem retrieve_ensures (ht : Readable t) (r : Record) (key : String) :
    Ensures (K.see · = t) (kv.retrieve r key)
      (fun v s => t (valueKey r.id key) = some v ∧ K.see s = t)
      fun e s => (F e ∨ t (valueKey r.id key) = none ∧ e.isNotFound = true ∧
        (r.id ≠ Record.mempool.id → e = Backend.Contract.missing (contents t) r.id key)) ∧
          K.see s = t := by
  refine (retrieve_unknown K r key).mono (fun _ hs => hs) (fun _ _ hs => hs) fun e s hs =>
    ⟨hs.1.imp_right fun ⟨hnone, he⟩ => ⟨hnone, ?_, fun hid => ?_⟩, hs.2⟩
  · rw [he, isNotFound_unknown]
  · rw [he, ht.unknown_eq_missing hid]

theorem fetch_ensures (ht : Readable t) (id : RecordId) : Ensures (K.see · = t) (kv.fetch id)
    (fun r s => (contents t).records id = some r ∧ K.see s = t)
    fun e s => (F e ∨ (contents t).records id = none ∧ e = .recordNotFound id) ∧ K.see s = t := by
  refine .bind ((K.get t _).mono (fun _ hs => hs) (fun _ _ hs => hs)
    fun _ _ hs => ⟨.inl hs.1, hs.2⟩) fun held => .of_fact fun hheld => ?_
  cases held with
  | none => exact .fail fun _ hs => ⟨.inr ⟨ht.records_eq_none_iff.mpr hheld.symm, rfl⟩, hs⟩
  | some raw =>
    obtain ⟨r, hr⟩ := Option.ne_none_iff_exists'.mp (ht.record id raw hheld.symm)
    have hrecord : (contents t).records id = some r := by
      show (t (recordKey id)).bind Record.decode? = _
      rw [← hheld, Option.bind_some, hr]
    show Ensures _ (ofExcept (decoded (Record.decode? raw))) _ _
    rw [hr]
    exact .pure fun _ hs => ⟨hrecord, hs⟩

theorem claim_ensures (r : Record) : Ensures (K.see · = t) (kv.claim r)
    (fun _ s => t (recordKey r.id) = none ∧ K.see s = update t (recordKey r.id) r.encode)
    fun e s => (F e ∨ t (recordKey r.id) ≠ none ∧ e = .recordAlreadyPresent r.id) ∧
      K.see s = t := by
  refine .bind ((K.putIfAbsent t _ _).mono (fun _ hs => hs) (fun _ _ hs => hs) fun _ _ hs =>
    ⟨.inl hs.1, hs.2⟩) fun made => ?_
  cases made with
  | true => exact .pure fun _ hs => hs
  | false => exact .fail fun _ hs => ⟨.inr ⟨hs.1, rfl⟩, hs.2⟩

theorem readIndex_ensures (hF : Mute F) (ht : Readable t) (space : String) (block : BitVec 64) :
    Ensures (K.see · = t) (kv.readIndex (indexKey space block))
      (fun ids s => ids = listed t space block ∧ K.see s = t) fun e s => F e ∧ K.see s = t := by
  refine .bind (retrieve_ensures K ht Record.mempool _).attempt_cases
    fun found => .of_fact fun hfound => ?_
  cases found with
  | ok raw =>
    have hraw : t (listKey space block) = some raw := hfound.1 raw rfl
    obtain ⟨ids, hids⟩ := Option.ne_none_iff_exists'.mp (ht.list space block raw hraw)
    have hlisted : ids = listed t space block := by
      rw [listed, hraw, Option.bind_some, hids, Option.getD_some]
    show Ensures _ (ofExcept (decoded (decodeList? 16 raw))) _ _
    rw [hids]
    exact .pure fun _ hs => ⟨hlisted, hs⟩
  | error e =>
    show Ensures _ (if e.isNotFound then _ else _) _ _
    -- an error of the store itself is not taken for a missing list
    rcases hfound.2 e rfl with hfault | ⟨hnone, hnotFound, -⟩
    · rw [(hF e hfault).2]
      exact .fail fun _ hs => ⟨hfault, hs⟩
    · rw [if_pos hnotFound]
      have hlisted : listed t space block = [] := by
        rw [listed, listKey, hnone, Option.bind_none, Option.getD_none]
      exact .pure fun _ hs => ⟨hlisted.symm, hs⟩

theorem writeIndex_ensures (space : String) (block : BitVec 64) (ids : List RecordId) :
    Ensures (K.see · = t) (kv.writeIndex (indexKey space block) ids)
      (fun _ s => K.see s = update t (listKey space block) (encodeList ids))
        fun e s => F e ∧ K.see s = t :=
  .bind (.bind (K.put t _ _) fun _ => .pure fun _ hs => hs) fun _ => .pure fun _ hs => hs

theorem enlist_ensures (hF : Mute F) (ht : Readable t) (r : Record) :
    Ensures (K.see · = t) (kv.enlist r)
    (fun _ s => K.see s = update t (listKey r.version r.decryptionCondition)
      (encodeList (listedWith (listed t r.version r.decryptionCondition) r.id)))
    fun e s => F e ∧ K.see s = t := by
  refine .bind (readIndex_ensures K hF ht _ _) fun ids => .of_fact fun hids => ?_
  rw [hids]
  exact writeIndex_ensures K _ _ _

/-- A record is kept and listed, or is there already, or is left unlisted. -/
theorem init_ensures (hF : Mute F) (ht : Readable t) (r : Record) :
    Ensures (K.see · = t) (kv.init r) (fun _ s => t (recordKey r.id) = none ∧ Readable (K.see s) ∧
      contents (K.see s) = (contents t).withRecord r)
    fun e s => (F e ∨ t (recordKey r.id) ≠ none ∧ e = .recordAlreadyPresent r.id) ∧
      Readable (K.see s) ∧ (contents t).Tried r (contents (K.see s)) := by
  refine .bind ((claim_ensures K r).mono (fun _ hs => hs) (fun _ _ hs => hs) fun e s hs => ?_)
    fun _ => .of_fact fun hnone => ?_
  · rw [hs.2]
    exact ⟨hs.1, ht, .nothing⟩
  · have hclaimed := ht.update_recordKey r
    refine (enlist_ensures K hF hclaimed r).mono (fun _ hs => hs) (fun _ s hs => ?_)
      fun e s hs => ?_
    · -- a listed id has a record, so the list gains the id
      have hnew : r.id ∉ listed t r.version r.decryptionCondition := fun hid =>
        ht.present _ _ _ hid hnone
      have hwith : listedWith (listed t r.version r.decryptionCondition) r.id =
          listed t r.version r.decryptionCondition ++ [r.id] := if_neg (by simpa using hnew)
      rw [listed_update_recordKey, hwith] at hs
      refine ⟨hnone, ?_, ?_⟩
      · rw [hs]
        refine hclaimed.update_listKey fun id hid => ?_
        rcases List.mem_append.mp hid with hid | hid
        · exact hclaimed.present _ _ id (listed_update_recordKey r.id _ ▸ hid)
        · rw [List.mem_singleton.mp hid, update_self]
          exact nofun
      · have hcontents := contents_update_listKey (t := update t (recordKey r.id) r.encode) r
        rw [listed_update_recordKey, contents_update_recordKey] at hcontents
        rw [hs, hcontents]
        rfl
    · -- the record was claimed, the list was not written
      rw [hs.2]
      refine ⟨.inl hs.1, hclaimed, ?_⟩
      rw [contents_update_recordKey]
      exact .unlisted (ht.records_eq_none_iff.mpr hnone)

/-- Records that are listed and not there are passed over. -/
theorem fetchAll_ensures (hF : Mute F) (ht : Readable t) (ids : List RecordId) :
    Ensures (K.see · = t) (kv.fetchAll ids)
      (fun rs s => rs = ids.filterMap (contents t).records ∧ K.see s = t)
        fun e s => F e ∧ K.see s = t := by
  induction ids with
  | nil => exact .pure fun _ hs => ⟨rfl, hs⟩
  | cons id ids ih =>
    refine .bind (fetch_ensures K ht id).attempt_cases fun found => .of_fact fun hfound => ?_
    cases found with
    | ok r =>
      refine .bind ih fun rs => .pure fun s hs => ⟨?_, hs.2⟩
      rw [List.filterMap_cons_some (hfound.1 r rfl), hs.1]
    | error e =>
      rcases hfound.2 e rfl with hfault | ⟨hnone, rfl⟩
      · cases e with
        | recordNotFound _ => exact absurd (hF _ hfault).2 (by simp [StoreError.isNotFound])
        | _ => exact .fail fun _ hs => ⟨hfault, hs⟩
      · rw [List.filterMap_cons_none hnone]
        exact ih

theorem list_ensures (hF : Mute F) (ht : Readable t) (block : BitVec 64) (space : String) :
    Ensures (K.see · = t) (kv.list block space)
      (fun rs s => rs = (listed t space block).filterMap (contents t).records ∧ K.see s = t)
      fun e s => F e ∧ K.see s = t := by
  refine .bind (readIndex_ensures K hF ht space block) fun ids => .of_fact fun hids => ?_
  rw [hids]
  exact fetchAll_ensures K hF ht _

/-! ## The contract of the backend -/

namespace Contract

/-- The records and values that a key-value store holds. -/
def view : Contents.View σ := ⟨fun s => contents (K.see s), fun s => Readable (K.see s)⟩

/-- What a step does to entries it does to the contents read off them. -/
theorem ensures_view {α : Type} {c : Contents} {m : Step σ α} {Q : α → σ → Prop}
    {E : StoreError → σ → Prop}
    (h : ∀ t, Readable t → contents t = c → Ensures (K.see · = t) m Q E) :
    Ensures (K.view.Holds c) m Q E := by
  rintro s ⟨hs, hc⟩
  exact h _ hs hc s rfl

theorem holds_of_see (ht : Readable t) {s : σ} (hs : K.see s = t) :
    K.view.Holds (contents t) s := by
  subst hs
  exact ⟨ht, rfl⟩

/-- A step that changes no entry. -/
theorem keeps_view {α : Type} {c : Contents} {m : Step σ α}
    (h : ∀ t, Ensures (K.see · = t) m (fun _ s => K.see s = t) fun e s => F e ∧ K.see s = t) :
    Keeps (K.view.Holds c) m := by
  refine K.ensures_view fun t ht hc => ?_
  subst hc
  exact (h t).mono (fun _ hs => hs) (fun _ _ hs => K.holds_of_see ht hs) fun _ _ hs =>
    K.holds_of_see ht hs.2

/-- **Records over a key-value store keep the contract of a backend**, provided that the store's own
errors do not say that a record is present or that something is unknown. -/
def backend (hF : Mute F) : (KeyValue.backend kv).Contract where
  toView := K.view
  start _ := K.keeps_view K.start
  stop _ := K.keeps_view K.stop
  init c r := by
    refine K.ensures_view fun t ht hc => ?_
    subst hc
    refine (init_ensures K hF ht r).mono (fun _ hs => hs) (fun _ s hs => ?_) fun e s hs => ?_
    · exact ⟨ht.records_eq_none_iff.mpr hs.1, hs.2⟩
    · obtain ⟨herr, hreadable, htried⟩ := hs
      refine ⟨_, htried, fun hpresent => ?_, hreadable, rfl⟩
      rcases herr with hfault | ⟨hheld, -⟩
      · rw [(hF e hfault).1] at hpresent
        cases hpresent
      · exact fun h => hheld (ht.records_eq_none_iff.mp h)
  store c r key value hr := by
    refine K.ensures_view fun t ht hc => ?_
    subst hc
    refine .bind ((K.put t _ _).mono (fun _ hs => hs) (fun _ _ hs => hs) fun _ _ hs =>
      K.holds_of_see ht hs.2) fun _ => .pure fun s hs => ⟨rfl, ?_⟩
    rw [← contents_update_valueKey hr]
    exact K.holds_of_see (ht.update_valueKey hr key value) hs
  retrieve c r key := by
    refine K.ensures_view fun t ht hc => ?_
    subst hc
    refine (retrieve_ensures K ht r key).mono (fun _ hs => hs) (fun v s hs => ?_) fun e s hs => ?_
    · exact ⟨fun hr => (values_contents t hr key).trans hs.1, K.holds_of_see ht hs.2⟩
    · refine ⟨fun hr hnotFound => ?_, K.holds_of_see ht hs.2⟩
      rcases hs.1 with hfault | ⟨hnone, -⟩
      · rw [(hF e hfault).2] at hnotFound
        cases hnotFound
      · exact (values_contents t hr key).trans hnone
  fetch c id := by
    refine K.ensures_view fun t ht hc => ?_
    subst hc
    exact (fetch_ensures K ht id).mono (fun _ hs => hs)
      (fun _ _ hs => ⟨hs.1, K.holds_of_see ht hs.2⟩) fun _ _ hs => K.holds_of_see ht hs.2
  list c block space := by
    refine K.ensures_view fun t ht hc => ?_
    subst hc
    exact (list_ensures K hF ht block space).mono (fun _ hs => hs)
      (fun _ _ hs => ⟨hs.1, K.holds_of_see ht hs.2⟩) fun _ _ hs => K.holds_of_see ht hs.2

end Contract

theorem mute_false : Mute fun _ => False := nofun

/-- The record under an id, read off one entry whatever the others are. -/
def recordAt (t : String → Option Bytes) (id : RecordId) : Except StoreError Record :=
  match t (recordKey id) with
  | some raw => decoded (Record.decode? raw)
  | none => .error (.recordNotFound id)

/-- **A record is fetched from its own entry**, also where entries are not readable. -/
theorem Contract.gives_fetch (K : kv.Contract fun _ => False)
    (t : String → Option Bytes) (id : RecordId) :
    Gives (K.see · = t) (kv.fetch id) (recordAt t id) := by
  have hget : Gives (K.see · = t) (kv.get (recordKey id)) (.ok (t (recordKey id))) :=
    (K.get t _).mono (fun _ hs => hs) (fun _ _ hs => ⟨congrArg _ hs.1.symm, hs.2⟩)
      fun _ _ hs => hs.1.elim
  show Gives _ _ (Except.ok (t (recordKey id)) >>= fun _ => recordAt t id)
  refine hget.bind fun held hheld => ?_
  rw [recordAt, Except.ok.inj hheld]
  cases held with
  | none => exact .fail _
  | some raw => exact .ofExcept _

/-- **Records over a key-value store that refuses nothing** are kept reliably. -/
theorem Contract.backend_reliable (K : kv.Contract fun _ => False) :
    (K.backend mute_false).Reliable where
  start s _ := by
    cases hout : kv.start.outcome s with
    | ok _ => exact hout
    | error e => exact ((K.start _).error rfl hout).1.elim
  stop s _ := by
    cases hout : kv.stop.outcome s with
    | ok _ => exact hout
    | error e => exact ((K.stop _).error rfl hout).1.elim
  init r s hs := by
    have hinit := init_ensures K mute_false hs r
    have hrecord : (contents (K.see s)).records r.id = none ↔ _ := hs.records_eq_none_iff
    show (kv.init r).outcome s = if ((contents (K.see s)).records r.id).isSome then _ else _
    cases hout : (kv.init r).outcome s with
    | ok _ => rw [hrecord.mpr (hinit.ok rfl hout).1]; rfl
    | error e =>
      rcases (hinit.error rfl hout).1 with hfault | ⟨hheld, rfl⟩
      · exact hfault.elim
      · rw [if_pos (Option.isSome_iff_ne_none.mpr fun h => hheld (hrecord.mp h))]
  store r key value s _ _ := by
    have hput : Ensures (K.see · = K.see s) (kv.store r key value) (fun q _ => q = r)
        fun _ _ => False :=
      .bind ((K.put _ _ _).mono (fun _ hs => hs) (fun _ _ _ => trivial) fun _ _ hs => hs.1) fun _ =>
        .pure fun _ _ => rfl
    obtain ⟨q, hout, rfl⟩ := hput.exists_ok rfl
    exact hout
  retrieve r key s hr hs := by
    have hretrieve := retrieve_ensures K hs r key
    have hvalue : ((K.backend mute_false).see s).values r.id key = K.see s (valueKey r.id key) :=
      values_contents _ hr key
    rw [hvalue]
    show (kv.retrieve r key).outcome s = _
    cases hout : (kv.retrieve r key).outcome s with
    | ok v => rw [(hretrieve.ok rfl hout).1]
    | error e =>
      rcases (hretrieve.error rfl hout).1 with hfault | ⟨hnone, -, herr⟩
      · exact hfault.elim
      · rw [hnone, herr hr]
        rfl
  fetch id s hs := by
    have hfetch := fetch_ensures K hs id
    have hrecord : ((K.backend mute_false).see s).records id = (contents (K.see s)).records id :=
      rfl
    rw [hrecord]
    show (kv.fetch id).outcome s = _
    cases hout : (kv.fetch id).outcome s with
    | ok r => rw [(hfetch.ok rfl hout).1]
    | error e =>
      rcases (hfetch.error rfl hout).1 with hfault | ⟨hnone, rfl⟩
      · exact hfault.elim
      · rw [hnone]
  list block space s hs := by
    have hlist := list_ensures K mute_false hs block space
    cases hout : (kv.list block space).outcome s with
    | ok rs => exact hout.trans (congrArg _ (hlist.ok rfl hout).1)
    | error e => exact (hlist.error rfl hout).1.elim

/-! ## Stores that keep the contract -/

/-- A table refuses nothing. -/
def tableContract : ofTable.Contract fun _ => False where
  see := Table.find?
  start _ _ ht := ht
  stop _ _ ht := ht
  get := by
    rintro _ k t rfl
    exact ⟨rfl, rfl⟩
  put := by
    rintro _ k v t rfl
    funext l
    exact t.find?_insert k l v
  putIfAbsent := by
    rintro _ k v t rfl
    by_cases hk : t.contains k = true
    · rw [show ofTable.putIfAbsent k v t = (.ok false, t) from if_pos hk]
      exact ⟨Option.isSome_iff_ne_none.mp hk, rfl⟩
    · rw [show ofTable.putIfAbsent k v t = (.ok true, t.insert k v) from if_neg hk]
      refine ⟨Option.not_isSome_iff_eq_none.mp hk, ?_⟩
      funext l
      exact t.find?_insert k l v

/-- A guarded store keeps the contract, its refusals among the errors. -/
def Contract.guarded (K : kv.Contract F) (gate : Call → Step ω Unit)
    (hgate : ∀ c w e, (gate c).outcome w = .error e → F e) : (kv.guarded gate).Contract F where
  see s := K.see s.1
  start t := (K.start t).behind_check fun e w _ he hs => ⟨hgate _ w e he, hs⟩
  stop t := (K.stop t).behind_check fun e w _ he hs => ⟨hgate _ w e he, hs⟩
  get t k := (K.get t k).behind_check fun e w _ he hs => ⟨hgate _ w e he, hs⟩
  put t k v := (K.put t k v).behind_check fun e w _ he hs => ⟨hgate _ w e he, hs⟩
  putIfAbsent t k v := (K.putIfAbsent t k v).behind_check fun e w _ he hs => ⟨hgate _ w e he, hs⟩

/-- A contract with more errors. -/
def Contract.mono {G : StoreError → Prop} (K : kv.Contract F) (h : ∀ e, F e → G e) :
    kv.Contract G where
  see := K.see
  start t := (K.start t).mono (fun _ hs => hs) (fun _ _ hs => hs) fun e _ hs => hs.imp_left (h e)
  stop t := (K.stop t).mono (fun _ hs => hs) (fun _ _ hs => hs) fun e _ hs => hs.imp_left (h e)
  get t k := (K.get t k).mono (fun _ hs => hs) (fun _ _ hs => hs) fun e _ hs => hs.imp_left (h e)
  put t k v := (K.put t k v).mono (fun _ hs => hs) (fun _ _ hs => hs)
    fun e _ hs => hs.imp_left (h e)
  putIfAbsent t k v := (K.putIfAbsent t k v).mono (fun _ hs => hs) (fun _ _ hs => hs) fun e _ hs =>
    hs.imp_left (h e)

end SealedStore.KeyValue

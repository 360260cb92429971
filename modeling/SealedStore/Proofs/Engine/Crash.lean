import SealedStore.Proofs.Engine.Simulation
import SealedStore.Proofs.Sample.Node

/-! # What a crash leaves in the outbox

Over a key-value store a finalization is a sequence of single writes: the message and the list of
the outbox, each record with its index list, each value (`Engine.OutlastsCrashes.order`).  A crash
may cut it off behind any of them.  As soon as anything of the batch itself is there, its message is
read from what is left, behind all that waited before (`Engine.pending_after_crash`), until the
topic has accepted it.

This is so as long as no write of the batch goes under one of the outbox's own keys, which a draft
never stages; a batch that overwrites the list takes its own message away
(`Engine.crash_drops_pending`).
-/
namespace SealedStore

open Step

variable {σ τ : Type}

namespace KeyValue

/-! ## The writes of a batch -/

/-- Where a commit writes, in order: each record and its list, then each value. -/
def commitKeys (rs : List Record) (ws : List StoreWrite) : List String :=
  (rs.flatMap fun r => [recordKey r.id, listKey r.version r.decryptionCondition]) ++
    ws.map fun w => valueKey w.record.id w.key

/-- Whether a call is about a record or a value of a batch. -/
def Call.IsOfBatch (rs : List Record) (ws : List StoreWrite) (call : Call) : Prop :=
  (∃ r ∈ rs, call.subject = recordKey r.id) ∨ ∃ w ∈ ws, call.subject = valueKey w.record.id w.key

/-- Writes of which none goes under one of the outbox's own keys. -/
def SparesOutbox (ws : List StoreWrite) : Prop :=
  ∀ w ∈ ws, w.record.id = Record.outbox.id → ¬ Outbox.IsOwnKey w.key

/-- Whether the last write was under this key. -/
def EndsAt (k : String) (w : σ × History σ) : Prop :=
  ∃ past, ∃ call : Call, call.subject = k ∧ w.2 = past ++ [(call, w.1)]

theorem Contract.Writes.ends {kv : KeyValue σ} {F : StoreError → Prop}
    {K : kv.Contract F} {α : Type} {m : Step (σ × History σ) α} {k : String} (h : K.Writes m k) :
    Ensures (fun _ => True) m (fun _ => EndsAt k) fun _ _ => True := by
  refine .of_cases (fun w _ _ hout => ?_) fun _ _ _ _ => trivial
  obtain ⟨call, _, hcall, -, hpast⟩ := (h (K.see w.1) w.2).ok ⟨rfl, rfl⟩ hout
  exact ⟨w.2, call, hcall, hpast⟩

/-- A write of the outbox is none of a batch that spares the outbox's own keys. -/
theorem Call.not_isOfBatch {rs : List Record} {ws : List StoreWrite}
    (hws : SparesOutbox ws) {call : Call}
    {key : String} (hcall : call.subject = valueKey Record.outbox.id key)
    (hkey : Outbox.IsOwnKey key) :
    ¬ call.IsOfBatch rs ws := by
  rintro (⟨r, -, hr⟩ | ⟨w, hw, hv⟩)
  · exact recordKey_ne_valueKey _ _ _ (hr.symm.trans hcall)
  · obtain ⟨hid, rfl⟩ := valueKey_injective (hv.symm.trans hcall)
    exact hws w hw hid hkey

/-- Where something of a batch was written, the point is behind the writes that are none of it. -/
theorem mem_of_reached {past points before future : History σ} {point : Call × σ}
    (hsplit : past ++ points = before ++ point :: future) {rs : List Record} {ws : List StoreWrite}
    (hpast : ∀ p ∈ past, ¬ p.1.IsOfBatch rs ws)
    (hreached : ∃ p ∈ before ++ [point], p.1.IsOfBatch rs ws) :
    point ∈ points := by
  rcases List.append_eq_append_iff.mp hsplit with ⟨as, -, rfl⟩ | ⟨bs, rfl, hbs⟩
  · simp
  · cases bs with
    | nil =>
      rw [List.nil_append] at hbs
      simp [← hbs]
    | cons b bs =>
      obtain ⟨rfl, -⟩ := List.cons.inj hbs
      obtain ⟨p, hp, hbatch⟩ := hreached
      refine absurd hbatch (hpast p ?_)
      rcases List.mem_append.mp hp with hp | hp
      · exact List.mem_append_left _ hp
      · exact List.mem_append_right _ (List.mem_singleton.mp hp ▸ List.mem_cons_self)

/-- The messages that wait do not depend on what is kept elsewhere. -/
theorem bears_sameMail (c : Contents) {k : String}
    (hk : ∀ key, Outbox.IsOwnKey key → k ≠ valueKey Record.outbox.id key) :
    Contract.Bears (fun t => c.SameMail (contents t)) k := by
  intro t v h key hkey
  rw [values_contents _ Outbox.outbox_id_ne_mempool, update_of_ne _ _ (hk key hkey),
    ← values_contents t Outbox.outbox_id_ne_mempool, h key hkey]

end KeyValue

namespace Engine

open KeyValue

/-- The writes that a run of an engine makes to its key-value store, each with the
state that it left. -/
def history (e : Engine σ τ) (kv : KeyValue σ)
    (run : Engine (σ × History σ) τ → Step (State (σ × History σ) τ) Unit) (s : State σ τ) :
    History σ :=
  ((run (e.withBackend kv.noted.backend)).after (s.withStorage (s.storage, []))).storage.2

/-- **Noting the writes of a finalization changes nothing.** -/
theorem finalize_noted {kv : KeyValue σ} {e : Engine σ τ} (he : e.backend = kv.backend)
    (tx : Transaction) (rs : List Record) (ws : List StoreWrite) (s : State σ τ) :
    let noted := (e.withBackend kv.noted.backend).finalize tx rs ws
    noted.outcome (s.withStorage (s.storage, [])) = (e.finalize tx rs ws).outcome s ∧
      (noted.after (s.withStorage (s.storage, []))).storage.1 =
        ((e.finalize tx rs ws).after s).storage := by
  have hb : e.backend.Simulates (fun s w => w.1 = s) kv.noted.backend := by
    rw [he]
    exact (simulates_noted kv).backend
  obtain ⟨hout, storage, hstorage, hafter⟩ :=
    finalize_simulates hb tx rs ws s (s.withStorage (s.storage, [])) ⟨_, rfl, rfl⟩
  refine ⟨hout, ?_⟩
  rw [hafter]
  exact hstorage

section
variable {kv : KeyValue σ} (K : kv.Contract fun _ => False) {e : Engine (σ × History σ) τ}
  (he : e.backend = kv.noted.backend) {R : (String → Option Bytes) → Prop}

/-- A state whose storage came through these writes since `past`. -/
abbrev Through (R : (String → Option Bytes) → Prop) (past : History σ) (keys : List String)
    (s : State (σ × History σ) τ) : Prop := K.Through R past keys s.storage

include he in
/-- **A commit writes each record and its list, then each value**, and what all of this leaves alone
holds at each write. -/
theorem commit_through {rs : List Record} {ws : List StoreWrite}
    (hR : ∀ k ∈ commitKeys rs ws, Contract.Bears R k) (past : History σ) :
    Ensures (Through K R past []) (e.commit rs ws) (fun _ => Through K R past (commitKeys rs ws))
      fun _ _ => True := by
  have hrecords : ∀ r ∈ rs, ∀ k ∈ [recordKey r.id, listKey r.version r.decryptionCondition],
      Contract.Bears R k := fun r hr k hk =>
    hR k (List.mem_append_left _ (List.mem_flatMap.mpr ⟨r, hr, hk⟩))
  have hvalues : ∀ w ∈ ws, Contract.Bears R (valueKey w.record.id w.key) := fun w hw =>
    hR _ (List.mem_append_right _ (List.mem_map.mpr ⟨w, hw, rfl⟩))
  refine commit_calls (P := fun records values => K.Through R past (commitKeys records values))
    (F := fun _ _ => True) (fun before r rest hrs => ?_) fun before w rest hw => ?_
  · have hr : r ∈ rs := hrs ▸ List.mem_append_right _ List.mem_cons_self
    rw [he]
    refine (K.init_through (hrecords r hr _ (by simp)) (hrecords r hr _ (by simp))).mono
      (fun _ hs => hs) (fun _ s hs => ?_) fun _ _ hs => hs
    simpa [commitKeys] using hs
  · have hmem : w ∈ ws := hw ▸ List.mem_append_right _ List.mem_cons_self
    rw [he]
    refine ((K.store_writes w.record w.key w.value).through (hvalues w hmem)).mono (fun _ hs => hs)
      (fun _ s hs => ?_) fun _ _ hs => hs
    simpa [commitKeys] using hs

include K he in
/-- A commit ends in its last value. -/
theorem commit_ends (rs : List Record) {ws : List StoreWrite} {w : StoreWrite}
    (hw : ws.getLast? = some w) :
    Ensures (fun _ => True) (e.commit rs ws)
      (fun _ s => EndsAt (valueKey w.record.id w.key) s.storage) fun _ _ => True := by
  refine (commit_calls (P := fun _ values s => ∀ v, values.getLast? = some v →
      EndsAt (valueKey v.record.id v.key) s) (F := fun _ _ => True) (fun _ r _ _ => ?_)
    fun before v _ _ => ?_).mono (fun _ _ => nofun) (fun _ _ hs => hs w hw) fun _ _ hs => hs
  · exact (Ensures.nothing _).mono (fun _ hs => trivial) (fun _ _ _ => nofun) fun _ _ hs => hs
  · rw [he]
    refine (K.store_writes v.record v.key v.value).ends.mono (fun _ _ => trivial)
      (fun _ s hs x hx => ?_) fun _ _ _ => trivial
    rw [List.getLast?_concat] at hx
    cases hx
    exact hs

include K he in
theorem finalize_ends (tx : Transaction) (rs : List Record) {ws : List StoreWrite} {w : StoreWrite}
    (hw : ws.getLast? = some w) :
    Ensures (fun _ => True) (e.finalize tx rs ws)
      (fun _ s => EndsAt (valueKey w.record.id w.key) s.storage) fun _ _ => True := by
  refine (finalize_ensures (F := fun _ => True)
    (S := fun _ s => EndsAt (valueKey w.record.id w.key) s.storage) (D := fun _ _ _ => True)
    (K := fun _ _ s => EndsAt (valueKey w.record.id w.key) s.storage) (A := fun _ _ _ => True)
    (fun _ _ _ => trivial) (fun _ _ => .nothing _) (fun _ _ => commit_ends K he rs hw)
    (fun _ _ _ => .nothing _) fun _ _ _ _ hs => hs).mono (fun _ hs => hs) (fun _ _ hs => ?_)
    fun _ _ hs => hs
  obtain ⟨_, -, hs⟩ := hs
  exact hs

/-- Over the noted store, the message was put into the outbox first, and each write of the commit
left the outbox as the push did. -/
def Mailed (c : Contents) (m : Message) (rs : List Record) (ws : List StoreWrite)
    (s : State (σ × History σ) τ) : Prop :=
  ∃ ds past, c.digests? = some ds ∧
    past.map (·.1.subject) = (Outbox.pushKeys ds m.digest).map (valueKey Record.outbox.id) ∧
    Through K (fun t => (c.pushed ds m).SameMail (contents t)) past (commitKeys rs ws) s

include he in
theorem finalize_mailed (hkeeps : e.keepsOutbox = true) {tx : Transaction} {rs : List Record}
    {ws : List StoreWrite} {m : Message} (hm : e.Composes tx ws (some m)) (hws : SparesOutbox ws)
    (c : Contents) :
    Ensures (fun s => contents (K.see s.storage.1) = c ∧ s.storage.2 = []) (e.finalize tx rs ws)
      (fun _ => Mailed K c m rs ws) fun _ _ => True := by
  refine (finalize_ensures (F := fun _ => True) (S := fun _ => Mailed K c m rs ws)
    (D := fun _ _ s => ∃ ds, c.digests? = some ds ∧ contents (K.see s.storage.1) = c.pushed ds m ∧
      s.storage.2.map (·.1.subject) = (Outbox.pushKeys ds m.digest).map (valueKey Record.outbox.id))
    (K := fun _ _ => Mailed K c m rs ws) (A := fun _ _ _ => True)
    (fun _ _ _ => trivial) ?_ ?_ ?_ fun _ _ _ _ hs => hs).mono (fun _ hs => hs) (fun _ _ hs => ?_)
    fun _ _ hs => hs
  · intro message hmessage
    cases hm.unique hmessage
    unfold deposit
    show Ensures _ (if e.keepsOutbox then _ else _) _ _
    rw [if_pos hkeeps, he]
    refine .bind ((onStorage_ensures (K.served_noted.push c [] m)).mono (fun s hs => ?_)
      (fun _ _ hs => hs) fun _ _ _ => trivial) fun d => .pure fun s hs => hs.2
    exact ⟨hs.1, by rw [hs.2]; rfl⟩
  · intro message digest
    refine .of_exists fun ds => .of_fact fun hds => ?_
    rintro s ⟨hsee, hpast⟩
    have hnow : (c.pushed ds m).SameMail (contents (K.see s.storage.1)) := fun _ _ => by rw [hsee]
    refine ((commit_through K he (R := fun t => (c.pushed ds m).SameMail (contents t))
      ?_ s.storage.2).mono (fun _ hs => hs) (fun _ u hu => ?_) fun _ _ hs => hs) s (.nil hnow)
    · -- none of these keys is the outbox's own
      intro k hk
      refine bears_sameMail _ fun key hkey => ?_
      rintro rfl
      rcases List.mem_append.mp hk with hk | hk
      · obtain ⟨r, -, hk⟩ := List.mem_flatMap.mp hk
        rcases List.mem_pair.mp hk with hk | hk
        · exact recordKey_ne_valueKey _ _ _ hk.symm
        · exact valueKey_ne_listKey Outbox.outbox_id_ne_mempool _ _ _ hk
      · obtain ⟨w, hw, hk⟩ := List.mem_map.mp hk
        obtain ⟨hid, rfl⟩ := valueKey_injective hk
        exact hws w hw hid hkey
    · exact ⟨ds, s.storage.2, hds, hpast, hu⟩
  · exact fun _ _ _ => .nothing _
  · obtain ⟨_, -, hs⟩ := hs
    exact hs

end

/-- The last state of the history of a batch is the one that its finalization ends in. -/
theorem history_finalize_ends {kv : KeyValue σ} (K : kv.Contract fun _ => False) {e : Engine σ τ}
    (he : e.backend = kv.backend) {tx : Transaction} {rs : List Record} {ws : List StoreWrite}
    {w : StoreWrite} (hw : ws.getLast? = some w) {s : State σ τ}
    (hok : (e.finalize tx rs ws).outcome s = .ok ()) :
    ∃ past, ∃ call : KeyValue.Call, call.subject = valueKey w.record.id w.key ∧
      e.history kv (·.finalize tx rs ws) s = past ++
        [(call, ((e.finalize tx rs ws).after s).storage)] := by
  obtain ⟨hout, hstorage⟩ := finalize_noted he tx rs ws s
  obtain ⟨past, call, hcall, hpast⟩ :=
    (finalize_ends K (e := e.withBackend kv.noted.backend) rfl tx rs hw).ok trivial (hout.trans hok)
  refine ⟨past, call, hcall, ?_⟩
  rw [history, hpast, hstorage]

/-! ## The publication -/

theorem storage_publish_of_refused {e : Engine σ τ} {m : Message} {s : State σ τ} {err : StoreError}
    (h : (e.topic.publish m).outcome s.topic = .error err) :
    ((e.publish m).after s).storage = s.storage := by
  obtain ⟨t, hpublish⟩ : ∃ t, e.topic.publish m s.topic = (.error err, t) := ⟨_, Prod.ext h rfl⟩
  simp [publish, Step.after, bind_apply, onTopic, count, hpublish]

theorem storage_publish_of_accepted {e : Engine σ τ} (hkeeps : e.keepsOutbox = true) {m : Message}
    {s : State σ τ} (h : (e.topic.publish m).outcome s.topic = .ok ()) :
    ((e.publish m).after s).storage = (Outbox.acknowledge e.backend m.digest).after s.storage := by
  obtain ⟨t, hpublish⟩ : ∃ t, e.topic.publish m s.topic = (.ok (), t) := ⟨_, Prod.ext h rfl⟩
  simp [publish, Step.after, bind_apply, onTopic, onStorage, count, hpublish, hkeeps]

theorem history_publish_of_refused {e : Engine σ τ} (kv : KeyValue σ) {m : Message} {s : State σ τ}
    {err : StoreError} (h : (e.topic.publish m).outcome s.topic = .error err) :
    e.history kv (·.publish m) s = [] :=
  congrArg Prod.snd (storage_publish_of_refused (e := e.withBackend kv.noted.backend)
    (s := s.withStorage (s.storage, [])) h)

theorem history_publish_of_accepted {kv : KeyValue σ}
    (K : kv.Contract fun _ => False) {e : Engine σ τ}
    (hkeeps : e.keepsOutbox = true) {m : Message} {s : State σ τ} {ds : List (Octets 32)}
    (hds : (contents (K.see s.storage)).digests? = some ds) (hm : m.digest ∈ ds)
    (h : (e.topic.publish m).outcome s.topic = .ok ()) :
    (e.history kv (·.publish m) s).map (·.1.subject) =
      [valueKey Record.outbox.id Outbox.pendingKey,
        valueKey Record.outbox.id (Outbox.messageKey m.digest)] := by
  have hstorage :
      ((e.withBackend kv.noted.backend).publish m |>.after
        (s.withStorage (s.storage, []))).storage =
      (Outbox.acknowledge kv.noted.backend m.digest).after (s.storage, []) :=
    storage_publish_of_accepted (e := e.withBackend kv.noted.backend) hkeeps h
  have hacknowledge := K.served_noted.acknowledge (contents (K.see s.storage)) [] m.digest
  rw [history, hstorage]
  cases hout : (Outbox.acknowledge kv.noted.backend m.digest).outcome (s.storage, []) with
  | ok _ =>
    obtain ⟨ks, hks, -, hkeys⟩ := hacknowledge.ok ⟨rfl, rfl⟩ hout
    cases hds.symm.trans hks
    rw [hkeys, Outbox.acknowledgeKeys, if_pos hm]
    rfl
  | error _ =>
    have hnone := (hacknowledge.error ⟨rfl, rfl⟩ hout).1
    rw [hds] at hnone
    cases hnone

/-! ## Crashes -/

/-- **What is left by a crash**, given the writes of a finalization, the state that it ends in, and
the messages that waited before it. -/
structure OutlastsCrashes (e : Engine σ τ) (kv : KeyValue σ) (rs : List Record)
    (ws : List StoreWrite) (m : Message) (old : List Message) (writes : History σ) (u : State σ τ) :
    Prop where
  /-- The message is written before the list, and both before anything of the batch. -/
  order : writes.map (·.1.subject) = valueKey Record.outbox.id (Outbox.messageKey m.digest) ::
    valueKey Record.outbox.id Outbox.pendingKey :: commitKeys rs ws
  /-- The last of these writes leaves the state in which the message is handed to publication. -/
  last : ∃ past call, writes = past ++ [(call, u.storage)]
  /-- Behind any write, once there was one of a record or a value of the batch. -/
  crashed : ∀ past point future, writes = past ++ point :: future →
    (∃ p ∈ past ++ [point], p.1.IsOfBatch rs ws) →
    (Outbox.pending kv.backend).outcome point.2 = .ok (old ++ [m])
  /-- Behind a publication that the topic refused. -/
  refused : ∀ err, (e.topic.publish m).outcome u.topic = .error err →
    e.history kv (·.publish m) u = [] ∧
      (Outbox.pending kv.backend).outcome ((e.publish m).after u).storage = .ok (old ++ [m])
  /-- The message leaves the outbox behind a publication that the topic accepted,
  first off the list. -/
  accepted : (e.topic.publish m).outcome u.topic = .ok () →
    (e.history kv (·.publish m) u).map (·.1.subject) = [valueKey Record.outbox.id Outbox.pendingKey,
      valueKey Record.outbox.id (Outbox.messageKey m.digest)]

/-- **No crash loses the message of a batch that has begun to be committed.** -/
theorem pending_after_crash {kv : KeyValue σ} (K : kv.Contract fun _ => False) {e : Engine σ τ}
    (he : e.backend = kv.backend) (hkeeps : e.keepsOutbox = true) {tx : Transaction}
    {rs : List Record} {ws : List StoreWrite} {m : Message} (hm : e.Composes tx ws (some m))
    (hws : SparesOutbox ws) {s : State σ τ}
    (hfresh : ∀ ds, (Outbox.readPending kv.backend).outcome s.storage = .ok ds → m.digest ∉ ds)
    (hok : (e.finalize tx rs ws).outcome s = .ok ()) :
    ∃ old, (Outbox.pending kv.backend).outcome s.storage = .ok old ∧
      ((e.finalize tx rs ws).after s).outgoing = s.outgoing ++ [m] ∧
      e.OutlastsCrashes kv rs ws m old (e.history kv (·.finalize tx rs ws) s)
        ((e.finalize tx rs ws).after s) := by
  obtain ⟨hout, hstorage⟩ := finalize_noted he tx rs ws s
  obtain ⟨ds, past, hds, hpast, hnow, points, hpoints, hkeys, hall⟩ :=
    (finalize_mailed K (e := e.withBackend kv.noted.backend) rfl hkeeps hm hws
      (contents (K.see s.storage))).ok ⟨rfl, rfl⟩ (hout.trans hok)
  have hnew : m.digest ∉ ds := hfresh ds ((K.served.readPending_outcome [] rfl).mpr hds)
  have hwaiting := (contents (K.see s.storage)).waiting?_pushed hds hnew
  have hpending : ∀ x, ((contents (K.see s.storage)).pushed ds m).SameMail (contents (K.see x)) →
      (Outbox.pending kv.backend).outcome x =
        .ok (ds.filterMap (contents (K.see s.storage)).letter? ++ [m]) := by
    intro x hx
    rw [K.served.pending_outcome [] rfl, hx.waiting?_eq, hwaiting]
  rw [Outbox.pushKeys, if_neg hnew] at hpast
  have hhistory : e.history kv (·.finalize tx rs ws) s = past ++ points := hpoints
  have hcommitted : ((contents (K.see s.storage)).pushed ds m).SameMail
      (contents (K.see ((e.finalize tx rs ws).after s).storage)) := hstorage ▸ hnow
  have hread : (Outbox.pending kv.backend).outcome s.storage =
      .ok (ds.filterMap (contents (K.see s.storage)).letter?) := by
    rw [K.served.pending_outcome [] rfl, Contents.waiting?, hds]
    rfl
  refine ⟨_, hread, ?_, ?_, ?_, ?_, ?_, ?_⟩
  · obtain ⟨message, hmessage, -, hout⟩ :=
      (finalize_hands_over tx rs ws s.topic s.outgoing).ok ⟨rfl, rfl⟩ hok
    cases hm.unique hmessage
    exact hout
  · rw [hhistory, List.map_append, hpast, hkeys]
    rfl
  · obtain ⟨w, hw⟩ := Option.isSome_iff_exists.mp (List.getLast?_isSome.mpr hm.writes_ne_nil)
    obtain ⟨before, call, -, hlast⟩ := history_finalize_ends K he hw hok
    exact ⟨before, call, hlast⟩
  · intro before point future hsplit hbatch
    rw [hhistory] at hsplit
    refine hpending _ (hall point (mem_of_reached hsplit (fun p hp => ?_) hbatch))
    have hsubject : p.1.subject ∈ past.map (·.1.subject) := List.mem_map.mpr ⟨p, hp, rfl⟩
    rw [hpast] at hsubject
    rcases List.mem_pair.mp hsubject with hsubject | hsubject
    · exact Call.not_isOfBatch hws hsubject (.inr ⟨_, rfl⟩)
    · exact Call.not_isOfBatch hws hsubject (.inl rfl)
  · intro err hrefused
    refine ⟨history_publish_of_refused kv hrefused, ?_⟩
    rw [storage_publish_of_refused hrefused]
    exact hpending _ hcommitted
  · intro haccepted
    have hlisted := hcommitted.digests?_eq.trans (Contents.digests?_pushed _ hds m)
    rw [if_neg hnew] at hlisted
    exact history_publish_of_accepted K hkeeps hlisted (by simp) haccepted

end Engine

/-! ## A batch that overwrites the list -/

namespace Sample

open KeyValue

/-- The node over a table. -/
def keeper : Engine (Table String Bytes) (Hub Message) :=
  (node Topic.ofHub Octets.zero true).withBackend ofTable.backend

theorem keeper_composes (ws : List StoreWrite) (hws : ws ≠ []) :
    keeper.Composes tx ws (some (message Octets.zero ws)) :=
  composes Topic.ofHub Octets.zero true ws hws

/-- The contract of the table. -/
def keeperContract : keeper.backend.Contract := tableContract.backend mute_false

theorem keeperContract_reliable : keeperContract.Reliable := tableContract.backend_reliable

/-- A state of the node that holds just these contents. -/
abbrev KeeperHolds (c : Contents) (s : Engine.State (Table String Bytes) (Hub Message)) : Prop :=
  (Engine.view keeperContract.toView).Holds c s

theorem contents_see_empty : contents (tableContract.see .empty) = .empty := contents_empty

theorem keeperHolds_initial : KeeperHolds .empty (.initial .empty .empty) :=
  ⟨readable_empty, contents_empty⟩

/-- The batch that writes an empty list over that of the outbox. -/
def erasure : StoreWrite := ⟨Record.outbox, account, Outbox.pendingKey, encodeList (n := 32) []⟩

end Sample

namespace Engine

open KeyValue

/-- **A batch that overwrites the list takes its own message away**: no message is read where the
crash comes behind its value, before anything was published. -/
theorem crash_drops_pending :
    let e := Sample.keeper
    let batch := e.finalize Sample.tx [] [Sample.erasure]
    let s : State (Table String Bytes) (Hub Message) := .initial .empty .empty
    let u := batch.after s
    (Outbox.readPending ofTable.backend).outcome s.storage = .ok [] ∧ batch.outcome s = .ok () ∧
      u.outgoing = [Sample.message Octets.zero [Sample.erasure]] ∧
      (∃ past call, e.history ofTable (·.finalize Sample.tx [] [Sample.erasure]) s =
        past ++ [(call, u.storage)] ∧ call.IsOfBatch [] [Sample.erasure]) ∧
      (Outbox.pending ofTable.backend).outcome u.storage = .ok [] := by
  intro e batch s u
  have hcomposes := Sample.keeper_composes [Sample.erasure] (by simp)
  have hmempool : ∀ w ∈ [Sample.erasure], w.record.id ≠ Record.mempool.id := by
    rintro w hw
    cases List.mem_singleton.mp hw
    exact Outbox.outbox_id_ne_mempool
  have hensures := finalize_of_reliable (E := fun _ _ => False)
    Sample.keeperContract_reliable .empty hmempool rfl hcomposes rfl (.nil _)
  obtain ⟨⟨⟩, hok, hu⟩ := hensures.exists_ok Sample.keeperHolds_initial
  refine ⟨(tableContract.served.readPending_outcome [] Sample.contents_see_empty).mpr rfl, hok,
    ?_, ?_, ?_⟩
  · obtain ⟨message, hmessage, -, hout⟩ :=
      (finalize_hands_over Sample.tx [] [Sample.erasure] Hub.empty []).ok ⟨rfl, rfl⟩ hok
    cases hcomposes.unique hmessage
    exact hout
  · obtain ⟨past, call, hcall, hpast⟩ := history_finalize_ends tableContract rfl rfl hok
    exact ⟨past, call, hpast, .inr ⟨_, List.mem_singleton.mpr rfl, hcall⟩⟩
  · -- the list that the batch wrote is the one that is read
    have hsee : contents (tableContract.see u.storage) =
        (Contents.empty.pushed [] (Sample.message Octets.zero [Sample.erasure])).withDigests [] :=
      hu.2
    rw [tableContract.served.pending_outcome [] hsee, Contents.waiting?,
      Contents.digests?_withDigests]
    rfl

/-- The statement for a record and a value on a table that held nothing. -/
theorem pending_after_crash_first_value :
    let e := Sample.keeper
    let batch := e.finalize Sample.tx [Sample.record] [Sample.write "k" [1]]
    let s : State (Table String Bytes) (Hub Message) := .initial .empty .empty
    e.Composes Sample.tx [Sample.write "k" [1]] (some Sample.firstMessage) ∧
      SparesOutbox [Sample.write "k" [1]] ∧
      (∀ ds, (Outbox.readPending ofTable.backend).outcome s.storage = .ok ds →
        Sample.firstMessage.digest ∉ ds) ∧
      batch.outcome s = .ok () ∧ (Outbox.pending ofTable.backend).outcome s.storage = .ok [] ∧
      (batch.after s).outgoing = [Sample.firstMessage] ∧
      e.OutlastsCrashes ofTable [Sample.record] [Sample.write "k" [1]] Sample.firstMessage []
        (e.history ofTable (·.finalize Sample.tx [Sample.record] [Sample.write "k" [1]]) s)
        (batch.after s) := by
  intro e batch s
  have hcomposes := Sample.keeper_composes [Sample.write "k" [1]] (by simp)
  have hws : SparesOutbox [Sample.write "k" [1]] := fun w hw hid =>
    absurd hid (Sample.id_ne_outbox "k" [1] w hw)
  have hfresh : ∀ ds, (Outbox.readPending ofTable.backend).outcome s.storage = .ok ds →
      Sample.firstMessage.digest ∉ ds := by
    intro ds hds
    have hdigests := (tableContract.served.readPending_outcome [] Sample.contents_see_empty).mp hds
    cases hdigests
    exact nofun
  have hnew : Contents.empty.NewTo [Sample.record] :=
    ⟨List.nodup_cons.mpr ⟨nofun, List.nodup_nil⟩, fun _ _ => rfl⟩
  have hensures := finalize_of_reliable (E := fun _ _ => False)
    Sample.keeperContract_reliable .empty (Sample.id_ne_mempool "k" [1]) rfl hcomposes rfl hnew
  obtain ⟨⟨⟩, hok, -⟩ := hensures.exists_ok Sample.keeperHolds_initial
  have hnone : (Outbox.pending ofTable.backend).outcome s.storage = .ok [] :=
    tableContract.served.pending_outcome [] Sample.contents_see_empty
  obtain ⟨old, hold, hout, hcrashes⟩ :=
    pending_after_crash tableContract rfl rfl hcomposes hws hfresh hok
  cases hold.symm.trans hnone
  exact ⟨hcomposes, hws, hfresh, hok, hnone, hout, hcrashes⟩

end Engine
end SealedStore

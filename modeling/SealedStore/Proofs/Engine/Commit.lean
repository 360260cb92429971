import SealedStore.Proofs.Engine.Storage

/-! # What a batch leaves

A commit is its calls (`commit_calls`): it keeps the new records in order and then the values in
order, up to the first that fails (`commit_ensures`).  `finalize_ensures` takes a finalization apart
into the message, its deposit, the commit and the withdrawal, so that each statement about
finalizations is proved from statements about these; the one about what is held outside the outbox
is `finalize_holdsOff`.
-/
namespace SealedStore

open Step

namespace Engine

variable {σ τ : Type} {e : Engine σ τ}

/-! ## The commit -/

/-- **A commit, call by call.**  `P` speaks of the storage and of the records and the
values that are behind it; each call may count on what lies before its own item, and `F`
holds where one fails. -/
theorem commit_calls {rs : List Record} {ws : List StoreWrite}
    {P : List Record → List StoreWrite → σ → Prop} {F : StoreError → σ → Prop}
    (hinit : ∀ before r rest, rs = before ++ r :: rest →
      Ensures (P before []) (e.backend.init r) (fun _ => P (before ++ [r]) []) F)
    (hstore : ∀ before w rest, ws = before ++ w :: rest →
      Ensures (P rs before) (e.backend.store w.record w.key w.value)
        (fun _ => P rs (before ++ [w])) F) :
    Ensures (fun s : State σ τ => P [] [] s.storage) (e.commit rs ws) (fun _ s => P rs ws s.storage)
      fun err s => F err s.storage := by
  refine .bind (Q := fun _ s => P rs [] s.storage) ?_ fun _ => ?_
  · refine Ensures.forEach_prefix (P := fun before (s : State σ τ) => P before [] s.storage)
      fun before r rest hrs => ?_
    -- counting the record does not touch the backend
    exact .bind (onStorage_ensures (hinit before r rest hrs)) fun _ _ hs => hs
  · refine Ensures.forEach_prefix (P := fun before (s : State σ τ) => P rs before s.storage)
      fun before w rest hws => ?_
    exact .bind (onStorage_ensures (hstore before w rest hws)) fun _ _ hs => hs

section
variable (C : e.backend.Contract) (c : Contents)

/-- **A commit that succeeds kept everything**, one that fails the first part of it. -/
theorem commit_ensures {rs : List Record} {ws : List StoreWrite}
    (hws : ∀ w ∈ ws, w.record.id ≠ Record.mempool.id) :
    Ensures ((view C.toView).Holds c) (e.commit rs ws)
      (fun _ s => c.NewTo rs ∧ (view C.toView).Holds ((c.withRecords rs).withWrites ws) s)
      fun _ s => ∃ d, Contents.CommittedInPart rs ws c d ∧ (view C.toView).Holds d s := by
  refine (commit_calls (P := fun records values s => c.NewTo records ∧
      C.Holds ((c.withRecords records).withWrites values) s)
    (F := fun _ s => ∃ d, Contents.CommittedInPart rs ws c d ∧ C.Holds d s)
    (fun before r rest hrs => .of_fact fun hnew => ?_) fun before w rest hw =>
      .of_fact fun hnew => ?_).mono
    (fun _ hs => ⟨.nil c, hs⟩) (fun _ _ hs => hs) fun _ _ hs => hs
  · refine (C.init (c.withRecords before) r).mono (fun _ hs => hs) (fun _ s hs => ?_)
      fun _ s hs => ?_
    · exact ⟨hnew.snoc hs.1, by rw [Contents.withRecords_append]; exact hs.2⟩
    · obtain ⟨d, htried, -, hs⟩ := hs
      refine ⟨d, .records ⟨rest, ?_⟩ hnew htried, hs⟩
      rw [List.append_assoc]
      exact hrs.symm
  · have hmem : w ∈ ws := hw ▸ List.mem_append_right _ List.mem_cons_self
    refine (C.store _ w.record w.key w.value (hws w hmem)).mono (fun _ hs => hs) (fun _ s hs => ?_)
      fun _ s hs => ?_
    · exact ⟨hnew, by rw [Contents.withWrites_append]; exact hs.2⟩
    · exact ⟨_, .writes ⟨w :: rest, hw.symm⟩ hnew, hs⟩

end

/-! ## The finalization -/

/-- The message of a batch, `none` for a batch without writes. -/
def Composes (e : Engine σ τ) (tx : Transaction) (ws : List StoreWrite) (message : Option Message) :
    Prop :=
  ∃ author, e.signer.sender tx = .ok author ∧ e.compose tx author ws = .ok message

theorem Composes.unique {tx : Transaction} {ws : List StoreWrite} {m m' : Option Message}
    (h : e.Composes tx ws m) (h' : e.Composes tx ws m') : m = m' := by
  obtain ⟨author, ha, hm⟩ := h
  obtain ⟨author', ha', hm'⟩ := h'
  rw [ha] at ha'
  cases ha'
  rw [hm] at hm'
  exact Except.ok.inj hm'

/-- The message of a batch carries its writes. -/
theorem Composes.writes {tx : Transaction} {ws : List StoreWrite} {m : Message}
    (h : e.Composes tx ws (some m)) : m.sourceTx = tx ∧ m.writes = ws ∧ m.origin = e.uuid := by
  obtain ⟨author, -, hm⟩ := h
  unfold compose at hm
  split at hm
  · cases hm
  · obtain ⟨signature, -, hm⟩ := Check.bind_ok_iff.mp hm
    cases Check.pure_ok_iff.mp hm
    exact ⟨rfl, rfl, rfl⟩

/-- A batch without writes has no message. -/
theorem Composes.writes_ne_nil {tx : Transaction} {ws : List StoreWrite} {m : Message}
    (h : e.Composes tx ws (some m)) : ws ≠ [] := by
  rintro rfl
  obtain ⟨author, -, hm⟩ := h
  cases hm

/-- The message of a batch carries its writes; one without writes has none to carry. -/
theorem Composes.flatMap_writes {tx : Transaction} {ws : List StoreWrite} {message : Option Message}
    (h : e.Composes tx ws message) : message.toList.flatMap (·.writes) = ws := by
  cases message with
  | some m => simpa using h.writes.2.1
  | none =>
    obtain ⟨author, -, hm⟩ := h
    unfold compose at hm
    split at hm
    · next hempty => exact (List.isEmpty_iff.mp hempty).symm
    · obtain ⟨signature, -, hm⟩ := Check.bind_ok_iff.mp hm
      cases Check.pure_ok_iff.mp hm

/-- The sender of its transaction signed the message of a batch. -/
theorem Composes.signed {tx : Transaction} {ws : List StoreWrite} {m : Message}
    (h : e.Composes tx ws (some m)) : ∃ author, e.signer.sender m.sourceTx = .ok author ∧
      e.signer.sign author m.signableBytes = .ok m.signature := by
  obtain ⟨author, hauthor, hm⟩ := h
  unfold compose at hm
  split at hm
  · cases hm
  · obtain ⟨signature, hsignature, hm⟩ := Check.bind_ok_iff.mp hm
    cases Check.pure_ok_iff.mp hm
    exact ⟨author, hauthor, hsignature⟩

/-- A batch with writes has a message as soon as its sender's signature can be had. -/
theorem composes_of_sign {tx : Transaction} {ws : List StoreWrite} (hws : ws ≠ [])
    {author : Address} (hauthor : e.signer.sender tx = .ok author) {signature : Bytes}
    (hsign : e.signer.sign author (⟨tx, ws, e.uuid, []⟩ : Message).signableBytes = .ok signature) :
    e.Composes tx ws (some ⟨tx, ws, e.uuid, signature⟩) := by
  refine ⟨author, hauthor, ?_⟩
  rw [compose, if_neg (by simpa using hws)]
  exact Check.bind_ok_iff.mpr ⟨signature, hsign, rfl⟩

/-- **A finalization in parts.**  `D` holds of what was deposited, then `K` where the
commit succeeded and `A` where it failed; `S` holds of a finalization that succeeds and
`F` of one that fails. -/
theorem finalize_ensures {tx : Transaction} {rs : List Record} {ws : List StoreWrite}
    {P F : State σ τ → Prop} {S : Option Message → State σ τ → Prop}
    {D K A : Option Message → Option (Octets 32) → State σ τ → Prop}
    (hrefused : ∀ s, (∀ message, ¬ e.Composes tx ws message) → P s → F s)
    (hdeposit : ∀ message, e.Composes tx ws message →
      Ensures P (e.deposit message) (D message) fun _ => F)
    (hcommit : ∀ message digest, Ensures (D message digest) (e.commit rs ws)
      (fun _ => K message digest) fun _ => A message digest)
    (hwithdraw : ∀ message digest, e.Composes tx ws message →
      Ensures (A message digest) (e.withdraw digest) (fun _ => F) fun _ => F)
    (hdone : ∀ message digest s metrics, K message digest s →
      S message { s with outgoing := s.outgoing ++ message.toList, metrics := metrics }) :
    Ensures P (e.finalize tx rs ws) (fun _ s => ∃ message, e.Composes tx ws message ∧ S message s)
      fun _ => F := by
  unfold finalize
  cases hauthor : e.signer.sender tx with
  | error _ =>
    -- without an author there is no message
    refine .fail fun s hs => hrefused s ?_ hs
    rintro message ⟨author, ha, -⟩
    rw [hauthor] at ha
    cases ha
  | ok author =>
    refine .bind (Q := fun message s => e.Composes tx ws message ∧ P s) ?_ fun message =>
      .of_fact fun hmessage => ?_
    · refine .ofExcept (fun message s hm hs => ⟨⟨author, hauthor, hm⟩, hs⟩) fun err s he hs => ?_
      refine hrefused s ?_ hs
      rintro message ⟨author', ha, hm⟩
      rw [hauthor] at ha
      cases ha
      rw [he] at hm
      cases hm
    · refine .bind (hdeposit message hmessage) fun digest => ?_
      refine .bind (Q := fun committed s => match committed with
        | .ok _ => K message digest s
        | .error _ => A message digest s) (.attempt (hcommit message digest)) fun committed => ?_
      cases committed with
      | error err => exact .bind (hwithdraw message digest hmessage) fun _ => .fail fun s hs => hs
      | ok _ => exact fun s hs => ⟨message, hmessage, hdone message digest s _ hs⟩

section
variable {P : State σ τ → Prop}

/-- What a push keeps, a deposit keeps. -/
theorem keeps_deposit (hpush : ∀ m, Keeps P (onStorage (Outbox.push e.backend m)))
    (message : Option Message) :
    Keeps P (e.deposit message) := by
  unfold deposit
  cases message with
  | none => exact .pure fun _ hs => hs
  | some m =>
    show Keeps _ (if e.keepsOutbox then _ else _)
    split
    · exact .bind (hpush m) fun _ => .pure fun _ hs => hs
    · exact .pure fun _ hs => hs

variable (hacknowledge : ∀ d, Keeps P (onStorage (Outbox.acknowledge e.backend d)))
include hacknowledge

/-- What an acknowledgement keeps, a withdrawal keeps. -/
theorem keeps_withdraw (digest : Option (Octets 32)) : Keeps P (e.withdraw digest) := by
  unfold withdraw
  cases digest with
  | none => exact .pure fun _ hs => hs
  | some d => exact .ignore (hacknowledge d)

/-- What is kept by acknowledging a message and by counting it is kept by a publication, unless it
speaks of the topic or of what is to be published. -/
theorem keeps_publishNext (houtgoing : ∀ s outgoing, P s → P { s with outgoing })
    (htopic : ∀ s topic, P s → P { s with topic }) (hpublished : Keeps P (count .messagesPublished))
    (hrefused : Keeps P (count .messagesPublishFailed)) : Keeps P e.publishNext := by
  refine .bind (Q := fun _ => P) (.gets fun _ hs => hs) fun outgoing => ?_
  cases outgoing with
  | nil => exact .pure fun _ hs => hs
  | cons m rest =>
    refine .bind (Q := fun _ => P) (.modify fun s hs => houtgoing s _ hs) fun _ => ?_
    refine .bind_attempt (onTopic_keeps htopic _) (fun _ => .bind hpublished fun _ => ?_)
      fun _ => hrefused
    show Keeps _ (if e.keepsOutbox then _ else _)
    split
    · exact .ignore (hacknowledge _)
    · exact .pure fun _ hs => hs

end

section
variable (C : e.backend.Contract) (c : Contents)

/-- A state that holds what `c` says, save for values under the outbox record. -/
abbrev HoldsOff (C : e.backend.Contract) (c : Contents) (s : State σ τ) : Prop :=
  Outbox.HoldsOff C c s.storage

theorem deposit_keeps (message : Option Message) : Keeps (HoldsOff C c) (e.deposit message) :=
  keeps_deposit (fun m => onStorage_ensures (Outbox.push_keeps C c m)) message

theorem acknowledge_keeps (d : Octets 32) :
    Keeps (HoldsOff C c) (onStorage (τ := τ) (Outbox.acknowledge e.backend d)) :=
  onStorage_ensures (Outbox.acknowledge_keeps C c d)

theorem withdraw_keeps (digest : Option (Octets 32)) : Keeps (HoldsOff C c) (e.withdraw digest) :=
  keeps_withdraw (acknowledge_keeps C c) digest

/-- **What a finalization keeps outside the outbox**: everything if it succeeds, and the first
part of it otherwise. -/
theorem finalize_holdsOff (tx : Transaction) (rs : List Record) {ws : List StoreWrite}
    (hws : ∀ w ∈ ws, w.record.id ≠ Record.mempool.id) :
    Ensures ((view C.toView).Holds c) (e.finalize tx rs ws)
      (fun _ s => c.NewTo rs ∧ HoldsOff C ((c.withRecords rs).withWrites ws) s)
      fun _ s => ∃ d, Contents.CommittedInPart rs ws c d ∧ HoldsOff C d s := by
  have hnothing : Contents.CommittedInPart rs ws c c := .nothing
  have hcommit : Ensures (HoldsOff C c) (e.commit rs ws)
      (fun _ s => c.NewTo rs ∧ HoldsOff C ((c.withRecords rs).withWrites ws) s)
      fun _ s => ∃ d, Contents.CommittedInPart rs ws c d ∧ HoldsOff C d s := by
    -- what is held differs from `c` in the outbox alone, and the commit does not look there
    refine .of_exists fun d => .of_fact fun hd => ?_
    refine (commit_ensures C d hws).mono (fun _ hs => hs) (fun _ s hs => ?_) fun _ s hs => ?_
    · exact ⟨hs.1.of_agreesOff hd, _, (hd.withRecords rs).withWrites ws, hs.2⟩
    · obtain ⟨f, hf, hs⟩ := hs
      obtain ⟨f', hf', hagrees⟩ := hf.of_agreesOff hd
      exact ⟨f', hf', f, hagrees, hs⟩
  refine (finalize_ensures (P := HoldsOff C c) (F := fun s =>
      ∃ d, Contents.CommittedInPart rs ws c d ∧ HoldsOff C d s)
    (S := fun _ s => c.NewTo rs ∧ HoldsOff C ((c.withRecords rs).withWrites ws) s)
    (D := fun _ _ => HoldsOff C c)
    (fun s _ hs => ⟨c, hnothing, hs⟩) (fun message _ => ?_) (fun _ _ => hcommit)
      (fun _ digest _ => ?_)
    fun _ _ _ _ hs => hs).mono (fun s hs => Outbox.HoldsOff.of_holds C c hs) (fun _ s hs => ?_)
      fun _ _ hs => hs
  · exact (deposit_keeps C c message).mono (fun _ hs => hs) (fun _ _ hs => hs) fun _ s hs =>
      ⟨c, hnothing, hs⟩
  · refine .of_exists fun d => .of_fact fun hd => ?_
    exact (withdraw_keeps C d digest).mono (fun _ hs => hs) (fun _ _ hs => ⟨d, hd, hs⟩)
      fun _ _ hs => ⟨d, hd, hs⟩
  · obtain ⟨_, -, hs⟩ := hs
    exact hs

/-! ## Publication -/

/-- **A finalization hands its message to publication**, and one that fails hands over nothing. -/
theorem finalize_hands_over (tx : Transaction) (rs : List Record) (ws : List StoreWrite) (t : τ)
    (ms : List Message) : Ensures (fun s => s.topic = t ∧ s.outgoing = ms) (e.finalize tx rs ws)
      (fun _ s => ∃ message, e.Composes tx ws message ∧ s.topic = t ∧
        s.outgoing = ms ++ message.toList)
      fun _ s => s.topic = t ∧ s.outgoing = ms := by
  have hstorage : ∀ {α : Type} (m : Step σ α),
      Keeps (fun s : State σ τ => s.topic = t ∧ s.outgoing = ms) (onStorage m) := fun _ =>
    .of_cases (fun _ _ hs _ => hs) fun _ _ hs _ => hs
  refine finalize_ensures (S := fun message s => s.topic = t ∧ s.outgoing = ms ++ message.toList)
    (D := fun _ _ s => s.topic = t ∧ s.outgoing = ms)
    (K := fun _ _ s => s.topic = t ∧ s.outgoing = ms)
    (A := fun _ _ s => s.topic = t ∧ s.outgoing = ms) ?_ ?_ ?_ ?_ ?_
  · exact fun _ _ hs => hs
  · exact fun message _ => keeps_deposit (fun _ => hstorage _) message
  · intro _ _
    refine .bind (Q := fun _ s => s.topic = t ∧ s.outgoing = ms) (.forEach fun r _ => ?_) fun _ =>
      .forEach fun w _ => ?_
    · exact .bind (hstorage _) fun _ => .modify fun _ hs => hs
    · exact .bind (hstorage _) fun _ => .modify fun _ hs => hs
  · exact fun _ digest _ => keeps_withdraw (fun _ => hstorage _) digest
  · exact fun message _ s _ hs => ⟨hs.1, congrArg (· ++ message.toList) hs.2⟩

theorem publishNext_keeps : Keeps (HoldsOff C c) e.publishNext :=
  keeps_publishNext (acknowledge_keeps C c) (fun _ _ hs => hs) (fun _ _ hs => hs) (fun _ hs => hs)
    fun _ hs => hs

end

end Engine
end SealedStore

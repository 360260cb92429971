import Mathlib.Data.List.Basic
import SealedStore.Outbox
import SealedStore.Proofs.Backend.KeyValue

/-! # The outbox in a backend's contents

What waits in the outbox is read off the contents of its backend: the listed digests, the message
under each, and the messages that can be read, in order.  Whatever fails, the outbox changes nothing
but values under its own record (`push_keeps`, `acknowledge_keeps`).  Where its own calls do not
fail, `Served.push` and `Served.acknowledge` say what they leave and in which order they store, and
`Served.pending` what is read.
-/
namespace SealedStore

open Step

/-! ## Keys -/

theorem Outbox.messageKey_injective {d k : Octets 32} (h : messageKey d = messageKey k) :
    d = k := by
  have hlist := congrArg String.toList h
  simp only [messageKey, Hex.plain, String.toList_append, String.toList_ofList,
    List.append_cancel_left_eq] at hlist
  exact Octets.ext_toList (Hex.digits_injective hlist)

theorem Outbox.messageKey_ne_pendingKey (d : Octets 32) : messageKey d ≠ pendingKey := by
  intro h
  have hlist := congrArg (fun s => s.toList.head?) h
  simp [messageKey, pendingKey, String.toList_append] at hlist

/-- Whether a key under the outbox record is one that the outbox itself uses. -/
def Outbox.IsOwnKey (key : String) : Prop := key = pendingKey ∨ ∃ d, key = messageKey d

/-! ## What is read off the contents -/

namespace Contents

/-- The digests that are listed, if the list can be read. -/
def digests? (c : Contents) : Option (List (Octets 32)) :=
  match c.values Record.outbox.id Outbox.pendingKey with
  | none => some []
  | some raw => KeyValue.decodeList? 32 raw

/-- The message under a digest, if there is one that can be read. -/
def letter? (c : Contents) (d : Octets 32) : Option Message :=
  (c.values Record.outbox.id (Outbox.messageKey d)).bind Message.decode?

/-- The messages that wait, oldest first. -/
def waiting? (c : Contents) : Option (List Message) :=
  c.digests?.map fun ds => ds.filterMap c.letter?

/-- The contents with bytes under a digest. -/
def withLetter (c : Contents) (d : Octets 32) (raw : Bytes) : Contents :=
  c.withValue Record.outbox.id (Outbox.messageKey d) raw

/-- The contents with a list of digests. -/
def withDigests (c : Contents) (ds : List (Octets 32)) : Contents :=
  c.withValue Record.outbox.id Outbox.pendingKey (KeyValue.encodeList ds)

/-- The contents with a message behind those with the listed digests, unless its
digest is one of them. -/
def pushed (c : Contents) (ds : List (Octets 32)) (m : Message) : Contents :=
  if m.digest ∈ ds then c.withLetter m.digest m.encode
  else (c.withLetter m.digest m.encode).withDigests (ds ++ [m.digest])

/-- The contents with a digest taken off those that are listed. -/
def acknowledged (c : Contents) (ds : List (Octets 32)) (d : Octets 32) : Contents :=
  if d ∈ ds then (c.withDigests (ds.filter (· ≠ d))).withLetter d [] else c

variable (c : Contents)

@[simp] theorem digests?_withLetter (d : Octets 32) (raw : Bytes) :
    (c.withLetter d raw).digests? = c.digests? := by
  have hne : (Record.outbox.id, Outbox.messageKey d) ≠ (Record.outbox.id, Outbox.pendingKey) :=
    fun h => Outbox.messageKey_ne_pendingKey d (Prod.mk.inj h).2
  rw [digests?, withLetter, values_withValue_of_ne _ _ hne, digests?]

@[simp] theorem digests?_withDigests (ds : List (Octets 32)) :
    (c.withDigests ds).digests? = some ds := by
  simp [digests?, withDigests, KeyValue.decodeList?_encodeList]

theorem letter?_withLetter (d k : Octets 32) (raw : Bytes) :
    (c.withLetter d raw).letter? k = if d = k then Message.decode? raw else c.letter? k := by
  by_cases h : d = k
  · simp [letter?, withLetter, h]
  · have hne : (Record.outbox.id, Outbox.messageKey d) ≠ (Record.outbox.id, Outbox.messageKey k) :=
      fun he => h (Outbox.messageKey_injective (Prod.mk.inj he).2)
    rw [letter?, withLetter, values_withValue_of_ne _ _ hne, if_neg h, letter?]

@[simp] theorem letter?_withDigests (ds : List (Octets 32)) (k : Octets 32) :
    (c.withDigests ds).letter? k = c.letter? k := by
  have hne : (Record.outbox.id, Outbox.pendingKey) ≠ (Record.outbox.id, Outbox.messageKey k) :=
    fun h => Outbox.messageKey_ne_pendingKey k (Prod.mk.inj h).2.symm
  rw [letter?, withDigests, values_withValue_of_ne _ _ hne, letter?]

theorem agreesOff_withLetter (d : Octets 32) (raw : Bytes) :
    AgreesOff Record.outbox.id c (c.withLetter d raw) := agreesOff_withValue ..

theorem agreesOff_withDigests (ds : List (Octets 32)) :
    AgreesOff Record.outbox.id c (c.withDigests ds) :=
  agreesOff_withValue ..

theorem agreesOff_pushed (ds : List (Octets 32)) (m : Message) :
    AgreesOff Record.outbox.id c (c.pushed ds m) := by
  unfold pushed
  split
  · exact c.agreesOff_withLetter ..
  · exact (c.agreesOff_withLetter ..).trans (agreesOff_withDigests ..)

theorem agreesOff_acknowledged (ds : List (Octets 32)) (d : Octets 32) :
    AgreesOff Record.outbox.id c (c.acknowledged ds d) := by
  unfold acknowledged
  split
  · exact (c.agreesOff_withDigests ..).trans (agreesOff_withLetter ..)
  · exact .refl ..

/-- A listed digest stays listed, a new one comes last. -/
theorem digests?_pushed {ds : List (Octets 32)} (hds : c.digests? = some ds) (m : Message) :
    (c.pushed ds m).digests? = some (if m.digest ∈ ds then ds else ds ++ [m.digest]) := by
  unfold pushed
  split <;> simp [hds]

theorem letter?_pushed (ds : List (Octets 32)) (m : Message) (k : Octets 32) :
    (c.pushed ds m).letter? k = if m.digest = k then Message.decode? m.encode else c.letter? k := by
  unfold pushed
  split <;> simp [letter?_withLetter]

theorem digests?_acknowledged {ds : List (Octets 32)} (hds : c.digests? = some ds) (d : Octets 32) :
    (c.acknowledged ds d).digests? = some (ds.filter (· ≠ d)) := by
  unfold acknowledged
  split
  · simp
  · next hd =>
    have : ds.filter (· ≠ d) = ds := List.filter_eq_self.mpr fun k hk => by
      rw [decide_eq_true_iff]
      rintro rfl
      exact hd hk
    rw [hds, this]

theorem letter?_acknowledged {ds : List (Octets 32)} {d k : Octets 32} (hk : d ≠ k) :
    (c.acknowledged ds d).letter? k = c.letter? k := by
  unfold acknowledged
  split <;> simp [letter?_withLetter, hk]

/-! ## Messages put in and taken out -/

/-- Whether two contents have the same values under the outbox record. -/
def SameOutbox (c d : Contents) : Prop := d.values Record.outbox.id = c.values Record.outbox.id

/-- Whether two contents have the same values under the outbox's own keys. -/
def SameMail (c d : Contents) : Prop :=
  ∀ key, Outbox.IsOwnKey key → d.values Record.outbox.id key = c.values Record.outbox.id key

theorem SameMail.digests?_eq {c d : Contents} (h : c.SameMail d) : d.digests? = c.digests? := by
  rw [digests?, h _ (.inl rfl), digests?]

theorem SameMail.letter?_eq {c d : Contents} (h : c.SameMail d) : d.letter? = c.letter? := by
  funext k
  rw [letter?, h _ (.inr ⟨k, rfl⟩), letter?]

theorem SameMail.waiting?_eq {c d : Contents} (h : c.SameMail d) : d.waiting? = c.waiting? := by
  rw [waiting?, h.digests?_eq, h.letter?_eq, waiting?]

theorem SameOutbox.sameMail {c d : Contents} (h : c.SameOutbox d) : c.SameMail d :=
  fun key _ => congrFun h key

theorem SameOutbox.digests?_eq {c d : Contents} (h : c.SameOutbox d) : d.digests? = c.digests? :=
  h.sameMail.digests?_eq

theorem SameOutbox.letter?_eq {c d : Contents} (h : c.SameOutbox d) : d.letter? = c.letter? :=
  h.sameMail.letter?_eq

theorem SameOutbox.waiting?_eq {c d : Contents} (h : c.SameOutbox d) : d.waiting? = c.waiting? :=
  h.sameMail.waiting?_eq

/-- **A new message comes last**, behind all that waited. -/
theorem waiting?_pushed {ds : List (Octets 32)} (hds : c.digests? = some ds) {m : Message}
    (hm : m.digest ∉ ds) : (c.pushed ds m).waiting? = some (ds.filterMap c.letter? ++ [m]) := by
  rw [waiting?, c.digests?_pushed hds m, if_neg hm, Option.map_some, List.filterMap_append]
  have hnew : [m.digest].filterMap (c.pushed ds m).letter? = [m] := by
    rw [List.filterMap_cons_some (b := m)]
    · rfl
    · rw [letter?_pushed, if_pos rfl, Message.decode?_encode]
  have hold : ds.filterMap (c.pushed ds m).letter? = ds.filterMap c.letter? :=
    List.filterMap_congr fun k hk => by
      rw [letter?_pushed, if_neg]
      rintro rfl
      exact hm hk
  rw [hnew, hold]

/-- The contents with the message of a batch in the outbox, if it has one; `none` if the listed
digests cannot be read. -/
def deposited? (c : Contents) : Option Message → Option Contents
  | none => some c
  | some m => c.digests?.map fun ds => c.pushed ds m

theorem agreesOff_deposited {c d : Contents} {message : Option Message}
    (h : c.deposited? message = some d) : AgreesOff Record.outbox.id c d := by
  cases message with
  | none =>
    cases h
    exact .refl ..
  | some m =>
    obtain ⟨ds, -, rfl⟩ := Option.map_eq_some_iff.mp h
    exact c.agreesOff_pushed ds m

/-- The messages that wait, save for one under a digest. -/
def waitingBut? (d : Octets 32) : Option (List Message) :=
  c.digests?.map fun ds => (ds.filter (· ≠ d)).filterMap c.letter?

/-- Whether a message waits under a digest. -/
def Awaits (d : Octets 32) : Prop := ∃ ds, c.digests? = some ds ∧ d ∈ ds ∧ c.letter? d ≠ none

/-- Taking a digest off leaves the messages alone just where none waits under it. -/
theorem waitingBut?_eq_waiting?_iff (d : Octets 32) :
    c.waitingBut? d = c.waiting? ↔ ¬ c.Awaits d := by
  constructor
  · rintro h ⟨ds, hds, hmem, hletter⟩
    obtain ⟨m, hm⟩ := Option.ne_none_iff_exists'.mp hletter
    obtain ⟨as, bs, rfl⟩ := List.append_of_mem hmem
    rw [waitingBut?, waiting?, hds] at h
    have hlength := congrArg List.length (Option.some.inj h)
    -- the digest is gone from the one side, its message still counts on the other
    have has := ((List.filter_sublist (p := (· ≠ d)) (l := as)).filterMap c.letter?).length_le
    have hbs := ((List.filter_sublist (p := (· ≠ d)) (l := bs)).filterMap c.letter?).length_le
    simp [List.filterMap_append, hm] at hlength has hbs
    omega
  · intro h
    rw [waitingBut?, waiting?]
    cases hds : c.digests? with
    | none => rfl
    | some ds =>
      rw [Option.map_some, Option.map_some, List.filterMap_filter]
      refine congrArg some (List.filterMap_congr fun k hk => ?_)
      by_cases hkd : k = d
      · subst hkd
        have hnone : c.letter? k = none := by
          by_contra hletter
          exact h ⟨ds, hds, hk, hletter⟩
        simp [hnone]
      · simp [hkd]

/-- What is left of the outbox once the message of a batch was put in and taken out: what was under
its digest before is gone, and nothing else changed. -/
def Withdrawn (c : Contents) : Option Message → Contents → Prop
  | none, d => c.SameOutbox d
  | some m, d => d.digests? = c.digests?.map (List.filter (· ≠ m.digest)) ∧
      (∀ k ≠ m.digest, d.letter? k = c.letter? k) ∧
      (c.digests? ≠ none → d.letter? m.digest = none)

variable {c} in
theorem Withdrawn.waiting?_eq {m : Message} {d : Contents} (h : c.Withdrawn (some m) d) :
    d.waiting? = c.waitingBut? m.digest := by
  obtain ⟨hdigests, hletters, -⟩ := h
  rw [waiting?, waitingBut?, hdigests, Option.map_map]
  refine congrFun (congrArg Option.map ?_) _
  funext ds
  refine List.filterMap_congr fun k hk => hletters k ?_
  simpa using (List.mem_filter.mp hk).2

variable {c} in
/-- A list that cannot be read stays so. -/
theorem withdrawn_of_unreadable {m : Message} {raw : Bytes} (h : c.digests? = none) :
    c.Withdrawn (some m) (c.withLetter m.digest raw) := by
  refine ⟨by simp [h], fun k hk => ?_, fun hds => absurd h hds⟩
  rw [c.letter?_withLetter, if_neg (Ne.symm hk)]

variable {c} in
/-- A message that is put in and taken out takes along what waited under its digest. -/
theorem withdrawn_of_deposited {message : Option Message} {d f : Contents}
    (hd : c.deposited? message = some d) (hf : d.SameOutbox f) :
    (message = none ∧ c.Withdrawn none f) ∨ ∃ m ks, message = some m ∧ f.digests? = some ks ∧
      c.Withdrawn (some m) (f.acknowledged ks m.digest) := by
  cases message with
  | none =>
    cases hd
    exact .inl ⟨rfl, hf⟩
  | some m =>
    obtain ⟨ds, hds, rfl⟩ := Option.map_eq_some_iff.mp hd
    have hks := hf.digests?_eq.trans (c.digests?_pushed hds m)
    refine .inr ⟨m, _, rfl, hks, ?_, fun k hk => ?_, fun _ => ?_⟩
    · rw [f.digests?_acknowledged hks, hds, Option.map_some]
      refine congrArg some ?_
      split
      · rfl
      · simp
    · rw [f.letter?_acknowledged (Ne.symm hk), hf.letter?_eq, c.letter?_pushed, if_neg (Ne.symm hk)]
    · have hmem : m.digest ∈ if m.digest ∈ ds then ds else ds ++ [m.digest] := by
        split
        · assumption
        · simp
      rw [acknowledged, if_pos hmem, letter?_withLetter, if_pos rfl, Message.decode?_nil]

end Contents

variable {σ : Type} {b : Backend σ}

/-! ## What no failure breaks -/

namespace Outbox

section
variable {P : σ → Prop} (hretrieve : ∀ key, Keeps P (b.retrieve Record.outbox key))
include hretrieve

theorem keeps_readPending : Keeps P (readPending b) := by
  refine .bind (Q := fun _ => P) (.attempt (hretrieve _)) fun found => ?_
  cases found with
  | ok raw => exact .ofExcept (fun _ _ _ hs => hs) fun _ _ _ hs => hs
  | error err =>
    show Keeps _ (if err.isNotFound then _ else _)
    split
    · exact .pure fun _ hs => hs
    · exact .fail fun _ hs => hs

theorem keeps_readMessages (digests : List (Octets 32)) : Keeps P (readMessages b digests) := by
  induction digests with
  | nil => exact .pure fun _ hs => hs
  | cons d ds ih =>
    refine .bind (Q := fun _ => P) (.attempt (hretrieve _)) fun found => .bind ih fun rest => ?_
    cases found.toOption.bind Message.decode? with
    | some m => exact .pure fun _ hs => hs
    | none => exact .pure fun _ hs => hs

/-- What reads under the outbox record keep, reading what waits keeps. -/
theorem keeps_pending : Keeps P (pending b) :=
  .bind (keeps_readPending hretrieve) fun digests => keeps_readMessages hretrieve digests

variable (hstore : ∀ key raw, IsOwnKey key → Keeps P (b.store Record.outbox key raw))
include hstore

omit hretrieve in
theorem keeps_write {key : String} (hkey : IsOwnKey key) (raw : Bytes) :
    Keeps P (do let _ ← b.store Record.outbox key raw) :=
  .bind (hstore key raw hkey) fun _ => .pure fun _ hs => hs

/-- What reads and stores under the outbox's own keys keep, a push keeps. -/
theorem keeps_push (m : Message) : Keeps P (push b m) := by
  refine .bind (keeps_write hstore (.inr ⟨_, rfl⟩) _) fun _ => ?_
  refine .bind (keeps_readPending hretrieve) fun ds => ?_
  show Keeps _ (if ds.contains m.digest then _ else _)
  split
  · exact .pure fun _ hs => hs
  · exact .bind (keeps_write hstore (.inl rfl) _) fun _ => .pure fun _ hs => hs

theorem keeps_acknowledge (d : Octets 32) : Keeps P (acknowledge b d) := by
  refine .bind (keeps_readPending hretrieve) fun ds => ?_
  show Keeps _ (if ds.contains d then _ else _)
  split
  · exact .bind (keeps_write hstore (.inl rfl) _) fun _ => keeps_write hstore (.inr ⟨_, rfl⟩) _
  · exact .pure fun _ hs => hs

end

variable (C : b.Contract) (c : Contents)

theorem retrieveOutbox_keeps (key : String) : Keeps (C.Holds c) (b.retrieve Record.outbox key) :=
  (C.retrieve c _ key).mono (fun _ hs => hs) (fun _ _ hs => hs.2) fun _ _ hs => hs.2

theorem pending_keeps : Keeps (C.Holds c) (pending b) := keeps_pending (retrieveOutbox_keeps C c)

/-- A state that holds what `c` says, save for values under the outbox record. -/
def HoldsOff (C : b.Contract) (c : Contents) (s : σ) : Prop :=
  ∃ d, Contents.AgreesOff Record.outbox.id c d ∧ C.Holds d s

theorem HoldsOff.of_holds {s : σ} (h : C.Holds c s) : HoldsOff C c s := ⟨c, .refl .., h⟩

/-- A step that leaves all contents as they are. -/
theorem holdsOff_of_keeps {α : Type} {m : Step σ α} (h : ∀ d, Keeps (C.Holds d) m) :
    Keeps (HoldsOff C c) m :=
  .of_exists fun d => .of_fact fun hd =>
    (h d).mono (fun _ hs => hs) (fun _ _ hs => ⟨d, hd, hs⟩) fun _ _ hs => ⟨d, hd, hs⟩

theorem outbox_id_ne_mempool : Record.outbox.id ≠ Record.mempool.id := by decide

theorem storeOutbox_keeps (key : String) (raw : Bytes) :
    Keeps (HoldsOff C c) (b.store Record.outbox key raw) := by
  refine .of_exists fun d => .of_fact fun hd => ?_
  refine (C.store d _ key raw outbox_id_ne_mempool).mono (fun _ hs => hs) (fun _ s hs => ?_)
    fun _ s hs => ?_
  · exact ⟨_, hd.trans (d.agreesOff_withValue ..), hs.2⟩
  · exact ⟨d, hd, hs⟩

/-- **A push touches nothing but the outbox**, whatever fails. -/
theorem push_keeps (m : Message) : Keeps (HoldsOff C c) (push b m) :=
  keeps_push (fun key => holdsOff_of_keeps C c fun d => retrieveOutbox_keeps C d key)
    (fun key raw _ => storeOutbox_keeps C c key raw) m

/-- **An acknowledgement touches nothing but the outbox**, whatever fails. -/
theorem acknowledge_keeps (d : Octets 32) : Keeps (HoldsOff C c) (acknowledge b d) :=
  keeps_acknowledge (fun key => holdsOff_of_keeps C c fun d => retrieveOutbox_keeps C d key)
    (fun key raw _ => storeOutbox_keeps C c key raw) d

end Outbox

/-! ## Where the outbox's own calls do not fail -/

namespace Outbox

/-- The keys under which a push stores, in order. -/
def pushKeys (ds : List (Octets 32)) (d : Octets 32) : List String :=
  if d ∈ ds then [messageKey d] else [messageKey d, pendingKey]

/-- The keys under which an acknowledgement stores, in order. -/
def acknowledgeKeys (ds : List (Octets 32)) (d : Octets 32) : List String :=
  if d ∈ ds then [pendingKey, messageKey d] else []

/-- **A backend that serves the outbox**: a value under the outbox record is always stored, and one
that is there is found.  `P c keys` says of a state that it holds `c`, and that values were stored
under these keys of the outbox record, in order. -/
structure Served (b : Backend σ) (P : Contents → List String → σ → Prop) : Prop where
  store : ∀ c keys key raw, Ensures (P c keys) (b.store Record.outbox key raw)
    (fun _ => P (c.withValue Record.outbox.id key raw) (keys ++ [key])) fun _ _ => False
  retrieve : ∀ c keys key, Ensures (P c keys) (b.retrieve Record.outbox key)
    (fun raw s => c.values Record.outbox.id key = some raw ∧ P c keys s)
    fun e s => (c.values Record.outbox.id key = none ∧ e.isNotFound = true) ∧ P c keys s

namespace Served

variable {P : Contents → List String → σ → Prop} (hb : Served b P) (c : Contents)
  (keys : List String)
include hb

theorem readPending : Ensures (P c keys) (readPending b)
    (fun ds s => c.digests? = some ds ∧ P c keys s)
    fun e s => (c.digests? = none ∧ e = .undecodable) ∧ P c keys s := by
  refine .bind (hb.retrieve c keys pendingKey).attempt_cases fun found => .of_fact fun hfound => ?_
  cases found with
  | ok raw =>
    have hds : c.digests? = KeyValue.decodeList? 32 raw := by
      simp only [Contents.digests?, hfound.1 raw rfl]
    rw [hds]
    show Ensures _ (ofExcept (KeyValue.decoded (KeyValue.decodeList? 32 raw))) _ _
    cases KeyValue.decodeList? 32 raw with
    | some ds => exact .pure fun _ hs => ⟨rfl, hs⟩
    | none => exact .fail fun _ hs => ⟨⟨rfl, rfl⟩, hs⟩
  | error e =>
    obtain ⟨hvalue, hnotFound⟩ := hfound.2 e rfl
    have hds : c.digests? = some [] := by simp only [Contents.digests?, hvalue]
    show Ensures _ (if e.isNotFound then _ else _) _ _
    rw [if_pos hnotFound]
    exact .pure fun _ hs => ⟨hds, hs⟩

theorem writeMessage (d : Octets 32) (raw : Bytes) {E : StoreError → σ → Prop} :
    Ensures (P c keys) (writeMessage b d raw)
      (fun _ => P (c.withLetter d raw) (keys ++ [messageKey d])) E :=
  .bind ((hb.store c keys _ raw).mono (fun _ hs => hs) (fun _ _ hs => hs) fun _ _ hs => hs.elim)
    fun _ => .pure fun _ hs => hs

theorem writePending (ds : List (Octets 32)) {E : StoreError → σ → Prop} :
    Ensures (P c keys) (writePending b ds)
      (fun _ => P (c.withDigests ds) (keys ++ [pendingKey])) E :=
  .bind ((hb.store c keys _ _).mono (fun _ hs => hs) (fun _ _ hs => hs) fun _ _ hs => hs.elim)
    fun _ => .pure fun _ hs => hs

/-- **What a push leaves**, the message before the list.  It fails only on a list
that cannot be read. -/
theorem push (m : Message) : Ensures (P c keys) (push b m)
    (fun d s => d = m.digest ∧
      ∃ ds, c.digests? = some ds ∧ P (c.pushed ds m) (keys ++ pushKeys ds m.digest) s)
    fun _ s => c.digests? = none ∧
      P (c.withLetter m.digest m.encode) (keys ++ [messageKey m.digest]) s := by
  refine .bind (hb.writeMessage c keys _ _) fun _ => ?_
  refine .bind (Q := fun ds s => c.digests? = some ds ∧
    P (c.withLetter m.digest m.encode) (keys ++ [messageKey m.digest]) s) ?_
    fun ds => .of_fact fun hds => ?_
  · refine (hb.readPending _ _).mono (fun _ hs => hs) (fun ds s hs => ?_) fun e s hs => ?_
    · rwa [Contents.digests?_withLetter] at hs
    · rw [Contents.digests?_withLetter] at hs
      exact ⟨hs.1.1, hs.2⟩
  · show Ensures _ (if ds.contains m.digest then _ else _) _ _
    split
    · next hmem =>
      have hmem : m.digest ∈ ds := by simpa using hmem
      refine .pure fun s hs => ⟨rfl, ds, hds, ?_⟩
      rwa [Contents.pushed, if_pos hmem, pushKeys, if_pos hmem]
    · next hmem =>
      have hmem : m.digest ∉ ds := by simpa using hmem
      refine .bind (hb.writePending _ _ _) fun _ => .pure fun s hs => ⟨rfl, ds, hds, ?_⟩
      rw [List.append_assoc] at hs
      rwa [Contents.pushed, if_neg hmem, pushKeys, if_neg hmem]

/-- **What an acknowledgement leaves**, the list before the message.  It fails only on a list
that cannot be read. -/
theorem acknowledge (d : Octets 32) : Ensures (P c keys) (acknowledge b d)
    (fun _ s => ∃ ds, c.digests? = some ds ∧
      P (c.acknowledged ds d) (keys ++ acknowledgeKeys ds d) s)
    fun _ s => c.digests? = none ∧ P c keys s := by
  refine .bind (Q := fun ds s => c.digests? = some ds ∧ P c keys s) ?_
    fun ds => .of_fact fun hds => ?_
  · exact (hb.readPending c keys).mono (fun _ hs => hs) (fun _ _ hs => hs)
      fun _ _ hs => ⟨hs.1.1, hs.2⟩
  · show Ensures _ (if ds.contains d then _ else _) _ _
    split
    · next hmem =>
      have hmem : d ∈ ds := by simpa using hmem
      refine .bind (hb.writePending c keys _) fun _ => ?_
      refine (hb.writeMessage _ _ d []).mono (fun _ hs => hs) (fun _ s hs => ⟨ds, hds, ?_⟩)
        fun _ _ hs => hs
      rw [List.append_assoc] at hs
      rwa [Contents.acknowledged, if_pos hmem, acknowledgeKeys, if_pos hmem]
    · next hmem =>
      have hmem : d ∉ ds := by simpa using hmem
      refine .pure fun s hs => ⟨ds, hds, ?_⟩
      rwa [Contents.acknowledged, if_neg hmem, acknowledgeKeys, if_neg hmem, List.append_nil]

theorem readMessages (ds : List (Octets 32)) {E : StoreError → σ → Prop} :
    Ensures (P c keys) (readMessages b ds)
      (fun ms s => ms = ds.filterMap c.letter? ∧ P c keys s) E := by
  induction ds with
  | nil => exact .pure fun _ hs => ⟨rfl, hs⟩
  | cons d ds ih =>
    refine .bind (.attempt
      (Q := fun found s => found.toOption = c.values Record.outbox.id (messageKey d) ∧ P c keys s)
      ?_) fun found => .of_fact fun hfound => ?_
    · refine (hb.retrieve c keys _).mono (fun _ hs => hs) (fun raw s hs => ?_) fun e s hs => ?_
      · exact ⟨hs.1.symm, hs.2⟩
      · exact ⟨hs.1.1.symm, hs.2⟩
    · refine .bind ih fun rest => .of_fact fun hrest => ?_
      have hletter : found.toOption.bind Message.decode? = c.letter? d := by rw [hfound]; rfl
      rw [hletter, List.filterMap_cons, hrest]
      cases c.letter? d with
      | some m => exact .pure fun _ hs => ⟨rfl, hs⟩
      | none => exact .pure fun _ hs => ⟨rfl, hs⟩

/-- **What waits is read.** -/
theorem pending : Ensures (P c keys) (pending b) (fun ms s => c.waiting? = some ms ∧ P c keys s)
    fun e s => (c.waiting? = none ∧ e = .undecodable) ∧ P c keys s := by
  refine .bind (Q := fun ds s => c.digests? = some ds ∧ P c keys s) ?_
    fun ds => .of_fact fun hds => ?_
  · refine (hb.readPending c keys).mono (fun _ hs => hs) (fun _ _ hs => hs) fun e s hs => ?_
    exact ⟨⟨by simp [Contents.waiting?, hs.1.1], hs.1.2⟩, hs.2⟩
  · refine (hb.readMessages c keys ds).mono (fun _ hs => hs) (fun ms s hs => ?_) fun _ _ hs => hs
    exact ⟨by simp [Contents.waiting?, hds, hs.1], hs.2⟩

variable {c}

/-- What is read depends on what waits alone. -/
theorem pending_outcome {s : σ} (hs : P c keys s) :
    (Outbox.pending b).outcome s = match c.waiting? with
    | some ms => .ok ms
    | none => .error .undecodable := by
  cases hout : (Outbox.pending b).outcome s with
  | ok ms => rw [((hb.pending c keys).ok hs hout).1]
  | error e =>
    obtain ⟨⟨hwaiting, rfl⟩, -⟩ := (hb.pending c keys).error hs hout
    rw [hwaiting]

theorem readPending_outcome {s : σ} (hs : P c keys s) {ds : List (Octets 32)} :
    (Outbox.readPending b).outcome s = .ok ds ↔ c.digests? = some ds := by
  constructor
  · exact fun hout => ((hb.readPending c keys).ok hs hout).1
  · intro hds
    cases hout : (Outbox.readPending b).outcome s with
    | ok ks => rw [Option.some.inj (hds.symm.trans ((hb.readPending c keys).ok hs hout).1)]
    | error e =>
      have hnone := ((hb.readPending c keys).error hs hout).1.1
      rw [hds] at hnone
      cases hnone

end Served
end Outbox

/-- Values under the outbox record can always be stored, and one that is kept can be retrieved. -/
structure Backend.Contract.ServesOutbox (C : b.Contract) : Prop where
  store : ∀ key raw s, C.Valid s → (b.store Record.outbox key raw).outcome s = .ok Record.outbox
  retrieve : ∀ key s e, C.Valid s → (b.retrieve Record.outbox key).outcome s = .error e →
    e.isNotFound = true

theorem Backend.Contract.Reliable.servesOutbox {C : b.Contract} (h : C.Reliable) :
    C.ServesOutbox where
  store key raw s hs := h.store _ key raw s Outbox.outbox_id_ne_mempool hs
  retrieve key s e hs he := by
    rw [h.retrieve _ key s Outbox.outbox_id_ne_mempool hs] at he
    split at he
    · cases he
    · cases he
      unfold Backend.Contract.missing
      split <;> rfl

namespace Outbox

variable {C : b.Contract} (hC : C.ServesOutbox) (c : Contents)
include hC

theorem served : Served b fun c _ => C.Holds c where
  store c _ key raw := by
    have hstore := C.store c Record.outbox key raw outbox_id_ne_mempool
    refine .of_cases (fun s q hs hq => (hstore.ok hs hq).2) fun s e hs he => ?_
    rw [hC.store key raw s hs.1] at he
    cases he
  retrieve c _ key := by
    have hretrieve := C.retrieve c Record.outbox key
    refine .of_cases (fun s raw hs hraw => ?_) fun s e hs he => ?_
    · obtain ⟨hvalue, hafter⟩ := hretrieve.ok hs hraw
      exact ⟨hvalue outbox_id_ne_mempool, hafter⟩
    · have hnotFound := hC.retrieve key s e hs.1 he
      obtain ⟨hvalue, hafter⟩ := hretrieve.error hs he
      exact ⟨⟨hvalue outbox_id_ne_mempool hnotFound, hnotFound⟩, hafter⟩

theorem push_ensures (m : Message) : Ensures (C.Holds c) (push b m)
    (fun d s => d = m.digest ∧ ∃ ds, c.digests? = some ds ∧ C.Holds (c.pushed ds m) s)
    fun _ s => c.digests? = none ∧ C.Holds (c.withLetter m.digest m.encode) s :=
  (served hC).push c [] m

theorem acknowledge_ensures (d : Octets 32) : Ensures (C.Holds c) (acknowledge b d)
    (fun _ s => ∃ ds, c.digests? = some ds ∧ C.Holds (c.acknowledged ds d) s)
    fun _ s => c.digests? = none ∧ C.Holds c s := (served hC).acknowledge c [] d

theorem pending_ensures : Ensures (C.Holds c) (pending b)
    (fun ms s => c.waiting? = some ms ∧ C.Holds c s)
    fun e s => (c.waiting? = none ∧ e = .undecodable) ∧ C.Holds c s := (served hC).pending c []

theorem pending_outcome {s : σ} (hs : C.Valid s) :
    (pending b).outcome s = match (C.see s).waiting? with
      | some ms => .ok ms
      | none => .error .undecodable := (served hC).pending_outcome [] ⟨hs, rfl⟩

/-- Two states are read alike just where the same messages wait. -/
theorem pending_outcome_eq_iff {s t : σ} (hs : C.Valid s) (ht : C.Valid t) :
    (pending b).outcome t = (pending b).outcome s ↔ (C.see t).waiting? = (C.see s).waiting? := by
  rw [pending_outcome hC hs, pending_outcome hC ht]
  cases (C.see t).waiting? <;> cases (C.see s).waiting? <;> simp

end Outbox
end SealedStore

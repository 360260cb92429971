import SealedStore.Proofs.Backend.Listing
import SealedStore.Redis.Client

/-! # Records that expire

On a server where every key expires the same time after it was written, a record and the list that
names it are two keys and expire each on its own.  A list never expires before a record that it
names: the record is written first, and every initialization writes the whole list again, also when
the record is on it already.  So a record that has not expired is listed (`Expiring.Faithful`), and
one that has is passed over.

Time passes between any two commands, also between those of one call (`Expiring.paced`).  What is
known of the server while a call waits is therefore only what lasts (`Lasting`).
-/
namespace SealedStore.Redis

open Step KeyValue

/-! ## A server on which time passes -/

namespace Expiring

/-- The server some seconds later. -/
def later (e : Expiring) (seconds : Nat) : Expiring := { e with now := e.now + seconds }

/-- A server that keeps keys until they expire, and on which the next of these numbers of seconds
passes before each command. -/
def paced : Server (Expiring × List Nat) where
  connect s := (.answered (), s)
  execute c s :=
    let y := server.execute c (s.1.later (s.2.headD 0))
    (y.1, (y.2, s.2.tail))

/-- Whether a record is there and has not expired. -/
def Alive (e : Expiring) (r : Record) : Prop := e.find? (recordKey r.id) = some r.encode

instance (e : Expiring) (r : Record) : Decidable (e.Alive r) :=
  inferInstanceAs (Decidable (e.find? (recordKey r.id) = some r.encode))

/-- The expiry of a key that has this value, expired or not. -/
def Until (e : Expiring) (key : String) (value : Bytes) (expiry : Nat) : Prop :=
  e.entries.find? key = some (value, expiry)

theorem find?_eq_some_iff {e : Expiring} {key : String} {value : Bytes} :
    e.find? key = some value ↔ ∃ expiry, e.Until key value expiry ∧ e.now < expiry := by
  unfold find? Until
  cases e.entries.find? key with
  | none => simp
  | some entry =>
    obtain ⟨v, expiry⟩ := entry
    by_cases hlive : e.now < expiry <;> simp [hlive]

theorem find?_eq_none_iff {e : Expiring} {key : String} :
    e.find? key = none ↔ ∀ value expiry, e.Until key value expiry → expiry ≤ e.now := by
  rw [Option.eq_none_iff_forall_ne_some]
  constructor
  · intro h value expiry huntil
    exact Nat.le_of_not_lt fun hlive => h value (find?_eq_some_iff.mpr ⟨expiry, huntil, hlive⟩)
  · intro h value hvalue
    obtain ⟨expiry, huntil, hlive⟩ := find?_eq_some_iff.mp hvalue
    exact absurd hlive (Nat.not_lt_of_le (h value expiry huntil))

theorem until_set_iff {e : Expiring} {key l : String} {value v : Bytes} {seconds expiry : Nat} :
    (e.set key value seconds).Until l v expiry ↔
      key = l ∧ value = v ∧ e.now + seconds = expiry ∨ key ≠ l ∧ e.Until l v expiry := by
  unfold Until set
  rw [Table.find?_insert]
  by_cases hkey : key = l <;> simp [hkey]

/-! ## What is known of a server -/

/-- What goes on to hold while time passes. -/
def Lasting (P : Expiring → Prop) : Prop := ∀ e seconds, P e → P (e.later seconds)

theorem Lasting.and {P Q : Expiring → Prop} (hP : Lasting P) (hQ : Lasting Q) :
    Lasting fun e => P e ∧ Q e :=
  fun e seconds h => ⟨hP e seconds h.1, hQ e seconds h.2⟩

/-- **Faithful entries**: what stands where a record or a list is kept is one, no id is twice on a
list, and a record that has not expired is named by its list, which expires no sooner.  Records that
are `owed` have yet to be listed. -/
structure Faithful (ttl : Nat) (owed : Record → Prop) (e : Expiring) : Prop where
  bounded : ∀ key value expiry, e.Until key value expiry → expiry ≤ e.now + ttl
  record : ∀ id value expiry, e.Until (recordKey id) value expiry →
    ∃ r : Record, r.id = id ∧ value = r.encode
  list : ∀ space block value expiry, e.Until (listKey space block) value expiry →
    ∃ ids : List RecordId, value = encodeList ids ∧ ids.Nodup
  listed : ∀ (r : Record) expiry, e.Until (recordKey r.id) r.encode expiry →
    e.now < expiry → ¬ owed r →
    ∃ ids listExpiry, e.Until (listKey r.version r.decryptionCondition)
      (encodeList ids) listExpiry ∧
      expiry ≤ listExpiry ∧ r.id ∈ ids

/-- Whether these ids are all that a list has to name: the records on it that have not expired, but
for those that are owed. -/
def Covers (owed : Record → Prop) (space : String) (block : BitVec 64) (ids : List RecordId)
    (e : Expiring) : Prop :=
  ids.Nodup ∧ ∀ r : Record, e.Alive r → (r.version, r.decryptionCondition) = (space, block) →
    ¬ owed r → r.id ∈ ids

/-- Time only makes records expire. -/
theorem Alive.of_later {e : Expiring} {seconds : Nat} {r : Record} (h : (e.later seconds).Alive r) :
    e.Alive r := by
  obtain ⟨expiry, huntil, hlive⟩ := find?_eq_some_iff.mp h
  exact find?_eq_some_iff.mpr ⟨expiry, huntil, Nat.lt_of_le_of_lt (Nat.le_add_right _ _) hlive⟩

theorem lasting_faithful (ttl : Nat) (owed : Record → Prop) : Lasting (Faithful ttl owed) := by
  intro e seconds h
  refine ⟨fun key value expiry huntil => ?_, h.record, h.list,
    fun r expiry huntil hlive hpaid => ?_⟩
  · refine Nat.le_trans (h.bounded key value expiry huntil) ?_
    show e.now + ttl ≤ e.now + seconds + ttl
    omega
  · exact h.listed r expiry huntil (Nat.lt_of_le_of_lt (Nat.le_add_right _ _) hlive) hpaid

theorem lasting_covers (owed : Record → Prop) (space : String) (block : BitVec 64)
    (ids : List RecordId) :
    Lasting (Covers owed space block ids) :=
  fun _ _ h => ⟨h.1, fun r halive => h.2 r halive.of_later⟩

theorem faithful_empty (ttl now : Nat) (owed : Record → Prop) : Faithful ttl owed ⟨.empty, now⟩ :=
  ⟨nofun, nofun, nofun, nofun⟩

namespace Faithful

variable {ttl : Nat} {owed : Record → Prop} {e : Expiring}

/-- The bytes of a record tell it. -/
theorem encode_inj {r q : Record} (h : r.encode = q.encode) : r = q := by
  have hdecode := congrArg Record.decode? h
  rw [Record.decode?_encode, Record.decode?_encode] at hdecode
  exact Option.some.inj hdecode

/-- The bytes of a list tell it. -/
theorem encodeList_inj {ids others : List RecordId} (h : encodeList ids = encodeList others) :
    ids = others := by
  have hdecode := congrArg (decodeList? 16) h
  rw [decodeList?_encodeList, decodeList?_encodeList] at hdecode
  exact Option.some.inj hdecode

/-- A list that has not expired names all that it has to. -/
theorem covers_of_some (h : Faithful ttl owed e) {space : String}
    {block : BitVec 64} {value : Bytes} (hlist : e.find? (listKey space block) = some value) :
    ∃ ids, value = encodeList ids ∧ Covers owed space block ids e := by
  obtain ⟨expiry, huntil, -⟩ := find?_eq_some_iff.mp hlist
  obtain ⟨ids, rfl, hnodup⟩ := h.list space block value expiry huntil
  refine ⟨ids, rfl, hnodup, fun r halive hat hpaid => ?_⟩
  obtain ⟨rfl, rfl⟩ := Prod.mk.inj hat
  obtain ⟨recordExpiry, hrecord, hlive⟩ := find?_eq_some_iff.mp halive
  obtain ⟨others, listExpiry, hothers, -, hmem⟩ := h.listed r recordExpiry hrecord hlive hpaid
  rw [Until, show e.entries.find? _ = _ from huntil] at hothers
  rwa [encodeList_inj (Prod.mk.inj (Option.some.inj hothers)).1]

/-- A list that is not there or has expired has nothing to name. -/
theorem covers_of_none (h : Faithful ttl owed e) {space : String} {block : BitVec 64}
    (hnone : e.find? (listKey space block) = none) : Covers owed space block [] e := by
  refine ⟨List.nodup_nil, fun r halive hat hpaid => ?_⟩
  obtain ⟨rfl, rfl⟩ := Prod.mk.inj hat
  obtain ⟨expiry, hrecord, hlive⟩ := find?_eq_some_iff.mp halive
  obtain ⟨ids, listExpiry, hlist, hle, -⟩ := h.listed r expiry hrecord hlive hpaid
  -- the list expires no sooner than the record
  have hexpired := find?_eq_none_iff.mp hnone _ _ hlist
  omega

/-- **What a write has to leave**: a record where records are, a list of distinct ids where lists
are, and each record that is not owed on a list that expires no sooner. -/
theorem set (h : Faithful ttl owed e) {owing : Record → Prop} {key : String} {value : Bytes}
    (hrecord : ∀ id, key = recordKey id → ∃ r : Record, r.id = id ∧ value = r.encode)
    (hlist : ∀ space block, key = listKey space block →
      ∃ ids : List RecordId, value = encodeList ids ∧ ids.Nodup)
    (hlisted : ∀ (r : Record) expiry, (e.set key value ttl).Until (recordKey r.id) r.encode expiry →
      e.now < expiry → ¬ owing r → ∃ ids listExpiry,
        (e.set key value ttl).Until (listKey r.version r.decryptionCondition)
          (encodeList ids) listExpiry ∧
          expiry ≤ listExpiry ∧ r.id ∈ ids) :
    Faithful ttl owing (e.set key value ttl) where
  bounded l v expiry huntil := by
    rcases until_set_iff.mp huntil with ⟨-, -, rfl⟩ | ⟨-, huntil⟩
    · exact Nat.le_refl _
    · exact h.bounded l v expiry huntil
  record id v expiry huntil := by
    rcases until_set_iff.mp huntil with ⟨hkey, rfl, -⟩ | ⟨-, huntil⟩
    · exact hrecord id hkey
    · exact h.record id v expiry huntil
  list space block v expiry huntil := by
    rcases until_set_iff.mp huntil with ⟨hkey, rfl, -⟩ | ⟨-, huntil⟩
    · exact hlist space block hkey
    · exact h.list space block v expiry huntil
  listed := hlisted

/-- A record that is written is owed to its list. -/
theorem claim (h : Faithful ttl (fun _ => False) e) (r : Record) :
    Faithful ttl (· = r) (e.set (recordKey r.id) r.encode ttl) := by
  refine h.set (fun id hkey => ⟨r, recordKey_injective hkey, rfl⟩)
    (fun _ _ hkey => absurd hkey (recordKey_ne_listKey _ _ _)) fun q expiry huntil hlive hpaid => ?_
  rcases until_set_iff.mp huntil with ⟨-, hsame, -⟩ | ⟨-, huntil⟩
  · exact absurd (encode_inj hsame).symm hpaid
  · obtain ⟨ids, listExpiry, hlist, hle, hmem⟩ := h.listed q expiry huntil hlive not_false
    exact ⟨ids, listExpiry, until_set_iff.mpr (.inr ⟨recordKey_ne_listKey _ _ _, hlist⟩), hle, hmem⟩

/-- A list that is written names what it has to, and the record that was owed. -/
theorem enlist {r : Record} (h : Faithful ttl (· = r) e) {ids : List RecordId}
    (hids : Covers (· = r) r.version r.decryptionCondition ids e) :
    Faithful ttl (fun _ => False)
      (e.set (listKey r.version r.decryptionCondition) (encodeList (listedWith ids r.id)) ttl) := by
  refine h.set (fun id hkey => absurd hkey.symm (recordKey_ne_listKey _ _ _))
    (fun _ _ _ => ⟨_, rfl, nodup_listedWith hids.1 r.id⟩) fun q expiry huntil hlive _ => ?_
  rcases until_set_iff.mp huntil with ⟨hkey, -⟩ | ⟨-, huntil⟩
  · exact absurd hkey.symm (recordKey_ne_listKey _ _ _)
  by_cases hat : (q.version, q.decryptionCondition) = (r.version, r.decryptionCondition)
  · -- on this list, which now expires last
    obtain ⟨hspace, hblock⟩ := Prod.mk.inj hat
    refine ⟨listedWith ids r.id, e.now + ttl, ?_, h.bounded _ _ _ huntil, ?_⟩
    · exact until_set_iff.mpr (.inl ⟨by rw [hspace, hblock], rfl, rfl⟩)
    · by_cases hq : q = r
      · exact mem_listedWith.mpr (.inr (congrArg Record.id hq))
      · have halive : e.Alive q := find?_eq_some_iff.mpr ⟨expiry, huntil, hlive⟩
        exact mem_listedWith.mpr (.inl (hids.2 q halive hat hq))
  · have hkey : listKey r.version r.decryptionCondition ≠ listKey q.version q.decryptionCondition :=
      fun hkey => hat (Prod.ext_iff.mpr (listKey_injective hkey.symm))
    have hq : q ≠ r := fun hq => hat (by rw [hq])
    obtain ⟨others, listExpiry, hlist, hle, hmem⟩ := h.listed q expiry huntil hlive hq
    exact ⟨others, listExpiry, until_set_iff.mpr (.inr ⟨hkey, hlist⟩), hle, hmem⟩

/-- A value that is kept elsewhere touches neither records nor lists. -/
theorem value (h : Faithful ttl owed e) {key : String} (hrecord : ∀ id, key ≠ recordKey id)
    (hlist : ∀ space block, key ≠ listKey space block) (value : Bytes) :
    Faithful ttl owed (e.set key value ttl) := by
  refine h.set (fun id hkey => absurd hkey (hrecord id))
    (fun space block hkey => absurd hkey (hlist space block)) fun q expiry huntil hlive hpaid => ?_
  rcases until_set_iff.mp huntil with ⟨hkey, -⟩ | ⟨-, huntil⟩
  · exact absurd hkey (hrecord q.id)
  · obtain ⟨ids, listExpiry, hids, hle, hmem⟩ := h.listed q expiry huntil hlive hpaid
    exact ⟨ids, listExpiry, until_set_iff.mpr (.inr ⟨hlist _ _, hids⟩), hle, hmem⟩

end Faithful

end Expiring

/-! ## What the store ensures -/

namespace Store

variable {settings : StoreSettings} {P : Expiring → Prop}

/-- Whether a client is connected to a server of which `P` holds. -/
def Holds (P : Expiring → Prop) (l : Link (Expiring × List Nat)) : Prop :=
  l.connected = true ∧ P l.server.1

/-- A command that is answered. -/
theorem command_ensures (hP : Expiring.Lasting P) {c : Command} {Q : Reply → Expiring → Prop}
    (hc : ∀ e, P e → ∃ reply, (Expiring.server.execute c e).1 = .answered reply ∧
      Q reply (Expiring.server.execute c e).2) :
    Ensures (Holds P) (command Expiring.paced settings c) (fun reply => Holds (Q reply))
      fun _ _ => False := by
  rintro ⟨⟨e, delays⟩, connected⟩ ⟨rfl, he⟩
  obtain ⟨reply, hreply, hQ⟩ := hc _ (hP e (delays.headD 0) he)
  simp only [command, Expiring.paced, reduceIte, hreply]
  exact ⟨rfl, hQ⟩

theorem get_ensures (hP : Expiring.Lasting P) {key : String} {Q : Option Bytes → Expiring → Prop}
    (hQ : ∀ e, P e → Q (e.find? key) e) :
    Ensures (Holds P) ((keyValue Expiring.paced settings).get key) (fun value => Holds (Q value))
      fun _ _ => False := by
  refine .bind (command_ensures hP (Q := fun reply e => ∃ value : Option Bytes,
    reply = value.elim .nothing .bytes ∧ Q value e) fun e he => ⟨_, rfl, _, rfl, hQ e he⟩)
    fun reply => ?_
  rintro s ⟨hconnected, value, rfl, hvalue⟩
  cases value <;> exact ⟨hconnected, hvalue⟩

theorem put_ensures (hP : Expiring.Lasting P) {key : String} {value : Bytes} {Q : Expiring → Prop}
    (hQ : ∀ e, P e → Q (e.set key value settings.expiry)) :
    Ensures (Holds P) ((keyValue Expiring.paced settings).put key value) (fun _ => Holds Q)
      fun _ _ => False :=
  .bind (command_ensures hP (Q := fun _ => Q) fun e he => ⟨_, rfl, hQ e he⟩) fun _ =>
    .pure fun _ hs => hs

theorem putIfAbsent_ensures (hP : Expiring.Lasting P) {key : String} {value : Bytes}
    {Q : Bool → Expiring → Prop}
    (habsent : ∀ e, P e → e.find? key = none → Q true (e.set key value settings.expiry))
    (hpresent : ∀ e, P e → e.find? key ≠ none → Q false e) :
    Ensures (Holds P) ((keyValue Expiring.paced settings).putIfAbsent key value)
      (fun made => Holds (Q made)) fun _ _ => False := by
  refine .bind (command_ensures hP (Q := fun reply => Q (reply ≠ .nothing)) fun e he => ?_) fun _ =>
    .pure fun _ hs => hs
  simp only [Expiring.server, Bool.true_and]
  cases hfind : e.find? key with
  | none => exact ⟨.done, rfl, habsent e he hfind⟩
  | some held => exact ⟨.nothing, rfl, hpresent e he (by rw [hfind]; exact nofun)⟩

/-! ### Writing -/

section

variable {σ : Type} {kv : KeyValue σ} {A : σ → Prop} {B : Option Bytes → σ → Prop}

/-- A list is read off one entry. -/
theorem readIndex_of_get {key : String} {R : List RecordId → σ → Prop}
    (hget : Ensures A (kv.get (valueKey Record.mempool.id key)) B fun _ _ => False)
    (hsome : ∀ raw s, B (some raw) s → ∃ ids, raw = encodeList ids ∧ R ids s)
    (hnone : ∀ s, B none s → R [] s) :
    Ensures A (kv.readIndex key) R fun _ _ => False := by
  have hretrieve : Ensures A (kv.retrieve Record.mempool key) (fun raw => B (some raw))
      fun err s => err.isNotFound = true ∧ B none s := by
    refine .bind hget.unfailing fun held => ?_
    cases held with
    | some raw => exact .pure fun _ hs => hs
    | none => exact .fail fun _ hs => ⟨rfl, hs⟩
  refine hretrieve.bind_attempt (fun raw => ?_) fun err => .of_fact fun hnotFound => ?_
  · refine Ensures.ofExcept (fun ids s hids hs => ?_) fun err s herr hs => ?_ <;>
      obtain ⟨others, rfl, hR⟩ := hsome raw s hs
    · rw [decodeList?_encodeList] at hids
      cases hids
      exact hR
    · rw [decodeList?_encodeList] at herr
      cases herr
  · show Ensures _ (if err.isNotFound then _ else _) _ _
    rw [if_pos hnotFound]
    exact .pure hnone

/-- A record is read off one entry. -/
theorem fetch_of_get {id : RecordId} {R : Record → σ → Prop} {S : σ → Prop}
    (hget : Ensures A (kv.get (recordKey id)) B fun _ _ => False)
    (hsome : ∀ raw s, B (some raw) s → ∃ r : Record, raw = r.encode ∧ R r s)
    (hnone : ∀ s, B none s → S s) :
    Ensures A (kv.fetch id) R fun err s => err = .recordNotFound id ∧ S s := by
  refine .bind hget.unfailing fun held => ?_
  cases held with
  | none => exact .fail fun s hs => ⟨rfl, hnone s hs⟩
  | some raw =>
    refine Ensures.ofExcept (fun r s hr hs => ?_) fun err s herr hs => ?_ <;>
      obtain ⟨q, rfl, hR⟩ := hsome raw s hs
    · rw [Record.decode?_encode] at hr
      cases hr
      exact hR
    · rw [Record.decode?_encode] at herr
      exact nomatch herr

end

/-- Nothing is owed to a list. -/
abbrev Faithful (settings : StoreSettings) : Expiring → Prop :=
  Expiring.Faithful settings.expiry fun _ => False

/-- A list that is read names all that it has to, and does so as time passes. -/
theorem readIndex_ensures {ttl : Nat} {owed : Record → Prop} (hP : Expiring.Lasting P)
    (hfaithful : ∀ e, P e → Expiring.Faithful ttl owed e) (space : String) (block : BitVec 64) :
    Ensures (Holds P) ((keyValue Expiring.paced settings).readIndex (indexKey space block))
      (fun ids => Holds fun e => P e ∧ Expiring.Covers owed space block ids e)
        fun _ _ => False := by
  refine readIndex_of_get
    (get_ensures hP (Q := fun value e => P e ∧ value = e.find? (listKey space block))
      fun e he => ⟨he, rfl⟩) ?_ ?_
  · rintro raw s ⟨hconnected, he, hraw⟩
    obtain ⟨ids, rfl, hcovers⟩ := (hfaithful _ he).covers_of_some hraw.symm
    exact ⟨ids, rfl, hconnected, he, hcovers⟩
  · rintro s ⟨hconnected, he, hnone⟩
    exact ⟨hconnected, he, (hfaithful _ he).covers_of_none hnone.symm⟩

/-- A record that is kept is owed to its list from then on. -/
theorem claim_ensures (r : Record) :
    Ensures (Holds (Faithful settings)) ((keyValue Expiring.paced settings).claim r)
      (fun _ => Holds (Expiring.Faithful settings.expiry (· = r))) fun _ =>
        Holds (Faithful settings) := by
  let kept : Bool → Expiring → Prop := fun made =>
    if made then Expiring.Faithful settings.expiry (· = r) else Faithful settings
  have hput : Ensures (Holds (Faithful settings))
      ((keyValue Expiring.paced settings).putIfAbsent (recordKey r.id) r.encode)
      (fun made => Holds (kept made))
      fun _ _ => False :=
    putIfAbsent_ensures (Expiring.lasting_faithful _ _) (fun e he _ => he.claim r) fun e he _ => he
  refine .bind hput.unfailing fun made => ?_
  cases made with
  | true => exact .pure fun _ hs => hs
  | false => exact .fail fun _ hs => hs

/-- A list that is written pays what it was owed. -/
theorem enlist_ensures (r : Record) :
    Ensures (Holds (Expiring.Faithful settings.expiry (· = r)))
      ((keyValue Expiring.paced settings).enlist r)
      (fun _ => Holds (Faithful settings)) fun _ _ => False := by
  refine .bind (readIndex_ensures (Expiring.lasting_faithful _ _) (fun _ he => he) r.version
    r.decryptionCondition) fun ids =>
      .bind (.bind ?_ fun _ => .pure fun _ hs => hs) fun _ => .pure fun _ hs => hs
  exact put_ensures ((Expiring.lasting_faithful _ _).and (Expiring.lasting_covers _ _ _ ids))
    (Q := Faithful settings) fun e he => he.1.enlist he.2

/-- **An initialization keeps the entries faithful**, whether or not it is refused. -/
theorem init_keeps (r : Record) :
    Keeps (Holds (Faithful settings)) ((keyValue Expiring.paced settings).init r) :=
  .bind (claim_ensures r) fun _ => (enlist_ensures r).unfailing

/-- A value is kept and no list is written. -/
theorem store_keeps {r : Record} {key : String}
    (hkey : ∀ space block, valueKey r.id key ≠ listKey space block)
    (value : Bytes) :
    Keeps (Holds (Faithful settings)) ((keyValue Expiring.paced settings).store r key value) := by
  have hput : Ensures (Holds (Faithful settings))
      ((keyValue Expiring.paced settings).put (valueKey r.id key) value)
      (fun _ => Holds (Faithful settings)) fun _ _ => False :=
    put_ensures (Expiring.lasting_faithful _ _) fun e he =>
      he.value (fun id => (recordKey_ne_valueKey id _ _).symm) hkey value
  exact .bind hput.unfailing fun _ => .pure fun _ hs => hs

/-! ### Listing -/

/-- Whether a server has these entries, not before a moment. -/
def During (entries : Table String (Bytes × Nat)) (moment : Nat) (e : Expiring) : Prop :=
  e.entries = entries ∧ moment ≤ e.now

theorem lasting_during (entries : Table String (Bytes × Nat)) (moment : Nat) :
    Expiring.Lasting (During entries moment) :=
  fun _ _ he => ⟨he.1, Nat.le_trans he.2 (Nat.le_add_right _ _)⟩

variable {entries : Table String (Bytes × Nat)} {moment : Nat}

/-- A record that has not expired had not expired before. -/
theorem During.alive {e : Expiring} (h : During entries moment e) {r : Record}
    (halive : e.Alive r) :
    Expiring.Alive ⟨entries, moment⟩ r := by
  have he : Expiring.later ⟨entries, moment⟩ (e.now - moment) = e := by
    obtain ⟨rfl, hle⟩ := h
    rw [Expiring.later, Nat.add_sub_cancel' hle]
  rw [← he] at halive
  exact halive.of_later

/-- The bytes of records alone are kept where records are. -/
def Recorded (entries : Table String (Bytes × Nat)) : Prop :=
  ∀ id value expiry, entries.find? (recordKey id) = some (value, expiry) →
    ∃ r : Record, r.id = id ∧ value = r.encode

/-- A record is fetched while it is alive. -/
theorem fetch_ensures (hentries : Recorded entries) (id : RecordId) :
    Ensures (Holds (During entries moment)) ((keyValue Expiring.paced settings).fetch id)
      (fun r s => (r.id = id ∧ Expiring.Alive ⟨entries, moment⟩ r) ∧
        Holds (During entries moment) s)
      fun err s => err = .recordNotFound id ∧ ∃ expired,
        (moment ≤ expired ∧ ∀ r : Record, r.id = id → ¬ Expiring.Alive ⟨entries, expired⟩ r) ∧
          Holds (During entries expired) s := by
  refine fetch_of_get (get_ensures (lasting_during entries moment) (Q := fun value e =>
    During entries moment e ∧ value = e.find? (recordKey id)) fun e he => ⟨he, rfl⟩) ?_ ?_
  · rintro raw s ⟨hconnected, he, hraw⟩
    obtain ⟨expiry, huntil, -⟩ := Expiring.find?_eq_some_iff.mp hraw.symm
    rw [Expiring.Until, he.1] at huntil
    obtain ⟨r, rfl, rfl⟩ := hentries id raw expiry huntil
    exact ⟨r, rfl, ⟨rfl, he.alive hraw.symm⟩, hconnected, he⟩
  · rintro ⟨⟨⟨entries, now⟩, delays⟩, connected⟩ ⟨hconnected, ⟨rfl, hle⟩, hnone⟩
    refine ⟨now, ⟨hle, ?_⟩, hconnected, rfl, Nat.le_refl _⟩
    rintro r rfl halive
    exact nomatch hnone.trans halive

/-- **A listing gives what is alive while it lasts**: a record that has not expired at its end as
often as its id is on the list, and no record that had expired before. -/
theorem fetchAll_ensures (hentries : Recorded entries) (ids : List RecordId) :
    Ensures (Holds (During entries moment)) ((keyValue Expiring.paced settings).fetchAll ids)
      (fun rs => Holds fun e => During entries moment e ∧
        (∀ q : Record, e.Alive q → rs.count q = ids.count q.id) ∧
        ∀ r ∈ rs, Expiring.Alive ⟨entries, moment⟩ r) fun _ _ => False := by
  induction ids generalizing moment with
  | nil => exact .pure fun _ hs => ⟨hs.1, hs.2, fun _ _ => rfl, nofun⟩
  | cons id ids ih =>
    refine (fetch_ensures hentries id).bind_attempt (fun r => ?_) fun err => ?_
    · refine .of_fact fun ⟨hid, halive⟩ => ?_
      refine .bind (@ih moment) fun rs => .pure ?_
      rintro s ⟨hconnected, he, hcount, hrs⟩
      refine ⟨hconnected, he, fun q hq => ?_, fun q hq => ?_⟩
      · -- two records that are alive under one id are one
        have hsame : r = q ↔ id = q.id := by
          refine ⟨fun hrq => hid ▸ congrArg Record.id hrq, fun hiq => ?_⟩
          have hq' : Expiring.find? ⟨entries, moment⟩ (recordKey q.id) = some q.encode :=
            he.alive hq
          rw [← hiq, ← hid, show Expiring.find? ⟨entries, moment⟩ (recordKey r.id) = some r.encode
            from halive] at hq'
          exact Expiring.Faithful.encode_inj (Option.some.inj hq')
        rw [List.count_cons, List.count_cons, hcount q hq]
        simp only [beq_iff_eq, hsame]
      · rcases List.mem_cons.mp hq with rfl | hq
        · exact halive
        · exact hrs q hq
    · refine .of_fact fun herr => .of_exists fun expired => .of_fact fun ⟨hle, hexpired⟩ => ?_
      subst herr
      refine (@ih expired).mono (fun _ hs => hs) ?_ fun _ _ hs => hs
      rintro rs s ⟨hconnected, he, hcount, hrs⟩
      refine ⟨hconnected, ⟨he.1, Nat.le_trans hle he.2⟩, fun q hq => ?_, fun q hq => ?_⟩
      · have hne : id ≠ q.id := fun hid => hexpired q hid.symm (he.alive hq)
        rw [hcount q hq, List.count_cons_of_ne hne]
      · have hduring : During entries moment ⟨entries, expired⟩ := ⟨rfl, hle⟩
        exact hduring.alive (hrs q hq)

/-! ## Histories -/

/-- Whether a call initializes a record, or keeps a value and does not write
an index list itself. -/
def Writes : Backend.Call → Prop
  | .init _ => True
  | .store r key _ => ∀ space block, valueKey r.id key ≠ listKey space block
  | _ => False

theorem answer_keeps {call : Backend.Call} (hcall : Writes call) :
    Keeps (Holds (Faithful settings)) ((keyValue Expiring.paced settings).backend.answer call) := by
  cases call with
  | init r => exact .bind (init_keeps r) fun _ => .pure fun _ hs => hs
  | store r key value => exact .bind (store_keeps hcall value) fun _ => .pure fun _ hs => hs
  | _ => exact hcall.elim

/-- **Every history of writes keeps the entries faithful.** -/
theorem afterAll_faithful {calls : List Backend.Call} (hcalls : ∀ call ∈ calls, Writes call)
    {l : Link (Expiring × List Nat)} (hl : Holds (Faithful settings) l) :
    Holds (Faithful settings) ((keyValue Expiring.paced settings).backend.afterAll calls l) := by
  induction calls generalizing l with
  | nil => exact hl
  | cons call calls ih =>
    exact ih (fun other hother => hcalls other (List.mem_cons_of_mem _ hother))
      ((answer_keeps (hcalls call List.mem_cons_self)).after hl)

/-- The server some seconds later. -/
def waits (seconds : Nat) (l : Link (Expiring × List Nat)) : Link (Expiring × List Nat) :=
  { l with server := (l.server.1.later seconds, l.server.2) }

/-- **A listing succeeds and names each record that is alive once.** -/
theorem list_of_faithful {l : Link (Expiring × List Nat)} (hl : Holds (Faithful settings) l)
    (space : String) (block : BitVec 64) :
    ∃ rs, ((keyValue Expiring.paced settings).list block space).outcome l = .ok rs ∧
      (∀ r : Record,
        (((keyValue Expiring.paced settings).list block space).after l).server.1.Alive r →
          (r.version, r.decryptionCondition) = (space, block) → rs.count r = 1) ∧
      ∀ r ∈ rs, l.server.1.Alive r := by
  have hentries : Recorded l.server.1.entries := hl.2.record
  have hlist : Ensures
      (Holds fun e => Faithful settings e ∧ During l.server.1.entries l.server.1.now e)
      ((keyValue Expiring.paced settings).list block space)
      (fun rs => Holds fun e =>
        (∀ r : Record, e.Alive r → (r.version, r.decryptionCondition) = (space, block) →
          rs.count r = 1) ∧
        ∀ r ∈ rs, l.server.1.Alive r) fun _ _ => False := by
    refine .bind (readIndex_ensures ((Expiring.lasting_faithful _ _).and (lasting_during _ _))
      (fun _ he => he.1) space block) fun ids => ?_
    rintro ⟨⟨⟨entries, read⟩, delays⟩, connected⟩ ⟨hconnected, ⟨-, rfl, hle⟩, hnodup, hcovers⟩
    -- what was on the list when it was read is what is looked for from then on
    refine (fetchAll_ensures hentries ids).mono (fun _ hs => hs) ?_ (fun _ _ hs => hs) _
      ⟨hconnected, rfl, Nat.le_refl read⟩
    rintro rs s ⟨hafter, he, hcount, hrs⟩
    refine ⟨hafter, fun r halive hat => ?_, fun r hr => ?_⟩
    · rw [hcount r halive]
      exact List.count_eq_one_of_mem hnodup (hcovers r (he.alive halive) hat not_false)
    · have hduring : During l.server.1.entries l.server.1.now ⟨l.server.1.entries, read⟩ :=
        ⟨rfl, hle⟩
      exact hduring.alive (hrs r hr)
  obtain ⟨rs, hout, hafter⟩ := hlist.exists_ok ⟨hl.1, hl.2, rfl, Nat.le_refl _⟩
  exact ⟨rs, hout, hafter.2⟩

/-- **No record that has not expired is missed.**  Records are initialized, again and again as they
expire, and values are kept, with any time between any two commands to the server and any time
behind the last; no call writes an index list itself.  Then what stands where a record is kept is
one, no index list names an id twice, and a listing succeeds: each record of the namespace and
decryption condition that has not expired at its end comes once, and no record that had expired at
its beginning comes at all. -/
theorem live_records_listed (settings : StoreSettings) (now : Nat) (delays : List Nat)
    {calls : List Backend.Call} (hcalls : ∀ call ∈ calls, Writes call) (behind : Nat)
    (space : String) (block : BitVec 64) :
    let kv := keyValue Expiring.paced settings
    let l := waits behind (kv.backend.afterAll calls ⟨(⟨.empty, now⟩, delays), true⟩)
    (∀ id raw, l.server.1.find? (recordKey id) = some raw →
      ∃ r : Record, r.id = id ∧ raw = r.encode) ∧
      (∀ space block raw expiry, l.server.1.Until (listKey space block) raw expiry →
        ∃ ids : List RecordId, raw = encodeList ids ∧ ids.Nodup) ∧
      ∃ rs, (kv.list block space).outcome l = .ok rs ∧
        (∀ r : Record, ((kv.list block space).after l).server.1.Alive r →
          (r.version, r.decryptionCondition) = (space, block) → rs.count r = 1) ∧
        ∀ r ∈ rs, l.server.1.Alive r := by
  intro kv l
  have hempty : Holds (Faithful settings) ⟨(⟨.empty, now⟩, delays), true⟩ :=
    ⟨rfl, Expiring.faithful_empty _ _ _⟩
  have hafter := afterAll_faithful hcalls hempty
  have hl : Holds (Faithful settings) l :=
    ⟨hafter.1, Expiring.lasting_faithful _ _ _ behind hafter.2⟩
  refine ⟨fun id raw hraw => ?_, hl.2.list, list_of_faithful hl space block⟩
  obtain ⟨expiry, huntil, -⟩ := Expiring.find?_eq_some_iff.mp hraw
  exact hl.2.record id raw expiry huntil

/-- A record with an id that is not derived. -/
private def lodger (n : UInt8) : Record :=
  { Record.fresh Octets.zero 7 [] [] "a" with id := Octets.replicate 16 n }

/-- A record is initialized again once it has expired, on a list that names it still; a second later
the list names another record that has expired by then. -/
theorem live_records_listed_renewed :
    let settings := { StoreSettings.default with ttl := .ofSeconds 2 }
    let calls := [.init (lodger 1), .init (lodger 2), .store (lodger 1) "k" [1], .init (lodger 1)]
    let kv := keyValue Expiring.paced settings
    let l :=
      waits 1 (kv.backend.afterAll calls ⟨(⟨.empty, 10⟩, [0, 0, 0, 1, 0, 0, 0, 1, 0, 0]), true⟩)
    (∀ call ∈ calls, Writes call) ∧ (kv.list 7 "a").outcome l = .ok [lodger 1] ∧
      (kv.readIndex (indexKey "a" 7)).outcome l = .ok [(lodger 1).id, (lodger 2).id] ∧
      ∃ rs, (kv.list 7 "a").outcome l = .ok rs ∧ rs.count (lodger 1) = 1 := by
  intro settings calls kv l
  have hcalls : ∀ call ∈ calls, Writes call := by
    intro call hcall
    simp only [calls, List.mem_cons, List.not_mem_nil, or_false] at hcall
    rcases hcall with rfl | rfl | rfl | rfl
    · trivial
    · trivial
    · intro space block hkey
      exact absurd (valueKey_injective hkey).1 (by decide)
    · trivial
  obtain ⟨-, -, rs, hrs, hcount, -⟩ :=
    live_records_listed settings 10 [0, 0, 0, 1, 0, 0, 0, 1, 0, 0] hcalls 1 "a" 7
  exact ⟨hcalls,
    by decide +kernel, by decide +kernel, rs, hrs, hcount (lodger 1) (by decide +kernel) rfl⟩

/-- A value that is kept in place of an index list hides a record that is alive. -/
theorem live_record_hidden :
    let kv := keyValue Expiring.paced .default
    let l :=
      kv.backend.afterAll
        [.init (lodger 1), .store Record.mempool (indexKey "a" 7) (encodeList (n := 16) [])]
      ⟨(⟨.empty, 0⟩, []), true⟩
    l.server.1.Alive (lodger 1) ∧
      (kv.list (lodger 1).decryptionCondition (lodger 1).version).outcome l = .ok [] := by
  decide +kernel

end Store

end SealedStore.Redis

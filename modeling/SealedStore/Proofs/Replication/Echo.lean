import SealedStore.Proofs.Replication.Filter
import SealedStore.Proofs.Replication.Published

/-! # A node's own messages

What an engine publishes comes back to it on the topic, and it must drop just that.  A message
counts as the engine's own by its name and its signature together: an engine signs with the keys
that it holds, and whoever recovers what a key signed gets the address of that key, so what a
finalization publishes is signed by one of the engine's addresses (`Engine.judge_published`).  The
name alone suppresses nothing, since a message of any other signer is judged as if the engine had
another name (`Engine.Foreign.receive_named`).  Together: `Engine.drops_own_alone`.
-/
namespace SealedStore

open Step

/-! ## Signing with keys that are held -/

namespace KeyRing

variable {keys : List Curve.PrivateKey}

theorem mem_addresses_iff {a : Address} :
    a ∈ (ofKeys keys).addresses ↔ ∃ k ∈ keys, k.address = a := by
  simp only [addresses, ofKeys, List.mem_eraseDups, List.mem_map, exists_exists_and_eq_and]

/-- A ring signs for an account only with a key of that account. -/
theorem sign_ok {a : Address} {data signature : Bytes}
    (h : (ofKeys keys).sign a data = .ok signature) :
    ∃ k ∈ keys, k.address = a ∧ signature = (k.sign (Keccak.digest data)).toBytes := by
  unfold sign at h
  split at h
  · next pair hfound =>
    obtain ⟨k, hk, rfl⟩ := List.mem_map.mp (List.mem_of_find?_eq_some hfound)
    exact ⟨k, hk, by simpa using List.find?_some hfound, (Except.ok.inj h).symm⟩
  · cases h

end KeyRing

/-- **A signer that holds these keys**: it signs with them and with no others, their addresses are
its own, and it recovers the address of a key from what the key signed. -/
structure Signer.HoldsKeys (v : Signer) (keys : List Curve.PrivateKey) : Prop where
  addresses : v.addresses = (KeyRing.ofKeys keys).addresses
  sign : v.sign = (KeyRing.ofKeys keys).sign
  recover : ∀ k ∈ keys, ∀ data, v.recover data (k.sign (Keccak.digest data)).toBytes = .ok k.address

/-- What is signed for an account is recovered as the account's, and the account is one
of the signer's own. -/
theorem Signer.HoldsKeys.signed {v : Signer} {keys : List Curve.PrivateKey} (h : v.HoldsKeys keys)
    {account : Address} {data signature : Bytes} (hsign : v.sign account data = .ok signature) :
    v.recover data signature = .ok account ∧ account ∈ v.addresses := by
  rw [h.sign] at hsign
  obtain ⟨k, hk, haddress, hsignature⟩ := KeyRing.sign_ok hsign
  rw [hsignature, ← haddress, h.addresses]
  exact ⟨h.recover k hk data, KeyRing.mem_addresses_iff.mpr ⟨k, hk, rfl⟩⟩

/-- The ring as a signer with these means of telling who signed. -/
def KeyRing.signerWith (ring : KeyRing) (recover : Bytes → Bytes → Except StoreError Address)
    (sender : Transaction → Except StoreError Address) : Signer :=
  ⟨ring.addresses, ring.sign, recover, sender⟩

theorem KeyRing.holdsKeys_signerWith {keys : List Curve.PrivateKey}
    {recover : Bytes → Bytes → Except StoreError Address}
    {sender : Transaction → Except StoreError Address}
    (h : ∀ k ∈ keys, ∀ data, recover data (k.sign (Keccak.digest data)).toBytes = .ok k.address) :
    ((ofKeys keys).signerWith recover sender).HoldsKeys keys := ⟨rfl, rfl, h⟩

/-- A ring of keys holds them, provided that recovery on the curve undoes
what each of them signs. -/
theorem KeyRing.holdsKeys_signer {keys : List Curve.PrivateKey}
    (h : ∀ k ∈ keys, ∀ data, recover data (k.sign (Keccak.digest data)).toBytes = .ok k.address) :
    (ofKeys keys).signer.HoldsKeys keys := holdsKeys_signerWith h

namespace Engine

variable {σ τ : Type} {e : Engine σ τ}

/-! ## What a finalization publishes -/

/-- The messages that a finalization hands to publication. -/
def published (e : Engine σ τ) (tx : Transaction) (rs : List Record) (ws : List StoreWrite)
    (s : State σ τ) : List Message :=
  ((e.finalize tx rs ws).after s).outgoing.drop s.outgoing.length

/-- Whether some finalization of the engine publishes a message. -/
def Publishes (e : Engine σ τ) (m : Message) : Prop := ∃ tx rs ws s, m ∈ e.published tx rs ws s

/-- A finalization publishes its message if it succeeds, and nothing otherwise. -/
theorem published_eq (tx : Transaction) (rs : List Record) (ws : List StoreWrite) (s : State σ τ) :
    ((e.finalize tx rs ws).outcome s = .ok () ∧
      ∃ message, e.Composes tx ws message ∧ e.published tx rs ws s = message.toList) ∨
    ((∃ err, (e.finalize tx rs ws).outcome s = .error err) ∧ e.published tx rs ws s = []) := by
  have hhands := finalize_hands_over (e := e) tx rs ws s.topic s.outgoing
  unfold published
  cases hout : (e.finalize tx rs ws).outcome s with
  | ok _ =>
    obtain ⟨message, hmessage, -, ho⟩ := hhands.ok ⟨rfl, rfl⟩ hout
    exact .inl ⟨rfl, message, hmessage, by rw [ho, List.drop_left]⟩
  | error err =>
    obtain ⟨-, ho⟩ := hhands.error ⟨rfl, rfl⟩ hout
    exact .inr ⟨⟨err, rfl⟩, by rw [ho, List.drop_length]⟩

/-- Over a reliable backend, writes that can be signed are published, provided that the
outbox can be read. -/
theorem mem_published_of_reliable {C : e.backend.Contract} (hC : C.Reliable)
    (hkeeps : e.keepsOutbox = true)
    {tx : Transaction} {ws : List StoreWrite} (hws : ∀ w ∈ ws, w.record.id ≠ Record.mempool.id)
    {m : Message} (hm : e.Composes tx ws (some m)) {c d : Contents} {s : State σ τ}
    (hs : (view C.toView).Holds c s)
    (hd : c.deposited? (some m) = some d) : m ∈ e.published tx [] ws s := by
  have hfinalize : Ensures ((view C.toView).Holds c) (e.finalize tx [] ws)
      (fun _ => (view C.toView).Holds ((d.withRecords []).withWrites ws)) fun _ _ => False :=
    finalize_of_reliable hC c hws hkeeps hm hd (.nil c)
  obtain ⟨_, hok, -⟩ := hfinalize.exists_ok hs
  rcases published_eq tx [] ws s with ⟨-, message, hmessage, hlist⟩ | ⟨⟨err, herr⟩, -⟩
  · rw [hlist, hmessage.unique hm]
    exact List.mem_singleton.mpr rfl
  · rw [hok] at herr
    cases herr

/-- **What an engine publishes is its own**: it bears the engine's name, and a key of
the engine signed it. -/
theorem judge_published {keys : List Curve.PrivateKey} (hkeys : e.signer.HoldsKeys keys)
    {m : Message} (hm : e.Publishes m) : e.judge m = .ok .echo := by
  obtain ⟨tx, rs, ws, s, hm⟩ := hm
  rcases published_eq (e := e) tx rs ws s with ⟨-, message, hmessage, hlist⟩ | ⟨-, hlist⟩
  · rw [hlist, Option.mem_toList] at hm
    subst hm
    obtain ⟨author, hsender, hsign⟩ := hmessage.signed
    obtain ⟨hrecover, hheld⟩ := hkeys.signed hsign
    refine judge_echo_iff.mpr ⟨author, author_ok_iff.mpr ⟨hrecover, hsender⟩, ?_⟩
    simp [isOwn, hmessage.writes.2.2, hheld]
  · rw [hlist] at hm
    cases hm

/-- Whether two states have the same storage. -/
def State.SameStorage (s t : State σ τ) : Prop := s.storage = t.storage

theorem onStorage_sameStorage {α : Type} (m : Step σ α) :
    Simulates State.SameStorage (onStorage (τ := τ) m) (onStorage m) := by
  intro s t h
  have h : s.storage = t.storage := h
  exact ⟨congrArg m.outcome h.symm, congrArg m.after h⟩

theorem count_sameStorage (metric : Metric) :
    Simulates (State.SameStorage (σ := σ) (τ := τ)) (count metric) (count metric) :=
  fun _ _ h => ⟨rfl, h⟩

/-- What a message leaves in the storage depends on nothing else in the engine's state. -/
theorem receive_sameStorage (m : Message) :
    Simulates State.SameStorage (e.receive m) (e.receive m) :=
  receive_alike count_sameStorage rfl fun _ =>
    applyWrite_alike count_sameStorage (onStorage_sameStorage _) (onStorage_sameStorage _)

/-- **Echoes, wherever they stand among other messages, leave no trace** in the storage. -/
theorem storage_deliver_without {ms : List Message} {keep : Message → Bool}
    (h : ∀ m ∈ ms, keep m = false → e.judge m = .ok .echo) {s t : State σ τ}
    (hst : s.SameStorage t) :
    (e.deliver s ms).storage = (e.deliver t (ms.filter keep)).storage := by
  induction ms generalizing s t with
  | nil => exact hst
  | cons m ms ih =>
    have hrest := fun m' hm' => h m' (List.mem_cons_of_mem m hm')
    cases hkeep : keep m with
    | true =>
      rw [List.filter_cons_of_pos hkeep]
      exact ih hrest (receive_sameStorage m s t hst).2
    | false =>
      rw [List.filter_cons_of_neg (by simp [hkeep])]
      refine ih hrest ?_
      show ((e.receive m s).2).storage = t.storage
      rw [receive_of_echo (h m List.mem_cons_self hkeep)]
      exact hst

/-! ## What others sign -/

/-- Whether no address of the engine signed a message, whatever name it bears. -/
def Foreign (e : Engine σ τ) (m : Message) : Prop :=
  ∀ a ∈ e.signer.addresses, e.signer.recover m.signableBytes m.signature ≠ .ok a

/-- Whether the sender of its transaction signed a message, and each of its writes is approved. -/
def Sincere (e : Engine σ τ) (m : Message) : Prop :=
  ∃ a, e.author m = .ok a ∧ ∀ w ∈ m.writes, e.Approved a w

/-- The engine under another name. -/
def named (e : Engine σ τ) (name : Uuid) : Engine σ τ := { e with uuid := name }

theorem checkWrites_named (name : Uuid) (a : Address) (ws : List StoreWrite) :
    (e.named name).checkWrites a ws = e.checkWrites a ws := by
  induction ws with
  | nil => rfl
  | cons w ws ih =>
    rw [checkWrites, checkWrites, ih]
    rfl

namespace Foreign

variable {m : Message}

theorem isOwn_eq_false (h : e.Foreign m) {a : Address} (ha : e.author m = .ok a) :
    e.isOwn m a = false := by
  have hnot : a ∉ e.signer.addresses := fun hmem => h a hmem (author_ok_iff.mp ha).1
  simp [isOwn, hnot]

/-- The name of the engine does not matter. -/
theorem judge_named (h : e.Foreign m) (name : Uuid) : (e.named name).judge m = e.judge m := by
  have hnamed : (e.named name).Foreign m := h
  refine Check.bind_congr fun a ha => ?_
  rw [h.isOwn_eq_false ha, hnamed.isOwn_eq_false ha, checkWrites_named]

theorem receive_named (h : e.Foreign m) (name : Uuid) : (e.named name).receive m = e.receive m := by
  unfold receive
  rw [h.judge_named name]
  rfl

theorem judge_ne_echo (h : e.Foreign m) : e.judge m ≠ .ok .echo := by
  intro hecho
  obtain ⟨a, ha, hown⟩ := judge_echo_iff.mp hecho
  rw [h.isOwn_eq_false ha] at hown
  cases hown

theorem judge_accept_iff (h : e.Foreign m) : e.judge m = .ok .accept ↔ e.Sincere m := by
  rw [Engine.judge_accept_iff]
  exact exists_congr fun a => and_congr_right fun ha => and_iff_right (h.isOwn_eq_false ha)

end Foreign

/-- **What becomes of a message that no address of the engine signed.** -/
structure Foreign.Judged (e : Engine σ τ) (m : Message) : Prop where
  /-- An engine of any other name does with it what this one does. -/
  renamed : ∀ name, (e.named name).receive m = e.receive m
  /-- It is not dropped as an echo. -/
  kept : e.judge m ≠ .ok .echo
  /-- A sincere one is applied, write by write, -/
  applied : e.Sincere m → ∀ s, e.receive m s = forEach m.writes e.applyWrite
    { s with metrics := s.metrics.add .messagesReceived 1 } ∧ (e.receive m).outcome s = .ok ()
  /-- which takes in all of its writes where nothing fails. -/
  takenIn : e.Sincere m → ∀ {P : σ → Prop}, e.backend.Serves P → ∀ s, P s.storage →
    ((e.receive m).after s).storage = e.backend.ingestAll s.storage m.writes
  /-- Then a record is held where none had its id, and each value is the last that was written. -/
  contents : e.Sincere m → ∀ C : e.backend.Contract, C.Reliable → ∀ s, C.Valid s.storage →
    C.see ((e.receive m).after s).storage = (C.see s.storage).ingestAll m.writes
  /-- Any other is rejected, and only counted. -/
  rejected : ¬ e.Sincere m → ∃ err, ∀ s, e.receive m s =
    (.error err, { s with metrics := s.metrics.add .messagesReceived 1 })

theorem Foreign.judged {m : Message} (h : e.Foreign m) : Foreign.Judged e m where
  renamed := h.receive_named
  kept := h.judge_ne_echo
  applied hsincere s := by
    have haccept := h.judge_accept_iff.mpr hsincere
    refine ⟨receive_of_accept haccept s, ?_⟩
    rw [receive_outcome, haccept]
    rfl
  takenIn hsincere P hb s hs := by
    rw [(storage_receive hb m hs).1, taken_of_accept (h.judge_accept_iff.mpr hsincere)]
  contents hsincere C hC s hs := by
    have hreceive := (receive_of_reliable hC m (C.see s.storage)).after ⟨hs, rfl⟩
    rw [taken_of_accept (h.judge_accept_iff.mpr hsincere)] at hreceive
    exact hreceive.2
  rejected hinsincere := by
    obtain ⟨err, herr⟩ :=
      judge_error_iff_ne.mpr ⟨h.judge_ne_echo, mt h.judge_accept_iff.mp hinsincere⟩
    exact ⟨err, receive_of_reject herr⟩

end Engine

/-! ## A forged name -/

namespace Curve.Signature

/-- The signature with its bare parity, a form that recovery takes as well. -/
def bareBytes (sig : Curve.Signature) : Bytes :=
  Bytes.ofNat 32 sig.r.toNat ++ Bytes.ofNat 32 sig.s.toNat ++ [if sig.odd then 1 else 0]

theorem ofBytes_bareBytes (sig : Curve.Signature) : ofBytes sig.bareBytes = .ok sig := by
  have hr : Bytes.toNat (Bytes.ofNat 32 sig.r.toNat) = sig.r.toNat := Bytes.toNat_ofNat sig.r.isLt
  have hs : Bytes.toNat (Bytes.ofNat 32 sig.s.toNat) = sig.s.toNat := Bytes.toNat_ofNat sig.s.isLt
  obtain ⟨r, s, odd⟩ := sig
  cases odd <;> simp [ofBytes, bareBytes, hr, hs, bind, Except.bind, pure, Except.pure]

/-- The two forms are told apart by their last byte. -/
theorem bareBytes_ne_toBytes (sig other : Curve.Signature) : sig.bareBytes ≠ other.toBytes := by
  obtain ⟨r, s, odd⟩ := sig
  obtain ⟨r', s', odd'⟩ := other
  intro h
  have hlast := congrArg List.getLast? h
  simp only [bareBytes, toBytes, List.getLast?_append, List.getLast?_singleton] at hlast
  cases odd <;> cases odd' <;> simp at hlast

end Curve.Signature

namespace Sample

/-- Somebody who signs. -/
structure Holder where
  address : Address
  sign : Bytes → Curve.Signature

/-- The holder of a private key. -/
def holder (k : Curve.PrivateKey) : Holder := ⟨k.address, fun data => k.sign (Keccak.digest data)⟩

/-- What a transaction with this nonce says. -/
def payload (nonce : BitVec 64) : Payload := .legacy none 0 none ⟨nonce, 0, 0, []⟩

namespace Holder

variable (x : Holder)

/-- The transaction with this nonce that a holder sends. -/
def tx (nonce : BitVec 64) : Transaction :=
  (payload nonce).signed (x.sign (payload nonce).signingBytes)

/-- The record with a holder's signature. -/
def record (r : Record) : Record := { r with signature := (x.sign r.signableBytes).bareBytes }

/-- The message with a holder's signature. -/
def message (m : Message) : Message := { m with signature := (x.sign m.signableBytes).bareBytes }

theorem signableBytes_record (r : Record) : (x.record r).signableBytes = r.signableBytes := by
  rw [record]
  generalize (x.sign r.signableBytes).bareBytes = signature
  rfl

theorem signableBytes_message (m : Message) : (x.message m).signableBytes = m.signableBytes := by
  rw [message]
  generalize (x.sign m.signableBytes).bareBytes = signature
  rfl

theorem signature_record (r : Record) :
    (x.record r).signature = (x.sign r.signableBytes).bareBytes := rfl

theorem signature_message (m : Message) :
    (x.message m).signature = (x.sign m.signableBytes).bareBytes := rfl

theorem sourceTx_message (m : Message) : (x.message m).sourceTx = m.sourceTx := by rw [message]

theorem tx_ne (y : Holder) {n m : BitVec 64} (h : n ≠ m) : x.tx n ≠ y.tx m := by
  intro he
  have hpayload : payload n = payload m := congrArg Transaction.payload he
  simp [payload, h] at hpayload

end Holder

section
variable (k : Curve.PrivateKey) (x : Holder)

/-- Who signed what, as far as one key and one other holder can tell: what the key issues is its
own, and anything else is read and held against what the other one signs. -/
def whoSigned (data signature : Bytes) : Except StoreError Address :=
  if signature = (k.sign (Keccak.digest data)).toBytes then .ok k.address
  else do
    let sig ← Curve.Signature.ofBytes signature
    if sig = x.sign data then .ok x.address else .error (.signing "signature error")

theorem whoSigned_other (data : Bytes) :
    whoSigned k x data (x.sign data).bareBytes = .ok x.address := by
  rw [whoSigned, if_neg (Curve.Signature.bareBytes_ne_toBytes _ _),
    Curve.Signature.ofBytes_bareBytes]
  exact if_pos rfl

/-- Who sends what: each of them one transaction. -/
def whoSends (t : Transaction) : Except StoreError Address :=
  if t = (holder k).tx 1 then .ok k.address
  else if t = x.tx 2 then .ok x.address
  else .error (.unsignedTransaction "Failed to recover the signer")

theorem whoSends_own : whoSends k x ((holder k).tx 1) = .ok k.address := if_pos rfl

theorem whoSends_other : whoSends k x (x.tx 2) = .ok x.address := by
  rw [whoSends, if_neg (x.tx_ne (holder k) (by decide))]
  exact if_pos rfl

/-- A node that holds the key, with an outbox. -/
def keyNode : Engine Memory (Hub Message) :=
  { engine Octets.zero true with
    signer := (KeyRing.ofKeys [k]).signerWith (whoSigned k x) (whoSends k x) }

theorem holdsKeys_keyNode : (keyNode k x).signer.HoldsKeys [k] := by
  refine KeyRing.holdsKeys_signerWith fun k' hk data => ?_
  rw [List.mem_singleton.mp hk]
  exact if_pos rfl

theorem recover_keyNode : (keyNode k x).signer.recover = whoSigned k x := rfl

theorem sender_keyNode : (keyNode k x).signer.sender = whoSends k x := rfl

theorem recover_record (r : Record) :
    (keyNode k x).signer.recover (x.record r).signableBytes (x.record r).signature =
      .ok x.address := by
  rw [recover_keyNode, x.signableBytes_record, x.signature_record, whoSigned_other]

theorem author_message {m : Message} (hm : m.sourceTx = x.tx 2) :
    (keyNode k x).author (x.message m) = .ok x.address := by
  refine Engine.author_ok_iff.mpr ⟨?_, ?_⟩
  · rw [recover_keyNode, x.signableBytes_message, x.signature_message, whoSigned_other]
  · rw [sender_keyNode, x.sourceTx_message, hm, whoSends_other]

/-- A record of the other holder that is open to both, without its id. -/
def sharedBare : Record :=
  let owners := [k.address, x.address]
  { Record.fresh Octets.zero 0 owners owners "sample" with creationTx := some (x.tx 2) }

/-- The record as the other holder created it. -/
def sharedRecord : Record := x.record { sharedBare k x with id := (sharedBare k x).derivedId }

theorem derivedId_sharedRecord : (sharedRecord k x).derivedId = (sharedRecord k x).id := by
  have hsame : (sharedRecord k x).SameAccess (sharedBare k x) := ⟨rfl, rfl, rfl, rfl, rfl⟩
  exact hsame.derivedId

/-- A message that the other holder signs under the name of the node. -/
def forged : Message :=
  x.message ⟨x.tx 2, [⟨sharedRecord k x, x.address, "k", [1]⟩], (keyNode k x).uuid, []⟩

theorem author_forged : (keyNode k x).author (forged k x) = .ok x.address := author_message k x rfl

theorem origin_forged : (forged k x).origin = (keyNode k x).uuid := rfl

theorem foreign_forged (h : k.address ≠ x.address) : (keyNode k x).Foreign (forged k x) := by
  intro a ha hrecover
  obtain ⟨k', hk, rfl⟩ := KeyRing.mem_addresses_iff.mp ha
  cases List.mem_singleton.mp hk
  have hother := (Engine.author_ok_iff.mp (author_forged k x)).1
  exact h (Except.ok.inj (hrecover.symm.trans hother))

theorem sincere_forged : (keyNode k x).Sincere (forged k x) := by
  refine ⟨x.address, author_forged k x, fun w hw => ?_⟩
  obtain rfl : w = ⟨sharedRecord k x, x.address, "k", [1]⟩ := List.mem_singleton.mp hw
  have hmem : x.address ∈ [k.address, x.address] := List.mem_cons_of_mem _ List.mem_cons_self
  exact
    { derived := derivedId_sharedRecord k x
      created := ⟨x.tx 2, x.address, rfl, whoSends_other k x, recover_record k x _⟩
      mayReplicate := hmem
      mayWrite := hmem }

/-- A write of the node's account. -/
def ownWrite : StoreWrite := ⟨sharedRecord k x, k.address, "k", [2]⟩

/-- The message of the node's own batch. -/
def ownMessage : Message :=
  let bare : Message := ⟨(holder k).tx 1, [ownWrite k x], (keyNode k x).uuid, []⟩
  { bare with signature := (k.sign (Keccak.digest bare.signableBytes)).toBytes }

theorem composes_ownMessage :
    (keyNode k x).Composes ((holder k).tx 1) [ownWrite k x] (some (ownMessage k x)) := by
  have hsign : ∀ data, (keyNode k x).signer.sign k.address data =
      .ok (k.sign (Keccak.digest data)).toBytes := by
    intro data
    rw [(holdsKeys_keyNode k x).sign]
    simp [KeyRing.sign, KeyRing.ofKeys]
  have hsender : (keyNode k x).signer.sender ((holder k).tx 1) = .ok k.address := by
    rw [sender_keyNode, whoSends_own]
  unfold ownMessage
  exact Engine.composes_of_sign (List.cons_ne_nil _ _) hsender (hsign _)

/-- The contract of the node's backend. -/
def keyContract : (keyNode k x).backend.Contract := Memory.contract

theorem publishes_ownMessage : (keyNode k x).Publishes (ownMessage k x) := by
  have hreliable : (keyContract k x).Reliable := Memory.contract_reliable
  have hws : ∀ w ∈ [ownWrite k x], w.record.id ≠ Record.mempool.id := by
    intro w hw
    rw [List.mem_singleton.mp hw]
    show (sharedRecord k x).id ≠ _
    rw [← derivedId_sharedRecord]
    exact (sharedRecord k x).derivedId_ne_mempool
  exact ⟨(holder k).tx 1, [], [ownWrite k x], .initial Memory.empty .empty,
    Engine.mem_published_of_reliable hreliable rfl hws (composes_ownMessage k x) ⟨trivial, rfl⟩ rfl⟩

end

theorem two_lt_order : 2 < Curve.n := by decide

theorem one_lt_order : 1 < Curve.n := Nat.lt_of_succ_lt two_lt_order

/-- A private key.  Its address is a digest, so the definition is kept closed. -/
@[irreducible] def key : Curve.PrivateKey := ⟨1, Nat.one_pos, one_lt_order⟩

/-- Another one. -/
@[irreducible] def otherKey : Curve.PrivateKey := ⟨2, Nat.two_pos, two_lt_order⟩

theorem address_key_ne : key.address ≠ (holder otherKey).address := by decide +kernel

end Sample

/-! ## Own messages and no others -/

namespace Engine

variable {σ τ : Type} {e : Engine σ τ}

/-- **An engine drops its own messages and no others.**  What a finalization of the engine published
is received without an error and changes nothing but the counts of messages, in every state, and so
leaves no trace wherever it stands, and however often, among other messages.  A message that no key
of the engine signed is judged by its author and its writes alone, also where it bears the engine's
name: it is applied or rejected. -/
theorem drops_own_alone {keys : List Curve.PrivateKey} (hkeys : e.signer.HoldsKeys keys) :
    (∀ m, e.Publishes m → ∀ s, e.receive m s = (.ok (), { s with
      metrics := (s.metrics.add .messagesReceived 1).add .messagesEchoDropped 1 })) ∧
    (∀ ms (keep : Message → Bool), (∀ m ∈ ms, keep m = false → e.Publishes m) → ∀ s,
      (e.deliver s ms).storage = (e.deliver s (ms.filter keep)).storage) ∧
    ∀ m, e.Foreign m → Foreign.Judged e m := by
  refine ⟨fun m hm => ?_, fun ms keep hown s => ?_, fun m hm => hm.judged⟩
  · exact receive_of_echo (judge_published hkeys hm)
  · exact storage_deliver_without (fun m hm hkeep => judge_published hkeys (hown m hm hkeep)) rfl

/-- The statement at a message of the node itself, and at one that the holder of another key signed
under the node's name: the first is dropped, the second is applied. -/
theorem drops_own_alone_forged :
    let k := Sample.key
    let other := Sample.holder Sample.otherKey
    let e := Sample.keyNode k other
    let own := Sample.ownMessage k other
    let forged := Sample.forged k other
    let s : State Memory (Hub Message) := .initial Memory.empty .empty
    e.signer.HoldsKeys [k] ∧ e.Publishes own ∧
      e.receive own s = (.ok (), { s with
        metrics := (s.metrics.add .messagesReceived 1).add .messagesEchoDropped 1 }) ∧
      forged.origin = e.uuid ∧ e.author forged = .ok other.address ∧
      e.Foreign forged ∧ e.Sincere forged ∧
      ((e.receive forged).after s).storage = e.backend.ingestAll s.storage forged.writes := by
  intro k other e own forged s
  have hkeys := Sample.holdsKeys_keyNode k other
  have hown := Sample.publishes_ownMessage k other
  have hforeign := Sample.foreign_forged k other Sample.address_key_ne
  have hsincere := Sample.sincere_forged k other
  have hserves : e.backend.Serves fun _ => True := Memory.contract_reliable.serves
  obtain ⟨hdrops, -, hjudges⟩ := drops_own_alone hkeys
  exact ⟨hkeys, hown, hdrops _ hown s, Sample.origin_forged k other,
    Sample.author_forged k other, hforeign, hsincere,
    (hjudges _ hforeign).takenIn hsincere hserves s trivial⟩

end Engine
end SealedStore

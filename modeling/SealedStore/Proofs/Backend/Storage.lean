import SealedStore.Network
import SealedStore.Proofs.Backend.KeyValue

/-! # The backends of a network

Every engine of a network sees its storage through plans of faults, in one of two layouts.  In both,
and under any plan, its backend keeps the contract (`Network.Site.contract`), since an injected
fault is an error of the backend itself and says nothing of records.  So what is proved of engines
from the contract holds of every engine of every network.
-/
namespace SealedStore

open Step

variable {σ ρ : Type}

/-- A backend on a part of a larger state keeps the contract. -/
def Backend.Contract.within {b : Backend σ} (C : b.Contract) {part : ρ → σ} {replace : σ → ρ → ρ}
    (hpart : ∀ s r, part (replace s r) = s) : (b.within part replace).Contract where
  see r := C.see (part r)
  Valid r := C.Valid (part r)
  start c := (C.start c).on_part hpart
  stop c := (C.stop c).on_part hpart
  init c r := (C.init c r).on_part hpart
  store c r key value hr := (C.store c r key value hr).on_part hpart
  retrieve c r key := (C.retrieve c r key).on_part hpart
  fetch c id := (C.fetch c id).on_part hpart
  list c block space := (C.list c block space).on_part hpart

/-- A key-value store on a part of a larger state keeps the contract. -/
def KeyValue.Contract.within {kv : KeyValue σ} {F : StoreError → Prop}
    (K : kv.Contract F) {part : ρ → σ}
    {replace : σ → ρ → ρ} (hpart : ∀ s r, part (replace s r) = s) :
    (kv.within part replace).Contract F where
  see r := K.see (part r)
  start t := (K.start t).on_part hpart
  stop t := (K.stop t).on_part hpart
  get t k := (K.get t k).on_part hpart
  put t k v := (K.put t k v).on_part hpart
  putIfAbsent t k v := (K.putIfAbsent t k v).on_part hpart

/-! ## Injected faults -/

/-- A plan of faults refuses with the error it was given, about some text. -/
theorem Fault.Plan.eq_of_gate_error {fail : String → StoreError} {method subject : String}
    {plan : Fault.Plan} {e : StoreError}
    (h : (Fault.Plan.gate fail method subject).outcome plan = .error e) :
    ∃ text, e = fail text := by
  rw [outcome, Fault.Plan.gate] at h
  cases hcheck : Fault.Plan.check method subject plan with
  | mk refused rest =>
    rw [hcheck] at h
    cases refused with
    | true => exact ⟨_, (Except.error.inj h).symm⟩
    | false => cases h

/-- The errors of a faulty key-value store. -/
def Storage.Failure (e : StoreError) : Prop := ∃ text, e = .backend text

theorem Storage.mute_failure : KeyValue.Mute Failure := by
  rintro _ ⟨text, rfl⟩
  exact ⟨rfl, rfl⟩

/-! ## The layouts -/

namespace Storage

/-- The key-value store of a storage keeps the contract under any plan of faults. -/
def keyValueContract : keyValue.Contract Failure :=
  ((KeyValue.tableContract.mono fun _ => False.elim).guarded pairGate
    fun _ _ _ h => Fault.Plan.eq_of_gate_error h).within fun _ _ => rfl

/-- The backend of each layout keeps the contract. -/
def contract : (layout : Layout) → (backend layout).Contract
  | .memory => Memory.contract.within fun _ _ => rfl
  | .pairs => keyValueContract.backend mute_failure

end Storage

/-- **The backend of every engine of a network keeps the contract**,
whatever faults are injected. -/
def Network.Site.contract (name : String) (signer : Signer) (uuid : Uuid) (keepsOutbox : Bool)
    (layout : Storage.Layout) (storage : Nat) :
    (Site.create name signer uuid keepsOutbox layout storage).engine.backend.Contract :=
  (Storage.contract layout).guarded Fault.Plan.callGate fun _ _ _ h => by
    obtain ⟨text, rfl⟩ := Fault.Plan.eq_of_gate_error h
    exact ⟨rfl, rfl⟩

end SealedStore

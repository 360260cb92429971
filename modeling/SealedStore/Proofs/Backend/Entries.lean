import SealedStore.Backend.KeyValue
import SealedStore.Proofs.Backend.Contents
import SealedStore.Proofs.Record.Json

/-! # Records, values and lists among the entries of a key-value store

What a key-value store holds is a value for each text.  `KeyValue.contents` reads records, values
and index lists off such entries.  A storage key joins free texts with hyphens behind one of a few
beginnings, and still no two entries share one (`KeyValue.Entry.key_injective`), so that one entry
more changes one of them alone.  Entries are `Readable` as long as records and lists decode and
every listed id has a record; this is what each new entry keeps.
-/
namespace SealedStore.KeyValue

/-! ## Storage keys -/

theorem recordKey_injective {id i : RecordId} (h : recordKey id = recordKey i) : id = i := by
  have hlist := congrArg String.toList h
  simp only [recordKey, Hex.plain, String.toList_append, String.toList_ofList,
    List.append_cancel_left_eq] at hlist
  exact Octets.ext_toList (Hex.digits_injective hlist)

/-- The word `data` is no hexadecimal text. -/
theorem recordKey_ne_valueKey (id i : RecordId) (key : String) : recordKey id ≠ valueKey i key := by
  intro h
  have hlist := congrArg String.toList h
  have hdata : "bid-data-".toList = "bid-".toList ++ "data-".toList := rfl
  simp only [recordKey, valueKey, Hex.plain, String.toList_append, String.toList_ofList, hdata,
    List.append_assoc, List.append_cancel_left_eq] at hlist
  have hmem : 't' ∈ Hex.digits id.toList := hlist ▸ List.mem_append_left _ (by decide)
  exact absurd (Hex.digitValue?_of_mem_digits hmem) (by decide)

theorem valueKey_injective {id i : RecordId} {key k : String} (h : valueKey id key = valueKey i k) :
    id = i ∧ key = k := by
  have hlist := congrArg String.toList h
  simp only [valueKey, Hex.plain, String.toList_append, String.toList_ofList, List.append_assoc,
    List.append_cancel_left_eq] at hlist
  obtain ⟨hid, hkey⟩ :=
    List.append_inj hlist (by simp [Hex.length_digits, id.length_eq, i.length_eq])
  rw [List.append_cancel_left_eq] at hkey
  exact ⟨Octets.ext_toList (Hex.digits_injective hid), String.toList_inj.mp hkey⟩

/-- A text is split at its last hyphen in one way. -/
theorem eq_of_append_hyphen {as bs ds es : List Char} (h : as ++ '-' :: ds = bs ++ '-' :: es)
    (hds : '-' ∉ ds) (hes : '-' ∉ es) : as = bs ∧ ds = es := by
  rcases List.append_eq_append_iff.mp h with ⟨cs, rfl, hcs⟩ | ⟨cs, rfl, hcs⟩
  · cases cs with
    | nil => exact ⟨(List.append_nil as).symm, (List.cons.inj hcs).2⟩
    | cons c cs =>
      refine absurd ?_ hds
      rw [(List.cons.inj hcs).2]
      simp
  · cases cs with
    | nil => exact ⟨List.append_nil bs, ((List.cons.inj hcs).2).symm⟩
    | cons c cs =>
      refine absurd ?_ hes
      rw [(List.cons.inj hcs).2]
      simp

theorem hyphen_notMem_toDigits (n : Nat) : '-' ∉ Nat.toDigits 10 n := by
  intro h
  have hdigit := Nat.isDigit_of_mem_toDigits (by decide) (by decide) h
  exact absurd hdigit (by decide)

/-- A namespace may contain anything, the number behind it is digits alone. -/
theorem indexKey_injective {space s : String} {block b : BitVec 64}
    (h : indexKey space block = indexKey s b) : space = s ∧ block = b := by
  have hlist := congrArg String.toList h
  have hbn : "-bn-".toList = "-bn".toList ++ ['-'] := rfl
  simp only [indexKey, String.toList_append, hbn, List.append_assoc, List.append_cancel_left_eq,
    List.singleton_append, Nat.toString_eq_repr, Nat.toList_repr] at hlist
  rw [← List.append_assoc, ← List.append_assoc s.toList] at hlist
  obtain ⟨hspace, hblock⟩ :=
    eq_of_append_hyphen hlist (hyphen_notMem_toDigits _) (hyphen_notMem_toDigits _)
  have hnat := congrArg (Nat.ofDigitChars 10 · 0) hblock
  simp only [Nat.ofDigitChars_ten_toDigits] at hnat
  exact ⟨String.toList_inj.mp (List.append_cancel_right hspace), BitVec.eq_of_toNat_eq hnat⟩

/-! ## Lists of ids -/

theorem decodeList?_encodeList {n : Nat} (ids : List (Octets n)) :
    decodeList? n (encodeList ids) = some ids := by
  unfold decodeList? encodeList
  rw [Json.parseAs?_render (by simp)
    (Json.Shape.admits_list ids fun a _ => Json.Shape.admits_ofOctets _ a)]
  show (ids.map Json.ofOctets).mapM (Json.octets? n) = some ids
  rw [List.mapM_map]
  induction ids with
  | nil => rfl
  | cons a ids ih => simp [ih]

theorem mem_listedWith {ids : List RecordId} {id i : RecordId} :
    i ∈ listedWith ids id ↔ i ∈ ids ∨ i = id := by
  unfold listedWith
  split
  · next hmem =>
    refine ⟨.inl, ?_⟩
    rintro (hi | rfl)
    · exact hi
    · simpa using hmem
  · simp

theorem nodup_listedWith {ids : List RecordId} (h : ids.Nodup) (id : RecordId) :
    (listedWith ids id).Nodup := by
  unfold listedWith
  split
  · exact h
  · next hnew =>
    refine List.nodup_append.mpr ⟨h, List.pairwise_singleton _ id, ?_⟩
    rintro i hi _ hmem rfl
    rw [List.mem_singleton.mp hmem] at hi
    exact hnew (by simpa using hi)

/-! ## What a key-value store holds -/

/-- The entries with a value under a key. -/
def update (t : String → Option Bytes) (k : String) (v : Bytes) : String → Option Bytes :=
  fun l => if k = l then some v else t l

@[simp] theorem update_self (t : String → Option Bytes) (k : String) (v : Bytes) :
    update t k v k = some v := if_pos rfl

theorem update_of_ne (t : String → Option Bytes) {k l : String} (v : Bytes) (h : k ≠ l) :
    update t k v l = t l := if_neg h

/-- Where an index list is kept. -/
def listKey (space : String) (block : BitVec 64) : String :=
  valueKey Record.mempool.id (indexKey space block)

theorem listKey_injective {space s : String} {block b : BitVec 64}
    (h : listKey space block = listKey s b) : space = s ∧ block = b :=
  indexKey_injective (valueKey_injective h).2

theorem recordKey_ne_listKey (id : RecordId) (space : String) (block : BitVec 64) :
    recordKey id ≠ listKey space block := recordKey_ne_valueKey id _ _

/-- Only values under the mempool record stand where lists do. -/
theorem valueKey_ne_listKey {id : RecordId} (hid : id ≠ Record.mempool.id) (key space : String)
    (block : BitVec 64) : valueKey id key ≠ listKey space block :=
  fun h => hid (valueKey_injective h).1

/-- What a key-value store keeps: a record, a value under any record but the mempool
record, or an index list. -/
inductive Entry where
  | record (id : RecordId)
  | value (id : RecordId) (key : String) (other : id ≠ Record.mempool.id)
  | list (space : String) (block : BitVec 64)

namespace Entry

/-- Where an entry is kept. -/
def key : Entry → String
  | record id => recordKey id
  | value id key _ => valueKey id key
  | list space block => listKey space block

/-- **No two entries share a storage key.** -/
theorem key_injective : Function.Injective key := by
  intro a b h
  cases a with
  | record id =>
    cases b with
    | record i => rw [recordKey_injective h]
    | value i k _ => exact absurd h (recordKey_ne_valueKey id i k)
    | list space block => exact absurd h (recordKey_ne_listKey id space block)
  | value id k other =>
    cases b with
    | record i => exact absurd h.symm (recordKey_ne_valueKey i id k)
    | value i l _ =>
      obtain ⟨rfl, rfl⟩ := valueKey_injective h
      rfl
    | list space block => exact absurd h (valueKey_ne_listKey other k space block)
  | list space block =>
    cases b with
    | record i => exact absurd h.symm (recordKey_ne_listKey i space block)
    | value i l other => exact absurd h.symm (valueKey_ne_listKey other l space block)
    | list s b =>
      obtain ⟨rfl, rfl⟩ := listKey_injective h
      rfl

/-- An entry under the mempool record is an index list. -/
theorem eq_list_of_key {a : Entry} {key : String} (h : a.key = valueKey Record.mempool.id key) :
    ∃ space block, a = list space block ∧ key = indexKey space block := by
  cases a with
  | record id => exact absurd h (recordKey_ne_valueKey id _ key)
  | value id k other => exact absurd (valueKey_injective h).1 other
  | list space block => exact ⟨space, block, rfl, (valueKey_injective h).2.symm⟩

end Entry

/-- The ids of a list, none if it is not there. -/
def listed (t : String → Option Bytes) (space : String) (block : BitVec 64) : List RecordId :=
  ((t (listKey space block)).bind (decodeList? 16)).getD []

/-- The contents of entries.  What is kept under the mempool record shows in the index alone. -/
def contents (t : String → Option Bytes) : Contents where
  records id := (t (recordKey id)).bind Record.decode?
  values id key := if id = Record.mempool.id then none else t (valueKey id key)
  index := listed t

/-- **Readable entries**: what stands where a record or a list is kept is one, and a list names
records that are there. -/
structure Readable (t : String → Option Bytes) : Prop where
  record : ∀ id raw, t (recordKey id) = some raw → Record.decode? raw ≠ none
  list : ∀ space block raw, t (listKey space block) = some raw → decodeList? 16 raw ≠ none
  present : ∀ space block, ∀ id ∈ listed t space block, t (recordKey id) ≠ none

variable {t : String → Option Bytes}

theorem readable_empty : Readable fun _ => none := ⟨nofun, nofun, nofun⟩

theorem contents_empty : contents (fun _ => none) = .empty := by
  ext1
  · rfl
  · funext id key
    exact ite_self _
  · rfl

/-- A record is unknown just where nothing is kept. -/
theorem Readable.records_eq_none_iff (h : Readable t) {id : RecordId} :
    (contents t).records id = none ↔ t (recordKey id) = none := by
  show (t (recordKey id)).bind Record.decode? = none ↔ _
  cases hraw : t (recordKey id) with
  | none => simp
  | some raw => simp [h.record id raw hraw]

theorem values_contents (t : String → Option Bytes) {id : RecordId} (hid : id ≠ Record.mempool.id)
    (key : String) : (contents t).values id key = t (valueKey id key) := if_neg hid

/-! ## One entry more -/

/-- A value is kept apart from records and lists. -/
theorem listed_update_valueKey {id : RecordId} (hid : id ≠ Record.mempool.id)
    (key : String) (v : Bytes) :
    listed (update t (valueKey id key) v) = listed t := by
  funext space block
  rw [listed, update_of_ne t v (valueKey_ne_listKey hid key space block), listed]

theorem contents_update_valueKey {id : RecordId} (hid : id ≠ Record.mempool.id)
    (key : String) (v : Bytes) :
    contents (update t (valueKey id key) v) = (contents t).withValue id key v := by
  ext1
  · funext i
    simp only [contents, Contents.withValue, update_of_ne t v (recordKey_ne_valueKey i id key).symm]
  · funext i k
    simp only [contents, Contents.withValue]
    by_cases hik : (id, key) = (i, k)
    · cases hik
      simp [hid]
    · have hne : valueKey id key ≠ valueKey i k :=
        fun h => hik (Prod.ext_iff.mpr (valueKey_injective h))
      rw [if_neg hik, update_of_ne t v hne]
  · exact listed_update_valueKey hid key v

theorem Readable.update_valueKey (h : Readable t) {id : RecordId} (hid : id ≠ Record.mempool.id)
    (key : String) (v : Bytes) : Readable (update t (valueKey id key) v) := by
  refine ⟨fun i raw hraw => ?_, fun space block raw hraw => ?_, fun space block i hi => ?_⟩
  · rw [update_of_ne t v (recordKey_ne_valueKey i id key).symm] at hraw
    exact h.record i raw hraw
  · rw [update_of_ne t v (valueKey_ne_listKey hid key space block)] at hraw
    exact h.list space block raw hraw
  · rw [listed_update_valueKey hid] at hi
    rw [update_of_ne t v (recordKey_ne_valueKey i id key).symm]
    exact h.present space block i hi

theorem listed_update_recordKey (id : RecordId) (v : Bytes) :
    listed (update t (recordKey id) v) = listed t := by
  funext space block
  rw [listed, update_of_ne t v (recordKey_ne_listKey id space block), listed]

theorem contents_update_recordKey (r : Record) :
    contents (update t (recordKey r.id) r.encode) = (contents t).withUnlisted r := by
  ext1
  · funext id
    simp only [contents, Contents.withUnlisted, Contents.withRecord]
    by_cases hid : r.id = id
    · subst hid
      simp
    · rw [if_neg hid, update_of_ne t _ fun h => hid (recordKey_injective h)]
  · funext id key
    simp only [contents, Contents.withUnlisted, Contents.withRecord,
      update_of_ne t _ (recordKey_ne_valueKey r.id id key)]
  · exact listed_update_recordKey r.id _

theorem Readable.update_recordKey (h : Readable t) (r : Record) :
    Readable (update t (recordKey r.id) r.encode) := by
  refine ⟨fun id raw hraw => ?_, fun space block raw hraw => ?_, fun space block id hid => ?_⟩
  · by_cases hid : r.id = id
    · subst hid
      rw [update_self] at hraw
      cases hraw
      simp
    · rw [update_of_ne t _ fun h => hid (recordKey_injective h)] at hraw
      exact h.record id raw hraw
  · rw [update_of_ne t _ (recordKey_ne_listKey r.id space block)] at hraw
    exact h.list space block raw hraw
  · rw [listed_update_recordKey] at hid
    by_cases hr : r.id = id
    · subst hr
      simp
    · rw [update_of_ne t _ fun h => hr (recordKey_injective h)]
      exact h.present space block id hid

theorem listed_update_listKey (space s : String) (block b : BitVec 64) (ids : List RecordId) :
    listed (update t (listKey space block) (encodeList ids)) s b =
      if (space, block) = (s, b) then ids else listed t s b := by
  split
  · next h =>
    cases h
    simp [listed, decodeList?_encodeList]
  · next h =>
    rw [listed, update_of_ne t _ fun hkey => h (Prod.ext_iff.mpr (listKey_injective hkey)), listed]

/-- A list is kept apart from records. -/
theorem records_update_listKey (t : String → Option Bytes) (space : String)
    (block : BitVec 64) (v : Bytes) :
    (contents (update t (listKey space block) v)).records = (contents t).records := by
  funext id
  simp only [contents, update_of_ne t _ (recordKey_ne_listKey id _ _).symm]

/-- A list with one id more, after the record was kept. -/
theorem contents_update_listKey (r : Record) :
    contents (update t (listKey r.version r.decryptionCondition)
        (encodeList (listed t r.version r.decryptionCondition ++ [r.id]))) =
      { contents t with index := ((contents t).withRecord r).index } := by
  ext1
  · exact records_update_listKey t _ _ _
  · funext id key
    simp only [contents]
    split
    · rfl
    · next hid => rw [update_of_ne t _ (valueKey_ne_listKey hid key _ _).symm]
  · funext space block
    show listed _ space block = if _ then _ else _
    rw [listed_update_listKey]
    split
    · next h =>
      cases h
      rfl
    · rfl

theorem Readable.update_listKey (h : Readable t) {space : String} {block : BitVec 64}
    {ids : List RecordId} (hids : ∀ id ∈ ids, t (recordKey id) ≠ none) :
    Readable (update t (listKey space block) (encodeList ids)) := by
  refine ⟨fun id raw hraw => ?_, fun s b raw hraw => ?_, fun s b id hid => ?_⟩
  · rw [update_of_ne t _ (recordKey_ne_listKey id space block).symm] at hraw
    exact h.record id raw hraw
  · by_cases hkey : listKey space block = listKey s b
    · rw [hkey, update_self] at hraw
      cases hraw
      simp [decodeList?_encodeList]
    · rw [update_of_ne t _ hkey] at hraw
      exact h.list s b raw hraw
  · rw [update_of_ne t _ (recordKey_ne_listKey id space block).symm]
    rw [listed_update_listKey] at hid
    split at hid
    · exact hids id hid
    · exact h.present s b id hid

end SealedStore.KeyValue

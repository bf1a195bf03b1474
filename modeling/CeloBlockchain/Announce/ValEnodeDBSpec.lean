import CeloBlockchain.Announce.ValEnodeDB
import CeloBlockchain.Lib.Run

/-!
# The validator enode table: what stays consistent, and what does not

The three upserts of `ValidatorEnodeDB` have one shape (`UpsertShape`). A new
entry is put as it is. An existing entry is replaced by what the upsert's
update gives, if anything, after some node-ID index entries are deleted. For
a call whose entries have distinct addresses:

* each address ends with the entry written for it, or keeps its old one
  (`UpsertShape.lookup_addresses_upsert_of_mem`, `..._of_forall_ne`);
* every index entry stays backed by an entry whose node has that ID
  (`IndexSound`, `UpsertShape.indexSound_upsert`), provided an update never
  drops the node of an indexed entry without deleting its index entry. That
  holds for `UpsertHighestKnownVersion` and `UpdateQueryEnodeStats`, and for
  `UpsertVersionAndEnode` when its entries carry nodes, as its callers make
  them;
* no update lowers an entry's `Version` or `HighestKnownVersion`
  (`UpsertShape.monotone_upsert`), and the updates keep
  `Version ≤ HighestKnownVersion` (`VersionBounded`).

`RemoveEntry` and `PruneEntries` delete an entry together with its node's
index entry (`DeletesIndexed`). So over any run of admissible calls the index
stays backed (`indexSound_run`) and no entry's versions decrease
(`monotone_step`). Every entry keeps `Version ≤ HighestKnownVersion` when the
calls' entries do (`versionBounded_run`); the query selection then picks
only entries whose highest known version is newer
(`version_lt_of_mem_getQueryEnodeValEnodeEntries`).

Two things do not hold. The index is not complete: two validators may
announce the same node ID, and the index then names only one of them. And
`UpsertVersionAndEnode` puts a new entry as its callers give it, with
`HighestKnownVersion` 0 below its `Version`. Both are shown on one call
(`upsertVersionAndEnode_breaks_tables`).
-/

namespace CeloBlockchain.Announce

open Ibft (Address)

namespace AddressEntry

@[simp] theorem decode_address (e : AddressEntry) : e.decode.address = e.address := rfl
@[simp] theorem decode_publicKey (e : AddressEntry) : e.decode.publicKey = e.publicKey := rfl
@[simp] theorem decode_node (e : AddressEntry) : e.decode.node = e.node := rfl
@[simp] theorem decode_version (e : AddressEntry) : e.decode.version = e.version := rfl
@[simp] theorem decode_highestKnownVersion (e : AddressEntry) :
    e.decode.highestKnownVersion = e.highestKnownVersion := rfl

end AddressEntry

namespace ValidatorEnodeDB

theorem getAddressEntry_eq_some {db : ValidatorEnodeDB} {a : Address} {e : AddressEntry}
    (h : db.addresses.lookup a = some e) : db.getAddressEntry a = some e.decode := by
  simp [getAddressEntry, h]

theorem putEntry_left (entry : AddressEntry) :
    (putEntry entry).filterMap Sum.getLeft? = [.put entry.address entry] := by
  cases hnode : entry.node <;> simp [putEntry, hnode, List.filterMap_cons]

theorem putEntry_right (entry : AddressEntry) :
    (putEntry entry).filterMap Sum.getRight? =
      entry.node.toList.map fun node => .put node.id entry.address := by
  cases hnode : entry.node <;> simp [putEntry, hnode, List.filterMap_cons]

/-- The index deletions of a batch. -/
def indexDeletes (ids : List NodeID) : List BatchOp :=
  ids.map fun id => .inr (.delete id)

@[simp] theorem indexDeletes_left (ids : List NodeID) :
    (indexDeletes ids).filterMap Sum.getLeft? = [] := by
  simp [indexDeletes, List.filterMap_map]

@[simp] theorem indexDeletes_right (ids : List NodeID) :
    (indexDeletes ids).filterMap Sum.getRight? = ids.map .delete := by
  simp [indexDeletes, List.filterMap_map, Function.comp_def]

/-! ## The shape of the upserts -/

/-- Callbacks of the shape the three upserts have: a new entry is put as it
is; an existing one is replaced by what `update` gives, if anything, after
the index entries `deletes` names are deleted. -/
structure UpsertShape {ω : Type} (onNewEntry : AddressEntry → List BatchOp × List ω)
    (onUpdatedEntry : AddressEntry → AddressEntry → List BatchOp × List ω)
    (update : AddressEntry → AddressEntry → Option AddressEntry)
    (deletes : AddressEntry → AddressEntry → List NodeID) : Prop where
  onNewEntry_fst : ∀ entry, (onNewEntry entry).1 = putEntry entry
  onUpdatedEntry_fst : ∀ existingEntry entry, (onUpdatedEntry existingEntry entry).1 =
    match update existingEntry entry with
    | none => []
    | some w => indexDeletes (deletes existingEntry entry) ++ putEntry w
  address_update : ∀ existingEntry entry w, update existingEntry entry = some w →
    w.address = entry.address

/-- The entry an upsert writes for `entry`: `entry` itself if its address has
none, else what `update` gives. -/
def written (db : ValidatorEnodeDB) (update : AddressEntry → AddressEntry → Option AddressEntry)
    (entry : AddressEntry) : Option AddressEntry :=
  match db.getAddressEntry entry.address with
  | none => some entry
  | some existingEntry => update existingEntry entry

/-- An entry's part of the batch of `upsert`. -/
def entryBatch {ω : Type} (db : ValidatorEnodeDB) (onNewEntry : AddressEntry → List BatchOp × List ω)
    (onUpdatedEntry : AddressEntry → AddressEntry → List BatchOp × List ω) (entry : AddressEntry) :
    List BatchOp :=
  (GenericDB.upsertEntry (fun entry => db.getAddressEntry entry.address)
    onUpdatedEntry onNewEntry entry).1

theorem upsert_fst_eq_write {ω : Type} (db : ValidatorEnodeDB) (valEnodeEntries : List AddressEntry)
    (onNewEntry : AddressEntry → List BatchOp × List ω)
    (onUpdatedEntry : AddressEntry → AddressEntry → List BatchOp × List ω) :
    (db.upsert valEnodeEntries onNewEntry onUpdatedEntry).1 =
      db.write (valEnodeEntries.flatMap (entryBatch db onNewEntry onUpdatedEntry)) :=
  upsert_fst db valEnodeEntries onNewEntry onUpdatedEntry

namespace UpsertShape

variable {ω : Type} {onNewEntry : AddressEntry → List BatchOp × List ω}
  {onUpdatedEntry : AddressEntry → AddressEntry → List BatchOp × List ω}
  {update : AddressEntry → AddressEntry → Option AddressEntry}
  {deletes : AddressEntry → AddressEntry → List NodeID}
  (hshape : UpsertShape onNewEntry onUpdatedEntry update deletes)
include hshape

/-- An entry's part writes at most the entry `written` gives, at its address. -/
theorem entryBatch_left (db : ValidatorEnodeDB) (entry : AddressEntry) :
    (entryBatch db onNewEntry onUpdatedEntry entry).filterMap Sum.getLeft? =
      (written db update entry).toList.map fun w => .put entry.address w := by
  simp only [entryBatch, GenericDB.upsertEntry, written]
  cases db.getAddressEntry entry.address with
  | none => simp [hshape.onNewEntry_fst, putEntry_left]
  | some existingEntry =>
    dsimp only
    rw [hshape.onUpdatedEntry_fst]
    cases hupd : update existingEntry entry with
    | none => rfl
    | some w => simp [putEntry_left, hshape.address_update _ _ _ hupd]

/-- An index entry an entry's part puts comes with the entry it points to. -/
theorem mem_entryBatch_right_put {db : ValidatorEnodeDB} {entry : AddressEntry} {id : NodeID}
    {a : Address}
    (h : .put id a ∈ (entryBatch db onNewEntry onUpdatedEntry entry).filterMap Sum.getRight?) :
    ∃ w, written db update entry = some w ∧ a = entry.address ∧ w.node.map Node.id = some id := by
  -- the index puts of a part are those of the `putEntry` of the written entry
  have hput : ∀ w : AddressEntry, KvBatch.Op.put id a ∈ (putEntry w).filterMap Sum.getRight? →
      a = w.address ∧ w.node.map Node.id = some id := by
    intro w hw
    rw [putEntry_right] at hw
    obtain ⟨node, hnode, hop⟩ := List.mem_map.mp hw
    cases hop
    exact ⟨rfl, by simp [Option.mem_toList.mp hnode]⟩
  simp only [entryBatch, GenericDB.upsertEntry] at h
  cases hget : db.getAddressEntry entry.address with
  | none =>
    rw [hget, hshape.onNewEntry_fst] at h
    obtain ⟨ha, hid⟩ := hput entry h
    exact ⟨entry, by simp [written, hget], ha, hid⟩
  | some existingEntry =>
    rw [hget, hshape.onUpdatedEntry_fst] at h
    cases hupd : update existingEntry entry with
    | none => simp [hupd] at h
    | some w =>
      rw [hupd, List.filterMap_append, indexDeletes_right, List.mem_append] at h
      rcases h with h | h
      · simp at h
      · obtain ⟨ha, hid⟩ := hput w h
        refine ⟨w, by simp [written, hget, hupd], ?_, hid⟩
        rw [ha, hshape.address_update _ _ _ hupd]

/-- The index entries an update names are deleted by the entry's part. -/
theorem delete_mem_entryBatch_right {db : ValidatorEnodeDB} {entry existingEntry w : AddressEntry}
    {id : NodeID} (hget : db.getAddressEntry entry.address = some existingEntry)
    (hupd : update existingEntry entry = some w) (hid : id ∈ deletes existingEntry entry) :
    .delete id ∈ (entryBatch db onNewEntry onUpdatedEntry entry).filterMap Sum.getRight? := by
  simp only [entryBatch, GenericDB.upsertEntry]
  rw [hget, hshape.onUpdatedEntry_fst, hupd, List.filterMap_append, indexDeletes_right]
  exact List.mem_append_left _ (List.mem_map_of_mem hid)

theorem key_of_mem_entryBatch_left (db : ValidatorEnodeDB) (entry : AddressEntry) :
    ∀ op ∈ (entryBatch db onNewEntry onUpdatedEntry entry).filterMap Sum.getLeft?,
      op.key = entry.address := by
  intro op hop
  rw [hshape.entryBatch_left] at hop
  obtain ⟨w, -, rfl⟩ := List.mem_map.mp hop
  rfl

/-- **An upserted address ends with the entry written for it**, or keeps its
old one when the update skips it. -/
theorem lookup_addresses_upsert_of_mem (db : ValidatorEnodeDB) {valEnodeEntries : List AddressEntry}
    (hnd : (valEnodeEntries.map AddressEntry.address).Nodup) {entry : AddressEntry}
    (hentry : entry ∈ valEnodeEntries) :
    (db.upsert valEnodeEntries onNewEntry onUpdatedEntry).1.addresses.lookup entry.address =
      (written db update entry).or (db.addresses.lookup entry.address) := by
  rw [upsert_fst_eq_write, addresses_write, List.filterMap_flatMap,
    KvBatch.lookup_write_flatMap AddressEntry.address _ (hshape.key_of_mem_entryBatch_left db),
    KvBatch.filter_key_eq_singleton AddressEntry.address hnd hentry, List.flatMap_singleton,
    hshape.entryBatch_left]
  cases written db update entry with
  | none => rfl
  | some w => simp

/-- An address no entry of the call names keeps its entry. -/
theorem lookup_addresses_upsert_of_forall_ne (db : ValidatorEnodeDB)
    {valEnodeEntries : List AddressEntry} {a : Address}
    (h : ∀ entry ∈ valEnodeEntries, entry.address ≠ a) :
    (db.upsert valEnodeEntries onNewEntry onUpdatedEntry).1.addresses.lookup a =
      db.addresses.lookup a := by
  rw [upsert_fst_eq_write, addresses_write, List.filterMap_flatMap,
    KvBatch.lookup_write_flatMap AddressEntry.address _ (hshape.key_of_mem_entryBatch_left db),
    List.filter_eq_nil_iff.mpr (by simpa using h), List.flatMap_nil, KvBatch.write_nil]

/-- What an address holds after an upsert: what it held, or the entry
written for it. -/
theorem lookup_addresses_upsert_cases (db : ValidatorEnodeDB) {valEnodeEntries : List AddressEntry}
    (hnd : (valEnodeEntries.map AddressEntry.address).Nodup) {a : Address} {e' : AddressEntry}
    (h : (db.upsert valEnodeEntries onNewEntry onUpdatedEntry).1.addresses.lookup a = some e') :
    db.addresses.lookup a = some e' ∨
      ∃ entry ∈ valEnodeEntries, entry.address = a ∧ written db update entry = some e' := by
  by_cases ha : ∃ entry ∈ valEnodeEntries, entry.address = a
  · obtain ⟨entry, hentry, rfl⟩ := ha
    rw [hshape.lookup_addresses_upsert_of_mem db hnd hentry, Option.or_eq_some_iff] at h
    rcases h with hw | ⟨-, hold⟩
    · exact .inr ⟨entry, hentry, rfl, hw⟩
    · exact .inl hold
  · simp only [not_exists, not_and] at ha
    rw [hshape.lookup_addresses_upsert_of_forall_ne db ha] at h
    exact .inl h

end UpsertShape

/-! ## The node-ID index is backed by the entries -/

/-- Every index entry is backed: the index maps an ID to an address whose
entry has a node of that ID. -/
def IndexSound (db : ValidatorEnodeDB) : Prop :=
  ∀ id a, db.getAddressFromNodeID id = some a →
    ∃ e, db.addresses.lookup a = some e ∧ e.node.map Node.id = some id

theorem indexSound_empty : IndexSound empty := by
  intro id a h
  simp [getAddressFromNodeID, empty] at h

/-- An update keeps an indexed entry's node ID, or deletes its index entry. -/
def KeepsIndexed (update : AddressEntry → AddressEntry → Option AddressEntry)
    (deletes : AddressEntry → AddressEntry → List NodeID) (entry : AddressEntry) : Prop :=
  ∀ existingEntry w, update existingEntry entry = some w → ∀ node, existingEntry.node = some node →
    w.node.map Node.id = some node.id ∨ node.id ∈ deletes existingEntry entry

/-- **An upsert keeps the index backed.** -/
theorem UpsertShape.indexSound_upsert {ω : Type} {onNewEntry : AddressEntry → List BatchOp × List ω}
    {onUpdatedEntry : AddressEntry → AddressEntry → List BatchOp × List ω}
    {update : AddressEntry → AddressEntry → Option AddressEntry}
    {deletes : AddressEntry → AddressEntry → List NodeID}
    (hshape : UpsertShape onNewEntry onUpdatedEntry update deletes) {db : ValidatorEnodeDB}
    {valEnodeEntries : List AddressEntry} (hnd : (valEnodeEntries.map AddressEntry.address).Nodup)
    (hkeep : ∀ entry ∈ valEnodeEntries, KeepsIndexed update deletes entry) (hsound : IndexSound db) :
    IndexSound (db.upsert valEnodeEntries onNewEntry onUpdatedEntry).1 := by
  intro id a h
  rw [getAddressFromNodeID, upsert_fst_eq_write, nodeIDs_write, List.filterMap_flatMap] at h
  rcases KvBatch.lookup_write_eq_some h with hput | ⟨hne, hold⟩
  · -- the batch put the index entry, and with it the entry it points to
    obtain ⟨entry, hentry, hmem⟩ := List.mem_flatMap.mp hput
    obtain ⟨w, hw, rfl, hid⟩ := hshape.mem_entryBatch_right_put hmem
    refine ⟨w, ?_, hid⟩
    rw [hshape.lookup_addresses_upsert_of_mem db hnd hentry, hw]
    rfl
  · -- the index entry was there before; its entry kept its node's ID
    obtain ⟨e, he, hid⟩ := hsound id a hold
    obtain ⟨node, hnode, rfl⟩ := Option.map_eq_some_iff.mp hid
    by_cases ha : ∃ entry ∈ valEnodeEntries, entry.address = a
    · obtain ⟨entry, hentry, rfl⟩ := ha
      have hget := getAddressEntry_eq_some he
      rw [hshape.lookup_addresses_upsert_of_mem db hnd hentry]
      cases hw : written db update entry with
      | none => exact ⟨e, he, hid⟩
      | some w =>
        have hupd : update e.decode entry = some w := by simpa [written, hget] using hw
        rcases hkeep entry hentry e.decode w hupd node (by simpa using hnode) with hw' | hdel
        · exact ⟨w, rfl, hw'⟩
        · -- an index deletion of the ID contradicts that nothing touched it
          have hmem : KvBatch.Op.delete node.id ∈ valEnodeEntries.flatMap fun entry =>
              (entryBatch db onNewEntry onUpdatedEntry entry).filterMap Sum.getRight? :=
            List.mem_flatMap.mpr ⟨entry, hentry, hshape.delete_mem_entryBatch_right hget hupd hdel⟩
          exact absurd rfl (hne _ hmem)
    · simp only [not_exists, not_and] at ha
      exact ⟨e, by rw [hshape.lookup_addresses_upsert_of_forall_ne db ha, he], hid⟩

/-! ### Deletions -/

/-- A batch of deletions that takes each deleted entry's index entry with
it. -/
structure DeletesIndexed (db : ValidatorEnodeDB) (batch : List BatchOp) : Prop where
  left_delete : ∀ op ∈ batch.filterMap Sum.getLeft?, ∃ a, op = .delete a
  right_delete : ∀ op ∈ batch.filterMap Sum.getRight?, ∃ id, op = .delete id
  index : ∀ a e node, .delete a ∈ batch.filterMap Sum.getLeft? → db.addresses.lookup a = some e →
    e.node = some node → .delete node.id ∈ batch.filterMap Sum.getRight?

namespace DeletesIndexed

variable {db : ValidatorEnodeDB} {batch : List BatchOp}

theorem nil (db : ValidatorEnodeDB) : DeletesIndexed db [] :=
  ⟨by simp, by simp, by simp⟩

theorem append {batch' : List BatchOp} (h : DeletesIndexed db batch)
    (h' : DeletesIndexed db batch') : DeletesIndexed db (batch ++ batch') := by
  refine ⟨fun op hop => ?_, fun op hop => ?_, fun a e node hop he hnode => ?_⟩
  · rw [List.filterMap_append, List.mem_append] at hop
    exact hop.elim (h.left_delete op) (h'.left_delete op)
  · rw [List.filterMap_append, List.mem_append] at hop
    exact hop.elim (h.right_delete op) (h'.right_delete op)
  · rw [List.filterMap_append, List.mem_append] at hop ⊢
    exact hop.elim (fun hop => .inl (h.index a e node hop he hnode))
      (fun hop => .inr (h'.index a e node hop he hnode))

/-- A batch of deletions only takes entries away. -/
theorem lookup_addresses_eq_some (h : DeletesIndexed db batch) {a : Address} {e : AddressEntry}
    (he : (db.write batch).addresses.lookup a = some e) : db.addresses.lookup a = some e := by
  rw [addresses_write] at he
  rcases KvBatch.lookup_write_eq_some he with hput | ⟨-, hold⟩
  · obtain ⟨_, hop⟩ := h.left_delete _ hput
    cases hop
  · exact hold

/-- **Deleting entries with their index entries keeps the index backed.** -/
theorem indexSound (h : DeletesIndexed db batch) (hsound : IndexSound db) :
    IndexSound (db.write batch) := by
  intro id a hid
  rw [getAddressFromNodeID, nodeIDs_write] at hid
  rcases KvBatch.lookup_write_eq_some hid with hput | ⟨hne, hold⟩
  · obtain ⟨_, hop⟩ := h.right_delete _ hput
    cases hop
  · obtain ⟨e, he, heid⟩ := hsound id a hold
    obtain ⟨node, hnode, rfl⟩ := Option.map_eq_some_iff.mp heid
    refine ⟨e, ?_, heid⟩
    -- a deletion of the entry would have deleted its node's index entry too
    have hkept : ∀ op ∈ batch.filterMap Sum.getLeft?, op.key ≠ a := by
      intro op hop hkey
      obtain ⟨a', rfl⟩ := h.left_delete op hop
      obtain rfl : a' = a := hkey
      exact hne _ (h.index _ e node hop he hnode) rfl
    rw [addresses_write, KvBatch.lookup_write_of_forall_ne _ hkept, he]

end DeletesIndexed

theorem deletesIndexed_addDeleteToBatch {db : ValidatorEnodeDB} {address : Address}
    {r : List BatchOp × List HandlerCall} (h : db.addDeleteToBatch address = some r) :
    DeletesIndexed db r.1 := by
  obtain ⟨e, he, rfl⟩ := Option.map_eq_some_iff.mp h
  obtain ⟨stored, hstored, rfl⟩ := Option.map_eq_some_iff.mp he
  refine ⟨fun op hop => ?_, fun op hop => ?_, fun a e' node hop he' hnode => ?_⟩
  · cases hnode : stored.node <;> simp_all
  · cases hnode : stored.node <;> simp_all
  · -- the only entry deleted is the one read, and its node's index goes with it
    have ha : a = address := by
      cases hnode' : stored.node <;> simp_all
    subst ha
    obtain rfl : e' = stored := Option.some.inj (he'.symm.trans hstored)
    simp [hnode]

theorem deletesIndexed_pruneEntries (db : ValidatorEnodeDB) (addressesToKeep : Address → Bool) :
    DeletesIndexed db
      (db.addresses.keys.foldl (fun (acc : List BatchOp × List HandlerCall) address =>
        if addressesToKeep address then acc
        else
          match db.addDeleteToBatch address with
          | some r => (acc.1 ++ r.1, acc.2 ++ r.2)
          | none => acc) ([], [])).1 := by
  -- the loop appends the parts of the deleted addresses
  suffices h : ∀ (keys : List Address) (acc : List BatchOp × List HandlerCall),
      DeletesIndexed db acc.1 →
      DeletesIndexed db (keys.foldl (fun (acc : List BatchOp × List HandlerCall) address =>
        if addressesToKeep address then acc
        else
          match db.addDeleteToBatch address with
          | some r => (acc.1 ++ r.1, acc.2 ++ r.2)
          | none => acc) acc).1 from
    h _ _ (DeletesIndexed.nil db)
  intro keys
  induction keys with
  | nil => intro acc hacc; exact hacc
  | cons address keys ih =>
    intro acc hacc
    apply ih
    dsimp only
    split
    · exact hacc
    · split
      · next r hr => exact hacc.append (deletesIndexed_addDeleteToBatch hr)
      · exact hacc

/-! ## Versions -/

/-- Every entry's version is at most its highest known version. -/
def VersionBounded (db : ValidatorEnodeDB) : Prop :=
  ∀ a e, db.addresses.lookup a = some e → e.version ≤ e.highestKnownVersion

theorem versionBounded_empty : VersionBounded empty := by
  intro a e h
  simp [empty] at h

/-- An update that lowers neither version. -/
def Raises (update : AddressEntry → AddressEntry → Option AddressEntry) : Prop :=
  ∀ existingEntry entry w, update existingEntry entry = some w →
    existingEntry.version ≤ w.version ∧ existingEntry.highestKnownVersion ≤ w.highestKnownVersion

/-- An update that keeps an entry's version at most its highest known one. -/
def KeepsBounded (update : AddressEntry → AddressEntry → Option AddressEntry) : Prop :=
  ∀ existingEntry entry w, existingEntry.version ≤ existingEntry.highestKnownVersion →
    update existingEntry entry = some w → w.version ≤ w.highestKnownVersion

section Versions

variable {ω : Type} {onNewEntry : AddressEntry → List BatchOp × List ω}
  {onUpdatedEntry : AddressEntry → AddressEntry → List BatchOp × List ω}
  {update : AddressEntry → AddressEntry → Option AddressEntry}
  {deletes : AddressEntry → AddressEntry → List NodeID}
  {db : ValidatorEnodeDB} {valEnodeEntries : List AddressEntry}

/-- **No upsert lowers an entry's versions.** -/
theorem UpsertShape.monotone_upsert (hshape : UpsertShape onNewEntry onUpdatedEntry update deletes)
    (hnd : (valEnodeEntries.map AddressEntry.address).Nodup) (hraises : Raises update)
    {a : Address} {e e' : AddressEntry} (he : db.addresses.lookup a = some e)
    (he' : (db.upsert valEnodeEntries onNewEntry onUpdatedEntry).1.addresses.lookup a = some e') :
    e.version ≤ e'.version ∧ e.highestKnownVersion ≤ e'.highestKnownVersion := by
  rcases hshape.lookup_addresses_upsert_cases db hnd he' with hold | ⟨entry, -, rfl, hw⟩
  · obtain rfl : e = e' := Option.some.inj (he.symm.trans hold)
    exact ⟨le_rfl, le_rfl⟩
  · -- the address had an entry, so what was written is its update
    rw [written, getAddressEntry_eq_some he] at hw
    simpa using hraises _ _ _ hw

/-- **An upsert keeps versions bounded**, when its new entries are. -/
theorem UpsertShape.versionBounded_upsert
    (hshape : UpsertShape onNewEntry onUpdatedEntry update deletes)
    (hnd : (valEnodeEntries.map AddressEntry.address).Nodup) (hupd : KeepsBounded update)
    (hnew : ∀ entry ∈ valEnodeEntries, db.getAddressEntry entry.address = none →
      entry.version ≤ entry.highestKnownVersion)
    (hb : VersionBounded db) :
    VersionBounded (db.upsert valEnodeEntries onNewEntry onUpdatedEntry).1 := by
  intro a e' he'
  rcases hshape.lookup_addresses_upsert_cases db hnd he' with hold | ⟨entry, hentry, rfl, hw⟩
  · exact hb a e' hold
  · unfold written at hw
    cases hget : db.getAddressEntry entry.address with
    | none =>
      rw [hget] at hw
      obtain rfl : entry = e' := Option.some.inj hw
      exact hnew entry hentry hget
    | some existingEntry =>
      rw [hget] at hw
      obtain ⟨stored, hstored, rfl⟩ := Option.map_eq_some_iff.mp hget
      exact hupd _ _ _ (by simpa using hb _ _ hstored) hw

end Versions

/-! ## The three upserts -/

theorem highestKnownVersion_shape :
    UpsertShape putNewEntry highestKnownVersionUpdated highestKnownVersionUpdate fun _ _ => [] := by
  refine ⟨fun _ => rfl, fun existingEntry entry => ?_, fun existingEntry entry w h => ?_⟩
  · unfold highestKnownVersionUpdated
    cases highestKnownVersionUpdate existingEntry entry <;> rfl
  · unfold highestKnownVersionUpdate at h
    split at h
    · cases h
    · rw [← Option.some.inj h]

theorem highestKnownVersion_keepsIndexed (entry : AddressEntry) :
    KeepsIndexed highestKnownVersionUpdate (fun _ _ => []) entry := by
  intro existingEntry w h node hnode
  unfold highestKnownVersionUpdate at h
  split at h
  · cases h
  · -- the update takes the node of the existing entry
    left
    rw [← Option.some.inj h]
    simp [hnode]

theorem highestKnownVersion_raises : Raises highestKnownVersionUpdate := by
  intro existingEntry entry w h
  unfold highestKnownVersionUpdate at h
  split at h
  · cases h
  · next hlt =>
    rw [← Option.some.inj h]
    exact ⟨le_rfl, Nat.le_of_not_lt hlt⟩

theorem highestKnownVersion_keepsBounded : KeepsBounded highestKnownVersionUpdate := by
  intro existingEntry entry w hb h
  unfold highestKnownVersionUpdate at h
  split at h
  · cases h
  · next hlt =>
    rw [← Option.some.inj h]
    exact hb.trans (Nat.le_of_not_lt hlt)

/-- The index entries `UpsertVersionAndEnode` deletes: the old node's, when
the node changed. -/
def versionAndEnodeDeletes (existingEntry entry : AddressEntry) : List NodeID :=
  match existingEntry.node with
  | some existingNode => if enodeChanged existingEntry entry then [existingNode.id] else []
  | none => []

theorem versionAndEnodeUpdate_node {existingEntry entry w : AddressEntry}
    (h : versionAndEnodeUpdate existingEntry entry = some w) : w.node = entry.node := by
  unfold versionAndEnodeUpdate at h
  split at h
  · cases h
  · split at h <;> (rw [← Option.some.inj h])

theorem versionAndEnode_shape :
    UpsertShape versionAndEnodeNew versionAndEnodeUpdated versionAndEnodeUpdate
      versionAndEnodeDeletes := by
  refine ⟨fun _ => rfl, fun existingEntry entry => ?_, fun existingEntry entry w h => ?_⟩
  · unfold versionAndEnodeUpdated versionAndEnodeDeletes
    cases versionAndEnodeUpdate existingEntry entry with
    | none => rfl
    | some w =>
      cases existingEntry.node with
      | none => rfl
      | some existingNode =>
        by_cases hchanged : enodeChanged existingEntry entry
        · simp [hchanged, indexDeletes, versionAndEnodeNew]
        · simp [hchanged, indexDeletes, versionAndEnodeNew]
  · unfold versionAndEnodeUpdate at h
    split at h
    · cases h
    · split at h <;> (rw [← Option.some.inj h])

/-- `UpsertVersionAndEnode` keeps the index backed for an entry with a node:
a different node deletes the old node's index entry. -/
theorem versionAndEnode_keepsIndexed {entry : AddressEntry} (hnode : entry.node.isSome) :
    KeepsIndexed versionAndEnodeUpdate versionAndEnodeDeletes entry := by
  intro existingEntry w h existingNode hexisting
  obtain ⟨node, hentry⟩ := Option.isSome_iff_exists.mp hnode
  rw [versionAndEnodeUpdate_node h, hentry]
  by_cases hsame : existingNode = node
  · subst hsame
    left
    rfl
  · right
    have hchanged : enodeChanged existingEntry entry = true := by
      simp [enodeChanged, hexisting, hentry, hsame]
    simp [versionAndEnodeDeletes, hexisting, hchanged]

theorem versionAndEnode_raises : Raises versionAndEnodeUpdate := by
  intro existingEntry entry w h
  unfold versionAndEnodeUpdate at h
  split at h
  · cases h
  · next hlt =>
    split at h
    · next hgt =>
      rw [← Option.some.inj h]
      exact ⟨Nat.le_of_not_lt hlt, Nat.le_of_lt hgt⟩
    · rw [← Option.some.inj h]
      exact ⟨Nat.le_of_not_lt hlt, le_rfl⟩

/-- An update of `UpsertVersionAndEnode` always leaves the version at most the
highest known one; only its new entries can break that. -/
theorem versionAndEnode_keepsBounded : KeepsBounded versionAndEnodeUpdate := by
  intro existingEntry entry w _ h
  unfold versionAndEnodeUpdate at h
  split at h
  · cases h
  · split at h
    · rw [← Option.some.inj h]
    · next hgt =>
      rw [← Option.some.inj h]
      exact Nat.le_of_not_lt hgt

theorem queryStats_shape (now : Nat) :
    UpsertShape putNewEntry (queryStatsUpdated now) (fun existingEntry entry =>
      some (queryStatsUpdate now existingEntry entry)) fun _ _ => [] := by
  refine ⟨fun _ => rfl, fun _ _ => rfl, fun existingEntry entry w h => ?_⟩
  rw [← Option.some.inj h]
  unfold queryStatsUpdate
  split <;> rfl

theorem queryStats_keepsIndexed (now : Nat) (entry : AddressEntry) :
    KeepsIndexed (fun existingEntry entry => some (queryStatsUpdate now existingEntry entry))
      (fun _ _ => []) entry := by
  intro existingEntry w h node hnode
  left
  rw [← Option.some.inj h, queryStatsUpdate]
  simp [hnode]

theorem queryStats_raises (now : Nat) :
    Raises fun existingEntry entry => some (queryStatsUpdate now existingEntry entry) := by
  intro existingEntry entry w h
  rw [← Option.some.inj h, queryStatsUpdate]
  exact ⟨le_rfl, le_rfl⟩

theorem queryStats_keepsBounded (now : Nat) :
    KeepsBounded fun existingEntry entry => some (queryStatsUpdate now existingEntry entry) := by
  intro existingEntry entry w hb h
  rw [← Option.some.inj h, queryStatsUpdate]
  exact hb

/-! ## Runs -/

/-- The calls the announce protocol makes: each upsert names distinct
addresses, and `UpsertVersionAndEnode` is given entries with nodes. -/
def Op.Admissible : Op → Prop
  | .upsertHighestKnownVersion entries => (entries.map AddressEntry.address).Nodup
  | .upsertVersionAndEnode entries =>
    (entries.map AddressEntry.address).Nodup ∧ ∀ entry ∈ entries, entry.node.isSome
  | .updateQueryEnodeStats entries _ => (entries.map AddressEntry.address).Nodup
  | .removeEntry _ => True
  | .pruneEntries _ => True

/-- The entries a call gives have their version at most their highest known
version. -/
def Op.EntriesBounded : Op → Prop
  | .upsertHighestKnownVersion entries | .upsertVersionAndEnode entries
  | .updateQueryEnodeStats entries _ =>
    ∀ entry ∈ entries, entry.version ≤ entry.highestKnownVersion
  | .removeEntry _ | .pruneEntries _ => True

theorem step_removeEntry (db : ValidatorEnodeDB) (address : Address) :
    db.step (.removeEntry address) = db ∨
      ∃ r, db.addDeleteToBatch address = some r ∧ db.step (.removeEntry address) = db.write r.1 := by
  cases h : db.addDeleteToBatch address with
  | none => left; simp [step, removeEntry, h]
  | some r => right; exact ⟨r, rfl, by simp [step, removeEntry, h]⟩

theorem indexSound_step {db : ValidatorEnodeDB} {op : Op} (hop : op.Admissible)
    (hsound : IndexSound db) : IndexSound (db.step op) := by
  cases op with
  | upsertHighestKnownVersion entries =>
    exact highestKnownVersion_shape.indexSound_upsert hop
      (fun entry _ => highestKnownVersion_keepsIndexed entry) hsound
  | upsertVersionAndEnode entries =>
    exact versionAndEnode_shape.indexSound_upsert hop.1
      (fun entry hentry => versionAndEnode_keepsIndexed (hop.2 entry hentry)) hsound
  | updateQueryEnodeStats entries now =>
    exact (queryStats_shape now).indexSound_upsert hop
      (fun entry _ => queryStats_keepsIndexed now entry) hsound
  | removeEntry address =>
    rcases step_removeEntry db address with h | ⟨r, hr, h⟩
    · rw [h]
      exact hsound
    · rw [h]
      exact (deletesIndexed_addDeleteToBatch hr).indexSound hsound
  | pruneEntries addressesToKeep =>
    exact (deletesIndexed_pruneEntries db addressesToKeep).indexSound hsound

/-- **The index stays backed over every run** of admissible calls from an
empty table. -/
theorem indexSound_run {ops : List Op} (hops : ∀ op ∈ ops, op.Admissible) :
    IndexSound (Run.run step empty ops) :=
  Run.run_invariant_of_forall step IndexSound Op.Admissible
    (fun _ _ hop hsound => indexSound_step hop hsound) ops empty hops indexSound_empty

/-- **No call lowers the versions of an entry it keeps.** -/
theorem monotone_step {db : ValidatorEnodeDB} {op : Op} (hop : op.Admissible) {a : Address}
    {e e' : AddressEntry} (he : db.addresses.lookup a = some e)
    (he' : (db.step op).addresses.lookup a = some e') :
    e.version ≤ e'.version ∧ e.highestKnownVersion ≤ e'.highestKnownVersion := by
  -- a call that only deletes leaves every entry it keeps as it was
  have hkept : ∀ batch, DeletesIndexed db batch → (db.write batch).addresses.lookup a = some e' →
      e.version ≤ e'.version ∧ e.highestKnownVersion ≤ e'.highestKnownVersion := by
    intro batch hbatch hw
    obtain rfl : e = e' := Option.some.inj (he.symm.trans (hbatch.lookup_addresses_eq_some hw))
    exact ⟨le_rfl, le_rfl⟩
  cases op with
  | upsertHighestKnownVersion entries =>
    exact highestKnownVersion_shape.monotone_upsert hop highestKnownVersion_raises he he'
  | upsertVersionAndEnode entries =>
    exact versionAndEnode_shape.monotone_upsert hop.1 versionAndEnode_raises he he'
  | updateQueryEnodeStats entries now =>
    exact (queryStats_shape now).monotone_upsert hop (queryStats_raises now) he he'
  | removeEntry address =>
    rcases step_removeEntry db address with h | ⟨r, hr, h⟩
    · rw [h, he] at he'
      obtain rfl : e = e' := Option.some.inj he'
      exact ⟨le_rfl, le_rfl⟩
    · rw [h] at he'
      exact hkept r.1 (deletesIndexed_addDeleteToBatch hr) he'
  | pruneEntries addressesToKeep =>
    exact hkept _ (deletesIndexed_pruneEntries db addressesToKeep) he'

theorem versionBounded_step {db : ValidatorEnodeDB} {op : Op} (hop : op.Admissible)
    (hbounded : op.EntriesBounded) (hb : VersionBounded db) : VersionBounded (db.step op) := by
  -- a call that only deletes keeps the entries it leaves
  have hkept : ∀ batch, DeletesIndexed db batch → VersionBounded (db.write batch) :=
    fun batch hbatch a e he => hb a e (hbatch.lookup_addresses_eq_some he)
  cases op with
  | upsertHighestKnownVersion entries =>
    exact highestKnownVersion_shape.versionBounded_upsert hop highestKnownVersion_keepsBounded
      (fun entry hentry _ => hbounded entry hentry) hb
  | upsertVersionAndEnode entries =>
    exact versionAndEnode_shape.versionBounded_upsert hop.1 versionAndEnode_keepsBounded
      (fun entry hentry _ => hbounded entry hentry) hb
  | updateQueryEnodeStats entries now =>
    exact (queryStats_shape now).versionBounded_upsert hop (queryStats_keepsBounded now)
      (fun entry hentry _ => hbounded entry hentry) hb
  | removeEntry address =>
    rcases step_removeEntry db address with h | ⟨r, hr, h⟩
    · rw [h]
      exact hb
    · rw [h]
      exact hkept r.1 (deletesIndexed_addDeleteToBatch hr)
  | pruneEntries addressesToKeep =>
    exact hkept _ (deletesIndexed_pruneEntries db addressesToKeep)

/-- **Versions stay bounded over every run** whose calls give bounded
entries. -/
theorem versionBounded_run {ops : List Op}
    (hops : ∀ op ∈ ops, op.Admissible ∧ op.EntriesBounded) :
    VersionBounded (Run.run step empty ops) :=
  Run.run_invariant_of_forall step VersionBounded (fun op => op.Admissible ∧ op.EntriesBounded)
    (fun _ _ hop hb => versionBounded_step hop.1 hop.2 hb) ops empty hops versionBounded_empty

/-- Two validators announce distinct nodes, the first then learns of a newer
version, and the second is removed. -/
def announceOps : List Op :=
  [.upsertVersionAndEnode
      [⟨1, none, some ⟨7, 1⟩, 1, 1, 0, none⟩, ⟨2, none, some ⟨8, 2⟩, 1, 1, 0, none⟩],
    .upsertHighestKnownVersion [⟨1, none, none, 0, 2, 0, none⟩], .removeEntry 2]

theorem indexSound_run_announceOps :
    (∀ op ∈ announceOps, op.Admissible) ∧ IndexSound (Run.run step empty announceOps) := by
  have hops : ∀ op ∈ announceOps, op.Admissible := by simp [announceOps, Op.Admissible]
  exact ⟨hops, indexSound_run hops⟩

theorem versionBounded_run_announceOps :
    (∀ op ∈ announceOps, op.Admissible ∧ op.EntriesBounded) ∧
      VersionBounded (Run.run step empty announceOps) := by
  have hops : ∀ op ∈ announceOps, op.Admissible ∧ op.EntriesBounded := by
    simp [announceOps, Op.Admissible, Op.EntriesBounded]
  exact ⟨hops, versionBounded_run hops⟩

end ValidatorEnodeDB

/-! ## The query selection -/

open ValidatorEnodeDB in
/-- An entry the query selection picks is a stored entry of another address,
with a public key and a version other than its highest known one. No time is
dereferenced that a decode left missing, so the selection never fails. -/
theorem mem_getQueryEnodeValEnodeEntries (db : ValidatorEnodeDB) (enforceRetryBackoff : Bool)
    (exceptEcdsaAddress : Address) (now : Nat) :
    ∃ l, getQueryEnodeValEnodeEntries db enforceRetryBackoff exceptEcdsaAddress now = some l ∧
      ∀ e ∈ l, ∃ a stored, a ≠ exceptEcdsaAddress ∧ db.addresses.lookup a = some stored ∧
        e = stored.decode ∧ e.version ≠ e.highestKnownVersion ∧ e.publicKey.isSome := by
  -- the loop over the stored entries keeps only such entries
  suffices h : ∀ (entries : List (Sigma fun _ : Address => AddressEntry)) (acc : List AddressEntry),
      (∀ s ∈ entries, s ∈ db.addresses.entries) →
      (∀ e ∈ acc, ∃ a stored, a ≠ exceptEcdsaAddress ∧ db.addresses.lookup a = some stored ∧
        e = stored.decode ∧ e.version ≠ e.highestKnownVersion ∧ e.publicKey.isSome) →
      ∃ l, entries.foldlM (fun acc e =>
          queryStep enforceRetryBackoff exceptEcdsaAddress now acc e.1 e.2.decode) acc = some l ∧
        ∀ e ∈ l, ∃ a stored, a ≠ exceptEcdsaAddress ∧ db.addresses.lookup a = some stored ∧
          e = stored.decode ∧ e.version ≠ e.highestKnownVersion ∧ e.publicKey.isSome from
    h _ [] (fun _ hs => hs) (fun _ he => absurd he List.not_mem_nil)
  intro entries
  induction entries with
  | nil => intro acc _ hacc; exact ⟨acc, rfl, hacc⟩
  | cons s entries ih =>
    intro acc hentries hacc
    have hs : db.addresses.lookup s.1 = some s.2 :=
      AList.mem_lookup_iff.mpr (hentries s List.mem_cons_self)
    have hrest := fun s' hs' => hentries s' (List.mem_cons_of_mem s hs')
    -- one round adds the entry or nothing, and never fails on a decoded entry
    have hround : ∃ acc', queryStep enforceRetryBackoff exceptEcdsaAddress now acc s.1 s.2.decode =
        some acc' ∧ (acc' = acc ∨ (acc' = acc ++ [s.2.decode] ∧ s.1 ≠ exceptEcdsaAddress ∧
          s.2.version ≠ s.2.highestKnownVersion ∧ s.2.publicKey.isSome)) := by
      unfold queryStep
      split
      · exact ⟨acc, rfl, .inl rfl⟩
      · next hself =>
        split
        · exact ⟨acc, rfl, .inl rfl⟩
        · next hversion =>
          split
          · exact ⟨acc, rfl, .inl rfl⟩
          · next hkey =>
            have hpk : s.2.publicKey.isSome := Option.isSome_iff_ne_none.mpr (by simpa using hkey)
            split
            · -- a decoded entry always has a time
              split
              · next hnone => simp [AddressEntry.decode] at hnone
              · split
                · exact ⟨acc, rfl, .inl rfl⟩
                · exact ⟨_, rfl, .inr ⟨rfl, hself, by simpa using hversion, hpk⟩⟩
            · exact ⟨_, rfl, .inr ⟨rfl, hself, by simpa using hversion, hpk⟩⟩
    obtain ⟨acc', hstep, hacc'⟩ := hround
    rw [List.foldlM_cons, hstep]
    apply ih acc' hrest
    rcases hacc' with rfl | ⟨rfl, hself, hversion, hpk⟩
    · exact hacc
    · intro e he
      rcases List.mem_append.mp he with he | he
      · exact hacc e he
      · rw [List.mem_singleton.mp he]
        exact ⟨s.1, s.2, hself, hs, rfl, by simpa using hversion, by simpa using hpk⟩

open ValidatorEnodeDB in
/-- **On a table with bounded versions, the query selection picks only
entries with a newer version known.** -/
theorem version_lt_of_mem_getQueryEnodeValEnodeEntries {db : ValidatorEnodeDB}
    (hb : VersionBounded db) {enforceRetryBackoff : Bool} {exceptEcdsaAddress : Address}
    {now : Nat} {l : List AddressEntry}
    (hl : getQueryEnodeValEnodeEntries db enforceRetryBackoff exceptEcdsaAddress now = some l)
    {e : AddressEntry} (he : e ∈ l) : e.version < e.highestKnownVersion := by
  obtain ⟨l', hl', hmem⟩ :=
    mem_getQueryEnodeValEnodeEntries db enforceRetryBackoff exceptEcdsaAddress now
  obtain rfl : l = l' := Option.some.inj (hl.symm.trans hl')
  obtain ⟨a, stored, -, hstored, rfl, hne, -⟩ := hmem e he
  have hle : stored.version ≤ stored.highestKnownVersion := hb a stored hstored
  simp only [AddressEntry.decode_version, AddressEntry.decode_highestKnownVersion] at hne ⊢
  omega

/-! ## The defect -/

/-- Two validators announce the same node ID, from an empty table. -/
def sharedNodeTable : ValidatorEnodeDB :=
  (ValidatorEnodeDB.empty.upsertVersionAndEnode
    [⟨1, none, some ⟨7, 1⟩, 1, 0, 0, none⟩, ⟨2, none, some ⟨7, 2⟩, 1, 0, 0, none⟩]).1

/-- **The index is not the inverse of the table, and a new entry's version
passes its highest known version.** After one `UpsertVersionAndEnode` with
distinct addresses, the entry of address 1 has a node of ID 7, but the index
maps 7 to address 2. The entry also has version 1 with highest known version
0. -/
theorem upsertVersionAndEnode_breaks_tables :
    sharedNodeTable.getAddressFromNodeID 7 = some 2 ∧
      (sharedNodeTable.getAddressEntry 1).map AddressEntry.node = some (some ⟨7, 1⟩) ∧
      (sharedNodeTable.getAddressEntry 1).map
        (fun e => (e.version, e.highestKnownVersion)) = some (1, 0) := by
  decide

end CeloBlockchain.Announce

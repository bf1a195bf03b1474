import CeloBlockchain.Ibft.Types
import CeloBlockchain.Lib.KvBatch

/-!
# The validator enode tables

This module models `ValidatorEnodeDB` (`consensus/istanbul/announce/val_enode_db.go`):
`UpsertHighestKnownVersion`, `UpsertVersionAndEnode`, `UpdateQueryEnodeStats`, their
shared `upsert`, `RemoveEntry`, `PruneEntries` and `GetAddressFromNodeID`, with
`GenericDB.Upsert` (`db/generic_db.go`). It also models `VersionCertificateDB` with
`Upsert`, `Remove` and `Prune` (`version_certificate_db.go`), and
`GetQueryEnodeValEnodeEntries` (`queryenodeentries.go`).

Each table is a LevelDB. The validator enode table has two key spaces:
`addressKey` for the entries, and `nodeIDKey` for the index from node IDs to
addresses. Each key space is an `AList`, and a batch is a list of operations on
either (`KvBatch`). An entry is stored encoded. Reading it back gives the zero
time for a missing `LastQueryTimestamp`, and everything else as written. A node
is its ID and the rest of its URL; `String()` tells nodes apart. Public keys,
times and signatures are numbers, and times are seconds.

The handler calls of the upserts and deletions (`AddValidatorPeer`,
`RemoveValidatorPeer`) are returned as a list. Errors of the database (decoding,
writing) are left out. `RemoveEntry` of an address with no entry returns
`ErrNotFound`, which is `none`.
-/

namespace CeloBlockchain.Announce

open Ibft (Address)

/-- `enode.ID`. -/
abbrev NodeID := Nat

/-- `enode.Node`: its ID and the rest of its URL. -/
structure Node where
  id : NodeID
  url : Nat
  deriving DecidableEq, Repr

/-- `istanbul.AddressEntry`. -/
structure AddressEntry where
  address : Address
  publicKey : Option Nat
  node : Option Node
  version : Nat
  highestKnownVersion : Nat
  numQueryAttemptsForHKVersion : Nat
  lastQueryTimestamp : Option Nat
  deriving DecidableEq, Repr

/-- `DecodeRLP` of an encoded entry: a missing time reads back as the zero
time. -/
def AddressEntry.decode (e : AddressEntry) : AddressEntry :=
  { e with lastQueryTimestamp := some (e.lastQueryTimestamp.getD 0) }

/-- The calls on the `ValidatorEnodeHandler`. -/
inductive HandlerCall
  | addValidatorPeer (node : Node) (address : Address)
  | removeValidatorPeer (node : Node)
  deriving DecidableEq, Repr

/-! ## `GenericDB.Upsert` -/

namespace GenericDB

variable {ε γ op ω : Type}

/-- What `GenericDB.Upsert` does with one entry: `onUpdatedEntry` against the
stored entry, or `onNewEntry` when there is none. -/
def upsertEntry (getExistingEntry : ε → Option γ) (onUpdatedEntry : γ → ε → List op × List ω)
    (onNewEntry : ε → List op × List ω) (entry : ε) : List op × List ω :=
  match getExistingEntry entry with
  | some existingEntry => onUpdatedEntry existingEntry entry
  | none => onNewEntry entry

/-- `GenericDB.Upsert`: every entry is read from the store as it was before
the call. The callbacks' operations, and what they collect, are joined in
order into one batch, written at the end. -/
def upsert (getExistingEntry : ε → Option γ) (onUpdatedEntry : γ → ε → List op × List ω)
    (onNewEntry : ε → List op × List ω) (entries : List ε) : List op × List ω :=
  entries.foldl (fun acc entry =>
    let r := upsertEntry getExistingEntry onUpdatedEntry onNewEntry entry
    (acc.1 ++ r.1, acc.2 ++ r.2)) ([], [])

/-- The batch of an upsert is the entries' parts, one after another. -/
theorem upsert_eq_flatMap (getExistingEntry : ε → Option γ)
    (onUpdatedEntry : γ → ε → List op × List ω) (onNewEntry : ε → List op × List ω)
    (entries : List ε) :
    upsert getExistingEntry onUpdatedEntry onNewEntry entries =
      (entries.flatMap fun entry => (upsertEntry getExistingEntry onUpdatedEntry onNewEntry entry).1,
        entries.flatMap fun entry => (upsertEntry getExistingEntry onUpdatedEntry onNewEntry entry).2) := by
  -- the loop only appends to its accumulator
  suffices h : ∀ acc : List op × List ω,
      entries.foldl (fun acc entry =>
        let r := upsertEntry getExistingEntry onUpdatedEntry onNewEntry entry
        (acc.1 ++ r.1, acc.2 ++ r.2)) acc =
      (acc.1 ++ entries.flatMap fun entry => (upsertEntry getExistingEntry onUpdatedEntry onNewEntry entry).1,
        acc.2 ++ entries.flatMap fun entry => (upsertEntry getExistingEntry onUpdatedEntry onNewEntry entry).2) by
    simpa [upsert] using h ([], [])
  induction entries with
  | nil => intro acc; simp
  | cons entry entries ih => intro acc; simp [ih]

end GenericDB

/-! ## The validator enode table -/

/-- An operation of a batch on the validator enode table: on an entry, or on
the node-ID index. -/
abbrev BatchOp := KvBatch.Op Address AddressEntry ⊕ KvBatch.Op NodeID Address

/-- `ValidatorEnodeDB`. -/
structure ValidatorEnodeDB where
  addresses : AList fun _ : Address => AddressEntry
  nodeIDs : AList fun _ : NodeID => Address

namespace ValidatorEnodeDB

/-- An empty table. -/
def empty : ValidatorEnodeDB := ⟨∅, ∅⟩

/-- `gdb.Write(batch)`. -/
def write (db : ValidatorEnodeDB) (batch : List BatchOp) : ValidatorEnodeDB :=
  ⟨KvBatch.write db.addresses (batch.filterMap Sum.getLeft?),
    KvBatch.write db.nodeIDs (batch.filterMap Sum.getRight?)⟩

@[simp] theorem addresses_write (db : ValidatorEnodeDB) (batch : List BatchOp) :
    (db.write batch).addresses = KvBatch.write db.addresses (batch.filterMap Sum.getLeft?) := rfl

@[simp] theorem nodeIDs_write (db : ValidatorEnodeDB) (batch : List BatchOp) :
    (db.write batch).nodeIDs = KvBatch.write db.nodeIDs (batch.filterMap Sum.getRight?) := rfl

/-- `getAddressEntry`: `none` is `ErrNotFound`. -/
def getAddressEntry (db : ValidatorEnodeDB) (address : Address) : Option AddressEntry :=
  (db.addresses.lookup address).map AddressEntry.decode

/-- `GetAddressFromNodeID`. -/
def getAddressFromNodeID (db : ValidatorEnodeDB) (nodeID : NodeID) : Option Address :=
  db.nodeIDs.lookup nodeID

/-- The batch of `onNewEntry`, the same in the three upserts: the index from
the entry's node ID, then the entry. -/
def putEntry (entry : AddressEntry) : List BatchOp :=
  (match entry.node with
    | some node => [.inr (.put node.id entry.address)]
    | none => []) ++
  [.inl (.put entry.address entry)]

/-- `upsert`: `GenericDB.Upsert` with entries read by address, and the write. -/
def upsert {ω : Type} (db : ValidatorEnodeDB) (valEnodeEntries : List AddressEntry)
    (onNewEntry : AddressEntry → List BatchOp × List ω)
    (onUpdatedEntry : AddressEntry → AddressEntry → List BatchOp × List ω) :
    ValidatorEnodeDB × List ω :=
  let (batch, collected) := GenericDB.upsert (fun entry => db.getAddressEntry entry.address)
    onUpdatedEntry onNewEntry valEnodeEntries
  (db.write batch, collected)

/-- What `upsert` writes: the batch of the entries' parts. -/
theorem upsert_fst {ω : Type} (db : ValidatorEnodeDB) (valEnodeEntries : List AddressEntry)
    (onNewEntry : AddressEntry → List BatchOp × List ω)
    (onUpdatedEntry : AddressEntry → AddressEntry → List BatchOp × List ω) :
    (db.upsert valEnodeEntries onNewEntry onUpdatedEntry).1 =
      db.write (valEnodeEntries.flatMap fun entry =>
        (GenericDB.upsertEntry (fun entry => db.getAddressEntry entry.address)
          onUpdatedEntry onNewEntry entry).1) := by
  simp [upsert, GenericDB.upsert_eq_flatMap]

/-- `onNewEntry` of `UpsertHighestKnownVersion` and `UpdateQueryEnodeStats`:
the entry is put. -/
def putNewEntry (entry : AddressEntry) : List BatchOp × List Unit :=
  (putEntry entry, [])

/-! ### `UpsertHighestKnownVersion` -/

/-- The entry `UpsertHighestKnownVersion` writes over an existing one: none
for a lower highest known version; otherwise the new highest known version
with the old node, version and time, and no query attempts. -/
def highestKnownVersionUpdate (existingEntry newEntry : AddressEntry) : Option AddressEntry :=
  if newEntry.highestKnownVersion < existingEntry.highestKnownVersion then none
  else some { newEntry with
    node := existingEntry.node, version := existingEntry.version,
    lastQueryTimestamp := existingEntry.lastQueryTimestamp, numQueryAttemptsForHKVersion := 0 }

/-- `onUpdatedEntry` of `UpsertHighestKnownVersion`. -/
def highestKnownVersionUpdated (existingEntry newEntry : AddressEntry) : List BatchOp × List Unit :=
  match highestKnownVersionUpdate existingEntry newEntry with
  | some entry => putNewEntry entry
  | none => ([], [])

/-- `UpsertHighestKnownVersion`. -/
def upsertHighestKnownVersion (db : ValidatorEnodeDB) (valEnodeEntries : List AddressEntry) :
    ValidatorEnodeDB :=
  (db.upsert valEnodeEntries putNewEntry highestKnownVersionUpdated).1

/-! ### `UpsertVersionAndEnode` -/

/-- The entry `UpsertVersionAndEnode` writes over an existing one: none for a
lower version; otherwise the new version and node with the old public key and
time, and the highest known version raised to the version. -/
def versionAndEnodeUpdate (existingEntry newEntry : AddressEntry) : Option AddressEntry :=
  if newEntry.version < existingEntry.version then none
  else
    let entry := { newEntry with
      publicKey := existingEntry.publicKey, lastQueryTimestamp := existingEntry.lastQueryTimestamp }
    if newEntry.version > existingEntry.highestKnownVersion then
      some { entry with highestKnownVersion := newEntry.version, numQueryAttemptsForHKVersion := 0 }
    else some { entry with highestKnownVersion := existingEntry.highestKnownVersion }

/-- `enodeChanged`: both nodes set and different. -/
def enodeChanged (existingEntry newEntry : AddressEntry) : Bool :=
  existingEntry.node.isSome && newEntry.node.isSome && existingEntry.node != newEntry.node

/-- `onNewEntry` of `UpsertVersionAndEnode`: the entry's node is a peer to
add. -/
def versionAndEnodeNew (entry : AddressEntry) : List BatchOp × List (Node ⊕ Address × Node) :=
  (putEntry entry, match entry.node with
    | some node => [.inr (entry.address, node)]
    | none => [])

/-- `onUpdatedEntry` of `UpsertVersionAndEnode`: a changed node's index entry
is deleted and the old node is a peer to remove. -/
def versionAndEnodeUpdated (existingEntry newEntry : AddressEntry) :
    List BatchOp × List (Node ⊕ Address × Node) :=
  match versionAndEnodeUpdate existingEntry newEntry with
  | none => ([], [])
  | some entry =>
    match existingEntry.node with
    | some existingNode =>
      if enodeChanged existingEntry newEntry then
        let r := versionAndEnodeNew entry
        ([.inr (.delete existingNode.id)] ++ r.1, [.inl existingNode] ++ r.2)
      else versionAndEnodeNew entry
    | none => versionAndEnodeNew entry

/-- `UpsertVersionAndEnode`, with its handler calls: the peers to remove,
then those to add (`peersToAdd` is a map by address). -/
def upsertVersionAndEnode (db : ValidatorEnodeDB) (valEnodeEntries : List AddressEntry) :
    ValidatorEnodeDB × List HandlerCall :=
  let (db, collected) := db.upsert valEnodeEntries versionAndEnodeNew versionAndEnodeUpdated
  let peersToRemove := collected.filterMap Sum.getLeft?
  let peersToAdd : AList fun _ : Address => Node :=
    (collected.filterMap Sum.getRight?).foldl (fun m p => m.insert p.1 p.2) ∅
  (db, peersToRemove.map .removeValidatorPeer ++
    peersToAdd.entries.map fun p => .addValidatorPeer p.2 p.1)

/-! ### `UpdateQueryEnodeStats` -/

/-- The entry `UpdateQueryEnodeStats` writes over an existing one at time
`now`: one more query attempt if the highest known version is the same, and
everything else but the time as it was. -/
def queryStatsUpdate (now : Nat) (existingEntry newEntry : AddressEntry) : AddressEntry :=
  let newEntry :=
    if existingEntry.highestKnownVersion = newEntry.highestKnownVersion then
      { newEntry with numQueryAttemptsForHKVersion := existingEntry.numQueryAttemptsForHKVersion + 1 }
    else newEntry
  { newEntry with
    lastQueryTimestamp := some now, publicKey := existingEntry.publicKey, node := existingEntry.node,
    version := existingEntry.version, highestKnownVersion := existingEntry.highestKnownVersion }

/-- `onUpdatedEntry` of `UpdateQueryEnodeStats`. -/
def queryStatsUpdated (now : Nat) (existingEntry newEntry : AddressEntry) : List BatchOp × List Unit :=
  putNewEntry (queryStatsUpdate now existingEntry newEntry)

/-- `UpdateQueryEnodeStats` at time `now`. -/
def updateQueryEnodeStats (db : ValidatorEnodeDB) (valEnodeEntries : List AddressEntry) (now : Nat) :
    ValidatorEnodeDB :=
  (db.upsert valEnodeEntries putNewEntry (queryStatsUpdated now)).1

/-! ### Deletions -/

/-- `addDeleteToBatch`: the entry and its node's index entry; `none` is
`ErrNotFound`. -/
def addDeleteToBatch (db : ValidatorEnodeDB) (address : Address) :
    Option (List BatchOp × List HandlerCall) :=
  (db.getAddressEntry address).map fun entry =>
    match entry.node with
    | some node => ([.inl (.delete address), .inr (.delete node.id)], [.removeValidatorPeer node])
    | none => ([.inl (.delete address)], [])

/-- `RemoveEntry`. -/
def removeEntry (db : ValidatorEnodeDB) (address : Address) :
    Option (ValidatorEnodeDB × List HandlerCall) :=
  (db.addDeleteToBatch address).map fun r => (db.write r.1, r.2)

/-- `PruneEntries`: every entry whose address is not kept is deleted. -/
def pruneEntries (db : ValidatorEnodeDB) (addressesToKeep : Address → Bool) :
    ValidatorEnodeDB × List HandlerCall :=
  let r := db.addresses.keys.foldl (fun (acc : List BatchOp × List HandlerCall) address =>
    if addressesToKeep address then acc
    else
      match db.addDeleteToBatch address with
      | some r => (acc.1 ++ r.1, acc.2 ++ r.2)
      | none => acc) ([], [])
  (db.write r.1, r.2)

/-! ### Runs -/

/-- The calls that change the table. -/
inductive Op
  | upsertHighestKnownVersion (valEnodeEntries : List AddressEntry)
  | upsertVersionAndEnode (valEnodeEntries : List AddressEntry)
  | updateQueryEnodeStats (valEnodeEntries : List AddressEntry) (now : Nat)
  | removeEntry (address : Address)
  | pruneEntries (addressesToKeep : Address → Bool)

/-- One call; a `RemoveEntry` that fails leaves the table. -/
def step (db : ValidatorEnodeDB) : Op → ValidatorEnodeDB
  | .upsertHighestKnownVersion entries => db.upsertHighestKnownVersion entries
  | .upsertVersionAndEnode entries => (db.upsertVersionAndEnode entries).1
  | .updateQueryEnodeStats entries now => db.updateQueryEnodeStats entries now
  | .removeEntry address => ((db.removeEntry address).map Prod.fst).getD db
  | .pruneEntries addressesToKeep => (db.pruneEntries addressesToKeep).1

end ValidatorEnodeDB

/-! ## The query selection -/

/-- The backoff of a query in minutes: `int64(math.Pow(1.5, k) * 5)` with
`k = min(n - 1, 5)`. The powers `1.5^k` are exact in `float64` for these `k`,
so this is `5 * 3^k / 2^k` rounded down. -/
def queryTimeoutMinutes (numQueryAttempts : Nat) : Nat :=
  let k := min (numQueryAttempts - 1) 5
  5 * 3 ^ k / 2 ^ k

/-- One round of `GetQueryEnodeValEnodeEntries` at time `now`: an entry is
queried if it is not this node's, its version is not the highest known, it
has a public key, and its backoff has passed. The time of an entry with query
attempts is dereferenced. -/
def queryStep (enforceRetryBackoff : Bool) (exceptEcdsaAddress : Address) (now : Nat)
    (acc : List AddressEntry) (address : Address) (valEnodeEntry : AddressEntry) :
    Option (List AddressEntry) :=
  if address = exceptEcdsaAddress then some acc
  else if valEnodeEntry.version = valEnodeEntry.highestKnownVersion then some acc
  else if valEnodeEntry.publicKey.isNone then some acc
  else if enforceRetryBackoff && valEnodeEntry.numQueryAttemptsForHKVersion > 0 then
    match valEnodeEntry.lastQueryTimestamp with
    | none => none
    | some lastQueryTimestamp =>
      if now - lastQueryTimestamp < queryTimeoutMinutes valEnodeEntry.numQueryAttemptsForHKVersion * 60
      then some acc
      else some (acc ++ [valEnodeEntry])
  else some (acc ++ [valEnodeEntry])

/-- `GetQueryEnodeValEnodeEntries`: the decoded entries of the table, through
`queryStep`; `none` is a panic. -/
def getQueryEnodeValEnodeEntries (db : ValidatorEnodeDB) (enforceRetryBackoff : Bool)
    (exceptEcdsaAddress : Address) (now : Nat) : Option (List AddressEntry) :=
  db.addresses.entries.foldlM (fun acc e =>
    queryStep enforceRetryBackoff exceptEcdsaAddress now acc e.1 e.2.decode) []

/-! ## The version certificate table -/

/-- `istanbul.VersionCertificate`: the address it recovers to, its version and
signature. -/
structure VersionCertificate where
  address : Address
  version : Nat
  signature : Nat
  deriving DecidableEq, Repr

/-- `VersionCertificateDB`. -/
structure VersionCertificateDB where
  entries : AList fun _ : Address => VersionCertificate

namespace VersionCertificateDB

/-- An empty table. -/
def empty : VersionCertificateDB := ⟨∅⟩

/-- `Get`: `none` is `ErrNotFound`. -/
def get (db : VersionCertificateDB) (address : Address) : Option VersionCertificate :=
  db.entries.lookup address

/-- `onNewEntry` of `Upsert`: the certificate is put and returned. -/
def onNewEntry (entry : VersionCertificate) :
    List (KvBatch.Op Address VersionCertificate) × List VersionCertificate :=
  ([.put entry.address entry], [entry])

/-- `onUpdatedEntry` of `Upsert`: only a strictly newer version replaces the
stored one. -/
def onUpdatedEntry (existingEntry newEntry : VersionCertificate) :
    List (KvBatch.Op Address VersionCertificate) × List VersionCertificate :=
  if newEntry.version ≤ existingEntry.version then ([], []) else onNewEntry newEntry

/-- `Upsert`: the table afterwards, and the certificates put. -/
def upsert (db : VersionCertificateDB) (savEntries : List VersionCertificate) :
    VersionCertificateDB × List VersionCertificate :=
  let (batch, newEntries) :=
    GenericDB.upsert (fun entry => db.get entry.address) onUpdatedEntry onNewEntry savEntries
  (⟨KvBatch.write db.entries batch⟩, newEntries)

/-- `Remove`. -/
def remove (db : VersionCertificateDB) (address : Address) : VersionCertificateDB :=
  ⟨KvBatch.write db.entries [.delete address]⟩

/-- `Prune`: every certificate whose address is not kept is deleted. -/
def prune (db : VersionCertificateDB) (addressesToKeep : Address → Bool) : VersionCertificateDB :=
  ⟨KvBatch.write db.entries (db.entries.keys.filterMap fun address =>
    if addressesToKeep address then none else some (.delete address))⟩

/-- The calls that change the table. -/
inductive Op
  | upsert (savEntries : List VersionCertificate)
  | remove (address : Address)
  | prune (addressesToKeep : Address → Bool)

/-- One call. -/
def step (db : VersionCertificateDB) : Op → VersionCertificateDB
  | .upsert savEntries => (db.upsert savEntries).1
  | .remove address => db.remove address
  | .prune addressesToKeep => db.prune addressesToKeep

end VersionCertificateDB

end CeloBlockchain.Announce

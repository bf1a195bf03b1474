import CeloBlockchain.Announce.ValEnodeDB
import CeloBlockchain.Lib.Run

/-!
# The version certificate table keeps the newest certificate

`VersionCertificateDB.Upsert` replaces a stored certificate only with a
strictly newer one, and it reads what is stored from before the call. Take a
call whose certificates have distinct addresses, as
`HandleVersionCertificatesMsg` makes them. The certificate stored at an
address afterwards is the `maxOn` by version of the one stored before and the
one upserted (`get_upsert`). The call returns exactly the certificates with
nothing stored, or a strictly older one (`upsert_snd`).

The abstract table (`historyStep`) keeps, at each address, the certificates
upserted since the address was last removed or pruned. The table refines it
(`refines_step`, `refines_run`): what is stored is the first certificate of
highest version in that list, which is `List.maxOn?` by version
(`get_run_empty`, `get_run_empty_newest`).
-/

namespace CeloBlockchain.Announce

open Ibft (Address)

namespace VersionCertificateDB

/-! ## One call -/

@[simp] theorem get_mk (entries : AList fun _ : Address => VersionCertificate) (a : Address) :
    (⟨entries⟩ : VersionCertificateDB).get a = entries.lookup a := rfl

/-- A certificate's part of an `Upsert`: it is put and returned, unless the
stored certificate is at least as new. -/
theorem upsertEntry_eq (db : VersionCertificateDB) (c : VersionCertificate) :
    GenericDB.upsertEntry (fun entry => db.get entry.address) onUpdatedEntry onNewEntry c =
      if (db.get c.address).any (c.version ≤ ·.version) then ([], []) else onNewEntry c := by
  simp only [GenericDB.upsertEntry]
  cases db.get c.address with
  | none => rfl
  | some stored => simp [onUpdatedEntry]

theorem key_of_mem_upsertEntry (db : VersionCertificateDB) (c : VersionCertificate) :
    ∀ op ∈ (GenericDB.upsertEntry (fun entry => db.get entry.address)
      onUpdatedEntry onNewEntry c).1, op.key = c.address := by
  intro op hop
  rw [upsertEntry_eq] at hop
  split at hop
  · exact absurd hop List.not_mem_nil
  · simp only [onNewEntry, List.mem_singleton] at hop
    subst hop
    rfl

/-- What a certificate's part leaves at its address: the newer of it and the
stored certificate, the stored one on a tie. -/
theorem lookup_write_upsertEntry (db : VersionCertificateDB) (c : VersionCertificate) :
    (KvBatch.write db.entries (GenericDB.upsertEntry (fun entry => db.get entry.address)
      onUpdatedEntry onNewEntry c).1).lookup c.address =
      (db.get c.address).merge (maxOn VersionCertificate.version) (some c) := by
  rw [upsertEntry_eq]
  cases hget : db.get c.address with
  | none => simp [onNewEntry]
  | some stored =>
    by_cases hle : c.version ≤ stored.version
    · simp only [Option.any_some, hle, decide_true, if_true, KvBatch.write_nil,
        Option.merge_some_some, maxOn_eq_left hle]
      exact hget
    · simp [hle, onNewEntry, maxOn_eq_right hle]

/-- **`Upsert` keeps the newer certificate.** With distinct addresses in the
call, each address ends with the newer of what was stored and what was
upserted there. -/
theorem get_upsert (db : VersionCertificateDB) {savEntries : List VersionCertificate}
    (hnd : (savEntries.map VersionCertificate.address).Nodup) (a : Address) :
    (db.upsert savEntries).1.get a =
      (db.get a).merge (maxOn VersionCertificate.version)
        ((savEntries.filter (·.address = a)).maxOn? VersionCertificate.version) := by
  simp only [upsert, GenericDB.upsert_eq_flatMap, get_mk]
  rw [KvBatch.lookup_write_flatMap VersionCertificate.address _ (key_of_mem_upsertEntry db)]
  rcases KvBatch.filter_key_eq_nil_or_singleton VersionCertificate.address hnd a with
    h | ⟨c, -, rfl, h⟩
  · rw [h, List.flatMap_nil, KvBatch.write_nil, List.maxOn?_nil, Option.merge_none_right]
    rfl
  · rw [h, List.flatMap_singleton, List.maxOn?_singleton, lookup_write_upsertEntry]

/-- **What `Upsert` returns**: the certificates with nothing stored at their
address, or a strictly older one. -/
theorem upsert_snd (db : VersionCertificateDB) (savEntries : List VersionCertificate) :
    (db.upsert savEntries).2 =
      savEntries.filter fun c => !(db.get c.address).any (c.version ≤ ·.version) := by
  simp only [upsert, GenericDB.upsert_eq_flatMap, upsertEntry_eq, onNewEntry]
  induction savEntries with
  | nil => rfl
  | cons c savEntries ih =>
    by_cases hc : (db.get c.address).any (c.version ≤ ·.version)
    · simp [hc, ih]
    · simp [hc, ih]

theorem get_remove (db : VersionCertificateDB) (address a : Address) :
    (db.remove address).get a = if a = address then none else db.get a := by
  by_cases ha : a = address
  · subst ha
    simp [remove, get]
  · simp [remove, get, ha, AList.lookup_erase_ne ha]

theorem get_prune (db : VersionCertificateDB) (addressesToKeep : Address → Bool) (a : Address) :
    (db.prune addressesToKeep).get a = if addressesToKeep a then db.get a else none := by
  -- the batch is one part per stored address, a delete or nothing
  have hbatch : (db.entries.keys.filterMap fun address =>
      if addressesToKeep address then none else some (KvBatch.Op.delete address)) =
      db.entries.keys.flatMap fun address =>
        if addressesToKeep address then []
        else [(KvBatch.Op.delete address : KvBatch.Op Address VersionCertificate)] := by
    rw [List.filterMap_eq_flatMap_toList]
    congr 1
    funext address
    split <;> rfl
  have hkeys : ∀ address, ∀ op ∈ (if addressesToKeep address then []
      else [(KvBatch.Op.delete address : KvBatch.Op Address VersionCertificate)]),
      op.key = address := by
    intro address op hop
    split at hop
    · exact absurd hop List.not_mem_nil
    · rw [List.mem_singleton.mp hop]
      rfl
  simp only [prune, get_mk, hbatch]
  rw [KvBatch.lookup_write_flatMap id _ hkeys]
  rcases KvBatch.filter_key_eq_nil_or_singleton id (by simpa using db.entries.keys_nodup) a with
    h | ⟨a', -, rfl, h⟩
  · -- nothing is stored at `a`
    have hnot : a ∉ db.entries := fun hmem =>
      (List.filter_eq_nil_iff.mp h) a (AList.mem_keys.mp hmem) (by simp)
    have hnone : db.entries.lookup a = none := AList.lookup_eq_none.mpr hnot
    rw [h, List.flatMap_nil, KvBatch.write_nil]
    simp [get, hnone]
  · rw [h, List.flatMap_singleton]
    by_cases hkeep : addressesToKeep a'
    · simp [hkeep, get]
    · simp [hkeep]

/-! ## The abstract table -/

/-- The calls the announce protocol makes: the certificates of an upsert have
distinct addresses. -/
def Op.Admissible : Op → Prop
  | .upsert savEntries => (savEntries.map VersionCertificate.address).Nodup
  | .remove _ => True
  | .prune _ => True

/-- One call on the abstract table: at each address, the certificates
upserted since it was last removed or pruned. -/
def historyStep (history : Address → List VersionCertificate) :
    Op → Address → List VersionCertificate
  | .upsert savEntries => fun a => history a ++ savEntries.filter (·.address = a)
  | .remove address => fun a => if a = address then [] else history a
  | .prune addressesToKeep => fun a => if addressesToKeep a then history a else []

/-- The table stores, at each address, the first certificate of highest
version in its history. -/
def Refines (db : VersionCertificateDB) (history : Address → List VersionCertificate) : Prop :=
  ∀ a, db.get a = (history a).maxOn? VersionCertificate.version

theorem refines_empty : Refines empty fun _ => [] := fun _ => rfl

/-- **One call is one abstract call.** -/
theorem refines_step {db : VersionCertificateDB} {history : Address → List VersionCertificate}
    {op : Op} (hop : op.Admissible) (hr : Refines db history) :
    Refines (db.step op) (historyStep history op) := by
  intro a
  cases op with
  | upsert savEntries =>
    rw [step, get_upsert db hop, hr a, historyStep, List.maxOn?_append]
  | remove address =>
    rw [step, get_remove, hr a]
    by_cases ha : a = address <;> simp [historyStep, ha]
  | prune addressesToKeep =>
    rw [step, get_prune, hr a]
    by_cases hkeep : addressesToKeep a <;> simp [historyStep, hkeep]

theorem refines_run {ops : List Op} (hops : ∀ op ∈ ops, op.Admissible)
    {db : VersionCertificateDB} {history : Address → List VersionCertificate}
    (hr : Refines db history) :
    Refines (Run.run step db ops) (Run.run historyStep history ops) :=
  Run.run_simulation step historyStep Refines Op.Admissible
    (fun _ _ _ hop hr => refines_step hop hr) ops db history hops hr

/-- **The table refines its history.** From an empty table, every address
holds the first certificate of highest version upserted since it was last
removed or pruned. -/
theorem get_run_empty {ops : List Op} (hops : ∀ op ∈ ops, op.Admissible) (a : Address) :
    (Run.run step empty ops).get a =
      (Run.run historyStep (fun _ => []) ops a).maxOn? VersionCertificate.version :=
  refines_run hops refines_empty a

/-- The stored certificate was upserted since the last removal, and no
certificate upserted since then is newer. -/
theorem get_run_empty_newest {ops : List Op} (hops : ∀ op ∈ ops, op.Admissible)
    {a : Address} {c : VersionCertificate} (hget : (Run.run step empty ops).get a = some c) :
    c ∈ Run.run historyStep (fun _ => []) ops a ∧
      ∀ c' ∈ Run.run historyStep (fun _ => []) ops a, c'.version ≤ c.version := by
  rw [get_run_empty hops] at hget
  refine ⟨List.maxOn?_mem hget, fun c' hc' => ?_⟩
  have hle := List.le_apply_get_maxOn?_of_mem (f := VersionCertificate.version) hc'
  simpa [hget] using hle

/-- Certificates of versions 3 and then 5 for address 1, and one for address
2, which is then removed. -/
def certificateOps : List Op :=
  [.upsert [⟨1, 3, 0⟩, ⟨2, 1, 0⟩], .upsert [⟨1, 5, 9⟩], .remove 2]

theorem get_run_empty_newest_certificateOps :
    (∀ op ∈ certificateOps, op.Admissible) ∧
      (Run.run step empty certificateOps).get 1 = some ⟨1, 5, 9⟩ ∧
      ⟨1, 5, 9⟩ ∈ Run.run historyStep (fun _ => []) certificateOps 1 ∧
      ∀ c' ∈ Run.run historyStep (fun _ => []) certificateOps 1, c'.version ≤ 5 := by
  have hops : ∀ op ∈ certificateOps, op.Admissible := by simp [certificateOps, Op.Admissible]
  have hget : (Run.run step empty certificateOps).get 1 = some ⟨1, 5, 9⟩ := by decide
  exact ⟨hops, hget, get_run_empty_newest hops hget⟩

end VersionCertificateDB

end CeloBlockchain.Announce

import CeloBlockchain.Ibft.RoundStateDb
import CeloBlockchain.Lib.AssocMap
import Mathlib.Tactic.DeriveEncodable

/-!
# What the round-state database keeps

This module proves what the round-state database keeps, over every run of
the saving decorator, and what a restarting core reads back from it.

* Keys: `view2Key` is read back by `key2View` (`key2View_view2Key`). It
  sorts as views do (`view2Key_lt_view2Key_iff`), so `deleteEntriesOlderThan`
  removes exactly the entries of the views below its argument
  (`lookup_deleteEntriesOlderThan`). The database of every run keeps the key
  shapes this needs (`WellKeyed`, `mutateAll_wellKeyed`).
* Restoring: every field of the round state but the verification cache
  survives `EncodeRLP`/`DecodeRLP` (`decodeRoundState_encodeRoundState`). Once
  a mutation that saves the whole round state has run, `GetLastView` is the
  in-memory view after every later mutation and the round state saved for it
  has the in-memory fields outside the message sets (`Saved`,
  `mutateAll_saved`, `restore_after_full_save`). A restarting core therefore
  takes up those fields (`createRoundState_after_full_save`), and garbage
  collection never changes what it takes up
  (`createRoundState_garbageCollectEntries`).
* The message sets, however, are restored by `AddAll`, which keeps the saved
  message of a sender over a newer one. A PREPARE replaced after the last
  full save therefore comes back as the old one
  (`restore_keeps_replaced_prepare`).
-/
namespace CeloBlockchain.Ibft

open Serialization BigEndian

/-! ## Keys -/

/-- A view whose sequence and round are `uint64`s. -/
def View.IsUint64 (v : View) : Prop := v.sequence < 2 ^ 64 ∧ v.round < 2 ^ 64

instance (v : View) : Decidable v.IsUint64 := inferInstanceAs (Decidable (_ ∧ _))

/-- The view a key stands for: both words cut to 64 bits. -/
def View.toUint64 (v : View) : View := ⟨uint64 v.sequence, uint64 v.round⟩

theorem View.isUint64_toUint64 (v : View) : v.toUint64.IsUint64 :=
  ⟨Nat.mod_lt _ (by norm_num), Nat.mod_lt _ (by norm_num)⟩

theorem View.toUint64_of_isUint64 {v : View} (hv : v.IsUint64) : v.toUint64 = v := by
  obtain ⟨hs, hr⟩ := hv
  rw [View.toUint64, uint64, uint64, Nat.mod_eq_of_lt hs, Nat.mod_eq_of_lt hr]

theorem prefixView2Key_toUint64 (pre : List UInt8) (v : View) :
    prefixView2Key pre v.toUint64 = prefixView2Key pre v := by
  simp [prefixView2Key, View.toUint64, uint64]

theorem view2Key_toUint64 (v : View) : view2Key v.toUint64 = view2Key v :=
  prefixView2Key_toUint64 rsKey v

theorem rcvdView2Key_toUint64 (v : View) : rcvdView2Key v.toUint64 = rcvdView2Key v :=
  prefixView2Key_toUint64 rcvdKey v

/-- A view key is its prefix followed by the 16 bytes of the view. -/
theorem prefixView2Key_eq (pre : List UInt8) (v : View) :
    prefixView2Key pre v =
      pre ++ (toBytesFixed 8 (uint64 v.sequence) ++ toBytesFixed 8 (uint64 v.round)) := by
  rw [prefixView2Key, List.append_assoc]

theorem key2View_view2Key (v : View) : key2View (view2Key v) = v.toUint64 := by
  have hs : uint64 v.sequence < 256 ^ 8 := Nat.mod_lt _ (by norm_num)
  have hr : uint64 v.round < 256 ^ 8 := Nat.mod_lt _ (by norm_num)
  -- the key is `rs`, then the sequence word, then the round word
  have hseq : ((view2Key v).drop 2).take 8 = toBytesFixed 8 (uint64 v.sequence) := by
    rw [view2Key, prefixView2Key_eq, List.drop_left' (show rsKey.length = 2 from rfl),
      List.take_left' (length_toBytesFixed 8 _)]
  have hround : ((view2Key v).drop (2 + 8)).take 8 = toBytesFixed 8 (uint64 v.round) := by
    rw [view2Key, prefixView2Key,
      List.drop_left' (show (rsKey ++ toBytesFixed 8 (uint64 v.sequence)).length = 2 + 8 by
        simp [rsKey]),
      List.take_of_length_le (by simp)]
  simp only [key2View, rsKey, List.length_cons, List.length_nil]
  rw [hseq, hround, ofBytes_toBytesFixed, ofBytes_toBytesFixed, Nat.mod_eq_of_lt hs, Nat.mod_eq_of_lt hr]
  rfl

/-- View keys with one prefix sort as their views: by sequence, then by
round. -/
theorem prefixView2Key_lt_iff (pre : List UInt8) {v w : View} (hv : v.IsUint64)
    (hw : w.IsUint64) : prefixView2Key pre v < prefixView2Key pre w ↔ v < w := by
  have hbound : (2 : Nat) ^ 64 = 256 ^ 8 := by norm_num
  obtain ⟨hvs, hvr⟩ := hv
  obtain ⟨hws, hwr⟩ := hw
  have evs : uint64 v.sequence = v.sequence := Nat.mod_eq_of_lt hvs
  have evr : uint64 v.round = v.round := Nat.mod_eq_of_lt hvr
  have ews : uint64 w.sequence = w.sequence := Nat.mod_eq_of_lt hws
  have ewr : uint64 w.round = w.round := Nat.mod_eq_of_lt hwr
  rw [hbound] at hvs hvr hws hwr
  have hlen : (toBytesFixed 8 v.sequence).length = (toBytesFixed 8 w.sequence).length := by simp
  rw [prefixView2Key_eq, prefixView2Key_eq, evs, evr, ews, ewr, append_lt_append_iff rfl,
    append_lt_append_iff hlen, toBytesFixed_lt_iff 8 hvs hws, toBytesFixed_lt_iff 8 hvr hwr,
    toBytesFixed_inj 8 hvs hws, View.lt_iff]
  simp [List.lt_irrefl]

theorem view2Key_lt_view2Key_iff {v w : View} (hv : v.IsUint64) (hw : w.IsUint64) :
    view2Key v < view2Key w ↔ v < w :=
  prefixView2Key_lt_iff rsKey hv hw

theorem rcvdView2Key_lt_rcvdView2Key_iff {v w : View} (hv : v.IsUint64) (hw : w.IsUint64) :
    rcvdView2Key v < rcvdView2Key w ↔ v < w :=
  prefixView2Key_lt_iff rcvdKey hv hw

/-- Distinct `uint64` views get distinct keys, read off the order. -/
theorem prefixView2Key_inj (pre : List UInt8) {v w : View} (hv : v.IsUint64) (hw : w.IsUint64) :
    prefixView2Key pre v = prefixView2Key pre w ↔ v = w := by
  constructor
  · intro h
    have hvw : ¬ v < w := fun hlt =>
      List.lt_irrefl _ (h ▸ (prefixView2Key_lt_iff pre hv hw).mpr hlt)
    have hwv : ¬ w < v := fun hlt =>
      List.lt_irrefl _ (h ▸ (prefixView2Key_lt_iff pre hw hv).mpr hlt)
    exact le_antisymm (not_lt.mp hwv) (not_lt.mp hvw)
  · rintro rfl
    rfl

/-- "rcvd" sorts before "rs". -/
theorem rcvdView2Key_lt_view2Key (v w : View) : rcvdView2Key v < view2Key w :=
  List.cons_lt_cons_iff.mpr (.inr ⟨rfl, List.cons_lt_cons_iff.mpr (.inl (by decide))⟩)

/-- "lastView" sorts before every view key. -/
theorem lastViewKey_lt_rcvdView2Key (v : View) : lastViewKey < rcvdView2Key v :=
  List.cons_lt_cons_iff.mpr (.inl (by decide))

theorem lastViewKey_lt_view2Key (v : View) : lastViewKey < view2Key v :=
  List.cons_lt_cons_iff.mpr (.inl (by decide))

/-- "version" sorts after every view key. -/
theorem view2Key_lt_dbVersionKey (v : View) : view2Key v < dbVersionKey :=
  List.cons_lt_cons_iff.mpr (.inl (by decide))

theorem rcvdView2Key_lt_dbVersionKey (v : View) : rcvdView2Key v < dbVersionKey :=
  List.cons_lt_cons_iff.mpr (.inl (by decide))

/-! ## Deleting old entries -/

/-- `deleteIteratorEntries` empties the keys in `[start, limit)` and keeps
the others. -/
theorem lookup_deleteIteratorEntries (db : Db) (start limit k : List UInt8) :
    (deleteIteratorEntries db start limit).1.lookup k =
      if start ≤ k ∧ k < limit then none else db.lookup k := by
  rw [deleteIteratorEntries, AssocMap.lookup_foldl_erase]
  by_cases hk : k ∈ db.keys
  · simp [hk]
  · have hnone : db.lookup k = none := AList.lookup_eq_none.mpr hk
    simp [hk, hnone]

/-- The keys a round-state database holds: `lastView`, `version`, and the
`rs` and `rcvd` keys of views. -/
def WellKeyed (db : Db) : Prop :=
  ∀ k ∈ db.keys, k = lastViewKey ∨ k = dbVersionKey ∨ ∃ w : View, k = view2Key w ∨ k = rcvdView2Key w

/-- The key of an entry of a `uint64` view below `v`. -/
def IsEntryBelow (v : View) (k : List UInt8) : Prop :=
  ∃ w : View, w.IsUint64 ∧ w < v ∧ (k = view2Key w ∨ k = rcvdView2Key w)

theorem not_lt_zero_view (w : View) : ¬ w < ⟨0, 0⟩ := by
  simp [View.lt_iff]

/-- The first range `deleteEntriesOlderThan` empties holds the `rs` keys
below `v`, the second the `rcvd` keys below `v`; between them they hold
exactly the entries below `v`. -/
theorem inRanges_iff {v : View} (hv : v.IsUint64) {k : List UInt8}
    (hk : k = lastViewKey ∨ k = dbVersionKey ∨ ∃ w : View, k = view2Key w ∨ k = rcvdView2Key w) :
    ((view2Key ⟨0, 0⟩ ≤ k ∧ k < view2Key v) ∨ (rcvdView2Key ⟨0, 0⟩ ≤ k ∧ k < rcvdView2Key v)) ↔
      IsEntryBelow v k := by
  have hzero : (⟨0, 0⟩ : View).IsUint64 := ⟨by norm_num, by norm_num⟩
  rcases hk with rfl | rfl | ⟨w, hw⟩
  · -- "lastView" is below both ranges and is no view's key
    constructor
    · rintro (⟨h, -⟩ | ⟨h, -⟩)
      · exact absurd (lastViewKey_lt_view2Key _) h
      · exact absurd (lastViewKey_lt_rcvdView2Key _) h
    · rintro ⟨w, -, -, h | h⟩
      · exact absurd (h ▸ lastViewKey_lt_view2Key w) (List.lt_irrefl _)
      · exact absurd (h ▸ lastViewKey_lt_rcvdView2Key w) (List.lt_irrefl _)
  · -- "version" is above both ranges and is no view's key
    constructor
    · rintro (⟨-, h⟩ | ⟨-, h⟩)
      · exact absurd (view2Key_lt_dbVersionKey v) (List.lt_asymm h)
      · exact absurd (rcvdView2Key_lt_dbVersionKey v) (List.lt_asymm h)
    · rintro ⟨w, -, -, h | h⟩
      · exact absurd (h ▸ view2Key_lt_dbVersionKey w) (List.lt_irrefl _)
      · exact absurd (h ▸ rcvdView2Key_lt_dbVersionKey w) (List.lt_irrefl _)
  -- a view's key is the key of its `uint64` view
  have hw' : w.toUint64.IsUint64 := w.isUint64_toUint64
  rcases hw with rfl | rfl
  · rw [← view2Key_toUint64 w]
    constructor
    · rintro (⟨-, h⟩ | ⟨-, h⟩)
      · exact ⟨w.toUint64, hw', (view2Key_lt_view2Key_iff hw' hv).mp h, .inl rfl⟩
      · exact absurd (rcvdView2Key_lt_view2Key v w.toUint64) (List.lt_asymm h)
    · rintro ⟨u, hu, huv, h | h⟩
      · have heq : w.toUint64 = u := (prefixView2Key_inj rsKey hw' hu).mp h
        subst heq
        exact .inl ⟨fun h0 => not_lt_zero_view _ ((view2Key_lt_view2Key_iff hw' hzero).mp h0),
          (view2Key_lt_view2Key_iff hw' hv).mpr huv⟩
      · exact absurd (h ▸ rcvdView2Key_lt_view2Key u w.toUint64) (List.lt_irrefl _)
  · rw [← rcvdView2Key_toUint64 w]
    constructor
    · rintro (⟨h, -⟩ | ⟨-, h⟩)
      · exact absurd (rcvdView2Key_lt_view2Key w.toUint64 ⟨0, 0⟩) h
      · exact ⟨w.toUint64, hw', (rcvdView2Key_lt_rcvdView2Key_iff hw' hv).mp h, .inr rfl⟩
    · rintro ⟨u, hu, huv, h | h⟩
      · exact absurd (h ▸ rcvdView2Key_lt_view2Key w.toUint64 u) (List.lt_irrefl _)
      · have heq : w.toUint64 = u := (prefixView2Key_inj rcvdKey hw' hu).mp h
        subst heq
        exact .inr ⟨fun h0 => not_lt_zero_view _ ((rcvdView2Key_lt_rcvdView2Key_iff hw' hzero).mp h0),
          (rcvdView2Key_lt_rcvdView2Key_iff hw' hv).mpr huv⟩

open Classical in
/-- **Deleting old entries.** On a well-keyed database,
`deleteEntriesOlderThan v` removes exactly the `rs` and `rcvd` entries of the
views below `v` and keeps every other entry. -/
theorem lookup_deleteEntriesOlderThan {db : Db} (hdb : WellKeyed db) {v : View} (hv : v.IsUint64)
    (k : List UInt8) :
    (deleteEntriesOlderThan db v).1.lookup k = if IsEntryBelow v k then none else db.lookup k := by
  rw [deleteEntriesOlderThan, lookup_deleteIteratorEntries, lookup_deleteIteratorEntries]
  by_cases hk : k ∈ db.keys
  · have hranges := inRanges_iff hv (hdb k hk)
    by_cases hbelow : IsEntryBelow v k
    · rcases hranges.mpr hbelow with h | h <;> simp [h, hbelow]
    · have hnot := mt hranges.mp hbelow
      rw [not_or] at hnot
      simp only [if_neg hnot.1, if_neg hnot.2, if_neg hbelow]
  · have hnone : db.lookup k = none := AList.lookup_eq_none.mpr hk
    simp [hnone]

/-! ## What the saves write -/

theorem lastViewKey_ne_view2Key (v : View) : lastViewKey ≠ view2Key v := fun h =>
  List.lt_irrefl _ (h ▸ lastViewKey_lt_view2Key v)

theorem lastViewKey_ne_rcvdView2Key (v : View) : lastViewKey ≠ rcvdView2Key v := fun h =>
  List.lt_irrefl _ (h ▸ lastViewKey_lt_rcvdView2Key v)

theorem rcvdView2Key_ne_view2Key (v w : View) : rcvdView2Key v ≠ view2Key w := fun h =>
  List.lt_irrefl _ (h ▸ rcvdView2Key_lt_view2Key v w)

section Saves

variable (c : Codecs) (db : Db) (rs : RoundState)

@[simp] theorem lookup_updateLastRcvd_self :
    (updateLastRcvd c db rs).lookup (rcvdView2Key rs.view) =
      some (c.rcvd.encode ((rcvdFromRoundState rs).toRLP c)) := by
  simp [updateLastRcvd]

theorem lookup_updateLastRcvd_of_ne {k : List UInt8} (hk : k ≠ rcvdView2Key rs.view) :
    (updateLastRcvd c db rs).lookup k = db.lookup k := by
  simp [updateLastRcvd, AList.lookup_insert_ne hk]

@[simp] theorem lookup_updateLastRoundState_lastViewKey :
    (updateLastRoundState c db rs).lookup lastViewKey = some (view2Key rs.view) := by
  simp [updateLastRoundState, AList.lookup_insert_ne (lastViewKey_ne_view2Key rs.view)]

@[simp] theorem lookup_updateLastRoundState_self :
    (updateLastRoundState c db rs).lookup (view2Key rs.view) =
      some (c.roundState.encode (encodeRoundState c rs)) := by
  simp [updateLastRoundState]

theorem lookup_updateLastRoundState_of_ne {k : List UInt8} (hlast : k ≠ lastViewKey)
    (hk : k ≠ view2Key rs.view) : (updateLastRoundState c db rs).lookup k = db.lookup k := by
  simp [updateLastRoundState, AList.lookup_insert_ne hk, AList.lookup_insert_ne hlast]

theorem lookup_updateLastRoundState_rcvdView2Key (v : View) :
    (updateLastRoundState c db rs).lookup (rcvdView2Key v) = db.lookup (rcvdView2Key v) :=
  lookup_updateLastRoundState_of_ne c db rs (lastViewKey_ne_rcvdView2Key v).symm
    (rcvdView2Key_ne_view2Key v rs.view)

end Saves

/-! ## Reading back -/

section Restore

variable (c : Codecs)

/-- **Round trip.** Decoding the RLP of a round state gives it back with an
empty verification cache. -/
theorem decodeRoundState_encodeRoundState (rs : RoundState) :
    decodeRoundState c (encodeRoundState c rs) = some { rs with proposalVerificationStatus := ∅ } := by
  simp [decodeRoundState, encodeRoundState, decodeNullable_encodeNullable _ _ c.request_ne_emptyList,
    decodeNullable_encodeNullable _ _ c.preprepare_ne_emptyList]

theorem fromRLP_toRLP (r : Rcvd) : Rcvd.fromRLP c (r.toRLP c) = some r := by
  simp [Rcvd.fromRLP, Rcvd.toRLP]

variable {c} {db : Db} {v : View} {rs : RoundState}

/-- A saved round state without saved received messages reads back as it was
saved. -/
theorem getRoundStateFor_of_lookup_none
    (hrs : db.lookup (view2Key v) = some (c.roundState.encode (encodeRoundState c rs)))
    (hrcvd : db.lookup (rcvdView2Key v) = none) :
    getRoundStateFor c db v = .ok { rs with proposalVerificationStatus := ∅ } := by
  simp [getRoundStateFor, hrs, hrcvd, decodeRoundState_encodeRoundState]

/-- A saved round state with saved received messages reads back merged with
them. -/
theorem getRoundStateFor_of_lookup_some {r : Rcvd}
    (hrs : db.lookup (view2Key v) = some (c.roundState.encode (encodeRoundState c rs)))
    (hrcvd : db.lookup (rcvdView2Key v) = some (c.rcvd.encode (r.toRLP c))) :
    getRoundStateFor c db v = .ok (merged { rs with proposalVerificationStatus := ∅ } r) := by
  simp [getRoundStateFor, hrs, hrcvd, decodeRoundState_encodeRoundState, fromRLP_toRLP]

end Restore

/-! ## The decorator, step by step -/

namespace RsSaveDecorator

variable (c : Codecs) (e : Hash)

/-- The save that follows a successful mutation. -/
def save (db : Db) (m : Mutation) (rs : RoundState) : Db :=
  if m.savesRcvd then updateLastRcvd c db rs else updateLastRoundState c db rs

theorem mutate_ok {d d' : RsSaveDecorator} {m : Mutation} (h : d.mutate c e m = .ok d') :
    m.apply e d.rs = .ok d'.rs ∧ d'.db = save c d.db m d'.rs := by
  unfold mutate at h
  split at h
  · cases h
  · rename_i rs happly
    cases h
    exact ⟨happly, rfl⟩

/-- A run that succeeds splits into two runs that succeed. -/
theorem mutateAll_append_ok {d d' : RsSaveDecorator} {ms₁ ms₂ : List Mutation}
    (h : d.mutateAll c e (ms₁ ++ ms₂) = .ok d') :
    ∃ d₁, d.mutateAll c e ms₁ = .ok d₁ ∧ d₁.mutateAll c e ms₂ = .ok d' := by
  induction ms₁ generalizing d with
  | nil => exact ⟨d, rfl, h⟩
  | cons m ms ih =>
    rw [List.cons_append, mutateAll] at h
    split at h
    · cases h
    · rename_i d₁ hm
      rw [mutateAll, hm]
      exact ih h

end RsSaveDecorator

/-! ## What a restart reads back over whole runs -/

/-- The fields of a round state besides its message sets and the
verification cache. -/
structure RoundFields where
  state : State
  round : Nat
  desiredRound : Nat
  sequence : Nat
  preprepareV2 : Option PreprepareV2
  proposer : Validator
  validatorSet : ValidatorSet
  pendingRequest : Option Proposal
  preparedCertificate : PreparedCertificate
deriving DecidableEq

def RoundState.fields (rs : RoundState) : RoundFields :=
  ⟨rs.state, rs.round, rs.desiredRound, rs.sequence, rs.preprepareV2, rs.proposer, rs.validatorSet,
    rs.pendingRequest, rs.preparedCertificate⟩

theorem RoundState.view_eq_of_fields {rs rs' : RoundState} (h : rs.fields = rs'.fields) :
    rs.view = rs'.view := by
  simp only [RoundState.fields, RoundFields.mk.injEq] at h
  simp [RoundState.view, h.2.1, h.2.2.2.1]

@[simp] theorem fields_merged (rs : RoundState) (r : Rcvd) : (merged rs r).fields = rs.fields := rfl

theorem except_map_eq_ok {ε α β : Type} {f : α → β} {x : Except ε α} {y : β}
    (h : x.map f = .ok y) : ∃ a, x = .ok a ∧ y = f a := by
  cases x with
  | error e => cases h
  | ok a => exact ⟨a, rfl, (Except.ok.inj h).symm⟩

/-- The mutations saved with the received messages change only message
sets. -/
theorem Mutation.fields_apply_of_savesRcvd {e : Hash} {m : Mutation} {rs rs' : RoundState}
    (hm : m.savesRcvd = true) (h : m.apply e rs = .ok rs') : rs'.fields = rs.fields := by
  cases m with
  | addCommit v =>
    obtain ⟨p, -, rfl⟩ := except_map_eq_ok h
    rfl
  | addPrepare v =>
    obtain ⟨p, -, rfl⟩ := except_map_eq_ok h
    rfl
  | addParentCommit v =>
    obtain ⟨p, -, rfl⟩ := except_map_eq_ok h
    rfl
  | _ => simp [Mutation.savesRcvd] at hm

section Runs

variable (c : Codecs) (e : Hash)

/-- Every `rcvd` entry is an encoding of received messages. -/
def RcvdSaved (db : Db) : Prop :=
  ∀ v : View, db.lookup (rcvdView2Key v) = none ∨
    ∃ r : Rcvd, db.lookup (rcvdView2Key v) = some (c.rcvd.encode (r.toRLP c))

/-- What the database holds for the decorator's round state: `lastView`
names its view, and the view's `rs` entry is a round state with the same
fields outside the message sets. -/
structure Saved (d : RsSaveDecorator) : Prop where
  lastView : d.db.lookup lastViewKey = some (view2Key d.rs.view)
  roundState : ∃ rs, d.db.lookup (view2Key d.rs.view) =
    some (c.roundState.encode (encodeRoundState c rs)) ∧ rs.fields = d.rs.fields
  rcvd : RcvdSaved c d.db

theorem rcvdSaved_empty : RcvdSaved c ∅ := fun _ => .inl rfl

theorem rcvdSaved_updateLastRoundState {db : Db} (h : RcvdSaved c db) (rs : RoundState) :
    RcvdSaved c (updateLastRoundState c db rs) := by
  intro v
  rw [lookup_updateLastRoundState_rcvdView2Key]
  exact h v

theorem rcvdSaved_updateLastRcvd {db : Db} (h : RcvdSaved c db) (rs : RoundState) :
    RcvdSaved c (updateLastRcvd c db rs) := by
  intro v
  by_cases hv : rcvdView2Key v = rcvdView2Key rs.view
  · rw [hv, lookup_updateLastRcvd_self]
    exact .inr ⟨_, rfl⟩
  · rw [lookup_updateLastRcvd_of_ne c db rs hv]
    exact h v

/-- A full save makes the invariant hold, whatever the database held. -/
theorem saved_updateLastRoundState {db : Db} (h : RcvdSaved c db) (rs : RoundState) :
    Saved c ⟨updateLastRoundState c db rs, rs⟩ where
  lastView := lookup_updateLastRoundState_lastViewKey c db rs
  roundState := ⟨rs, lookup_updateLastRoundState_self c db rs, rfl⟩
  rcvd := rcvdSaved_updateLastRoundState c h rs

/-- Saving the received messages keeps the invariant, for a round state with
the same fields outside the message sets. -/
theorem saved_updateLastRcvd {d : RsSaveDecorator} (h : Saved c d) {rs : RoundState}
    (hf : rs.fields = d.rs.fields) : Saved c ⟨updateLastRcvd c d.db rs, rs⟩ := by
  have hv : rs.view = d.rs.view := RoundState.view_eq_of_fields hf
  obtain ⟨rs₀, hrs₀, hf₀⟩ := h.roundState
  refine ⟨?_, ⟨rs₀, ?_, hf₀.trans hf.symm⟩, rcvdSaved_updateLastRcvd c h.rcvd rs⟩
  · rw [lookup_updateLastRcvd_of_ne c _ rs (lastViewKey_ne_rcvdView2Key _), hv]
    exact h.lastView
  · rw [lookup_updateLastRcvd_of_ne c _ rs (rcvdView2Key_ne_view2Key _ _).symm, hv]
    exact hrs₀

/-- **Step.** Every decorated mutation keeps the invariant. -/
theorem mutate_saved {d d' : RsSaveDecorator} {m : Mutation} (h : Saved c d)
    (hm : d.mutate c e m = .ok d') : Saved c d' := by
  obtain ⟨happly, hdb⟩ := RsSaveDecorator.mutate_ok c e hm
  obtain ⟨db', rs'⟩ := d'
  dsimp only at happly hdb
  subst hdb
  unfold RsSaveDecorator.save
  cases hs : m.savesRcvd
  · exact saved_updateLastRoundState c h.rcvd rs'
  · exact saved_updateLastRcvd c h (Mutation.fields_apply_of_savesRcvd hs happly)

theorem mutate_rcvdSaved {d d' : RsSaveDecorator} {m : Mutation} (h : RcvdSaved c d.db)
    (hm : d.mutate c e m = .ok d') : RcvdSaved c d'.db := by
  obtain ⟨-, hdb⟩ := RsSaveDecorator.mutate_ok c e hm
  rw [hdb]
  unfold RsSaveDecorator.save
  split
  · exact rcvdSaved_updateLastRcvd c h _
  · exact rcvdSaved_updateLastRoundState c h _

/-- A mutation that saves the whole round state establishes the invariant. -/
theorem mutate_saved_of_savesRcvd_false {d d' : RsSaveDecorator} {m : Mutation}
    (h : RcvdSaved c d.db) (hs : m.savesRcvd = false) (hm : d.mutate c e m = .ok d') :
    Saved c d' := by
  obtain ⟨-, hdb⟩ := RsSaveDecorator.mutate_ok c e hm
  obtain ⟨db', rs'⟩ := d'
  dsimp only at hdb
  subst hdb
  rw [RsSaveDecorator.save, hs]
  exact saved_updateLastRoundState c h rs'

/-- **Run.** The invariant holds after every run from a state where it holds. -/
theorem mutateAll_saved {d d' : RsSaveDecorator} {ms : List Mutation} (h : Saved c d)
    (hms : d.mutateAll c e ms = .ok d') : Saved c d' := by
  induction ms generalizing d with
  | nil => cases hms; exact h
  | cons m ms ih =>
    rw [RsSaveDecorator.mutateAll] at hms
    split at hms
    · cases hms
    · rename_i d₁ hm
      exact ih (mutate_saved c e h hm) hms

theorem mutateAll_rcvdSaved {d d' : RsSaveDecorator} {ms : List Mutation} (h : RcvdSaved c d.db)
    (hms : d.mutateAll c e ms = .ok d') : RcvdSaved c d'.db := by
  induction ms generalizing d with
  | nil => cases hms; exact h
  | cons m ms ih =>
    rw [RsSaveDecorator.mutateAll] at hms
    split at hms
    · cases hms
    · rename_i d₁ hm
      exact ih (mutate_rcvdSaved c e h hm) hms

variable {c}

theorem getLastView_of_saved {d : RsSaveDecorator} (h : Saved c d) :
    getLastView d.db = some d.rs.view.toUint64 := by
  rw [getLastView, h.lastView, Option.map_some, key2View_view2Key]

/-- Under the invariant the saved round state reads back, with the fields
outside the message sets as they are in memory. -/
theorem getRoundStateFor_of_saved {d : RsSaveDecorator} (h : Saved c d) :
    ∃ rs, getRoundStateFor c d.db d.rs.view = .ok rs ∧ rs.fields = d.rs.fields := by
  obtain ⟨rs₀, hrs₀, hf₀⟩ := h.roundState
  rcases h.rcvd d.rs.view with hnone | ⟨r, hr⟩
  · exact ⟨_, getRoundStateFor_of_lookup_none hrs₀ hnone, hf₀⟩
  · exact ⟨_, getRoundStateFor_of_lookup_some hrs₀ hr, hf₀⟩

/-- **Restoring after a full save.** Once a mutation that saves the whole
round state has run, a restart finds the in-memory view as the last view,
and reads back the round state with every field outside the message sets as
it is in memory. -/
theorem restore_after_full_save {d d' : RsSaveDecorator} (hd : RcvdSaved c d.db)
    {ms₁ ms₂ : List Mutation} {m : Mutation} (hm : m.savesRcvd = false)
    (hrun : d.mutateAll c e (ms₁ ++ m :: ms₂) = .ok d') (hv : d'.rs.view.IsUint64) :
    getLastView d'.db = some d'.rs.view ∧
      ∃ rs, getRoundStateFor c d'.db d'.rs.view = .ok rs ∧ rs.fields = d'.rs.fields := by
  -- split the run at the full save
  obtain ⟨d₁, h₁, hrest⟩ := RsSaveDecorator.mutateAll_append_ok c e hrun
  rw [RsSaveDecorator.mutateAll] at hrest
  split at hrest
  · cases hrest
  · rename_i d₂ hm₂
    have hsaved : Saved c d₂ :=
      mutate_saved_of_savesRcvd_false c e (mutateAll_rcvdSaved c e hd h₁) hm hm₂
    have hsaved' : Saved c d' := mutateAll_saved c e hsaved hrest
    refine ⟨?_, getRoundStateFor_of_saved hsaved'⟩
    rw [getLastView_of_saved hsaved', View.toUint64_of_isUint64 hv]

/-! ### Key shapes -/

theorem wellKeyed_empty : WellKeyed ∅ := fun _ hk => absurd hk List.not_mem_nil

theorem wellKeyed_insert {db : Db} (h : WellKeyed db) {k : List UInt8}
    (hk : k = lastViewKey ∨ k = dbVersionKey ∨ ∃ w : View, k = view2Key w ∨ k = rcvdView2Key w)
    (val : List UInt8) : WellKeyed (db.insert k val) := by
  intro k' hk'
  rw [← AList.mem_keys, AList.mem_insert] at hk'
  rcases hk' with rfl | hk'
  · exact hk
  · exact h k' (AList.mem_keys.mp hk')

theorem wellKeyed_save {db : Db} (h : WellKeyed db) (m : Mutation) (rs : RoundState) :
    WellKeyed (RsSaveDecorator.save c db m rs) := by
  unfold RsSaveDecorator.save
  split
  · exact wellKeyed_insert h (.inr (.inr ⟨rs.view, .inr rfl⟩)) _
  · exact wellKeyed_insert (wellKeyed_insert h (.inl rfl) _) (.inr (.inr ⟨rs.view, .inl rfl⟩)) _

/-- **Run.** Every run keeps the key shapes `deleteEntriesOlderThan` relies
on. -/
theorem mutateAll_wellKeyed {d d' : RsSaveDecorator} {ms : List Mutation} (h : WellKeyed d.db)
    (hms : d.mutateAll c e ms = .ok d') : WellKeyed d'.db := by
  induction ms generalizing d with
  | nil => cases hms; exact h
  | cons m ms ih =>
    rw [RsSaveDecorator.mutateAll] at hms
    split at hms
    · cases hms
    · rename_i d₁ hm
      obtain ⟨-, hdb⟩ := RsSaveDecorator.mutate_ok c e hm
      exact ih (hdb ▸ wellKeyed_save h m d₁.rs) hms

end Runs

/-! ## A replaced PREPARE -/

/-- Validators 1 and 2. -/
def pairSet : ValidatorSet := ⟨[⟨1, 11⟩, ⟨2, 22⟩], 0⟩

/-- The decorator over an empty database at round 0 of sequence 1. -/
def freshDecorator : RsSaveDecorator := ⟨∅, RoundState.new ⟨1, 0⟩ pairSet ⟨1, 11⟩ 0⟩

/-- Validator 1's PREPARE for proposal 7 of view (1, 1). -/
def firstPrepare : Vote := ⟨.prepare, 1, 1, ⟨⟨1, 1⟩, 7⟩, 0, 0⟩

/-- Validator 1's PREPARE for proposal 8 of the same view. -/
def secondPrepare : Vote := ⟨.prepare, 1, 1, ⟨⟨1, 1⟩, 8⟩, 0, 0⟩

/-- Round 1 starts, validator 1's first PREPARE arrives, the proposal is
preprepared (a full save), and the second PREPARE replaces the first. -/
def replacingRun : List Mutation :=
  [.startNewRound 1 pairSet ⟨2, 22⟩, .addPrepare firstPrepare,
    .transitionToPrepreparedV2 ⟨⟨1, 1⟩, ⟨1, 8⟩, ⟨[]⟩⟩, .addPrepare secondPrepare]

section Restart

variable {c : Codecs} {e : Hash}

/-- Every key reads back as a view of `uint64` words. -/
theorem key2View_isUint64 (key : List UInt8) : (key2View key).IsUint64 := by
  have hlt : ∀ bytes : List UInt8, ofBytes (bytes.take 8) < 2 ^ 64 := fun bytes =>
    calc ofBytes (bytes.take 8) < 256 ^ (bytes.take 8).length := ofBytes_lt _
      _ ≤ 256 ^ 8 := Nat.pow_le_pow_right (by norm_num) (List.length_take_le _ _)
      _ = 2 ^ 64 := by norm_num
  exact ⟨hlt _, hlt _⟩

theorem getLastView_isUint64 {db : Db} {v : View} (h : getLastView db = some v) : v.IsUint64 := by
  obtain ⟨key, -, rfl⟩ := Option.map_eq_some_iff.mp h
  exact key2View_isUint64 key

theorem getOldestValidView_isUint64 (db : Db) (sequencesToSave : Nat) :
    (getOldestValidView db sequencesToSave).IsUint64 := by
  unfold getOldestValidView
  cases h : getLastView db with
  | none => exact ⟨by norm_num, by norm_num⟩
  | some v => exact ⟨lt_of_le_of_lt (Nat.sub_le _ _) (getLastView_isUint64 h).1, by norm_num⟩

/-- The oldest view to keep is at most the last view. -/
theorem getOldestValidView_le {db : Db} {v : View} (h : getLastView db = some v)
    (sequencesToSave : Nat) : getOldestValidView db sequencesToSave ≤ v := by
  rw [getOldestValidView, h, View.le_iff]
  dsimp only
  omega

/-- The entries of a view at or above `w` are not below it. -/
theorem not_isEntryBelow_of_le {v w : View} (hv : v.IsUint64) (hwv : w ≤ v) {k : List UInt8}
    (hk : k = view2Key v ∨ k = rcvdView2Key v) : ¬ IsEntryBelow w k := by
  rintro ⟨u, hu, huw, hku⟩
  have huv : u = v := by
    rcases hk with rfl | rfl <;> rcases hku with h | h
    · exact ((prefixView2Key_inj rsKey hv hu).mp h).symm
    · exact absurd h.symm (rcvdView2Key_ne_view2Key u v)
    · exact absurd h (rcvdView2Key_ne_view2Key v u)
    · exact ((prefixView2Key_inj rcvdKey hv hu).mp h).symm
  subst huv
  exact absurd huw (not_lt.mpr hwv)

theorem not_isEntryBelow_lastViewKey (w : View) : ¬ IsEntryBelow w lastViewKey := by
  rintro ⟨u, -, -, h | h⟩
  · exact lastViewKey_ne_view2Key u h
  · exact lastViewKey_ne_rcvdView2Key u h

/-- Garbage collection keeps every entry not below the oldest view to keep. -/
theorem lookup_garbageCollectEntries_of_not_below {db : Db} (hdb : WellKeyed db) (n : Nat)
    {k : List UInt8} (hk : ¬ IsEntryBelow (getOldestValidView db n) k) :
    (garbageCollectEntries db n).lookup k = db.lookup k := by
  rw [garbageCollectEntries, lookup_deleteEntriesOlderThan hdb (getOldestValidView_isUint64 db n),
    if_neg hk]

theorem getLastView_garbageCollectEntries {db : Db} (hdb : WellKeyed db) (n : Nat) :
    getLastView (garbageCollectEntries db n) = getLastView db := by
  rw [getLastView, getLastView,
    lookup_garbageCollectEntries_of_not_below hdb n (not_isEntryBelow_lastViewKey _)]

/-- `GetRoundStateFor` reads only the view's two entries. -/
theorem getRoundStateFor_congr {db db' : Db} {v : View}
    (hrs : db'.lookup (view2Key v) = db.lookup (view2Key v))
    (hrcvd : db'.lookup (rcvdView2Key v) = db.lookup (rcvdView2Key v)) :
    getRoundStateFor c db' v = getRoundStateFor c db v := by
  rw [getRoundStateFor, getRoundStateFor, hrs, hrcvd]

/-- **Garbage collection keeps what a restart reads.** After any run of
decorated mutations from a database with only the round-state database's
keys, collecting the entries of the views below the oldest one to keep leaves
the round state a restart takes up as it was. -/
theorem createRoundState_garbageCollectEntries {d d' : RsSaveDecorator} (hd : WellKeyed d.db)
    {ms : List Mutation} (hrun : d.mutateAll c e ms = .ok d') (sequencesToSave headNumber : Nat)
    (valSet : ValidatorSet) (proposer : Validator) :
    (createRoundState c e (garbageCollectEntries d'.db sequencesToSave) headNumber valSet
        proposer).map RsSaveDecorator.rs =
      (createRoundState c e d'.db headNumber valSet proposer).map RsSaveDecorator.rs := by
  have hdb : WellKeyed d'.db := mutateAll_wellKeyed e hd hrun
  unfold createRoundState
  rw [getLastView_garbageCollectEntries hdb]
  cases hlast : getLastView d'.db with
  | none => rfl
  | some v =>
    -- the last view's entries are not below the oldest view to keep
    have hv := getLastView_isUint64 hlast
    have hle := getOldestValidView_le hlast sequencesToSave
    dsimp only
    rw [getRoundStateFor_congr
      (lookup_garbageCollectEntries_of_not_below hdb _ (not_isEntryBelow_of_le hv hle (.inl rfl)))
      (lookup_garbageCollectEntries_of_not_below hdb _ (not_isEntryBelow_of_le hv hle (.inr rfl)))]
    split_ifs
    · rfl
    · cases getRoundStateFor c d'.db v <;> rfl

/-- **A restart after a full save.** Once a mutation that saves the whole
round state has run, a core that restarts on a head below the in-memory
sequence takes up a round state with every field outside the message sets as
it is in memory. On a later head it starts `newRoundState` at round 0 of the
block after the head. Either way it keeps the database. -/
theorem createRoundState_after_full_save {d d' : RsSaveDecorator} (hd : RcvdSaved c d.db)
    {ms₁ ms₂ : List Mutation} {m : Mutation} (hm : m.savesRcvd = false)
    (hrun : d.mutateAll c e (ms₁ ++ m :: ms₂) = .ok d') (hv : d'.rs.view.IsUint64)
    (headNumber : Nat) (valSet : ValidatorSet) (proposer : Validator) :
    ∃ d'', createRoundState c e d'.db headNumber valSet proposer = .ok d'' ∧ d''.db = d'.db ∧
      if headNumber < d'.rs.sequence then d''.rs.fields = d'.rs.fields
      else d''.rs = RoundState.new ⟨headNumber + 1, 0⟩ valSet proposer e := by
  obtain ⟨hlast, rs, hrs, hfields⟩ := restore_after_full_save e hd hm hrun hv
  have hseq : d'.rs.view.sequence = d'.rs.sequence := rfl
  unfold createRoundState
  rw [hlast]
  dsimp only
  by_cases hhead : headNumber < d'.rs.sequence
  · -- the stored view is the in-memory one, which the head has not passed
    rw [if_neg (by omega), hrs]
    exact ⟨⟨d'.db, rs⟩, rfl, rfl, by rw [if_pos hhead]; exact hfields⟩
  · rw [if_pos (by omega)]
    exact ⟨_, rfl, rfl, by rw [if_neg hhead]⟩

end Restart

/-! ### Concrete codecs

The theorems above hold for any codecs. The examples below take the codecs of
`Encodable` instances. -/

deriving instance Encodable for View, State, Proposal, Subject, MsgCode, Vote, PreparedCertificateV2,
  PreparedCertificate, RoundChangeRequest, RoundChangeV2, RoundChangeCertificateV2, PreprepareV2,
  Validator, ValidatorSet, RoundStateRLP, RcvdRLP

/-- A message set is encoded as its validator set and its entries. -/
instance {α : Type} [Encodable α] : Encodable (MessageSet α) :=
  Encodable.ofLeftInjection (fun ms => (ms.valSet, ms.messages.entries))
    (fun p => if h : (p.2.keys).Nodup then some ⟨p.1, ⟨p.2, h⟩⟩ else none)
    (fun ms => dif_pos ms.messages.nodupKeys)

/-- The codecs of the `Encodable` instances. -/
def encodableCodecs : Codecs where
  roundState := .ofEncodable RoundStateRLP
  rcvd := .ofEncodable RcvdRLP
  validatorSet := .ofEncodable ValidatorSet
  validator := .ofEncodable Validator
  messageSet := .ofEncodable (MessageSet Vote)
  preprepare := .ofEncodable PreprepareV2
  request := .ofEncodable Proposal
  preprepare_ne_emptyList := Codec.ofEncodable_encode_ne (by decide)
  request_ne_emptyList := Codec.ofEncodable_encode_ne (by decide)

theorem createRoundState_after_full_save_replacingRun :
    RcvdSaved encodableCodecs freshDecorator.db ∧
      (Mutation.transitionToPrepreparedV2 ⟨⟨1, 1⟩, ⟨1, 8⟩, ⟨[]⟩⟩).savesRcvd = false ∧
      ∃ d', freshDecorator.mutateAll encodableCodecs 0 replacingRun = .ok d' ∧ d'.rs.view.IsUint64 ∧
        ∃ d'', createRoundState encodableCodecs 0 d'.db 0 pairSet ⟨1, 11⟩ = .ok d'' ∧
          d''.db = d'.db ∧
          if 0 < d'.rs.sequence then d''.rs.fields = d'.rs.fields
          else d''.rs = RoundState.new ⟨0 + 1, 0⟩ pairSet ⟨1, 11⟩ 0 := by
  refine ⟨rcvdSaved_empty _, rfl, _, rfl, by decide, ?_⟩
  exact @createRoundState_after_full_save encodableCodecs 0 freshDecorator _ (rcvdSaved_empty _)
    [.startNewRound 1 pairSet ⟨2, 22⟩, .addPrepare firstPrepare] [.addPrepare secondPrepare]
    (.transitionToPrepreparedV2 ⟨⟨1, 1⟩, ⟨1, 8⟩, ⟨[]⟩⟩) rfl rfl (by decide) 0 pairSet ⟨1, 11⟩

/-- The run of `replacingRun`, then the next sequence. -/
def nextSequenceRun : List Mutation :=
  replacingRun ++ [.startNewSequence 2 pairSet ⟨1, 11⟩ (.empty pairSet)]

theorem createRoundState_garbageCollectEntries_nextSequenceRun :
    WellKeyed freshDecorator.db ∧
      ∃ d', freshDecorator.mutateAll encodableCodecs 0 nextSequenceRun = .ok d' ∧
        (d'.db.lookup (view2Key ⟨1, 1⟩)).isSome = true ∧
        (garbageCollectEntries d'.db 0).lookup (view2Key ⟨1, 1⟩) = none ∧
        (createRoundState encodableCodecs 0 (garbageCollectEntries d'.db 0) 0 pairSet
            ⟨1, 11⟩).map RsSaveDecorator.rs =
          (createRoundState encodableCodecs 0 d'.db 0 pairSet ⟨1, 11⟩).map RsSaveDecorator.rs := by
  refine ⟨wellKeyed_empty, _, rfl, by decide, by decide, ?_⟩
  exact @createRoundState_garbageCollectEntries encodableCodecs 0 freshDecorator _ wellKeyed_empty
    nextSequenceRun rfl 0 0 pairSet ⟨1, 11⟩

end CeloBlockchain.Ibft

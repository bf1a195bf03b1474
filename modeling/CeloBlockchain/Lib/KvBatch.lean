import Mathlib.Data.List.AList

/-!
# Write batches on a key-value store

A store is an `AList`. A batch is a list of puts and deletes that a write
applies in order, as LevelDB does with a `Batch`. What a written batch
leaves at a key:

* a key no operation names keeps its value (`lookup_write_of_forall_ne`);
* only the operations on a key decide what it holds
  (`lookup_write_filter`), and after them what the store held there does not
  matter (`lookup_write_congr`);
* a value found after the write was put by the batch, or was there and left
  alone (`lookup_write_eq_some`).
-/

namespace KvBatch

variable {κ β : Type} [DecidableEq κ]

/-- A put or a delete. -/
inductive Op (κ β : Type)
  | put (k : κ) (v : β)
  | delete (k : κ)
  deriving DecidableEq, Repr

namespace Op

/-- The key an operation names. -/
def key : Op κ β → κ
  | put k _ => k
  | delete k => k

/-- An operation on a store. -/
def apply (m : AList fun _ : κ => β) : Op κ β → AList fun _ : κ => β
  | put k v => m.insert k v
  | delete k => m.erase k

@[simp] theorem apply_put (m : AList fun _ : κ => β) (k : κ) (v : β) :
    (put k v).apply m = m.insert k v := rfl

@[simp] theorem apply_delete (m : AList fun _ : κ => β) (k : κ) :
    (delete k : Op κ β).apply m = m.erase k := rfl

theorem lookup_apply_of_ne {op : Op κ β} {k : κ} (h : op.key ≠ k) (m : AList fun _ : κ => β) :
    (op.apply m).lookup k = m.lookup k := by
  cases op with
  | put k' v => exact AList.lookup_insert_ne (Ne.symm h)
  | delete k' => exact AList.lookup_erase_ne (Ne.symm h)

/-- After an operation on `k`, what is at `k` does not depend on the store. -/
theorem lookup_apply_of_eq {op : Op κ β} {k : κ} (h : op.key = k) (m m' : AList fun _ : κ => β) :
    (op.apply m).lookup k = (op.apply m').lookup k := by
  cases op with
  | put k' v =>
    obtain rfl : k' = k := h
    simp [apply]
  | delete k' =>
    obtain rfl : k' = k := h
    simp [apply]

end Op

/-- Writing a batch. -/
def write (m : AList fun _ : κ => β) (ops : List (Op κ β)) : AList fun _ : κ => β :=
  ops.foldl Op.apply m

@[simp] theorem write_nil (m : AList fun _ : κ => β) : write m [] = m := rfl

@[simp] theorem write_cons (m : AList fun _ : κ => β) (op : Op κ β) (ops : List (Op κ β)) :
    write m (op :: ops) = write (op.apply m) ops := rfl

theorem write_append (m : AList fun _ : κ => β) (ops₁ ops₂ : List (Op κ β)) :
    write m (ops₁ ++ ops₂) = write (write m ops₁) ops₂ :=
  List.foldl_append

/-- A key no operation names keeps its value. -/
theorem lookup_write_of_forall_ne {k : κ} :
    ∀ {ops : List (Op κ β)} (m : AList fun _ : κ => β), (∀ op ∈ ops, op.key ≠ k) →
      (write m ops).lookup k = m.lookup k := by
  intro ops
  induction ops with
  | nil => intro m _; rfl
  | cons op ops ih =>
    intro m h
    rw [write_cons, ih _ fun op' hop' => h op' (List.mem_cons_of_mem op hop'),
      Op.lookup_apply_of_ne (h op List.mem_cons_self)]

/-- What a batch leaves at `k` depends on the store only through its value at `k`. -/
theorem lookup_write_congr {k : κ} :
    ∀ {ops : List (Op κ β)} {m m' : AList fun _ : κ => β}, m.lookup k = m'.lookup k →
      (write m ops).lookup k = (write m' ops).lookup k := by
  intro ops
  induction ops with
  | nil => intro m m' h; exact h
  | cons op ops ih =>
    intro m m' h
    apply ih
    by_cases hk : op.key = k
    · exact Op.lookup_apply_of_eq hk m m'
    · rw [Op.lookup_apply_of_ne hk, Op.lookup_apply_of_ne hk, h]

/-- **Only the operations on a key decide what it holds.** -/
theorem lookup_write_filter (k : κ) :
    ∀ (ops : List (Op κ β)) (m : AList fun _ : κ => β),
      (write m ops).lookup k = (write m (ops.filter (·.key = k))).lookup k := by
  intro ops
  induction ops with
  | nil => intro m; rfl
  | cons op ops ih =>
    intro m
    by_cases hk : op.key = k
    · rw [List.filter_cons_of_pos (by simpa using hk), write_cons, write_cons, ih]
    · -- the operation on another key is invisible at `k`
      rw [List.filter_cons_of_neg (by simpa using hk), write_cons, ih]
      exact lookup_write_congr (Op.lookup_apply_of_ne hk m)

/-- A value found after a write was put by the batch, or was there already
with no operation on its key. -/
theorem lookup_write_eq_some {k : κ} {v : β} :
    ∀ {ops : List (Op κ β)} {m : AList fun _ : κ => β}, (write m ops).lookup k = some v →
      Op.put k v ∈ ops ∨ ((∀ op ∈ ops, op.key ≠ k) ∧ m.lookup k = some v) := by
  intro ops
  induction ops with
  | nil => intro m h; exact .inr ⟨fun _ hop => absurd hop List.not_mem_nil, h⟩
  | cons op ops ih =>
    intro m h
    rcases ih h with hput | ⟨hne, hm⟩
    · exact .inl (List.mem_cons_of_mem op hput)
    · by_cases hk : op.key = k
      · -- the last operation on `k` is this one, and it put `v`
        cases op with
        | put k' v' =>
          obtain rfl : k' = k := hk
          simp only [Op.apply, AList.lookup_insert, Option.some.injEq] at hm
          subst hm
          exact .inl List.mem_cons_self
        | delete k' =>
          obtain rfl : k' = k := hk
          simp [Op.apply] at hm
      · refine .inr ⟨fun op' hop' => ?_, by rwa [Op.lookup_apply_of_ne hk] at hm⟩
        rcases List.mem_cons.mp hop' with rfl | hop'
        · exact hk
        · exact hne op' hop'

/-! ## Batches made of one part per item -/

section Parts

variable {ι : Type} (key : ι → κ) (part : ι → List (Op κ β))

/-- **A batch of parts.** When each item's part names only the item's key,
what a key holds afterwards is decided by the parts of the items of that key. -/
theorem lookup_write_flatMap (hpart : ∀ i, ∀ op ∈ part i, op.key = key i) (items : List ι)
    (m : AList fun _ : κ => β) (k : κ) :
    (write m (items.flatMap part)).lookup k =
      (write m ((items.filter (key · = k)).flatMap part)).lookup k := by
  -- the operations on `k` are those of the parts of `k`'s items
  have hops : (items.flatMap part).filter (·.key = k) =
      ((items.filter (key · = k)).flatMap part).filter (·.key = k) := by
    induction items with
    | nil => rfl
    | cons i items ih =>
      by_cases hi : key i = k
      · rw [List.filter_cons_of_pos (by simpa using hi), List.flatMap_cons, List.flatMap_cons,
          List.filter_append, List.filter_append, ih]
      · have hnil : (part i).filter (·.key = k) = [] :=
          List.filter_eq_nil_iff.mpr fun op hop => by simp [hpart i op hop, hi]
        rw [List.filter_cons_of_neg (by simpa using hi), List.flatMap_cons, List.filter_append,
          hnil, List.nil_append, ih]
  rw [lookup_write_filter k (items.flatMap part), hops, ← lookup_write_filter]

/-- With distinct keys, at most one item has a given key. -/
theorem filter_key_eq_nil_or_singleton {items : List ι} (hnd : (items.map key).Nodup) (k : κ) :
    items.filter (key · = k) = [] ∨ ∃ i ∈ items, key i = k ∧ items.filter (key · = k) = [i] := by
  induction items with
  | nil => exact .inl rfl
  | cons j items ih =>
    rw [List.map_cons, List.nodup_cons] at hnd
    by_cases hj : key j = k
    · -- no later item has `k`, as the keys are distinct
      have hrest : items.filter (key · = k) = [] :=
        List.filter_eq_nil_iff.mpr fun i hi hik => hnd.1 <| List.mem_map.mpr
          ⟨i, hi, by simpa [hj] using hik⟩
      exact .inr ⟨j, List.mem_cons_self, hj, by simp [hj, hrest]⟩
    · rw [List.filter_cons_of_neg (by simpa using hj)]
      rcases ih hnd.2 with h | ⟨i, hi, hik, h⟩
      · exact .inl h
      · exact .inr ⟨i, List.mem_cons_of_mem j hi, hik, h⟩

/-- With distinct keys, an item is the only one of its key. -/
theorem filter_key_eq_singleton {items : List ι} (hnd : (items.map key).Nodup) {i : ι}
    (hi : i ∈ items) : items.filter (key · = key i) = [i] := by
  have hmem : i ∈ items.filter (key · = key i) := List.mem_filter.mpr ⟨hi, by simp⟩
  rcases filter_key_eq_nil_or_singleton key hnd (key i) with h | ⟨j, -, -, h⟩
  · rw [h] at hmem
    exact absurd hmem List.not_mem_nil
  · rw [h, List.mem_singleton] at hmem
    rw [h, hmem]

end Parts

end KvBatch

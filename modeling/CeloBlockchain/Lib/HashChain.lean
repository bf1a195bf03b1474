import Mathlib.Data.List.Basic
import Mathlib.Data.List.Induction

/-!
# Chains in a store of hash-linked blocks

A store maps hashes to blocks; a block knows its hash, its parent's hash and
its height.  Following parent hashes from a block `b` gives its ancestors
(`ancestors`).  A list of stored blocks from height `first`, each the parent
of the next (`IsChain`), is determined by its last block: it is the list of
that block's ancestors (`ancestors_eq_of_isChain`).  That is why a chain can
be checked by comparing one hash.

* `isChain_ancestors`: when every stored block above `first` has its parent
  stored one height lower (`Closed`), the ancestors of a stored block form a
  chain from `first`.
* `IsChain.of_append`, `IsChain.concat`: chains are closed under prefixes and
  under adding a stored child.
-/

namespace HashChain

/-- A store of blocks by hash. -/
structure Store (β κ : Type) where
  hash : β → κ
  parentHash : β → κ
  number : β → Nat
  get : κ → Option β
  /-- A block is stored under its own hash. -/
  get_hash : ∀ k b, get k = some b → hash b = k

namespace Store

variable {β κ : Type} (s : Store β κ)

/-- `b` is the block the store holds under its hash. -/
def Stored (b : β) : Prop := s.get (s.hash b) = some b

instance [DecidableEq β] (b : β) : Decidable (s.Stored b) :=
  inferInstanceAs (Decidable (s.get (s.hash b) = some b))

/-- Every stored block above height `first` has its parent stored, one
height lower. -/
def Closed (first : Nat) : Prop :=
  ∀ b, s.Stored b → first < s.number b →
    ∃ p, s.get (s.parentHash b) = some p ∧ s.number p + 1 = s.number b

/-- `b` after its `k` nearest ancestors, oldest first; shorter when a parent
is missing. -/
def ancestors (b : β) : Nat → List β
  | 0 => [b]
  | k + 1 =>
    match s.get (s.parentHash b) with
    | none => [b]
    | some p => ancestors p k ++ [b]

/-- Stored blocks at heights `first, first + 1, …`, each the parent of the
next. -/
structure IsChain (first : Nat) (l : List β) : Prop where
  number : ∀ j (hj : j < l.length), s.number l[j] = first + j
  stored : ∀ b ∈ l, s.Stored b
  linked : ∀ j (hj : j + 1 < l.length), s.parentHash l[j + 1] = s.hash l[j]

variable {s}

theorem stored_of_get {k : κ} {b : β} (h : s.get k = some b) : s.Stored b := by
  unfold Stored
  rw [s.get_hash k b h]
  exact h

/-- Two stored blocks with one hash are one block. -/
theorem eq_of_hash_eq {b b' : β} (hb : s.Stored b) (hb' : s.Stored b')
    (h : s.hash b = s.hash b') : b = b' := by
  unfold Stored at hb hb'
  rw [h, hb'] at hb
  exact (Option.some.inj hb).symm

@[simp] theorem ancestors_zero (b : β) : s.ancestors b 0 = [b] := rfl

theorem ancestors_succ {b p : β} (k : Nat) (hp : s.get (s.parentHash b) = some p) :
    s.ancestors b (k + 1) = s.ancestors p k ++ [b] := by
  rw [ancestors, hp]

theorem getLast?_ancestors (b : β) (k : Nat) : (s.ancestors b k).getLast? = some b := by
  cases k with
  | zero => rfl
  | succ k =>
    rw [ancestors]
    split <;> simp

theorem isChain_singleton {first : Nat} {b : β} (hn : s.number b = first) (hb : s.Stored b) :
    s.IsChain first [b] where
  number j hj := by
    have hj0 : j = 0 := by simp at hj; omega
    subst hj0
    simpa using hn
  stored b' hb' := by
    rw [List.mem_singleton] at hb'
    exact hb' ▸ hb
  linked j hj := by simp at hj

/-- A prefix of a chain is a chain. -/
theorem IsChain.of_append {first : Nat} {l m : List β} (h : s.IsChain first (l ++ m)) :
    s.IsChain first l where
  number j hj := by
    rw [← h.number j (by simp; omega), List.getElem_append_left hj]
  stored b hb := h.stored b (List.mem_append_left m hb)
  linked j hj := by
    have := h.linked j (by simp; omega)
    rwa [List.getElem_append_left hj, List.getElem_append_left (by omega)] at this

/-- The last block of a chain is a child of the one before it. -/
theorem IsChain.parentHash_last {first : Nat} {l : List β} {p b : β}
    (h : s.IsChain first (l ++ [p] ++ [b])) : s.parentHash b = s.hash p := by
  have := h.linked l.length (by simp)
  simpa using this

/-- A stored child of the last block extends a chain. -/
theorem IsChain.concat {first : Nat} {l : List β} {p b : β} (h : s.IsChain first (l ++ [p]))
    (hn : s.number b = first + l.length + 1) (hp : s.parentHash b = s.hash p)
    (hb : s.Stored b) : s.IsChain first (l ++ [p] ++ [b]) where
  number j hj := by
    simp only [List.length_append, List.length_singleton] at hj
    by_cases hjl : j < l.length + 1
    · rw [List.getElem_append_left (by simpa using hjl)]
      exact h.number j (by simpa using hjl)
    · have hj' : j = l.length + 1 := by omega
      subst hj'
      simpa [Nat.add_assoc] using hn
  stored b' hb' := by
    rcases List.mem_append.mp hb' with hb' | hb'
    · exact h.stored b' hb'
    · rw [List.mem_singleton] at hb'
      exact hb' ▸ hb
  linked j hj := by
    simp only [List.length_append, List.length_singleton] at hj
    by_cases hjl : j + 1 < l.length + 1
    · have hj₁ : j + 1 < (l ++ [p]).length := by simpa using hjl
      have hj₀ : j < (l ++ [p]).length := by omega
      have e₁ : (l ++ [p] ++ [b])[j + 1] = (l ++ [p])[j + 1] := List.getElem_append_left hj₁
      have e₀ : (l ++ [p] ++ [b])[j] = (l ++ [p])[j] := List.getElem_append_left hj₀
      rw [e₁, e₀]
      exact h.linked j (by simpa using hjl)
    · have hj' : j = l.length := by omega
      subst hj'
      simpa using hp

/-- **Existence.** In a closed store, a stored block at height `first + k`
and its `k` ancestors form a chain from `first`. -/
theorem isChain_ancestors {first : Nat} (hclosed : s.Closed first) :
    ∀ k (b : β), s.Stored b → s.number b = first + k →
      s.IsChain first (s.ancestors b k) ∧ (s.ancestors b k).length = k + 1 := by
  intro k
  induction k with
  | zero => exact fun b hb hn => ⟨isChain_singleton hn hb, rfl⟩
  | succ k ih =>
    intro b hb hn
    obtain ⟨p, hp, hpn⟩ := hclosed b hb (by omega)
    have hpHash : s.hash p = s.parentHash b := s.get_hash _ p hp
    obtain ⟨hchain, hlen⟩ := ih p (stored_of_get hp) (by omega)
    -- the ancestors of `p` end with `p`
    obtain ⟨l, hl⟩ : ∃ l, s.ancestors p k = l ++ [p] :=
      ⟨(s.ancestors p k).dropLast,
        (List.dropLast_append_getLast? p (getLast?_ancestors p k)).symm⟩
    rw [ancestors_succ k hp, hl]
    rw [hl] at hchain hlen
    simp only [List.length_append, List.length_singleton] at hlen ⊢
    exact ⟨hchain.concat (by omega) hpHash.symm hb, by omega⟩

/-- **Uniqueness.** A chain is the list of its last block's ancestors. -/
theorem ancestors_eq_of_isChain {first : Nat} :
    ∀ (l : List β) (b : β), s.IsChain first (l ++ [b]) → s.ancestors b l.length = l ++ [b] := by
  intro l
  induction l using List.reverseRecOn with
  | nil => intro b _; rfl
  | append_singleton l p ih =>
    intro b h
    -- the parent hash of `b` names `p`, the block before it
    have hp : s.get (s.parentHash b) = some p := by
      rw [h.parentHash_last]
      exact h.stored p (by simp)
    rw [List.length_append, List.length_singleton, ancestors_succ _ hp,
      ih p h.of_append]

end Store

end HashChain

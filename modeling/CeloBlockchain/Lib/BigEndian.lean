import Mathlib.Data.Nat.Digits.Lemmas

/-!
# Big-endian byte strings

A byte string read most significant byte first (`ofBytes`), and the minimal
such string of a number (`toBytes`, no leading zero byte, empty for zero).

* `ofBytes_toBytes`: the round trip.
* `ofBytes_lt`, `length_toBytes_le_iff`: `k` bytes hold exactly the numbers
  below `256 ^ k`.
* `ofBytes_replicate_append`: leading zero bytes change nothing.
* `toBytesFixed`, `ofBytes_toBytesFixed`: the `w` low bytes of a number, and
  the round trip modulo `256 ^ w`.
* `toBytesFixed_lt_iff`: fixed-width encodings compare bytewise
  (lexicographically) as the numbers they encode. With
  `append_lt_append_iff`, a key made of fixed-width fields sorts as the tuple
  of its fields.
-/

namespace BigEndian

/-- The number a big-endian byte string encodes. -/
def ofBytes (bytes : List UInt8) : Nat := bytes.foldl (fun acc b => acc * 256 + b.toNat) 0

/-- The minimal big-endian bytes of `n`. -/
def toBytes (n : Nat) : List UInt8 := ((Nat.digits 256 n).map Nat.toUInt8).reverse

theorem foldl_eq (acc : Nat) (bytes : List UInt8) :
    bytes.foldl (fun acc b => acc * 256 + b.toNat) acc = acc * 256 ^ bytes.length + ofBytes bytes := by
  induction bytes generalizing acc with
  | nil => simp [ofBytes]
  | cons b bytes ih =>
    have hcons : ofBytes (b :: bytes) = b.toNat * 256 ^ bytes.length + ofBytes bytes := by
      rw [ofBytes, List.foldl_cons, ih]
      ring
    rw [List.foldl_cons, ih, hcons, List.length_cons, Nat.pow_succ]
    ring

theorem toNat_toUInt8 {d : Nat} (hd : d < 256) : (Nat.toUInt8 d).toNat = d := by
  simp [Nat.toUInt8]
  omega

theorem ofBytes_append (l m : List UInt8) :
    ofBytes (l ++ m) = ofBytes l * 256 ^ m.length + ofBytes m := by
  rw [ofBytes, List.foldl_append, foldl_eq]
  rfl

theorem ofBytes_cons (b : UInt8) (bytes : List UInt8) :
    ofBytes (b :: bytes) = b.toNat * 256 ^ bytes.length + ofBytes bytes := by
  rw [← List.singleton_append, ofBytes_append]
  simp [ofBytes]

/-- `k` bytes encode a number below `256 ^ k`. -/
theorem ofBytes_lt (bytes : List UInt8) : ofBytes bytes < 256 ^ bytes.length := by
  induction bytes with
  | nil => simp [ofBytes]
  | cons b bytes ih =>
    rw [ofBytes_cons, List.length_cons, Nat.pow_succ]
    have hb : b.toNat ≤ 255 := by have := b.toNat_lt; omega
    calc b.toNat * 256 ^ bytes.length + ofBytes bytes
        < 255 * 256 ^ bytes.length + 256 ^ bytes.length :=
          Nat.add_lt_add_of_le_of_lt (Nat.mul_le_mul_right _ hb) ih
      _ = 256 ^ bytes.length * 256 := by ring

theorem ofBytes_replicate_zero (k : Nat) : ofBytes (List.replicate k 0) = 0 := by
  induction k with
  | zero => rfl
  | succ k ih => rw [List.replicate_succ, ofBytes_cons, ih]; simp

/-- Leading zero bytes change nothing. -/
theorem ofBytes_replicate_append (k : Nat) (bytes : List UInt8) :
    ofBytes (List.replicate k 0 ++ bytes) = ofBytes bytes := by
  rw [ofBytes_append, ofBytes_replicate_zero, Nat.zero_mul, Nat.zero_add]

theorem ofBytes_reverse_map (ds : List Nat) (hds : ∀ d ∈ ds, d < 256) :
    ofBytes (ds.map Nat.toUInt8).reverse = Nat.ofDigits 256 ds := by
  induction ds with
  | nil => rfl
  | cons d ds ih =>
    rw [List.map_cons, List.reverse_cons, ofBytes_append, ih (fun d' hd' => hds d' (by simp [hd'])),
      Nat.ofDigits_cons]
    simp [ofBytes, toNat_toUInt8 (hds d (by simp))]
    ring

/-- **Round trip.** The minimal bytes of `n` encode `n`. -/
theorem ofBytes_toBytes (n : Nat) : ofBytes (toBytes n) = n := by
  rw [toBytes, ofBytes_reverse_map _ (fun d hd => Nat.digits_lt_base (by norm_num) hd),
    Nat.ofDigits_digits]

/-- The minimal bytes of `n` fit in `k` bytes exactly when `n < 256 ^ k`. -/
theorem length_toBytes_le_iff (n k : Nat) : (toBytes n).length ≤ k ↔ n < 256 ^ k := by
  rw [toBytes, List.length_reverse, List.length_map]
  exact Nat.digits_length_le_iff (by norm_num) n

/-- The minimal bytes have no leading zero. -/
theorem head?_toBytes_ne_zero (n : Nat) : (toBytes n).head? ≠ some 0 := by
  rcases Nat.eq_zero_or_pos n with rfl | hn
  · simp [toBytes]
  · have hne : Nat.digits 256 n ≠ [] := Nat.digits_ne_nil_iff_ne_zero.mpr hn.ne'
    have hlast := Nat.getLast_digit_ne_zero 256 hn.ne'
    have hlt : (Nat.digits 256 n).getLast hne < 256 :=
      Nat.digits_lt_base (by norm_num) (List.getLast_mem hne)
    rw [toBytes, List.head?_reverse, List.getLast?_map, List.getLast?_eq_some_getLast hne]
    intro h
    have h0 := congrArg UInt8.toNat (Option.some_inj.mp h)
    rw [toNat_toUInt8 hlt] at h0
    exact hlast h0

theorem toBytes_ne_nil {n : Nat} (hn : 0 < n) : toBytes n ≠ [] := by
  simp [toBytes, Nat.digits_ne_nil_iff_ne_zero.mpr hn.ne']

/-! ## Fixed width -/

/-- The `w` low bytes of `n`, most significant first. -/
def toBytesFixed : Nat → Nat → List UInt8
  | 0, _ => []
  | w + 1, n => (n / 256 ^ w % 256).toUInt8 :: toBytesFixed w n

@[simp] theorem length_toBytesFixed (w n : Nat) : (toBytesFixed w n).length = w := by
  induction w with
  | zero => rfl
  | succ w ih => simp [toBytesFixed, ih]

/-- **Fixed-width round trip.** The bytes read back give `n` modulo
`256 ^ w`. -/
theorem ofBytes_toBytesFixed (w n : Nat) : ofBytes (toBytesFixed w n) = n % 256 ^ w := by
  induction w with
  | zero => simp [toBytesFixed, ofBytes, Nat.mod_one]
  | succ w ih =>
    rw [toBytesFixed, ofBytes_cons, length_toBytesFixed, ih, toNat_toUInt8 (Nat.mod_lt _ (by norm_num)),
      Nat.mod_pow_succ]
    ring

/-- Only the `w` low bytes are kept. -/
theorem toBytesFixed_mod (w n : Nat) : toBytesFixed w (n % 256 ^ w) = toBytesFixed w n := by
  induction w generalizing n with
  | zero => rfl
  | succ w ih =>
    have hdigit : n % 256 ^ (w + 1) / 256 ^ w % 256 = n / 256 ^ w % 256 := by
      rw [Nat.mod_pow_succ, Nat.add_mul_div_left _ _ (Nat.pow_pos (by norm_num)),
        Nat.div_eq_of_lt (Nat.mod_lt _ (Nat.pow_pos (by norm_num))), Nat.zero_add,
        Nat.mod_mod]
    have hlow : toBytesFixed w (n % 256 ^ (w + 1)) = toBytesFixed w n := by
      rw [← ih (n % 256 ^ (w + 1)), Nat.mod_mod_of_dvd _ (Nat.pow_dvd_pow 256 (Nat.le_succ w)), ih]
    rw [toBytesFixed, toBytesFixed, hdigit, hlow]

/-- Numbers below `256 ^ w` have distinct fixed-width encodings. -/
theorem toBytesFixed_inj (w : Nat) {m n : Nat} (hm : m < 256 ^ w) (hn : n < 256 ^ w) :
    toBytesFixed w m = toBytesFixed w n ↔ m = n := by
  constructor
  · intro h
    have := congrArg ofBytes h
    rwa [ofBytes_toBytesFixed, ofBytes_toBytesFixed, Nat.mod_eq_of_lt hm, Nat.mod_eq_of_lt hn] at this
  · rintro rfl
    rfl

/-- Comparing numbers by their quotient by `P`, then by their remainder. -/
theorem lt_iff_div_mod (P m n : Nat) :
    m < n ↔ m / P < n / P ∨ m / P = n / P ∧ m % P < n % P := by
  have hm := Nat.div_add_mod m P
  have hn := Nat.div_add_mod n P
  rcases Nat.lt_trichotomy (m / P) (n / P) with hq | hq | hq
  · exact ⟨fun _ => .inl hq, fun _ => Nat.lt_of_div_lt_div hq⟩
  · constructor
    · intro h
      refine .inr ⟨hq, ?_⟩
      rw [hq] at hm
      omega
    · rintro (h | ⟨-, h⟩)
      · omega
      · rw [hq] at hm
        omega
  · have hnm : n < m := Nat.lt_of_div_lt_div hq
    constructor
    · intro h
      omega
    · rintro (h | ⟨h, -⟩) <;> omega

/-- Fixed-width encodings compare bytewise as the numbers they encode. -/
theorem toBytesFixed_lt_iff (w : Nat) {m n : Nat} (hm : m < 256 ^ w) (hn : n < 256 ^ w) :
    toBytesFixed w m < toBytesFixed w n ↔ m < n := by
  induction w generalizing m n with
  | zero =>
    simp only [Nat.pow_zero, Nat.lt_one_iff] at hm hn
    subst hm hn
    simp [toBytesFixed]
  | succ w ih =>
    have hP : 0 < 256 ^ w := Nat.pow_pos (by norm_num)
    -- the leading byte is the quotient by `256 ^ w`, the rest the remainder
    have hqm : m / 256 ^ w < 256 := Nat.div_lt_of_lt_mul (by rw [← Nat.pow_succ]; exact hm)
    have hqn : n / 256 ^ w < 256 := Nat.div_lt_of_lt_mul (by rw [← Nat.pow_succ]; exact hn)
    have hrest := ih (Nat.mod_lt m hP) (Nat.mod_lt n hP)
    rw [toBytesFixed_mod, toBytesFixed_mod] at hrest
    rw [toBytesFixed, toBytesFixed, List.cons_lt_cons_iff, hrest, lt_iff_div_mod (256 ^ w) m n,
      Nat.mod_eq_of_lt hqm, Nat.mod_eq_of_lt hqn, UInt8.lt_iff_toNat_lt, toNat_toUInt8 hqm,
      toNat_toUInt8 hqn]
    constructor
    · rintro (h | ⟨h, h'⟩)
      · exact .inl h
      · refine .inr ⟨?_, h'⟩
        have := congrArg UInt8.toNat h
        rwa [toNat_toUInt8 hqm, toNat_toUInt8 hqn] at this
    · rintro (h | ⟨h, h'⟩)
      · exact .inl h
      · exact .inr ⟨by rw [h], h'⟩

/-- Two strings whose first parts have one length compare by the first
parts, then by the rest. -/
theorem append_lt_append_iff {α : Type} [LT α] {l₁ l₂ m₁ m₂ : List α}
    (h : l₁.length = l₂.length) :
    l₁ ++ m₁ < l₂ ++ m₂ ↔ l₁ < l₂ ∨ l₁ = l₂ ∧ m₁ < m₂ := by
  induction l₁ generalizing l₂ with
  | nil =>
    rw [List.length_nil, eq_comm, List.length_eq_zero_iff] at h
    subst h
    simp
  | cons a l₁ ih =>
    cases l₂ with
    | nil => simp at h
    | cons b l₂ =>
      rw [List.cons_append, List.cons_append, List.cons_lt_cons_iff, List.cons_lt_cons_iff,
        ih (by simpa using h), List.cons.injEq]
      constructor
      · rintro (hlt | ⟨rfl, hlt | ⟨rfl, hlt⟩⟩)
        · exact .inl (.inl hlt)
        · exact .inl (.inr ⟨rfl, hlt⟩)
        · exact .inr ⟨⟨rfl, rfl⟩, hlt⟩
      · rintro ((hlt | ⟨rfl, hlt⟩) | ⟨⟨rfl, rfl⟩, hlt⟩)
        · exact .inl hlt
        · exact .inr ⟨rfl, .inl hlt⟩
        · exact .inr ⟨rfl, .inr ⟨rfl, hlt⟩⟩

end BigEndian

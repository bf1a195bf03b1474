import CeloBlockchain.Lib.BigEndian

/-!
# Recursive length prefix

RLP writes a value that is a byte string or a list of values (`Item`).
`encode` follows `rlp.Encode`: a single byte below `0x80` is its own
encoding; any other string, and every list, has a header with its payload
size (`head`), one byte below 56 bytes and otherwise the size's big-endian
bytes after a byte that counts them.  `readItem` follows `rlp.Stream`: it
rejects a size that runs past its input and every non-canonical header
(`ErrCanonSize`): a long form for a short size, a size with a leading zero
byte, a one-byte string in long form.  `decode` is `DecodeBytes` on items:
exactly one item, nothing after it.  Errors are not told apart: a failure is
`none`.

* `readItem_encode`, `decode_encode`: the round trip, for encodings shorter
  than `2 ^ 64` bytes (Go's sizes are `uint64`).
* The depth budget of `readItem` is never what makes `decode` fail: each
  level of nesting takes a header byte, and `decode` gives one per byte of
  input (`readItem_encode` asks only for the encoding's length).

Go's typed decoders read values out of items: integers as minimal
big-endian strings (`decodeUint`, `decodeBigInt`), fixed-size byte arrays
(`decodeByteArray`), byte slices and slices of values.  A struct is the list
of its fields, which its decoder matches exactly.  Each has its round trip.
-/

namespace Rlp

/-- An RLP value. -/
inductive Item
  | str (bytes : List UInt8)
  | list (items : List Item)
deriving Repr

/-! ## Encoding -/

/-- `puthead`: the header of a payload of `size` bytes. -/
def head (smalltag largetag size : Nat) : List UInt8 :=
  if size < 56 then [(smalltag + size).toUInt8]
  else (largetag + (BigEndian.toBytes size).length).toUInt8 :: BigEndian.toBytes size

/-- `encodeString`: a single byte below `0x80` needs no header. -/
def encodeString (bs : List UInt8) : List UInt8 :=
  match bs with
  | [b] => if b < 0x80 then [b] else head 0x80 0xB7 1 ++ [b]
  | _ => head 0x80 0xB7 bs.length ++ bs

mutual

/-- `rlp.EncodeToBytes` of an item. -/
def encode : Item → List UInt8
  | .str bs => encodeString bs
  | .list xs => head 0xC0 0xF7 (encodeList xs).length ++ encodeList xs

/-- A list's payload: its items' encodings one after another. -/
def encodeList : List Item → List UInt8
  | [] => []
  | x :: xs => encode x ++ encodeList xs

end

/-! ## Decoding -/

/-- What `readKind` finds at a header. -/
inductive Kind
  | byte (b : UInt8)
  | string
  | list
deriving DecidableEq, Repr

/-- `readUint` of the `n` size bytes of a long header.  From two bytes on a
leading zero is non-canonical; a one-byte zero fails the caller's test. -/
def readUint (n : Nat) (bs : List UInt8) : Option (Nat × List UInt8) :=
  if bs.length < n then none
  else if 2 ≤ n ∧ bs.head? = some 0 then none
  else some (BigEndian.ofBytes (bs.take n), bs.drop n)

/-- The size of a long header, which must not fit the short form. -/
def readLongSize (n : Nat) (bs : List UInt8) : Option (Nat × List UInt8) :=
  match readUint n bs with
  | some (size, rest) => if size < 56 then none else some (size, rest)
  | none => none

/-- `readKind`: the kind and payload size at the front of the input, and the
input after the header. -/
def readKind : List UInt8 → Option (Kind × Nat × List UInt8)
  | [] => none
  | b :: rest =>
    if b < 0x80 then some (.byte b, 0, rest)
    else if b < 0xB8 then some (.string, b.toNat - 0x80, rest)
    else if b < 0xC0 then (readLongSize (b.toNat - 0xB7) rest).map fun r => (.string, r)
    else if b < 0xF8 then some (.list, b.toNat - 0xC0, rest)
    else (readLongSize (b.toNat - 0xF7) rest).map fun r => (.list, r)

/-- The loop of `decodeListSlice` over a list's payload: items until the
payload ends.  Each takes a byte at least, so the payload's size bounds the
loop. -/
def readItems (read : List UInt8 → Option (Item × List UInt8)) :
    Nat → List UInt8 → Option (List Item)
  | _, [] => some []
  | 0, _ :: _ => none
  | n + 1, b :: bs =>
    match read (b :: bs) with
    | some (x, rest) => (readItems read n rest).map (x :: ·)
    | none => none

/-- Reads one item from the front of the input; `depth` bounds its
nesting. -/
def readItem : Nat → List UInt8 → Option (Item × List UInt8)
  | 0, _ => none
  | depth + 1, bs =>
    match readKind bs with
    | none => none
    | some (kind, size, rest) =>
      if rest.length < size then none
      else
        match kind, rest.take size with
        | .byte b, _ => some (.str [b], rest)
        | .string, [b] => if b < 0x80 then none else some (.str [b], rest.drop size)
        | .string, s => some (.str s, rest.drop size)
        | .list, payload => (readItems (readItem depth) size payload).map fun xs => (.list xs, rest.drop size)

/-- `DecodeBytes` on items: one item, and no byte after it. -/
def decode (bs : List UInt8) : Option Item :=
  match readItem bs.length bs with
  | some (x, []) => some x
  | _ => none

/-! ## Reading back a header -/

theorem toNat_byte {n : Nat} (h : n < 256) : n.toUInt8.toNat = n := BigEndian.toNat_toUInt8 h

/-- `readKind` on the value of the header byte. -/
theorem readKind_cons (b : UInt8) (rest : List UInt8) : readKind (b :: rest) =
    if b.toNat < 0x80 then some (.byte b, 0, rest)
    else if b.toNat < 0xB8 then some (.string, b.toNat - 0x80, rest)
    else if b.toNat < 0xC0 then (readLongSize (b.toNat - 0xB7) rest).map fun r => (.string, r)
    else if b.toNat < 0xF8 then some (.list, b.toNat - 0xC0, rest)
    else (readLongSize (b.toNat - 0xF7) rest).map fun r => (.list, r) := by
  simp only [readKind, UInt8.lt_iff_toNat_lt, UInt8.reduceToNat]

/-- A long header's size reads back. -/
theorem readLongSize_toBytes {size : Nat} (h56 : 56 ≤ size) (rest : List UInt8) :
    readLongSize (BigEndian.toBytes size).length (BigEndian.toBytes size ++ rest) = some (size, rest) := by
  have hne := BigEndian.toBytes_ne_nil (n := size) (by omega)
  have hhead : (BigEndian.toBytes size ++ rest).head? ≠ some 0 := by
    rw [List.head?_append_of_ne_nil _ hne]
    exact BigEndian.head?_toBytes_ne_zero size
  unfold readLongSize readUint
  rw [if_neg (by simp), if_neg (fun h => hhead h.2), List.take_left, List.drop_left,
    BigEndian.ofBytes_toBytes]
  dsimp only
  rw [if_neg (by omega)]

/-- A long header counts one to eight size bytes, for sizes below
`2 ^ 64`. -/
theorem length_toBytes_bounds {size : Nat} (h56 : 56 ≤ size) (hs : size < 2 ^ 64) :
    1 ≤ (BigEndian.toBytes size).length ∧ (BigEndian.toBytes size).length ≤ 8 := by
  refine ⟨List.length_pos_of_ne_nil (BigEndian.toBytes_ne_nil (by omega)), ?_⟩
  exact (BigEndian.length_toBytes_le_iff size 8).mpr (by simpa using hs)

theorem readKind_head_string {size : Nat} (hs : size < 2 ^ 64) (rest : List UInt8) :
    readKind (head 0x80 0xB7 size ++ rest) = some (.string, size, rest) := by
  unfold head
  by_cases h56 : size < 56
  · rw [if_pos h56, List.singleton_append, readKind_cons, toNat_byte (by omega),
      if_neg (by omega), if_pos (by omega), Nat.add_sub_cancel_left]
  · obtain ⟨h1, h8⟩ := length_toBytes_bounds (by omega) hs
    rw [if_neg h56, List.cons_append, readKind_cons, toNat_byte (by omega),
      if_neg (by omega), if_neg (by omega), if_pos (by omega), Nat.add_sub_cancel_left,
      readLongSize_toBytes (by omega)]
    rfl

theorem readKind_head_list {size : Nat} (hs : size < 2 ^ 64) (rest : List UInt8) :
    readKind (head 0xC0 0xF7 size ++ rest) = some (.list, size, rest) := by
  unfold head
  by_cases h56 : size < 56
  · rw [if_pos h56, List.singleton_append, readKind_cons, toNat_byte (by omega),
      if_neg (by omega), if_neg (by omega), if_neg (by omega), if_pos (by omega), Nat.add_sub_cancel_left]
  · obtain ⟨h1, h8⟩ := length_toBytes_bounds (by omega) hs
    rw [if_neg h56, List.cons_append, readKind_cons, toNat_byte (by omega),
      if_neg (by omega), if_neg (by omega), if_neg (by omega), if_neg (by omega),
      Nat.add_sub_cancel_left, readLongSize_toBytes (by omega)]
    rfl

/-! ## The round trip -/

theorem length_head_pos (smalltag largetag size : Nat) : 0 < (head smalltag largetag size).length := by
  unfold head
  split_ifs <;> simp

theorem encode_ne_nil (x : Item) : encode x ≠ [] := by
  cases x with
  | str bs =>
    unfold encode encodeString
    split
    · split_ifs <;> simp
    · exact List.append_ne_nil_of_left_ne_nil (List.ne_nil_of_length_pos (length_head_pos _ _ _)) _
  | list xs =>
    rw [encode]
    exact List.append_ne_nil_of_left_ne_nil (List.ne_nil_of_length_pos (length_head_pos _ _ _)) _

theorem length_le_length_encodeList (xs : List Item) : xs.length ≤ (encodeList xs).length := by
  induction xs with
  | nil => simp [encodeList]
  | cons x xs ih =>
    have := List.length_pos_of_ne_nil (encode_ne_nil x)
    rw [encodeList, List.length_append, List.length_cons]
    omega

theorem length_encode_le_of_mem {x : Item} {xs : List Item} (h : x ∈ xs) :
    (encode x).length ≤ (encodeList xs).length := by
  induction xs with
  | nil => cases h
  | cons y ys ih =>
    rw [encodeList, List.length_append]
    rcases List.mem_cons.mp h with rfl | h
    · omega
    · have := ih h
      omega

theorem length_encodeList_lt (xs : List Item) :
    (encodeList xs).length < (encode (.list xs)).length := by
  have := length_head_pos 0xC0 0xF7 (encodeList xs).length
  rw [encode, List.length_append]
  omega

theorem length_encode_lt_of_mem {y : Item} {xs : List Item} (h : y ∈ xs) :
    (encode y).length < (encode (.list xs)).length :=
  lt_of_le_of_lt (length_encode_le_of_mem h) (length_encodeList_lt xs)

/-- The loop over a payload reads back the items it was written from, once
`read` reads back each of them. -/
theorem readItems_encodeList {read : List UInt8 → Option (Item × List UInt8)} :
    ∀ (xs : List Item), (∀ x ∈ xs, ∀ rest, read (encode x ++ rest) = some (x, rest)) →
      ∀ {n : Nat}, xs.length ≤ n → readItems read n (encodeList xs) = some xs
  | [], _, n, _ => by cases n <;> rfl
  | x :: xs, hread, n, hn => by
    obtain ⟨n, rfl⟩ : ∃ n', n = n' + 1 := ⟨n - 1, by simp at hn; omega⟩
    obtain ⟨b, bs, hb⟩ := List.exists_cons_of_ne_nil (List.append_ne_nil_of_left_ne_nil (encode_ne_nil x) (encodeList xs))
    have hx := hread x List.mem_cons_self (encodeList xs)
    have ih := readItems_encodeList xs (fun y hy => hread y (List.mem_cons_of_mem x hy))
      (n := n) (by simp at hn; omega)
    rw [encodeList, hb, readItems]
    rw [← hb, hx]
    dsimp only
    rw [ih]
    rfl

theorem encodeString_of_not_single {bs : List UInt8} (h : ∀ b, bs = [b] → ¬ b < 0x80) :
    encodeString bs = head 0x80 0xB7 bs.length ++ bs := by
  unfold encodeString
  split
  · rename_i b
    rw [if_neg (h b rfl)]
    rfl
  · rfl

theorem length_le_encodeString (bs : List UInt8) : bs.length ≤ (encodeString bs).length := by
  unfold encodeString
  split
  · split_ifs <;> simp
  · simp

theorem length_le_encode_str (bs : List UInt8) : bs.length ≤ (encode (.str bs)).length :=
  length_le_encodeString bs

/-- A string reads back, whatever its form. -/
theorem readItem_encodeString (depth : Nat) {bs : List UInt8} (hs : bs.length < 2 ^ 64)
    (rest : List UInt8) : readItem (depth + 1) (encodeString bs ++ rest) = some (.str bs, rest) := by
  by_cases hsingle : ∃ b, bs = [b] ∧ b < 0x80
  · -- a single byte below `0x80` is its own encoding
    obtain ⟨b, rfl, hb⟩ := hsingle
    have hb' : b.toNat < 0x80 := UInt8.lt_iff_toNat_lt.mp hb
    rw [encodeString, if_pos hb, List.singleton_append, readItem, readKind_cons, if_pos hb']
    rfl
  · have hsingle : ∀ b, bs = [b] → ¬ b < 0x80 := fun b hb hlt => hsingle ⟨b, hb, hlt⟩
    rw [encodeString_of_not_single hsingle, List.append_assoc, readItem, readKind_head_string hs]
    dsimp only
    rw [if_neg (by simp), List.take_left, List.drop_left]
    -- the one-byte form `0x81 b` is read back only for `b ≥ 0x80`
    rcases bs with _ | ⟨b, _ | ⟨b', bs⟩⟩
    · rfl
    · dsimp only
      rw [if_neg (hsingle b rfl)]
    · rfl

/-- **Round trip.**  An item whose encoding is shorter than `2 ^ 64` bytes,
read with a budget of its encoding's length, gives the item and the input
after it. -/
theorem readItem_encode : ∀ {depth : Nat} {x : Item}, (encode x).length ≤ depth →
    (encode x).length < 2 ^ 64 → ∀ rest, readItem depth (encode x ++ rest) = some (x, rest)
  | 0, x, hd, _, _ => absurd hd (by have := List.length_pos_of_ne_nil (encode_ne_nil x); omega)
  | depth + 1, .str bs, _, hs, rest => by
    have hlen : bs.length < 2 ^ 64 := by
      have := length_le_encodeString bs
      rw [encode] at hs
      omega
    exact readItem_encodeString depth hlen rest
  | depth + 1, .list xs, hd, hs, rest => by
    have hP := length_encodeList_lt xs
    have hread : ∀ x ∈ xs, ∀ r, readItem depth (encode x ++ r) = some (x, r) := fun x hx r =>
      readItem_encode (by have := length_encode_le_of_mem hx; omega)
        (by have := length_encode_le_of_mem hx; omega) r
    rw [encode, List.append_assoc, readItem, readKind_head_list (by omega)]
    dsimp only
    rw [if_neg (by simp), List.take_left, List.drop_left,
      readItems_encodeList xs hread (length_le_length_encodeList xs)]
    rfl

theorem decode_encode {x : Item} (hs : (encode x).length < 2 ^ 64) : decode (encode x) = some x := by
  have h := readItem_encode le_rfl hs []
  rw [List.append_nil] at h
  rw [decode, h]

example : decode [0xC2, 0x01, 0x80] = some (.list [.str [1], .str []]) := rfl

/-- A one-byte string in long form is not canonical. -/
example : decode [0x81, 0x01] = none := rfl

/-! ## Go values -/

/-- `encodeUint`, and `writeBigInt` for a non-negative `big.Int`: the
minimal big-endian bytes, zero as the empty string. -/
def encodeUint (n : Nat) : Item := .str (BigEndian.toBytes n)

/-- The integer of a string with no leading zero byte (`ErrCanonInt`). -/
def canonicalInt (bs : List UInt8) : Option Nat :=
  if bs.head? = some 0 then none else some (BigEndian.ofBytes bs)

/-- `decodeUint` into a `uint64`: at most eight bytes. -/
def decodeUint : Item → Option Nat
  | .str bs => if bs.length ≤ 8 then canonicalInt bs else none
  | .list _ => none

/-- `decodeBigInt`. -/
def decodeBigInt : Item → Option Nat
  | .str bs => canonicalInt bs
  | .list _ => none

/-- A byte array `[w]byte` holding a big-endian number, such as an address
or a hash. -/
def encodeByteArray (w n : Nat) : Item := .str (BigEndian.toBytesFixed w n)

/-- `decodeByteArray`: exactly `w` bytes. -/
def decodeByteArray (w : Nat) : Item → Option Nat
  | .str bs => if bs.length = w then some (BigEndian.ofBytes bs) else none
  | .list _ => none

/-- `decodeByteSlice`. -/
def decodeByteSlice : Item → Option (List UInt8)
  | .str bs => some bs
  | .list _ => none

/-- `decodeListSlice`, with the decoder of the elements. -/
def decodeListSlice {α : Type} (dec : Item → Option α) : Item → Option (List α)
  | .str _ => none
  | .list xs => xs.mapM dec

theorem canonicalInt_toBytes (n : Nat) : canonicalInt (BigEndian.toBytes n) = some n := by
  rw [canonicalInt, if_neg (BigEndian.head?_toBytes_ne_zero n), BigEndian.ofBytes_toBytes]

@[simp] theorem decodeUint_encodeUint {n : Nat} (h : n < 2 ^ 64) : decodeUint (encodeUint n) = some n := by
  have h8 : (BigEndian.toBytes n).length ≤ 8 := (BigEndian.length_toBytes_le_iff n 8).mpr (by simpa using h)
  rw [encodeUint, decodeUint, if_pos h8, canonicalInt_toBytes]

@[simp] theorem decodeBigInt_encodeUint (n : Nat) : decodeBigInt (encodeUint n) = some n :=
  canonicalInt_toBytes n

@[simp] theorem decodeByteArray_encodeByteArray {w n : Nat} (h : n < 256 ^ w) :
    decodeByteArray w (encodeByteArray w n) = some n := by
  rw [encodeByteArray, decodeByteArray, if_pos (BigEndian.length_toBytesFixed w n),
    BigEndian.ofBytes_toBytesFixed, Nat.mod_eq_of_lt h]

@[simp] theorem decodeByteSlice_str (bs : List UInt8) : decodeByteSlice (.str bs) = some bs := rfl

theorem decodeListSlice_map {α : Type} {enc : α → Item} {dec : Item → Option α} :
    ∀ {as : List α}, (∀ a ∈ as, dec (enc a) = some a) → decodeListSlice dec (.list (as.map enc)) = some as
  | [], _ => rfl
  | a :: as, h => by
    have ih : (as.map enc).mapM dec = some as :=
      decodeListSlice_map (fun a' ha' => h a' (List.mem_cons_of_mem a ha'))
    rw [decodeListSlice, List.map_cons, List.mapM_cons, h a List.mem_cons_self, ih]
    rfl

end Rlp

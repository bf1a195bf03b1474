import CeloBlockchain.Lib.BigEndian
import Mathlib.Data.Option.Basic
import Mathlib.Logic.Encodable.Basic

/-!
# Codecs with a sentinel for absent values

A codec serializes values to bytes and decodes what it serialized
(`Codec.decode_encode`). A nullable field is often written as a fixed
sentinel string when it is absent, and as the value's encoding otherwise.
It reads back exactly when no encoding equals the sentinel
(`decodeNullable_encodeNullable`).

Every encodable type has a codec (`Codec.ofEncodable`): a tag byte, then the
big-endian bytes of its code. No encoding of it is a sentinel that does not
start with the tag (`Codec.ofEncodable_encode_ne`).
-/

namespace Serialization

/-- A serialization and its decoder; decoding an encoding gives the value
back. -/
structure Codec (α : Type) where
  encode : α → List UInt8
  decode : List UInt8 → Option α
  decode_encode : ∀ a, decode (encode a) = some a

attribute [simp] Codec.decode_encode

variable {α : Type} (c : Codec α) (sentinel : List UInt8)

/-- An optional value: the sentinel when absent. -/
def encodeNullable : Option α → List UInt8
  | none => sentinel
  | some a => c.encode a

/-- Read an optional value: absent on the sentinel, decoded otherwise. -/
def decodeNullable (bytes : List UInt8) : Option (Option α) :=
  if bytes = sentinel then some none else (c.decode bytes).map some

/-- **Round trip.** An optional value reads back when no encoding is the
sentinel. -/
@[simp] theorem decodeNullable_encodeNullable (hne : ∀ a, c.encode a ≠ sentinel) (x : Option α) :
    decodeNullable c sentinel (encodeNullable c sentinel x) = some x := by
  cases x with
  | none => simp [encodeNullable, decodeNullable]
  | some a => simp [encodeNullable, decodeNullable, hne a]

/-! ## Codecs of encodable types -/

/-- Bytes are encodable as the numbers below 256. -/
instance encodableUInt8 : Encodable UInt8 :=
  Encodable.ofEquiv (Fin 256) ⟨UInt8.toFin, UInt8.ofFin, fun _ => rfl, fun _ => rfl⟩

/-- The codec of an encodable type: the tag byte `1`, then the big-endian
bytes of the value's code. -/
def Codec.ofEncodable (β : Type) [Encodable β] : Codec β where
  encode b := 1 :: BigEndian.toBytes (Encodable.encode b)
  decode
    | 1 :: bytes => Encodable.decode (BigEndian.ofBytes bytes)
    | _ => none
  decode_encode b := by simp [BigEndian.ofBytes_toBytes]

theorem Codec.ofEncodable_encode_ne {β : Type} [Encodable β] {sentinel : List UInt8}
    (hs : sentinel.head? ≠ some 1) (b : β) : (Codec.ofEncodable β).encode b ≠ sentinel := by
  intro h
  rw [← h] at hs
  exact hs rfl

end Serialization

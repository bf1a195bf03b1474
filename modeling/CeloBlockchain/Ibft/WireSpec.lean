import CeloBlockchain.Ibft.Wire

/-!
# Messages read back

What a receiver decodes of a message a sender built.  Each decoder reads
back the item of its type (`decodeSubject_subjectItem` and the others),
given readers for what it nests; a prepared certificate's votes are read by
`decodeMessage` one level down (`nestedDecoder`), whose bytes lie inside
those of the request and of the message that carry them
(`length_encode_lt_inner`).  So `DecodeMessage` reads back the inner
message (`decodeInner_toItem`), `Message.DecodeRLP` the whole message
(`decodeMessage_newMessage`), and `FromPayload` a message its sender signed,
whose signature then checks (`fromPayload_sign`).

The contents must be ones `rlp` writes back (`Inner.WellFormed`): addresses
and hashes fit their byte arrays, and a certificate holds PREPAREs and
COMMITs built by their constructors.  A payload is shorter than `2 ^ 64`
bytes, as every Go slice is.
-/

namespace CeloBlockchain.Ibft.Wire

open Rlp

/-! ## Contents that read back -/

/-- A PREPARE or COMMIT built by `NewPrepareMessage` or `NewCommitMessage`
from a subject whose digest fits a hash, signed in any way: what a prepared
certificate carries. -/
structure Message.IsVote (m : Message) : Prop where
  address_lt : m.address < 2 ^ 160
  built : (∃ s : Subject, s.digest < 2 ^ 256 ∧ m.code = msgPrepare ∧ m.msg = encode (subjectItem s)) ∨
    ∃ cs : CommittedSubject, cs.subject.digest < 2 ^ 256 ∧ m.code = msgCommit ∧ m.msg = encode cs.toItem

/-- A prepared certificate whose hash fits and whose messages are votes. -/
structure PreparedCertificateV2.WellFormed (pc : PreparedCertificateV2) : Prop where
  hash_lt : pc.proposalHash < 2 ^ 256
  votes : ∀ m ∈ pc.prepareOrCommitMessages, m.IsVote

structure RoundChangeRequest.WellFormed (r : RoundChangeRequest) : Prop where
  address_lt : r.address < 2 ^ 160
  certificate : r.preparedCertificateV2.WellFormed

/-- Contents that `rlp` writes and reads back. -/
def Inner.WellFormed : Inner → Prop
  | .preprepareV2 pp => ∀ r ∈ pp.roundChangeCertificateV2.requests, r.WellFormed
  | .prepare s => s.digest < 2 ^ 256
  | .commit cs => cs.subject.digest < 2 ^ 256
  | .roundChangeV2 rc => rc.request.WellFormed

/-! ## Items read back -/

section Items

variable {decodeMsg : Item → Option Message}

theorem decodeByteArray_address {a : Address} (h : a < 2 ^ 160) :
    decodeByteArray 20 (encodeByteArray 20 a) = some a :=
  decodeByteArray_encodeByteArray (lt_of_lt_of_eq h (by norm_num))

theorem decodeByteArray_hash {a : Hash} (h : a < 2 ^ 256) :
    decodeByteArray 32 (encodeByteArray 32 a) = some a :=
  decodeByteArray_encodeByteArray (lt_of_lt_of_eq h (by norm_num))

@[simp] theorem decodeView_viewItem (v : View) : decodeView (viewItem v) = some v := by
  simp [decodeView, viewItem]

theorem decodeSubject_subjectItem {s : Subject} (h : s.digest < 2 ^ 256) :
    decodeSubject (subjectItem s) = some s := by
  simp [decodeSubject, subjectItem, decodeByteArray_hash h]

theorem decodeCommittedSubject_toItem {cs : CommittedSubject} (h : cs.subject.digest < 2 ^ 256) :
    decodeCommittedSubject cs.toItem = some cs := by
  simp [decodeCommittedSubject, CommittedSubject.toItem, decodeSubject_subjectItem h]

theorem decodeMessageFields_toItem {m : Message} (hc : m.code < 2 ^ 64) (ha : m.address < 2 ^ 160) :
    decodeMessageFields m.toItem = some m := by
  simp [decodeMessageFields, Message.toItem, decodeUint_encodeUint hc, decodeByteArray_address ha]

theorem decodePreparedCertificateV2_toItem {pc : PreparedCertificateV2} (hh : pc.proposalHash < 2 ^ 256)
    (hm : ∀ m ∈ pc.prepareOrCommitMessages, decodeMsg m.toItem = some m) :
    decodePreparedCertificateV2 decodeMsg pc.toItem = some pc := by
  simp [decodePreparedCertificateV2, PreparedCertificateV2.toItem, decodeByteArray_hash hh,
    decodeListSlice_map hm]

theorem decodeRoundChangeRequest_toItem {r : RoundChangeRequest} (ha : r.address < 2 ^ 160)
    (hpc : decodePreparedCertificateV2 decodeMsg r.preparedCertificateV2.toItem = some r.preparedCertificateV2) :
    decodeRoundChangeRequest decodeMsg r.toItem = some r := by
  simp [decodeRoundChangeRequest, RoundChangeRequest.toItem, decodeByteArray_address ha, hpc]

theorem decodeRoundChangeV2_toItem (bc : BlockCodec) {rc : RoundChangeV2}
    (hr : decodeRoundChangeRequest decodeMsg rc.request.toItem = some rc.request) :
    decodeRoundChangeV2 bc decodeMsg (rc.toItem bc) = some rc := by
  simp [decodeRoundChangeV2, RoundChangeV2.toItem, hr, bc.ofItem_toItem]

theorem decodeRoundChangeCertificateV2_toItem {rcc : RoundChangeCertificateV2}
    (hr : ∀ r ∈ rcc.requests, decodeRoundChangeRequest decodeMsg r.toItem = some r) :
    decodeRoundChangeCertificateV2 decodeMsg rcc.toItem = some rcc := by
  simp [decodeRoundChangeCertificateV2, RoundChangeCertificateV2.toItem, decodeListSlice_map hr]

theorem decodePreprepareV2_toItem (bc : BlockCodec) {pp : PreprepareV2}
    (hrcc : decodeRoundChangeCertificateV2 decodeMsg pp.roundChangeCertificateV2.toItem =
      some pp.roundChangeCertificateV2) :
    decodePreprepareV2 bc decodeMsg (pp.toItem bc) = some pp := by
  simp [decodePreprepareV2, PreprepareV2.toItem, hrcc, bc.ofItem_toItem]

end Items

/-! ## Sizes of nested messages -/

theorem length_msg_lt (m : Message) : m.msg.length < (encode m.toItem).length :=
  lt_of_le_of_lt (length_le_encode_str m.msg) (length_encode_lt_of_mem (by simp))

theorem length_encode_lt_certificate {pc : PreparedCertificateV2} {m : Message}
    (h : m ∈ pc.prepareOrCommitMessages) : (encode m.toItem).length < (encode pc.toItem).length :=
  lt_trans (length_encode_lt_of_mem (List.mem_map_of_mem h))
    (length_encode_lt_of_mem (by simp))

theorem length_encode_certificate_lt (r : RoundChangeRequest) :
    (encode r.preparedCertificateV2.toItem).length < (encode r.toItem).length :=
  length_encode_lt_of_mem (by simp)

/-- The requests an inner message carries: those of a PREPREPARE's
round-change certificate, or the request of a ROUND CHANGE. -/
def Inner.requests : Inner → List RoundChangeRequest
  | .preprepareV2 pp => pp.roundChangeCertificateV2.requests
  | .roundChangeV2 rc => [rc.request]
  | _ => []

theorem length_encode_lt_inner (bc : BlockCodec) {inner : Inner} {r : RoundChangeRequest}
    (h : r ∈ inner.requests) : (encode r.toItem).length < (encode (inner.toItem bc)).length := by
  cases inner with
  | preprepareV2 pp =>
    rw [Inner.requests] at h
    have hrcc : (encode pp.roundChangeCertificateV2.toItem).length < (encode (pp.toItem bc)).length :=
      length_encode_lt_of_mem (by simp)
    refine lt_trans (lt_trans (length_encode_lt_of_mem (List.mem_map_of_mem h)) ?_) hrcc
    exact length_encode_lt_of_mem (by simp)
  | roundChangeV2 rc =>
    rw [Inner.requests, List.mem_singleton] at h
    subst h
    exact length_encode_lt_of_mem (by simp)
  | prepare => cases h
  | commit => cases h

/-! ## Messages read back -/

section Messages

variable (bc : BlockCodec)

/-- The reader of nested messages that `decodeMessage` hands down. -/
def nestedDecoder (depth : Nat) (y : Item) : Option Message :=
  (decodeMessage bc depth y).map Prod.fst

/-- One level of `decodeMessage`: the fields, then the inner message, whose
nested messages are read one level down. -/
theorem decodeMessage_succ (depth : Nat) (x : Item) :
    decodeMessage bc (depth + 1) x = (decodeMessageFields x).bind fun m =>
      if m.msg = [] ∧ m.signature = [] then some (m, none)
      else (decodeInner bc (nestedDecoder bc depth) m.code m.msg).bind fun inner => some (m, some inner) := by
  rw [decodeMessage]
  rfl

theorem msg_ne_nil_of_isVote {m : Message} (hm : m.IsVote) : m.msg ≠ [] := by
  rcases hm.built with ⟨s, -, -, hmsg⟩ | ⟨cs, -, -, hmsg⟩ <;> rw [hmsg] <;> exact encode_ne_nil _

/-- A vote reads back as itself, through any budget. -/
theorem decodeMessage_vote {m : Message} (hm : m.IsVote) (hlen : m.msg.length < 2 ^ 64) (depth : Nat) :
    nestedDecoder bc (depth + 1) m.toItem = some m := by
  have hfields : decodeMessageFields m.toItem = some m := by
    refine decodeMessageFields_toItem ?_ hm.address_lt
    rcases hm.built with ⟨s, -, hcode, -⟩ | ⟨cs, -, hcode, -⟩ <;> rw [hcode] <;> decide
  have hne : ¬ (m.msg = [] ∧ m.signature = []) := fun h => msg_ne_nil_of_isVote hm h.1
  rcases hm.built with ⟨s, hs, hcode, hmsg⟩ | ⟨cs, hcs, hcode, hmsg⟩
  · have hinner : decodeInner bc (nestedDecoder bc depth) m.code m.msg = some (.prepare s) := by
      rw [hmsg] at hlen
      simp [decodeInner, hcode, hmsg, msgPrepare, msgPreprepareV2, decode_encode hlen,
        decodeSubject_subjectItem hs]
    rw [nestedDecoder, decodeMessage_succ, hfields, Option.bind_some, if_neg hne, hinner]
    rfl
  · have hinner : decodeInner bc (nestedDecoder bc depth) m.code m.msg = some (.commit cs) := by
      rw [hmsg] at hlen
      simp [decodeInner, hcode, hmsg, msgCommit, msgPrepare, msgPreprepareV2, decode_encode hlen,
        decodeCommittedSubject_toItem hcs]
    rw [nestedDecoder, decodeMessage_succ, hfields, Option.bind_some, if_neg hne, hinner]
    rfl

theorem Inner.WellFormed.request {inner : Inner} (hwf : inner.WellFormed) {r : RoundChangeRequest}
    (hr : r ∈ inner.requests) : r.WellFormed := by
  cases inner with
  | preprepareV2 pp => exact hwf r hr
  | roundChangeV2 rc =>
    rw [Inner.requests, List.mem_singleton] at hr
    exact hr ▸ hwf
  | prepare => cases hr
  | commit => cases hr

/-- A request reads back, the votes of its certificate through the decoder
of the level below. -/
theorem decodeRoundChangeRequest_wellFormed {r : RoundChangeRequest} (hr : r.WellFormed)
    (hlen : (encode r.toItem).length < 2 ^ 64) (depth : Nat) :
    decodeRoundChangeRequest (nestedDecoder bc (depth + 1)) r.toItem = some r := by
  refine decodeRoundChangeRequest_toItem hr.address_lt
    (decodePreparedCertificateV2_toItem hr.certificate.hash_lt fun m hm => ?_)
  refine decodeMessage_vote bc (hr.certificate.votes m hm) ?_ depth
  -- the vote's bytes lie inside the request's
  have h1 := length_msg_lt m
  have h2 := length_encode_lt_certificate hm
  have h3 := length_encode_certificate_lt r
  omega

/-- `DecodeMessage` reads back the inner message it was built from. -/
theorem decodeInner_toItem {inner : Inner} (hwf : inner.WellFormed)
    (hlen : (encode (inner.toItem bc)).length < 2 ^ 64) (depth : Nat) :
    decodeInner bc (nestedDecoder bc (depth + 1)) inner.code (encode (inner.toItem bc)) = some inner := by
  have hreq : ∀ r ∈ inner.requests,
      decodeRoundChangeRequest (nestedDecoder bc (depth + 1)) r.toItem = some r := fun r hr =>
    decodeRoundChangeRequest_wellFormed bc (hwf.request hr) (lt_trans (length_encode_lt_inner bc hr) hlen) depth
  unfold decodeInner
  simp only [decode_encode hlen, Option.bind_some]
  cases inner with
  | preprepareV2 pp =>
    simp [Inner.code, Inner.toItem, msgPreprepareV2,
      decodePreprepareV2_toItem bc (decodeRoundChangeCertificateV2_toItem hreq)]
  | prepare s =>
    simp [Inner.code, Inner.toItem, msgPrepare, msgPreprepareV2,
      decodeSubject_subjectItem (show s.digest < 2 ^ 256 from hwf)]
  | commit cs =>
    simp [Inner.code, Inner.toItem, msgCommit, msgPrepare, msgPreprepareV2,
      decodeCommittedSubject_toItem (show cs.subject.digest < 2 ^ 256 from hwf)]
  | roundChangeV2 rc =>
    simp [Inner.code, Inner.toItem, msgRoundChangeV2, msgCommit, msgPrepare, msgPreprepareV2,
      decodeRoundChangeV2_toItem bc (hreq rc.request (by simp [Inner.requests]))]

theorem code_lt (inner : Inner) : inner.code < 2 ^ 64 := by
  cases inner <;> simp [Inner.code, msgPreprepareV2, msgPrepare, msgCommit, msgRoundChangeV2]

/-- A built message, with any signature, reads back with the inner message
it was built from. -/
theorem decodeMessage_newMessage {inner : Inner} {sender : Address} (sig : List UInt8)
    (hwf : inner.WellFormed) (hs : sender < 2 ^ 160) (hlen : (encode (inner.toItem bc)).length < 2 ^ 64)
    (depth : Nat) :
    decodeMessage bc (depth + 2) { newMessage bc inner sender with signature := sig }.toItem =
      some ({ newMessage bc inner sender with signature := sig }, some inner) := by
  have hfields := decodeMessageFields_toItem (m := { newMessage bc inner sender with signature := sig })
    (code_lt inner) hs
  have hne : ¬ ((encode (inner.toItem bc)) = [] ∧ sig = []) := fun h => encode_ne_nil _ h.1
  rw [decodeMessage_succ, hfields, Option.bind_some]
  dsimp only [newMessage]
  simp only [hne, ↓reduceIte]
  rw [decodeInner_toItem bc hwf hlen depth]
  rfl

end Messages

/-! ## Transport -/

theorem payloadNoSig_sign (m : Message) (signingFn : List UInt8 → List UInt8) :
    (m.sign signingFn).payloadNoSig = m.payloadNoSig := rfl

/-- A message a sender signed passes `CheckSignedBy` for the sender. -/
theorem checkSignedBy_sign (ss : SignatureScheme) (m : Message) (sender : Address) :
    checkSignedBy (m.sign (ss.sign sender)).payloadNoSig (m.sign (ss.sign sender)).signature sender
      ss.recover = true := by
  rw [checkSignedBy, payloadNoSig_sign]
  show (ss.recover m.payloadNoSig (ss.sign sender m.payloadNoSig) == some sender) = true
  rw [ss.recover_sign, beq_self_eq_true]

/-- `FromPayload` with a `validateFn`. -/
theorem fromPayload_some (bc : BlockCodec) (b : List UInt8) (validateFn : List UInt8 → List UInt8 → Option Address) :
    fromPayload bc b (some validateFn) = (decode b).bind fun x => (decodeMessage bc b.length x).bind fun r =>
      if checkSignedBy r.1.payloadNoSig r.1.signature r.1.address validateFn then some r else none := rfl

theorem two_le_length_payload (m : Message) : 2 ≤ m.payload.length := by
  have h1 := length_msg_lt m
  have h2 : 0 < m.msg.length + 1 := Nat.succ_pos _
  have h3 : (encode (.str m.msg)).length < m.payload.length := length_encode_lt_of_mem (by simp)
  have h4 := List.length_pos_of_ne_nil (encode_ne_nil (.str m.msg))
  omega

/-- **Transport.**  A message built by `newMessage` and signed by its
sender is decoded by `FromPayload` as itself with its inner message, and its
signature checks. -/
theorem fromPayload_sign (bc : BlockCodec) (ss : SignatureScheme) {inner : Inner} {sender : Address}
    (hwf : inner.WellFormed) (hs : sender < 2 ^ 160)
    (hlen : ((newMessage bc inner sender).sign (ss.sign sender)).payload.length < 2 ^ 64) :
    fromPayload bc ((newMessage bc inner sender).sign (ss.sign sender)).payload (some ss.recover) =
      some ((newMessage bc inner sender).sign (ss.sign sender), some inner) := by
  obtain ⟨depth, hdepth⟩ : ∃ depth, ((newMessage bc inner sender).sign (ss.sign sender)).payload.length =
      depth + 2 := ⟨_, (Nat.sub_add_cancel (two_le_length_payload _)).symm⟩
  have hinner : (encode (inner.toItem bc)).length < 2 ^ 64 :=
    lt_trans (length_msg_lt ((newMessage bc inner sender).sign (ss.sign sender))) hlen
  rw [fromPayload_some, Message.payload, decode_encode hlen, Option.bind_some, ← Message.payload, hdepth]
  rw [show (newMessage bc inner sender).sign (ss.sign sender) =
    { newMessage bc inner sender with signature := ss.sign sender (newMessage bc inner sender).payloadNoSig }
    from rfl, decodeMessage_newMessage bc _ hwf hs hinner depth, Option.bind_some]
  exact if_pos (checkSignedBy_sign ss (newMessage bc inner sender) sender)

theorem checkSignedBy_of_signed (ss : SignatureScheme) {data sig : List UInt8} {a : Address}
    (h : sig = ss.sign a data) : checkSignedBy data sig a ss.recover = true := by
  rw [checkSignedBy, h, ss.recover_sign, beq_self_eq_true]

/-- **Signed consensus messages survive transport.**  A PREPREPARE, PREPARE,
COMMIT or ROUND CHANGE built from contents `rlp` can write back and signed by
its sender is decoded by `FromPayload` as the very message sent, with the
inner message it was built from: so its code, bytes, address, signature and
`PayloadNoSig`, and every round-change request it carries, are those sent.
The receiver's `CheckSignedBy` then accepts each request and each vote of
their certificates that its sender signed. -/
theorem signed_messages_survive_transport (bc : BlockCodec) (ss : SignatureScheme) (inner : Inner)
    (sender : Address) (hwf : inner.WellFormed) (hs : sender < 2 ^ 160)
    (hlen : ((newMessage bc inner sender).sign (ss.sign sender)).payload.length < 2 ^ 64) :
    let m := (newMessage bc inner sender).sign (ss.sign sender)
    fromPayload bc m.payload (some ss.recover) = some (m, some inner) ∧
    (∀ r ∈ inner.requests, r.signature = ss.sign r.address r.payloadNoSig →
      checkSignedBy r.payloadNoSig r.signature r.address ss.recover = true) ∧
    (∀ r ∈ inner.requests, ∀ v ∈ r.preparedCertificateV2.prepareOrCommitMessages,
      v.signature = ss.sign v.address v.payloadNoSig →
      checkSignedBy v.payloadNoSig v.signature v.address ss.recover = true) :=
  ⟨fromPayload_sign bc ss hwf hs hlen, fun _ _ hr => checkSignedBy_of_signed ss hr,
    fun _ _ _ _ hv => checkSignedBy_of_signed ss hv⟩

/-- A block written as its number and hash. -/
def numberHashCodec : BlockCodec where
  toItem p := .list [encodeUint p.number, encodeUint p.hash]
  ofItem
    | .list [n, h] => do
      let n ← decodeBigInt n
      let h ← decodeBigInt h
      pure ⟨n, h⟩
    | _ => none
  ofItem_toItem p := by simp

/-- Signatures that name their signer. -/
def addressSignatures : SignatureScheme where
  sign a _ := BigEndian.toBytes a
  recover _ sig := some (BigEndian.ofBytes sig)
  recover_sign a _ := by simp [BigEndian.ofBytes_toBytes]

/-- A vote of validator `2` for block `7` in view `(1, 0)`. -/
def prepareOfTwo : Message :=
  (newPrepareMessage numberHashCodec ⟨⟨1, 0⟩, 7⟩ 2).sign (addressSignatures.sign 2)

/-- A round change of validator `1` for round `1`, carrying a certificate
of that vote. -/
def roundChangeOfOne : Inner :=
  .roundChangeV2 ⟨⟨1, ⟨1, 1⟩, ⟨7, [prepareOfTwo]⟩, []⟩, ⟨1, 7⟩⟩

theorem signed_messages_survive_transport_roundChange :
    roundChangeOfOne.WellFormed ∧ (1 : Address) < 2 ^ 160 ∧
    ((newMessage numberHashCodec roundChangeOfOne 1).sign (addressSignatures.sign 1)).payload.length < 2 ^ 64 ∧
    let m := (newMessage numberHashCodec roundChangeOfOne 1).sign (addressSignatures.sign 1)
    fromPayload numberHashCodec m.payload (some addressSignatures.recover) = some (m, some roundChangeOfOne) ∧
    (∀ r ∈ roundChangeOfOne.requests, r.signature = addressSignatures.sign r.address r.payloadNoSig →
      checkSignedBy r.payloadNoSig r.signature r.address addressSignatures.recover = true) ∧
    (∀ r ∈ roundChangeOfOne.requests, ∀ v ∈ r.preparedCertificateV2.prepareOrCommitMessages,
      v.signature = addressSignatures.sign v.address v.payloadNoSig →
      checkSignedBy v.payloadNoSig v.signature v.address addressSignatures.recover = true) := by
  have hwf : roundChangeOfOne.WellFormed := by
    refine ⟨by decide, by decide, fun m hm => ?_⟩
    rw [List.mem_singleton] at hm
    subst hm
    exact ⟨by decide, .inl ⟨⟨⟨1, 0⟩, 7⟩, by decide, rfl, rfl⟩⟩
  have hlen : ((newMessage numberHashCodec roundChangeOfOne 1).sign (addressSignatures.sign 1)).payload.length <
      2 ^ 64 := by
    decide +kernel
  exact ⟨hwf, by decide, hlen,
    signed_messages_survive_transport numberHashCodec addressSignatures roundChangeOfOne 1 hwf (by decide) hlen⟩

end CeloBlockchain.Ibft.Wire

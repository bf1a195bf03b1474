import CeloBlockchain.Ibft.Types
import CeloBlockchain.Lib.Rlp

/-!
# Consensus messages on the wire

`istanbul.Message` and what it carries, as `rlp` writes and reads them
(`consensus/istanbul/types.go`, `types_v2.go`).  A `Message` is the four
fields `rlp` serializes; its `Msg` holds the serialized inner message, and
`DecodeMessage` reads that by the code (`decodeInner`).  A prepared
certificate carries whole `Message`s, so a PREPREPARE or a ROUND CHANGE
holds messages that are decoded in turn (`decodeMessage`, whose budget
counts levels of nesting; `fromPayload` gives one per payload byte, more
than any message needs).

* `*types.Block` is written and read by a `BlockCodec`, which reads back
  what the core reads of the block (number and hash).
* A signature is made by `SignatureScheme.sign` with the sender's key, and
  `validateFn` is `recover`, which gives back the signer's address.
* Errors are not told apart: a failure is `none`.
* Views are `*big.Int` pairs; a nil view or a negative number, which `rlp`
  cannot write back, has no value in the model.
* The announce protocol's codes (`QueryEnodeMsg` and the others) carry no
  consensus message and are left out: `decodeInner` rejects them.
-/

namespace CeloBlockchain.Ibft.Wire

open Rlp

/-! ## Codes and values -/

def msgPrepare : Nat := 1
def msgCommit : Nat := 2
def msgRoundChangeV2 : Nat := 4
def msgPreprepareV2 : Nat := 5

/-- `istanbul.Message`: the fields `rlp` serializes. -/
structure Message where
  code : Nat
  msg : List UInt8
  address : Address
  signature : List UInt8
deriving DecidableEq, Repr

/-- `istanbul.CommittedSubject`. -/
structure CommittedSubject where
  subject : Subject
  committedSeal : List UInt8
  epochValidatorSetSeal : List UInt8
deriving DecidableEq, Repr

/-- `istanbul.PreparedCertificateV2`. -/
structure PreparedCertificateV2 where
  proposalHash : Hash
  prepareOrCommitMessages : List Message
deriving DecidableEq, Repr

/-- `istanbul.RoundChangeRequest`. -/
structure RoundChangeRequest where
  address : Address
  view : View
  preparedCertificateV2 : PreparedCertificateV2
  signature : List UInt8
deriving DecidableEq, Repr

/-- `istanbul.RoundChangeV2`. -/
structure RoundChangeV2 where
  request : RoundChangeRequest
  preparedProposal : Proposal
deriving DecidableEq, Repr

/-- `istanbul.RoundChangeCertificateV2`. -/
structure RoundChangeCertificateV2 where
  requests : List RoundChangeRequest
deriving DecidableEq, Repr

/-- `istanbul.PreprepareV2`. -/
structure PreprepareV2 where
  view : View
  proposal : Proposal
  roundChangeCertificateV2 : RoundChangeCertificateV2
deriving DecidableEq, Repr

/-- The inner message `DecodeMessage` sets, one per consensus code. -/
inductive Inner
  | preprepareV2 (pp : PreprepareV2)
  | prepare (subject : Subject)
  | commit (commit : CommittedSubject)
  | roundChangeV2 (rc : RoundChangeV2)
deriving DecidableEq, Repr

/-- `*types.Block` as `rlp` writes and reads it; a block read back has the
number and hash of the one written. -/
structure BlockCodec where
  toItem : Proposal → Item
  ofItem : Item → Option Proposal
  ofItem_toItem : ∀ p, ofItem (toItem p) = some p

/-- The validators' signatures: `recover` (the core's `validateFn`) gives the
address whose key signed the data. -/
structure SignatureScheme where
  sign : Address → List UInt8 → List UInt8
  recover : List UInt8 → List UInt8 → Option Address
  recover_sign : ∀ a data, recover data (sign a data) = some a

/-! ## Writing -/

section Encode

variable (bc : BlockCodec)

/-- `View`: `Round`, then `Sequence`. -/
def viewItem (v : View) : Item := .list [encodeUint v.round, encodeUint v.sequence]

def subjectItem (s : Subject) : Item := .list [viewItem s.view, encodeByteArray 32 s.digest]

def CommittedSubject.toItem (cs : CommittedSubject) : Item :=
  .list [subjectItem cs.subject, .str cs.committedSeal, .str cs.epochValidatorSetSeal]

def Message.toItem (m : Message) : Item :=
  .list [encodeUint m.code, .str m.msg, encodeByteArray 20 m.address, .str m.signature]

/-- `PreparedCertificateV2.EncodeRLP`. -/
def PreparedCertificateV2.toItem (pc : PreparedCertificateV2) : Item :=
  .list [encodeByteArray 32 pc.proposalHash, .list (pc.prepareOrCommitMessages.map Message.toItem)]

/-- `RoundChangeRequest.EncodeRLP`. -/
def RoundChangeRequest.toItem (r : RoundChangeRequest) : Item :=
  .list [encodeByteArray 20 r.address, viewItem r.view, r.preparedCertificateV2.toItem, .str r.signature]

/-- `RoundChangeV2.EncodeRLP`. -/
def RoundChangeV2.toItem (rc : RoundChangeV2) : Item :=
  .list [rc.request.toItem, bc.toItem rc.preparedProposal]

/-- `RoundChangeCertificateV2.EncodeRLP`. -/
def RoundChangeCertificateV2.toItem (rcc : RoundChangeCertificateV2) : Item :=
  .list [.list (rcc.requests.map RoundChangeRequest.toItem)]

/-- `PreprepareV2.EncodeRLP`. -/
def PreprepareV2.toItem (pp : PreprepareV2) : Item :=
  .list [viewItem pp.view, bc.toItem pp.proposal, pp.roundChangeCertificateV2.toItem]

def Inner.code : Inner → Nat
  | .preprepareV2 _ => msgPreprepareV2
  | .prepare _ => msgPrepare
  | .commit _ => msgCommit
  | .roundChangeV2 _ => msgRoundChangeV2

def Inner.toItem : Inner → Item
  | .preprepareV2 pp => pp.toItem bc
  | .prepare s => subjectItem s
  | .commit cs => cs.toItem
  | .roundChangeV2 rc => rc.toItem bc

/-- `Message.Payload`. -/
def Message.payload (m : Message) : List UInt8 := encode m.toItem

/-- `Message.PayloadNoSig`: the payload with an empty signature. -/
def Message.payloadNoSig (m : Message) : List UInt8 := encode { m with signature := [] }.toItem

/-- `RoundChangeRequest.PayloadNoSig`. -/
def RoundChangeRequest.payloadNoSig (r : RoundChangeRequest) : List UInt8 :=
  encode { r with signature := [] }.toItem

/-- `setMessageBytes`: a message from `sender` with the serialized inner
message, not yet signed. -/
def newMessage (inner : Inner) (sender : Address) : Message :=
  ⟨inner.code, encode (inner.toItem bc), sender, []⟩

def newPrepareMessage (subject : Subject) (sender : Address) : Message :=
  newMessage bc (.prepare subject) sender

def newCommitMessage (commit : CommittedSubject) (sender : Address) : Message :=
  newMessage bc (.commit commit) sender

def newPreprepareV2Message (pp : PreprepareV2) (sender : Address) : Message :=
  newMessage bc (.preprepareV2 pp) sender

def newRoundChangeV2Message (rc : RoundChangeV2) (sender : Address) : Message :=
  newMessage bc (.roundChangeV2 rc) sender

end Encode

/-- `Message.Sign`: the signature over `PayloadNoSig`. -/
def Message.sign (m : Message) (signingFn : List UInt8 → List UInt8) : Message :=
  { m with signature := signingFn m.payloadNoSig }

/-- `RoundChangeRequest.Sign`. -/
def RoundChangeRequest.sign (r : RoundChangeRequest) (signingFn : List UInt8 → List UInt8) :
    RoundChangeRequest :=
  { r with signature := signingFn r.payloadNoSig }

/-! ## Reading -/

section Decode

variable (bc : BlockCodec) (decodeMsg : Item → Option Message)

def decodeView : Item → Option View
  | .list [round, sequence] => do
    let round ← decodeBigInt round
    let sequence ← decodeBigInt sequence
    pure ⟨sequence, round⟩
  | _ => none

def decodeSubject : Item → Option Subject
  | .list [view, digest] => do
    let view ← decodeView view
    let digest ← decodeByteArray 32 digest
    pure ⟨view, digest⟩
  | _ => none

def decodeCommittedSubject : Item → Option CommittedSubject
  | .list [subject, committedSeal, epochValidatorSetSeal] => do
    let subject ← decodeSubject subject
    let committedSeal ← decodeByteSlice committedSeal
    let epochValidatorSetSeal ← decodeByteSlice epochValidatorSetSeal
    pure ⟨subject, committedSeal, epochValidatorSetSeal⟩
  | _ => none

/-- The `decodable` struct of `Message.DecodeRLP`: the four fields. -/
def decodeMessageFields : Item → Option Message
  | .list [code, msg, address, signature] => do
    let code ← decodeUint code
    let msg ← decodeByteSlice msg
    let address ← decodeByteArray 20 address
    let signature ← decodeByteSlice signature
    pure ⟨code, msg, address, signature⟩
  | _ => none

/-- `PreparedCertificateV2.DecodeRLP`, reading the messages with
`decodeMsg`. -/
def decodePreparedCertificateV2 : Item → Option PreparedCertificateV2
  | .list [proposalHash, messages] => do
    let proposalHash ← decodeByteArray 32 proposalHash
    let messages ← decodeListSlice decodeMsg messages
    pure ⟨proposalHash, messages⟩
  | _ => none

/-- `RoundChangeRequest.DecodeRLP`. -/
def decodeRoundChangeRequest : Item → Option RoundChangeRequest
  | .list [address, view, pc, signature] => do
    let address ← decodeByteArray 20 address
    let view ← decodeView view
    let pc ← decodePreparedCertificateV2 decodeMsg pc
    let signature ← decodeByteSlice signature
    pure ⟨address, view, pc, signature⟩
  | _ => none

/-- `RoundChangeV2.DecodeRLP`: the proposal is read as a `*types.Block`. -/
def decodeRoundChangeV2 : Item → Option RoundChangeV2
  | .list [request, proposal] => do
    let request ← decodeRoundChangeRequest decodeMsg request
    let proposal ← bc.ofItem proposal
    pure ⟨request, proposal⟩
  | _ => none

/-- `RoundChangeCertificateV2.DecodeRLP`. -/
def decodeRoundChangeCertificateV2 : Item → Option RoundChangeCertificateV2
  | .list [requests] => do
    let requests ← decodeListSlice (decodeRoundChangeRequest decodeMsg) requests
    pure ⟨requests⟩
  | _ => none

/-- `PreprepareV2.DecodeRLP`. -/
def decodePreprepareV2 : Item → Option PreprepareV2
  | .list [view, proposal, rcc] => do
    let view ← decodeView view
    let proposal ← bc.ofItem proposal
    let rcc ← decodeRoundChangeCertificateV2 decodeMsg rcc
    pure ⟨view, proposal, rcc⟩
  | _ => none

/-- `DecodeMessage`: the inner message of the code, read from `Msg`. -/
def decodeInner (code : Nat) (msg : List UInt8) : Option Inner :=
  if code = msgPreprepareV2 then ((decode msg).bind (decodePreprepareV2 bc decodeMsg)).map .preprepareV2
  else if code = msgPrepare then ((decode msg).bind decodeSubject).map .prepare
  else if code = msgCommit then ((decode msg).bind decodeCommittedSubject).map .commit
  else if code = msgRoundChangeV2 then
    ((decode msg).bind (decodeRoundChangeV2 bc decodeMsg)).map .roundChangeV2
  else none

end Decode

/-- `Message.DecodeRLP`, through `depth` levels of nested messages.  An
empty `Msg` with an empty signature is a handshake: nothing is decoded. -/
def decodeMessage (bc : BlockCodec) : Nat → Item → Option (Message × Option Inner)
  | 0, _ => none
  | depth + 1, x => do
    let m ← decodeMessageFields x
    if m.msg = [] ∧ m.signature = [] then pure (m, none)
    else
      let inner ← decodeInner bc (fun y => (decodeMessage bc depth y).map Prod.fst) m.code m.msg
      pure (m, some inner)

/-- `CheckSignedBy`: the signature over the payload recovers to `signer`. -/
def checkSignedBy (payloadNoSig signature : List UInt8) (signer : Address)
    (validateFn : List UInt8 → List UInt8 → Option Address) : Bool :=
  validateFn payloadNoSig signature == some signer

/-- `Message.FromPayload`: decode, then check the signature when a
`validateFn` is given. -/
def fromPayload (bc : BlockCodec) (b : List UInt8)
    (validateFn : Option (List UInt8 → List UInt8 → Option Address)) :
    Option (Message × Option Inner) := do
  let x ← decode b
  let r ← decodeMessage bc b.length x
  match validateFn with
  | none => pure r
  | some validateFn =>
    if checkSignedBy r.1.payloadNoSig r.1.signature r.1.address validateFn then pure r else none

end CeloBlockchain.Ibft.Wire

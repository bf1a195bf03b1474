import CeloBlockchain.Ibft.Types
import CeloBlockchain.Lib.PopOrder
import CeloBlockchain.Lib.Run
import Mathlib.Data.List.AList

/-!
# The backlog of future messages

`core/backlog.go`: `msgBacklogImpl` keeps the messages that `checkMessage`
found to belong to the future, one priority queue per sequence, and hands
them to `msgProcessor` once `updateState` makes their view current.

The model keeps the source's three counters (`msgCountBySrc`, `msgCount`
and the queues themselves), its drop rules in `store`, the pruning of the
future-most sequences in `removeMessagesOverflow`, and the loop of
`processBacklogForSeq` that stops at the first message its `process`
function wants kept and pushes that one back.

* A `prque.Prque` is a list in pop order (`Lib.PopOrder`), its entries the
  message with its `int64` priority.  The heap's order among equal
  priorities is not the list's; nothing proved depends on it.
* `processBacklogForSeq` also returns the messages it took out, in pop order:
  `processBacklog`'s `process` closure hands some of them to `msgProcessor`
  (`go c.msgProcessor(msg)`), and the model returns those in order.
* `checkMessage` is the function the backlog was built with; for the core it
  is `Core.checkMessage`.  Each `updateState` call carries the behaviour it
  has at that moment.
* The logger and the mutex are left out.
-/

namespace CeloBlockchain.Ibft

/-! ## Limits and priorities -/

def acceptMaxFutureSequence : Nat := 10

def acceptMaxFutureMsgsFromOneValidator : Int := 1000

def acceptMaxFutureMessages : Int := 10 * 1000

def acceptMaxFutureMessagesPruneBatch : Int := 100

/-- A safe maximum for round that prevents overflow. -/
def maxRoundForPriorityQueue : Nat := 2 ^ (63 - 5)

/-- `msgPriority`: PREPREPARE before COMMIT before PREPARE within a round.
Round changes have no entry, so the map reads `0`. -/
def msgPriority : MsgCode → Nat
  | .preprepareV2 => 1
  | .commit => 2
  | .prepare => 3
  | .roundChangeV2 => 0

/-- `msg.Code`. -/
def Message.code : Message → MsgCode
  | .vote v => v.code
  | .preprepareV2 .. => .preprepareV2
  | .roundChangeV2 .. => .roundChangeV2

/-- `extractMessageView`: a vote's view is that of its subject. -/
def extractMessageView : Message → View
  | .vote v => v.subject.view
  | .preprepareV2 _ _ pp => pp.view
  | .roundChangeV2 _ _ rc => rc.request.view

/-- `int64(x)` for a `uint64` `x`: the same bits in two's complement. -/
def int64OfUint64 (x : Nat) : Int := if x < 2 ^ 63 then x else (x : Int) - 2 ^ 64

/-- Negation in `int64`, which wraps at the least value. -/
def int64Neg (x : Int) : Int := if x = -2 ^ 63 then x else -x

/-- `toPriority`: `0` for round changes, else
`-int64(view.Round.Uint64()*10 + uint64(msgPriority[msgCode]))` in the
source's fixed-width arithmetic. -/
def toPriority (msgCode : MsgCode) (view : View) : Int :=
  if msgCode = .roundChangeV2 then 0
  else int64Neg (int64OfUint64 (uint64 (uint64 (uint64 view.round * 10) + msgPriority msgCode)))

/-! ## The backlog -/

/-- `msgBacklogImpl`.  Each queue lists its `(message, priority)` entries in
pop order. -/
structure MsgBacklog where
  backlogBySeq : AList fun _ : Nat => List (Message × Int)
  msgCountBySrc : AList fun _ : Address => Int
  msgCount : Int
  currentView : View
  currentState : State

/-- `newMsgBacklog`. -/
def newMsgBacklog : MsgBacklog where
  backlogBySeq := ∅
  msgCountBySrc := ∅
  msgCount := 0
  currentView := ⟨1, 0⟩
  currentState := .acceptRequest

namespace MsgBacklog

/-- The queue entry of a message, with the priority `store` gives it. -/
def entryOf (msg : Message) : Message × Int := (msg, toPriority msg.code (extractMessageView msg))

/-- `getSortedBacklogSeqs`. -/
def getSortedBacklogSeqs (c : MsgBacklog) : List Nat :=
  c.backlogBySeq.keys.insertionSort (· ≤ ·)

/-- `c.msgCountBySrc[addr]--`, deleting the entry that reaches zero. -/
def decrementSrc (msgCountBySrc : AList fun _ : Address => Int) (addr : Address) :
    AList fun _ : Address => Int :=
  let n := (msgCountBySrc.lookup addr).getD 0 - 1
  if n = 0 then msgCountBySrc.erase addr else msgCountBySrc.insert addr n

/-- The loop of `processBacklogForSeq` over a queue: pops until `process`
asks to stop, pushes that entry back, and counts out every other one.
Returns the queue left, the two counters and the messages taken. -/
def processLoop (process : Message → Bool) :
    List (Message × Int) → (AList fun _ : Address => Int) → Int →
      List (Message × Int) × (AList fun _ : Address => Int) × Int × List Message
  | [], msgCountBySrc, msgCount => ([], msgCountBySrc, msgCount, [])
  | (m, priority) :: rest, msgCountBySrc, msgCount =>
    if process m then (PopOrder.push Prod.snd (m, priority) rest, msgCountBySrc, msgCount, [])
    else
      let (q, bySrc, count, taken) :=
        processLoop process rest (decrementSrc msgCountBySrc m.address) (msgCount - 1)
      (q, bySrc, count, m :: taken)

/-- `processBacklogForSeq`, with the messages taken out in pop order. -/
def processBacklogForSeq (c : MsgBacklog) (seq : Nat) (process : Message → Bool) :
    MsgBacklog × List Message :=
  match c.backlogBySeq.lookup seq with
  | none => (c, [])
  | some backlogForSeq =>
    let (q, bySrc, count, taken) := processLoop process backlogForSeq c.msgCountBySrc c.msgCount
    ({ c with
        backlogBySeq := if q.length = 0 then c.backlogBySeq.erase seq else c.backlogBySeq.insert seq q
        msgCountBySrc := bySrc
        msgCount := count }, taken)

/-- `clearBacklogForSeq`. -/
def clearBacklogForSeq (c : MsgBacklog) (seq : Nat) : MsgBacklog :=
  (c.processBacklogForSeq seq fun _ => false).1

/-- The loop of `removeMessagesOverflow`, over `backlogSeqs[i]` for
`i = len - 1, …, 1`. -/
def pruneLoop : MsgBacklog → List Nat → MsgBacklog
  | c, [] => c
  | c, seq :: seqs =>
    if seq ≤ uint64 c.currentView.sequence ∨
        c.msgCount < acceptMaxFutureMessages - acceptMaxFutureMessagesPruneBatch then c
    else pruneLoop (c.clearBacklogForSeq seq) seqs

/-- `removeMessagesOverflow`: prunes the future-most sequences, never the
first, while more than `acceptMaxFutureMessages` are held. -/
def removeMessagesOverflow (c : MsgBacklog) : MsgBacklog :=
  if c.msgCount > acceptMaxFutureMessages then pruneLoop c (c.getSortedBacklogSeqs.drop 1).reverse
  else c

/-- `store`. -/
def store (c : MsgBacklog) (msg : Message) : MsgBacklog :=
  let view := extractMessageView msg
  if view.sequence > c.currentView.sequence + acceptMaxFutureSequence then c
  else if view.round ≥ maxRoundForPriorityQueue then c
  else if (c.msgCountBySrc.lookup msg.address).getD 0 > acceptMaxFutureMsgsFromOneValidator then c
  else
    let backlogForSeq := (c.backlogBySeq.lookup (uint64 view.sequence)).getD []
    removeMessagesOverflow
      { c with
        msgCountBySrc :=
          c.msgCountBySrc.insert msg.address ((c.msgCountBySrc.lookup msg.address).getD 0 + 1)
        msgCount := c.msgCount + 1
        backlogBySeq := c.backlogBySeq.insert (uint64 view.sequence)
          (PopOrder.push Prod.snd (entryOf msg) backlogForSeq) }

/-- `err == errFutureMessage`: `process` keeps the message. -/
def isFuture (checkMessage : MsgCode → View → Option Err) (msg : Message) : Bool :=
  checkMessage msg.code (extractMessageView msg) == some .futureMessage

/-- `err == nil`: the message goes to `msgProcessor`. -/
def isDeliverable (checkMessage : MsgCode → View → Option Err) (msg : Message) : Bool :=
  checkMessage msg.code (extractMessageView msg) == none

/-- One iteration of `processBacklog`'s loop; the second component collects
the messages handed to `msgProcessor`. -/
def processBacklogStep (checkMessage : MsgCode → View → Option Err)
    (acc : MsgBacklog × List Message) (seq : Nat) : MsgBacklog × List Message :=
  if seq < uint64 acc.1.currentView.sequence then (acc.1.clearBacklogForSeq seq, acc.2)
  else if seq = uint64 acc.1.currentView.sequence then
    let r := acc.1.processBacklogForSeq seq (isFuture checkMessage)
    (r.1, acc.2 ++ r.2.filter (isDeliverable checkMessage))
  else acc

/-- `processBacklog`. -/
def processBacklog (c : MsgBacklog) (checkMessage : MsgCode → View → Option Err) :
    MsgBacklog × List Message :=
  c.getSortedBacklogSeqs.foldl (processBacklogStep checkMessage) (c, [])

/-- `updateState`. -/
def updateState (c : MsgBacklog) (view : View) (state : State)
    (checkMessage : MsgCode → View → Option Err) : MsgBacklog × List Message :=
  processBacklog { c with currentState := state, currentView := view } checkMessage

/-- The calls a backlog receives. -/
inductive Call
  | store (msg : Message)
  | updateState (view : View) (state : State) (checkMessage : MsgCode → View → Option Err)
  | removeMessagesOverflow
  | clearBacklogForSeq (seq : Nat)

def call (c : MsgBacklog) : Call → MsgBacklog
  | .store msg => c.store msg
  | .updateState view state checkMessage => (c.updateState view state checkMessage).1
  | .removeMessagesOverflow => c.removeMessagesOverflow
  | .clearBacklogForSeq seq => c.clearBacklogForSeq seq

def runCalls (c : MsgBacklog) (calls : List Call) : MsgBacklog := Run.run call c calls

end MsgBacklog

end CeloBlockchain.Ibft

import CeloBlockchain.Ibft.Types

/-!
# The proxied validator's proxies and their validators

This module models `valAssignments` and `consistentHashingPolicy`
(`consensus/istanbul/proxy/validator_assignment.go`), `proxySet`
(`proxy_set.go`), and the part of the proxied validator's run loop that
changes the proxy set, with `updateValidatorAssignments` and
`getValidatorConnSetDiff` (`proxied_validator_engine.go`).

A validator is assigned to at most one proxy (`valToProxy`, `nil` for none)
and each proxy has the set of its validators (`proxyToVals`). Go maps are
`AList`s, a set of addresses is a list without repeats, and an `enode.ID` is a
number. A `*Proxy` is the entry of `proxiesByID` for its ID; of a proxy the
code reads whether its `peer` is set and its `disconnectTS`.

The hash ring of the policy is the list of its members. What the code uses of
the consistent hasher is `LocateKey`: no member on an empty ring, otherwise a
member of the ring (`Locator`). A panic (dereferencing a `nil` proxy) is
`none`. Times are seconds.
-/

namespace CeloBlockchain.Proxied

open Ibft (Address)

/-- `enode.ID`. -/
abbrev NodeID := Nat

/-- `Proxy`: whether its `peer` is set, and when it last disconnected. -/
structure Proxy where
  peer : Bool
  disconnectTS : Nat
  deriving DecidableEq, Repr

/-! ## Validator assignments -/

/-- `valAssignments`. -/
structure ValAssignments where
  valToProxy : AList fun _ : Address => Option NodeID
  proxyToVals : AList fun _ : NodeID => List Address

namespace ValAssignments

/-- `newValAssignments`. -/
def new : ValAssignments := ⟨∅, ∅⟩

/-- `va.valToProxy[valAddress]`: `nil` for a missing validator too. -/
def proxyOf (va : ValAssignments) (valAddress : Address) : Option NodeID :=
  (va.valToProxy.lookup valAddress).join

/-- `va.proxyToVals[proxyID]`: the empty set for a missing proxy. -/
def valsOf (va : ValAssignments) (proxyID : NodeID) : List Address :=
  (va.proxyToVals.lookup proxyID).getD []

/-- `addValidators`: each validator enters `valToProxy` unassigned. -/
def addValidators (va : ValAssignments) (vals : List Address) : ValAssignments :=
  vals.foldl (fun va val => { va with valToProxy := va.valToProxy.insert val none }) va

/-- `assignValidator`. -/
def assignValidator (va : ValAssignments) (valAddress : Address) (proxyID : NodeID) :
    ValAssignments :=
  { valToProxy := va.valToProxy.insert valAddress (some proxyID),
    proxyToVals := va.proxyToVals.insert proxyID ((va.valsOf proxyID).insert valAddress) }

/-- `unassignValidator`: nothing for an unassigned validator; otherwise it is
set to `nil` and leaves its proxy's set, which is deleted when it empties. -/
def unassignValidator (va : ValAssignments) (valAddress : Address) : ValAssignments :=
  match va.proxyOf valAddress with
  | none => va
  | some proxyID =>
    let vals := (va.valsOf proxyID).erase valAddress
    { valToProxy := va.valToProxy.insert valAddress none,
      proxyToVals :=
        if vals.length = 0 then va.proxyToVals.erase proxyID
        else va.proxyToVals.insert proxyID vals }

/-- `removeValidators`. -/
def removeValidators (va : ValAssignments) (vals : List Address) : ValAssignments :=
  vals.foldl (fun va val =>
    let va := va.unassignValidator val
    { va with valToProxy := va.valToProxy.erase val }) va

/-- `getValidators`: assigned or not. -/
def getValidators (va : ValAssignments) : List Address := va.valToProxy.keys

end ValAssignments

/-! ## The consistent hashing policy -/

/-- What the policy uses of the consistent hasher: `LocateKey` of a key on a
ring given by its members. It finds no member exactly when the ring is empty,
and otherwise one of the ring's members. -/
structure Locator where
  locateKey : List NodeID → Address → Option NodeID
  locateKey_eq_none_iff : ∀ ring key, locateKey ring key = none ↔ ring = []
  mem_of_locateKey : ∀ ring key p, locateKey ring key = some p → p ∈ ring

/-- `consistentHashingPolicy`: the members of its ring `c`. -/
structure ConsistentHashingPolicy where
  c : List NodeID

namespace ConsistentHashingPolicy

variable (loc : Locator)

/-- `newConsistentHashingPolicy`. -/
def new : ConsistentHashingPolicy := ⟨[]⟩

/-- One round of the loop of `reassignValidators`, for the validator `val`:
unassigned when the ring has no member for it, moved when its proxy is not
the one located. -/
def reassignStep (ch : ConsistentHashingPolicy) (acc : ValAssignments × Bool) (val : Address) :
    ValAssignments × Bool :=
  let (va, anyAssignmentsChanged) := acc
  let proxyID := va.proxyOf val
  match loc.locateKey ch.c val with
  | none => (va.unassignValidator val, true)
  | some newProxyID =>
    if proxyID.isNone || proxyID != some newProxyID then
      ((va.unassignValidator val).assignValidator val newProxyID, true)
    else (va, anyAssignmentsChanged)

/-- `reassignValidators`. The loop ranges over the validators of
`valToProxy`; a round changes only its own validator's entry, and reads it
when it comes to it. -/
def reassignValidators (ch : ConsistentHashingPolicy) (va : ValAssignments) :
    ValAssignments × Bool :=
  va.valToProxy.keys.foldl (ch.reassignStep loc) (va, false)

/-- `assignProxy`: `c.Add`, which keeps a member once, then the
reassignment. -/
def assignProxy (ch : ConsistentHashingPolicy) (proxyID : NodeID) (va : ValAssignments) :
    ConsistentHashingPolicy × ValAssignments × Bool :=
  let ch : ConsistentHashingPolicy := ⟨ch.c.insert proxyID⟩
  let (va, changed) := ch.reassignValidators loc va
  (ch, va, changed)

/-- `removeProxy`: `c.Remove`, then the reassignment. -/
def removeProxy (ch : ConsistentHashingPolicy) (proxyID : NodeID) (va : ValAssignments) :
    ConsistentHashingPolicy × ValAssignments × Bool :=
  let ch : ConsistentHashingPolicy := ⟨ch.c.filter (· != proxyID)⟩
  let (va, changed) := ch.reassignValidators loc va
  (ch, va, changed)

/-- `assignRemoteValidators`. -/
def assignRemoteValidators (ch : ConsistentHashingPolicy) (vals : List Address)
    (va : ValAssignments) : ValAssignments × Bool :=
  ch.reassignValidators loc (va.addValidators vals)

/-- `removeRemoteValidators`. -/
def removeRemoteValidators (ch : ConsistentHashingPolicy) (vals : List Address)
    (va : ValAssignments) : ValAssignments × Bool :=
  ch.reassignValidators loc (va.removeValidators vals)

end ConsistentHashingPolicy

/-! ## The proxy set -/

/-- `proxySet`, with the consistent hashing policy as its `valAssigner`. -/
structure ProxySet where
  proxiesByID : AList fun _ : NodeID => Proxy
  valAssignments : ValAssignments
  valAssigner : ConsistentHashingPolicy

namespace ProxySet

variable (loc : Locator)

/-- `newProxySet(newConsistentHashingPolicy())`. -/
def new : ProxySet := ⟨∅, .new, .new⟩

/-- `getProxy`. -/
def getProxy (ps : ProxySet) (proxyID : NodeID) : Option Proxy := ps.proxiesByID.lookup proxyID

/-- `addProxy`: a new proxy is not peered; a known one is kept. -/
def addProxy (ps : ProxySet) (internalID : NodeID) (now : Nat) : ProxySet :=
  match ps.proxiesByID.lookup internalID with
  | none => { ps with proxiesByID := ps.proxiesByID.insert internalID ⟨false, now⟩ }
  | some _ => ps

/-- `removeProxy`: off the ring and out of the set. -/
def removeProxy (ps : ProxySet) (proxyID : NodeID) : ProxySet × Bool :=
  match ps.getProxy proxyID with
  | none => (ps, false)
  | some _ =>
    let (valAssigner, valAssignments, valsReassigned) :=
      ps.valAssigner.removeProxy loc proxyID ps.valAssignments
    ({ proxiesByID := ps.proxiesByID.erase proxyID, valAssignments, valAssigner },
      valsReassigned)

/-- `setProxyPeer`: the proxy is peered and joins the ring. -/
def setProxyPeer (ps : ProxySet) (proxyID : NodeID) : ProxySet × Bool :=
  match ps.proxiesByID.lookup proxyID with
  | none => (ps, false)
  | some proxy =>
    let proxiesByID := ps.proxiesByID.insert proxyID { proxy with peer := true }
    let (valAssigner, valAssignments, valsReassigned) :=
      ps.valAssigner.assignProxy loc proxyID ps.valAssignments
    ({ proxiesByID, valAssignments, valAssigner }, valsReassigned)

/-- `removeProxyPeer`: the proxy is no longer peered; it stays on the ring. -/
def removeProxyPeer (ps : ProxySet) (proxyID : NodeID) (now : Nat) : ProxySet :=
  match ps.proxiesByID.lookup proxyID with
  | none => ps
  | some proxy =>
    { ps with proxiesByID := ps.proxiesByID.insert proxyID { proxy with peer := false, disconnectTS := now } }

/-- `addRemoteValidators`. -/
def addRemoteValidators (ps : ProxySet) (validators : List Address) : ProxySet × Bool :=
  let (valAssignments, b) := ps.valAssigner.assignRemoteValidators loc validators ps.valAssignments
  ({ ps with valAssignments }, b)

/-- `removeRemoteValidators`. -/
def removeRemoteValidators (ps : ProxySet) (validators : List Address) : ProxySet × Bool :=
  let (valAssignments, b) := ps.valAssigner.removeRemoteValidators loc validators ps.valAssignments
  ({ ps with valAssignments }, b)

/-- `getValidators`. -/
def getValidators (ps : ProxySet) : List Address := ps.valAssignments.getValidators

/-- One round of the loop of `unassignDisconnectedProxies`, for the key
`proxyID` of `proxyToVals`: a proxy unpeered for at least `minAge` leaves the
ring. A key the loop deletes before it reaches it is not produced. -/
def unassignStep (minAge now : Nat) (acc : ProxySet × Bool) (proxyID : NodeID) : ProxySet × Bool :=
  let (ps, valsReassigned) := acc
  if proxyID ∈ ps.valAssignments.proxyToVals then
    match ps.getProxy proxyID with
    | some proxy =>
      if !proxy.peer && now - proxy.disconnectTS ≥ minAge then
        let (valAssigner, valAssignments, b) :=
          ps.valAssigner.removeProxy loc proxyID ps.valAssignments
        ({ ps with valAssignments, valAssigner }, b || valsReassigned)
      else (ps, valsReassigned)
    | none => (ps, valsReassigned)
  else (ps, valsReassigned)

/-- `unassignDisconnectedProxies(minAge)` at time `now`. The loop ranges over
`proxyToVals` while its rounds change it, so Go fixes neither the order nor
whether keys added on the way are produced: `visits` is the keys in the order
produced. -/
def unassignDisconnectedProxies (ps : ProxySet) (minAge now : Nat) (visits : List NodeID) :
    ProxySet × Bool :=
  visits.foldl (unassignStep loc minAge now) (ps, false)

/-- `tempValAssignmentsFromProxies`: the validators of the proxies in
`proxyIDs`, or all of them for a `nil` filter. -/
def valsFromProxies (va : ValAssignments) : Option (List NodeID) → List Address
  | some proxyIDs => proxyIDs.flatMap fun proxyID => va.valsOf proxyID
  | none => va.valToProxy.keys

/-- One round of the loop of `getValidatorAssignments` over the validators
filter: an assigned validator enters with its proxy. -/
def addAssigned (va : ValAssignments) (m : AList fun _ : Address => Option NodeID)
    (valAddress : Address) : AList fun _ : Address => Option NodeID :=
  match va.valToProxy.lookup valAddress with
  | some (some enodeID) => m.insert valAddress (some enodeID)
  | _ => m

/-- `tempValAssignmentsFromValidators`: the assigned validators of
`validators` with their proxies, or all of `valToProxy` for a `nil` filter. -/
def assignmentsFromValidators (va : ValAssignments) :
    Option (List Address) → AList fun _ : Address => Option NodeID
  | some validators => validators.foldl (addAssigned va) ∅
  | none => va.valToProxy

/-- One round of the intersection loop of `getValidatorAssignments`: a
validator assigned to a peered proxy gets it, an unassigned one `nil`. The
proxy of an assigned validator is dereferenced. -/
def intersectStep (ps : ProxySet) (fromValidators : AList fun _ : Address => Option NodeID)
    (valAssignments : AList fun _ : Address => Option NodeID) (outerValAddress : Address) :
    Option (AList fun _ : Address => Option NodeID) :=
  match fromValidators.lookup outerValAddress with
  | some (some enodeID) =>
    match ps.getProxy enodeID with
    | none => none
    | some proxy =>
      if proxy.peer then some (valAssignments.insert outerValAddress (some enodeID))
      else some valAssignments
  | some none => some (valAssignments.insert outerValAddress none)
  | none => some valAssignments

/-- `getValidatorAssignments(validators, proxyIDs)`, with `none` for a `nil`
filter: each validator of both filters, with the ID of its proxy if it is
peered, or `nil` if it is unassigned. -/
def getValidatorAssignments (ps : ProxySet) (validators : Option (List Address))
    (proxyIDs : Option (List NodeID)) : Option (AList fun _ : Address => Option NodeID) :=
  (valsFromProxies ps.valAssignments proxyIDs).foldlM
    (ps.intersectStep (assignmentsFromValidators ps.valAssignments validators)) ∅

end ProxySet

/-! ## The proxied validator -/

/-- One round of the loop of `getValidatorConnSetDiff` over the old
validators: one missing from the new set is to be removed, one in it is not
new. -/
def diffStep (acc : List Address × List Address) (oldVal : Address) : List Address × List Address :=
  let (rmVals, newValConnSet) := acc
  if oldVal ∉ newValConnSet then (rmVals ++ [oldVal], newValConnSet)
  else (rmVals, newValConnSet.filter (· != oldVal))

/-- `getValidatorConnSetDiff(validators)`: what `RetrieveValidatorConnSet`
returned (`none` is its error), without this node's address `self`, split into
the validators to add and those of `validators` to remove. -/
def getValidatorConnSetDiff (valConnSet : Option (List Address)) (self : Address)
    (validators : List Address) : Option (List Address × List Address) := do
  let newValConnSet ← valConnSet
  let newValConnSet := newValConnSet.filter (· != self)
  let (rmVals, newValConnSet) := validators.foldl diffStep ([], newValConnSet)
  pure (newValConnSet, rmVals)

/-- Go's `b || f()` on the proxy set: `f` runs only when `b` is false. -/
def orElseRun (b : Bool) (f : ProxySet → ProxySet × Bool) (ps : ProxySet) : ProxySet × Bool :=
  if b then (ps, true) else f ps

section Engine

variable (loc : Locator)

/-- `updateValidatorAssignments`: the flag, or `none` for the error of the
retrieval, which leaves the set. The removal is the right operand of `||`. -/
def updateValidatorAssignments (ps : ProxySet) (valConnSet : Option (List Address))
    (self : Address) : ProxySet × Option Bool :=
  match getValidatorConnSetDiff valConnSet self ps.getValidators with
  | none => (ps, none)
  | some (newVals, rmVals) =>
    let valsReassigned := false
    let (ps, valsReassigned) :=
      if newVals.length > 0 then orElseRun valsReassigned (·.addRemoteValidators loc newVals) ps
      else (ps, valsReassigned)
    let (ps, valsReassigned) :=
      if rmVals.length > 0 then orElseRun valsReassigned (·.removeRemoteValidators loc rmVals) ps
      else (ps, valsReassigned)
    (ps, some valsReassigned)

/-- The calls of the proxy set that change it. -/
inductive Op
  | addProxy (internalID : NodeID) (now : Nat)
  | removeProxy (proxyID : NodeID)
  | setProxyPeer (proxyID : NodeID)
  | removeProxyPeer (proxyID : NodeID) (now : Nat)
  | unassignDisconnectedProxies (minAge now : Nat) (visits : List NodeID)
  | updateValidatorAssignments (valConnSet : Option (List Address))
  deriving DecidableEq, Repr

/-- One call, by the node with address `self`. -/
def step (self : Address) (ps : ProxySet) : Op → ProxySet
  | .addProxy internalID now => ps.addProxy internalID now
  | .removeProxy proxyID => (ps.removeProxy loc proxyID).1
  | .setProxyPeer proxyID => (ps.setProxyPeer loc proxyID).1
  | .removeProxyPeer proxyID now => ps.removeProxyPeer proxyID now
  | .unassignDisconnectedProxies minAge now visits =>
    (ps.unassignDisconnectedProxies loc minAge now visits).1
  | .updateValidatorAssignments valConnSet => (updateValidatorAssignments loc ps valConnSet self).1

/-- `minProxyDisconnectTime`. -/
def minProxyDisconnectTime : Nat := 30

/-- What the run loop of the proxied validator is handed. -/
inductive Event
  | addProxies (proxyIDs : List NodeID) (now : Nat)
  | removeProxies (proxyIDs : List NodeID)
  | addProxyPeer (peerID : NodeID)
  | removeProxyPeer (peerID : NodeID) (now : Nat)
  | newBlockchainEpoch (valConnSet : Option (List Address))
  | schedulerTick (now : Nat) (visits : List NodeID)
  deriving DecidableEq, Repr

/-- One case of the run loop: the calls it makes on the proxy set. -/
def Event.ops : Event → ProxySet → List Op
  | .addProxies proxyIDs now, _ => proxyIDs.map fun proxyID => .addProxy proxyID now
  | .removeProxies proxyIDs, _ => proxyIDs.map .removeProxy
  | .addProxyPeer peerID, ps => if (ps.getProxy peerID).isSome then [.setProxyPeer peerID] else []
  | .removeProxyPeer peerID now, ps =>
    if (ps.getProxy peerID).isSome then [.removeProxyPeer peerID now] else []
  | .newBlockchainEpoch valConnSet, _ => [.updateValidatorAssignments valConnSet]
  | .schedulerTick now visits, _ => [.unassignDisconnectedProxies minProxyDisconnectTime now visits]

/-- The run loop on one event. A proxy already in the set is skipped by
`addProxies` and an unknown one by `removeProxies`, as `addProxy` and
`removeProxy` themselves do. -/
def handleEvent (self : Address) (ps : ProxySet) (e : Event) : ProxySet :=
  (e.ops ps).foldl (step loc self) ps

end Engine

end CeloBlockchain.Proxied

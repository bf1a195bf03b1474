import CeloBlockchain.Replica.State

/-!
# The replica state: what its methods keep, and where they break

Over `Replica.State`:

* `valid_run`: the shape the comment on `state` describes (no bounds in the
  permanent states, the start block of a waiting replica, the stop block of a
  primary in range, `0 < start < stop`) holds after every run, whatever the
  core and the database answer. From it no call panics on a nil bound
  (`call_isSome`).
* `decodeRLP_encodeRLP`: `DecodeRLP` reads back what `EncodeRLP` wrote, and
  `restart_recovers`: the database holds the node's state after every run in
  which a failed write is undone, so a restart reads that state back.
* `consistent_call` (step lemma): the core runs exactly on a primary after
  each call whose starts and stops succeed, except a failed write in
  `MakeReplica` of a replica or `MakePrimary` of a primary, which switch the
  core while rolling the state back (`makeReplica_rollback_starts_core`,
  `makePrimary_rollback_stops_core`). `consistent_run` (run lemma): so along
  every run of such calls whose role switches are written.
* `IsPrimaryForSeq` reads neither the stop block of a waiting replica nor
  the start block of a primary in range, so it departs from the range its
  comment states (`primaryForSeqSpec`). `NewChainHead` past both bounds of a
  waiting replica leaves a primary that `IsPrimaryForSeq` denies
  (`newChainHead_past_both_bounds`).
-/

namespace CeloBlockchain.Replica

/-! ## The shape of a replica state -/

/-- The states and their bounds, as the comment on `state` describes them:
`[start, stop)` with both bounds positive, a waiting replica waiting for its
start block and a primary in range for its stop block. -/
def ReplicaState.Valid : ReplicaState → Prop
  | ⟨.primaryPermanent, start, stop⟩ => start = none ∧ stop = none
  | ⟨.replicaPermanent, start, stop⟩ => start = none ∧ stop = none
  | ⟨.replicaWaiting, start, stop⟩ => ∃ a ∈ start, 0 < a ∧ ∀ c ∈ stop, a < c
  | ⟨.primaryInRange, start, stop⟩ => ∃ c ∈ stop, 0 < c ∧ ∀ a ∈ start, 0 < a ∧ a < c

@[simp] theorem valid_replicaPermanent : (⟨.replicaPermanent, none, none⟩ : ReplicaState).Valid :=
  ⟨rfl, rfl⟩

@[simp] theorem valid_primaryPermanent : (⟨.primaryPermanent, none, none⟩ : ReplicaState).Valid :=
  ⟨rfl, rfl⟩

theorem valid_replicaWaiting {a : Nat} {stop : Option Nat} (ha : 0 < a)
    (hstop : ∀ c ∈ stop, a < c) :
    (⟨.replicaWaiting, some a, stop⟩ : ReplicaState).Valid :=
  ⟨a, rfl, ha, hstop⟩

theorem valid_primaryInRange {start : Option Nat} {c : Nat} (hc : 0 < c)
    (hstart : ∀ a ∈ start, 0 < a ∧ a < c) :
    (⟨.primaryInRange, start, some c⟩ : ReplicaState).Valid :=
  ⟨c, rfl, hc, hstart⟩

theorem Node.save_rs (n : Node) (ok : Bool) (method : String) (rs : ReplicaState) :
    (n.save ok method rs).1.rs = if ok then rs else n.rs := by
  unfold Node.save
  cases ok <;> rfl

theorem Node.save_valid {n : Node} {rs : ReplicaState} (hn : n.rs.Valid) (hrs : rs.Valid)
    (ok : Bool) (method : String) : (n.save ok method rs).1.rs.Valid := by
  rw [Node.save_rs]
  cases ok
  · exact hn
  · exact hrs

theorem valid_setStartValidatingBlock {n : Node} (hv : n.rs.Valid) (ans : Answers)
    (b : Nat) : (setStartValidatingBlock n ans b).1.rs.Valid := by
  obtain ⟨⟨state, start, stop⟩, running, db⟩ := n
  unfold setStartValidatingBlock
  split_ifs with h0 hstop
  · exact hv
  · exact hv
  · -- the guards give `0 < b` and `b < stop`
    have hlt : ∀ c ∈ stop, b < c := by
      intro c hc
      simp only [Option.mem_def] at hc
      subst hc
      simpa using hstop
    cases state with
    | replicaPermanent => exact Node.save_valid hv (valid_replicaWaiting (by omega) hlt) _ _
    | replicaWaiting => exact Node.save_valid hv (valid_replicaWaiting (by omega) hlt) _ _
    | primaryPermanent => exact hv
    | primaryInRange => exact hv

theorem valid_setStopValidatingBlock {n : Node} (hv : n.rs.Valid) (ans : Answers)
    (b : Nat) : (setStopValidatingBlock n ans b).1.rs.Valid := by
  obtain ⟨⟨state, start, stop⟩, running, db⟩ := n
  unfold setStopValidatingBlock
  split_ifs with h0 hstart
  · exact hv
  · exact hv
  · -- the guards give `0 < b` and `start < b`
    have hlt : ∀ a ∈ start, a < b := by
      intro a ha
      simp only [Option.mem_def] at ha
      subst ha
      simpa using hstart
    cases state with
    | primaryPermanent =>
      obtain ⟨rfl, -⟩ := id hv
      exact Node.save_valid hv (valid_primaryInRange (by omega) (by simp)) _ _
    | primaryInRange =>
      obtain ⟨c, -, -, hpos⟩ := id hv
      exact Node.save_valid hv
        (valid_primaryInRange (by omega) fun a ha => ⟨(hpos a ha).1, hlt a ha⟩) _ _
    | replicaPermanent => exact hv
    | replicaWaiting =>
      obtain ⟨a, rfl, ha, -⟩ := id hv
      exact Node.save_valid hv (valid_replicaWaiting ha (by simpa using hlt a rfl)) _ _

theorem valid_makeReplica {n : Node} (hv : n.rs.Valid) (ans : Answers) :
    (makeReplica n ans).1.rs.Valid := by
  unfold makeReplica
  dsimp only
  -- every outcome keeps the state or writes a permanent replica
  split_ifs
  all_goals first | exact hv | exact valid_replicaPermanent

theorem valid_makePrimary {n : Node} (hv : n.rs.Valid) (ans : Answers) :
    (makePrimary n ans).1.rs.Valid := by
  unfold makePrimary
  dsimp only
  -- every outcome keeps the state or writes a permanent primary
  split_ifs
  all_goals first | exact hv | exact valid_primaryPermanent

theorem valid_newChainHead {n : Node} (hv : n.rs.Valid) (ans : Answers) (b : Nat) :
    ∀ r ∈ newChainHead n ans b, r.1.rs.Valid := by
  obtain ⟨⟨state, start, stop⟩, running, db⟩ := n
  intro r hr
  cases state with
  | primaryInRange =>
    obtain ⟨c, rfl, hc, hstart⟩ := hv
    simp only [newChainHead, Option.map_some, Option.mem_def, Option.some.injEq] at hr
    subst hr
    split_ifs
    all_goals first | exact valid_primaryInRange hc hstart | exact valid_replicaPermanent
  | replicaWaiting =>
    obtain ⟨a, rfl, ha, hstop⟩ := hv
    simp only [newChainHead, Option.map_some, Option.mem_def, Option.some.injEq] at hr
    subst hr
    -- the state it switches to depends on whether there is a stop block
    cases stop with
    | none =>
      split_ifs
      all_goals first | exact valid_replicaWaiting ha hstop | exact valid_primaryPermanent
    | some c =>
      have hc := hstop c rfl
      have hprimary : (⟨.primaryInRange, some a, some c⟩ : ReplicaState).Valid :=
        valid_primaryInRange (by omega) (by simpa using ⟨ha, hc⟩)
      split_ifs
      all_goals first | exact valid_replicaWaiting ha hstop | exact hprimary
  | primaryPermanent =>
    simp only [newChainHead, Option.mem_def, Option.some.injEq] at hr
    subst hr
    exact hv
  | replicaPermanent =>
    simp only [newChainHead, Option.mem_def, Option.some.injEq] at hr
    subst hr
    exact hv

theorem valid_init (isReplica : Bool) : (Node.init isReplica).rs.Valid := by
  cases isReplica
  · exact valid_primaryPermanent
  · exact valid_replicaPermanent

theorem valid_call {n : Node} (hv : n.rs.Valid) (ans : Answers) (c : Call) :
    ∀ r ∈ n.call ans c, r.1.rs.Valid := by
  intro r hr
  cases c with
  | setStartValidatingBlock b =>
    cases Option.some.inj hr
    exact valid_setStartValidatingBlock hv ans b
  | setStopValidatingBlock b =>
    cases Option.some.inj hr
    exact valid_setStopValidatingBlock hv ans b
  | makeReplica =>
    cases Option.some.inj hr
    exact valid_makeReplica hv ans
  | makePrimary =>
    cases Option.some.inj hr
    exact valid_makePrimary hv ans
  | newChainHead b => exact valid_newChainHead hv ans b r hr

/-- From a valid state no call compares a block number with a nil bound. -/
theorem call_isSome {n : Node} (hv : n.rs.Valid) (ans : Answers) (c : Call) :
    (n.call ans c).isSome := by
  cases c with
  | newChainHead b =>
    obtain ⟨⟨state, start, stop⟩, running, db⟩ := n
    cases state with
    | primaryInRange =>
      obtain ⟨c, rfl, -⟩ := hv
      rfl
    | replicaWaiting =>
      obtain ⟨a, rfl, -⟩ := hv
      rfl
    | primaryPermanent => rfl
    | replicaPermanent => rfl
  | _ => rfl

theorem valid_step {n : Node} (hv : n.rs.Valid) (e : Call × Answers) : (step n e).rs.Valid := by
  unfold step
  cases hr : n.call e.2 e.1 with
  | none => exact hv
  | some r => exact valid_call hv e.2 e.1 r hr

/-- **The shape is kept.** After any calls, whatever the core and the database
answer, the node's state has the bounds its comment describes. -/
theorem valid_run (es : List (Call × Answers)) {n : Node} (hv : n.rs.Valid) :
    (Run.run step n es).rs.Valid :=
  Run.run_invariant step (fun n => n.rs.Valid) (fun _ e h => valid_step h e) es n hv

/-! ## The stored form -/

theorem State.ofCode_code (s : State) : State.ofCode s.code = some s := by
  cases s <;> rfl

theorem State.code_lt (s : State) : s.code < 2 ^ 64 := by
  cases s <;> decide

/-- A positive bound survives being written as a `*big.Int` and read back. -/
theorem boundOfBig_getD {b : Option Nat} (h : ∀ x ∈ b, 0 < x) : boundOfBig (b.getD 0) = b := by
  cases b with
  | none => rfl
  | some x =>
    have hx : x ≠ 0 := Nat.pos_iff_ne_zero.mp (h x rfl)
    simp [boundOfBig, hx]

theorem ReplicaState.Valid.start_pos {rs : ReplicaState} (hv : rs.Valid) :
    ∀ a ∈ rs.startValidatingBlock, 0 < a := by
  obtain ⟨state, start, stop⟩ := rs
  intro a ha
  simp only [Option.mem_def] at ha
  subst ha
  cases state with
  | primaryPermanent => exact absurd hv.1 (by simp)
  | replicaPermanent => exact absurd hv.1 (by simp)
  | replicaWaiting =>
    obtain ⟨a', ha', hpos, -⟩ := hv
    cases Option.some.inj ha'
    exact hpos
  | primaryInRange =>
    obtain ⟨c, -, -, hstart⟩ := hv
    exact (hstart a rfl).1

theorem ReplicaState.Valid.stop_pos {rs : ReplicaState} (hv : rs.Valid) :
    ∀ c ∈ rs.stopValidatingBlock, 0 < c := by
  obtain ⟨state, start, stop⟩ := rs
  intro c hc
  simp only [Option.mem_def] at hc
  subst hc
  cases state with
  | primaryPermanent => exact absurd hv.2 (by simp)
  | replicaPermanent => exact absurd hv.2 (by simp)
  | replicaWaiting =>
    obtain ⟨a, -, hpos, hstop⟩ := hv
    have := hstop c rfl
    omega
  | primaryInRange =>
    obtain ⟨c', hc', hpos, -⟩ := hv
    cases Option.some.inj hc'
    exact hpos

/-- **Round trip.** `DecodeRLP` reads back what `EncodeRLP` wrote, for every
valid state whose encoding has a `uint64` length. -/
theorem decodeRLP_encodeRLP {rs : ReplicaState} (hv : rs.Valid)
    (hlen : rs.encodeRLP.length < 2 ^ 64) : decodeRLP rs.encodeRLP = some rs := by
  unfold decodeRLP
  rw [ReplicaState.encodeRLP, Rlp.decode_encode hlen]
  simp only [ReplicaState.toItem, Rlp.decodeUint_encodeUint rs.state.code_lt, Option.bind_some,
    State.ofCode_code, Rlp.decodeBigInt_encodeUint, Option.bind_eq_bind, Option.pure_def,
    boundOfBig_getD hv.start_pos, boundOfBig_getD hv.stop_pos]

/-- The database holds the encoding of the node's state. -/
def Node.Persisted (n : Node) : Prop := n.db = some n.rs.encodeRLP

/-- A failed write is undone: the core switches back and the state is rolled
back. Every answer with a successful write, or with starts and stops that
succeed, is such. -/
def Answers.Undoable (ans : Answers) : Prop :=
  ans.storeOk = true ∨ (ans.startOk = true ∧ ans.stopOk = true)

theorem Node.save_persisted {n : Node} (hp : n.Persisted) (ok : Bool) (method : String)
    (rs : ReplicaState) : (n.save ok method rs).1.Persisted := by
  unfold Node.save
  cases ok
  · exact hp
  · rfl

theorem persisted_setStartValidatingBlock {n : Node} (hp : n.Persisted) (ans : Answers)
    (b : Nat) : (setStartValidatingBlock n ans b).1.Persisted := by
  unfold setStartValidatingBlock
  split_ifs
  · exact hp
  · exact hp
  · split
    · exact Node.save_persisted hp _ _ _
    · exact Node.save_persisted hp _ _ _
    · exact hp

theorem persisted_setStopValidatingBlock {n : Node} (hp : n.Persisted) (ans : Answers)
    (b : Nat) : (setStopValidatingBlock n ans b).1.Persisted := by
  unfold setStopValidatingBlock
  split_ifs
  · exact hp
  · exact hp
  · split
    · exact Node.save_persisted hp _ _ _
    · exact Node.save_persisted hp _ _ _
    · exact hp
    · exact Node.save_persisted hp _ _ _

theorem persisted_makeReplica {n : Node} (hp : n.Persisted) {ans : Answers}
    (hu : ans.Undoable) : (makeReplica n ans).1.Persisted := by
  unfold makeReplica
  dsimp only
  -- only a failed write whose restart fails leaves the old bytes under a new state
  split_ifs <;> simp_all [Node.Persisted, Answers.Undoable]

theorem persisted_makePrimary {n : Node} (hp : n.Persisted) {ans : Answers}
    (hu : ans.Undoable) : (makePrimary n ans).1.Persisted := by
  unfold makePrimary
  dsimp only
  split_ifs <;> simp_all [Node.Persisted, Answers.Undoable]

theorem persisted_newChainHead {n : Node} (hp : n.Persisted) {ans : Answers}
    (hu : ans.Undoable) (b : Nat) : ∀ r ∈ newChainHead n ans b, r.1.Persisted := by
  intro r hr
  -- a failed write whose switch back fails is the one outcome left with the old bytes
  have hundo : ans.storeOk = false → ans.startOk = true ∧ ans.stopOk = true := by
    intro h
    simpa [Answers.Undoable, h] using hu
  unfold newChainHead at hr
  split at hr
  · obtain ⟨c, -, rfl⟩ := Option.map_eq_some_iff.mp hr
    split_ifs with hcb hstop hstore hstart
    · exact hp
    · rfl
    · exact hp
    · exact absurd (hundo (Bool.eq_false_iff.mpr hstore)).1 hstart
    · exact hp
  · obtain ⟨a, -, rfl⟩ := Option.map_eq_some_iff.mp hr
    split_ifs with hab hstart hstore hstop
    · exact hp
    · rfl
    · exact hp
    · exact absurd (hundo (Bool.eq_false_iff.mpr hstore)).2 hstop
    · exact hp
  · cases Option.some.inj hr
    exact hp

theorem persisted_step {n : Node} (hp : n.Persisted) {e : Call × Answers}
    (hu : e.2.Undoable) : (step n e).Persisted := by
  unfold step
  cases hr : n.call e.2 e.1 with
  | none => exact hp
  | some r =>
    show r.1.Persisted
    obtain ⟨c, ans⟩ := e
    cases c with
    | setStartValidatingBlock b =>
      cases Option.some.inj hr
      exact persisted_setStartValidatingBlock hp ans b
    | setStopValidatingBlock b =>
      cases Option.some.inj hr
      exact persisted_setStopValidatingBlock hp ans b
    | makeReplica =>
      cases Option.some.inj hr
      exact persisted_makeReplica hp hu
    | makePrimary =>
      cases Option.some.inj hr
      exact persisted_makePrimary hp hu
    | newChainHead b => exact persisted_newChainHead hp hu b r hr

theorem persisted_init (isReplica : Bool) : (Node.init isReplica).Persisted := rfl

theorem newState_some (isReplica : Bool) (raw : List UInt8) :
    newState isReplica (some raw) = decodeRLP raw := rfl

/-- **A restart reads the state back.** After any run from the first startup
in which every failed write is undone, `NewState` on the database the node
left returns the node's state, provided its encoding has a `uint64` length. -/
theorem restart_recovers (isReplica : Bool) (es : List (Call × Answers))
    (hu : ∀ e ∈ es, e.2.Undoable)
    (hlen : (Run.run step (Node.init isReplica) es).rs.encodeRLP.length < 2 ^ 64) :
    newState isReplica (Run.run step (Node.init isReplica) es).db =
      some (Run.run step (Node.init isReplica) es).rs := by
  have hp : (Run.run step (Node.init isReplica) es).Persisted :=
    Run.run_invariant_of_forall step Node.Persisted (fun e => e.2.Undoable)
      (fun _ _ he hp => persisted_step hp he) es _ hu (persisted_init isReplica)
  rw [hp, newState_some]
  exact decodeRLP_encodeRLP (valid_run es (valid_init isReplica)) hlen

/-- A primary hands over to a replica at block 10: it sets the stop block,
then becomes a waiting replica. -/
def handoverCalls : List (Call × Answers) :=
  [(.setStopValidatingBlock 10, ⟨true, true, true⟩), (.makeReplica, ⟨true, true, true⟩)]

theorem restart_recovers_handover :
    (∀ e ∈ handoverCalls, e.2.Undoable) ∧
      (Run.run step (Node.init false) handoverCalls).rs.encodeRLP.length < 2 ^ 64 ∧
      newState false (Run.run step (Node.init false) handoverCalls).db =
        some (Run.run step (Node.init false) handoverCalls).rs := by
  have hu : ∀ e ∈ handoverCalls, e.2.Undoable := by simp [handoverCalls, Answers.Undoable]
  have hlen : (Run.run step (Node.init false) handoverCalls).rs.encodeRLP.length < 2 ^ 64 := by
    decide
  exact ⟨hu, hlen, restart_recovers false handoverCalls hu hlen⟩

/-! ## The core and the primary role -/

/-- The core runs exactly on a primary. -/
def Node.Consistent (n : Node) : Prop := n.running = n.rs.isPrimary

theorem Node.save_running (n : Node) (ok : Bool) (method : String) (rs : ReplicaState) :
    (n.save ok method rs).1.running = n.running := by
  unfold Node.save
  cases ok <;> rfl

theorem Node.save_isPrimary {n : Node} {rs : ReplicaState} (h : rs.isPrimary = n.rs.isPrimary)
    (ok : Bool) (method : String) : (n.save ok method rs).1.rs.isPrimary = n.rs.isPrimary := by
  rw [Node.save_rs]
  cases ok
  · rfl
  · exact h

/-- The setters never touch the core, and never make a primary of a replica
or the reverse. -/
theorem setStartValidatingBlock_frame (n : Node) (ans : Answers) (b : Nat) :
    (setStartValidatingBlock n ans b).1.running = n.running ∧
      (setStartValidatingBlock n ans b).1.rs.isPrimary = n.rs.isPrimary := by
  obtain ⟨⟨state, start, stop⟩, running, db⟩ := n
  unfold setStartValidatingBlock
  split_ifs
  · exact ⟨rfl, rfl⟩
  · exact ⟨rfl, rfl⟩
  · -- a setter moves between two replica states or two primary states
    cases state with
    | replicaPermanent =>
      dsimp only
      exact ⟨Node.save_running _ _ _ _, Node.save_isPrimary (by rfl) _ _⟩
    | replicaWaiting =>
      dsimp only
      exact ⟨Node.save_running _ _ _ _, Node.save_isPrimary (by rfl) _ _⟩
    | primaryPermanent => exact ⟨rfl, rfl⟩
    | primaryInRange => exact ⟨rfl, rfl⟩

theorem setStopValidatingBlock_frame (n : Node) (ans : Answers) (b : Nat) :
    (setStopValidatingBlock n ans b).1.running = n.running ∧
      (setStopValidatingBlock n ans b).1.rs.isPrimary = n.rs.isPrimary := by
  obtain ⟨⟨state, start, stop⟩, running, db⟩ := n
  unfold setStopValidatingBlock
  split_ifs
  · exact ⟨rfl, rfl⟩
  · exact ⟨rfl, rfl⟩
  · cases state with
    | primaryPermanent =>
      dsimp only
      exact ⟨Node.save_running _ _ _ _, Node.save_isPrimary (by rfl) _ _⟩
    | primaryInRange =>
      dsimp only
      exact ⟨Node.save_running _ _ _ _, Node.save_isPrimary (by rfl) _ _⟩
    | replicaPermanent => exact ⟨rfl, rfl⟩
    | replicaWaiting =>
      dsimp only
      exact ⟨Node.save_running _ _ _ _, Node.save_isPrimary (by rfl) _ _⟩

theorem consistent_makeReplica {n : Node} (hc : n.Consistent) {ans : Answers}
    (hstart : ans.startOk = true) (hstop : ans.stopOk = true)
    (h : n.rs.isPrimary = true ∨ ans.storeOk = true) : (makeReplica n ans).1.Consistent := by
  obtain ⟨⟨state, start, stop⟩, running, db⟩ := n
  unfold makeReplica
  dsimp only
  cases state <;> split_ifs <;> simp_all [Node.Consistent, ReplicaState.isPrimary]

theorem consistent_makePrimary {n : Node} (hc : n.Consistent) {ans : Answers}
    (hstart : ans.startOk = true) (hstop : ans.stopOk = true)
    (h : n.rs.isPrimary = false ∨ ans.storeOk = true) : (makePrimary n ans).1.Consistent := by
  obtain ⟨⟨state, start, stop⟩, running, db⟩ := n
  unfold makePrimary
  dsimp only
  cases state <;> split_ifs <;> simp_all [Node.Consistent, ReplicaState.isPrimary]

theorem consistent_newChainHead {n : Node} (hc : n.Consistent) {ans : Answers}
    (hstart : ans.startOk = true) (hstop : ans.stopOk = true) (b : Nat) :
    ∀ r ∈ newChainHead n ans b, r.1.Consistent := by
  obtain ⟨⟨state, start, stop⟩, running, db⟩ := n
  intro r hr
  -- with the starts and stops succeeding, every outcome keeps the state and the
  -- core, or switches both
  cases state with
  | primaryInRange =>
    cases stop with
    | none => simp [newChainHead] at hr
    | some c =>
      simp only [newChainHead, Option.map_some, Option.mem_def, Option.some.injEq] at hr
      subst hr
      split_ifs <;> first | exact hc | rfl
  | replicaWaiting =>
    cases start with
    | none => simp [newChainHead] at hr
    | some a =>
      simp only [newChainHead, Option.map_some, Option.mem_def, Option.some.injEq] at hr
      subst hr
      cases stop <;> split_ifs <;> first | exact hc | rfl
  | primaryPermanent =>
    cases Option.some.inj hr
    exact hc
  | replicaPermanent =>
    cases Option.some.inj hr
    exact hc

/-- **The core follows the role**, after every call whose starts and stops
succeed, except the two rollbacks that switch the core of a node the method
did not switch: a failed write in `MakeReplica` of a replica and in
`MakePrimary` of a primary. -/
theorem consistent_call {n : Node} (hc : n.Consistent) {ans : Answers}
    (hstart : ans.startOk = true) (hstop : ans.stopOk = true) (c : Call)
    (hreplica : c = .makeReplica → n.rs.isPrimary = true ∨ ans.storeOk = true)
    (hprimary : c = .makePrimary → n.rs.isPrimary = false ∨ ans.storeOk = true) :
    ∀ r ∈ n.call ans c, r.1.Consistent := by
  intro r hr
  cases c with
  | setStartValidatingBlock b =>
    cases Option.some.inj hr
    obtain ⟨hrun, hprim⟩ := setStartValidatingBlock_frame n ans b
    rw [Node.Consistent, hrun, hprim]
    exact hc
  | setStopValidatingBlock b =>
    cases Option.some.inj hr
    obtain ⟨hrun, hprim⟩ := setStopValidatingBlock_frame n ans b
    rw [Node.Consistent, hrun, hprim]
    exact hc
  | makeReplica =>
    cases Option.some.inj hr
    exact consistent_makeReplica hc hstart hstop (hreplica rfl)
  | makePrimary =>
    cases Option.some.inj hr
    exact consistent_makePrimary hc hstart hstop (hprimary rfl)
  | newChainHead b => exact consistent_newChainHead hc hstart hstop b r hr

/-- A call that keeps the core with the role: its starts and stops succeed, and
so does the write of a role switch, whose rollback is the one that can toggle
the core of a node it did not switch. -/
def SteadyCall (e : Call × Answers) : Prop :=
  e.2.startOk = true ∧ e.2.stopOk = true ∧
    (e.1 = .makeReplica ∨ e.1 = .makePrimary → e.2.storeOk = true)

theorem consistent_init (isReplica : Bool) : (Node.init isReplica).Consistent := rfl

theorem consistent_step {n : Node} (hc : n.Consistent) {e : Call × Answers}
    (he : SteadyCall e) : (step n e).Consistent := by
  obtain ⟨hstart, hstop, hswitch⟩ := he
  unfold step
  cases hr : n.call e.2 e.1 with
  | none => exact hc
  | some r =>
    exact consistent_call hc hstart hstop e.1 (fun h => .inr (hswitch (.inl h)))
      (fun h => .inr (hswitch (.inr h))) r hr

/-- **The core follows the role along a run.** From the first startup, after
any calls whose starts and stops succeed and whose role switches are written
(the setters and `NewChainHead` may fail to write and roll back), the core runs
exactly when `IsPrimary` holds. -/
theorem consistent_run (isReplica : Bool) (es : List (Call × Answers))
    (hs : ∀ e ∈ es, SteadyCall e) :
    (Run.run step (Node.init isReplica) es).running =
      (Run.run step (Node.init isReplica) es).rs.isPrimary :=
  Run.run_invariant_of_forall step Node.Consistent SteadyCall
    (fun _ _ he hc => consistent_step hc he) es _ hs (consistent_init isReplica)

/-- A primary whose first stop-block write fails, then hands over at block 10,
waits for block 12, takes over again and is made a replica. -/
def roleCalls : List (Call × Answers) :=
  [(.setStopValidatingBlock 10, ⟨true, true, false⟩),
    (.setStopValidatingBlock 10, ⟨true, true, true⟩), (.newChainHead 10, ⟨true, true, true⟩),
    (.setStartValidatingBlock 12, ⟨true, true, true⟩), (.newChainHead 12, ⟨true, true, true⟩),
    (.makeReplica, ⟨true, true, true⟩)]

theorem consistent_run_roleCalls :
    (∀ e ∈ roleCalls, SteadyCall e) ∧
      (Run.run step (Node.init false) (roleCalls.take 5)).running = true ∧
      (Run.run step (Node.init false) roleCalls).running = false ∧
      (Run.run step (Node.init false) roleCalls).running =
        (Run.run step (Node.init false) roleCalls).rs.isPrimary := by
  have hs : ∀ e ∈ roleCalls, SteadyCall e := by simp [roleCalls, SteadyCall]
  exact ⟨hs, by decide, by decide, consistent_run false roleCalls hs⟩

/-- **`MakeReplica` of a replica starts its core when the write fails.** The
rollback calls `startFn` whatever the node was, so the call reports the
failure and leaves a replica whose core runs. -/
theorem makeReplica_rollback_starts_core {n : Node} (hn : n.rs.isPrimary = false)
    {ans : Answers} (hstore : ans.storeOk = false) (hstart : ans.startOk = true) :
    makeReplica n ans = ({ n with running := true }, some (.saving "MakeReplica")) := by
  simp only [ReplicaState.isPrimary] at hn
  simp [makeReplica, hn, hstore, hstart]

/-- A fresh permanent replica whose `MakeReplica` write fails: the call returns
the saving error and the state is still the permanent replica, but the core,
stopped before the call, runs after it while `IsPrimary` is false. -/
theorem makeReplica_failed_write_starts_replica_core :
    (makeReplica (Node.init true) ⟨true, true, false⟩).2 = some (.saving "MakeReplica") ∧
      (makeReplica (Node.init true) ⟨true, true, false⟩).1.rs = (Node.init true).rs ∧
      (makeReplica (Node.init true) ⟨true, true, false⟩).1.db = (Node.init true).db ∧
      (Node.init true).running = false ∧
      (makeReplica (Node.init true) ⟨true, true, false⟩).1.running = true ∧
      (makeReplica (Node.init true) ⟨true, true, false⟩).1.rs.isPrimary = false := by
  decide

/-- **`MakePrimary` of a primary stops its core when the write fails.** -/
theorem makePrimary_rollback_stops_core {n : Node} (hn : n.rs.isPrimary = true)
    {ans : Answers} (hstore : ans.storeOk = false) (hstop : ans.stopOk = true) :
    makePrimary n ans = ({ n with running := false }, some (.saving "MakePrimary")) := by
  obtain ⟨⟨state, start, stop⟩, running, db⟩ := n
  cases state <;> simp_all [makePrimary, ReplicaState.isPrimary]

/-! ## `IsPrimaryForSeq` against its comment -/

/-- What the comment on `IsPrimaryForSeq` says it decides: always on a
permanent primary, never on a permanent replica, and in the range states
exactly for `start ≤ seq < stop`, a missing bound being no bound. -/
def ReplicaState.primaryForSeqSpec (rs : ReplicaState) (seq : Nat) : Bool :=
  match rs.state with
  | .primaryPermanent => true
  | .replicaPermanent => false
  | _ => rs.startValidatingBlock.all (fun start => start ≤ seq) &&
      rs.stopValidatingBlock.all (fun stop => seq < stop)

/-- **`NewChainHead` past both bounds makes a primary out of range.** A waiting
replica whose start and stop blocks the head has both passed switches to
`primaryInRange` and starts its core, although `IsPrimaryForSeq` of that head
is false and the head lies outside the range. -/
theorem newChainHead_past_both_bounds {n : Node} {a c b : Nat}
    (hw : n.rs.state = .replicaWaiting) (ha : n.rs.startValidatingBlock = some a)
    (hc : n.rs.stopValidatingBlock = some c) (hac : a < c) (hcb : c ≤ b) :
    ∃ n', newChainHead n ⟨true, true, true⟩ b = some (n', none) ∧ n'.running = true ∧
      n'.rs.isPrimary = true ∧ n'.rs.isPrimaryForSeq b = some false ∧
      n'.rs.primaryForSeqSpec b = false := by
  obtain ⟨⟨state, start, stop⟩, running, db⟩ := n
  simp only at hw ha hc
  subst hw ha hc
  have hab : a ≤ b := by omega
  have hbc : ¬ b < c := by omega
  let primary : ReplicaState := ⟨.primaryInRange, some a, some c⟩
  refine ⟨⟨primary, true, some primary.encodeRLP⟩, ?_, rfl, rfl, ?_, ?_⟩
  · simp [newChainHead, hab, primary]
  · simp [ReplicaState.isPrimaryForSeq, primary, hbc]
  · simp [ReplicaState.primaryForSeqSpec, primary, hbc]

end CeloBlockchain.Replica

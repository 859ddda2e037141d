import Kvdb.Hold.Storer
import Kvdb.Badger.Engine

/-!
# Sequences under concurrent calls

`getSequence` (store.go) caches one badger sequence per type name in the store's
`sync.Map`. The atomic steps of a call are the map's `Load`; when it misses,
`GetSequence`'s checks, the read and the commit of its first lease's transaction, and
the map's `Store`; then `Next` on the handle. `Next` holds the handle's mutex, and when
the lease is used up it reads and commits a new lease in two steps. A commit fails with
`ErrConflict` when another commit wrote the key since the read. Calls on one store
interleave in any order, and new calls may start at any time.
-/

set_option autoImplicit false

namespace Kvdb.Hold

open Go Badger

/-- Where a call of `getSequence(typeName)` stands between its atomic steps. -/
inductive SeqPc where
  /-- Before `s.sequences.Load(typeName)`. -/
  | load
  /-- The `Load` missed: before `GetSequence`. -/
  | lease
  /-- `GetSequence`'s first lease read the counter; before its commit. -/
  | leasing (read : SeqRead)
  /-- Before `s.sequences.Store(typeName, newSeq)` of the handle at this position. -/
  | store (handle : Nat)
  /-- Before `seq.Next()` on the handle at this position. -/
  | next (handle : Nat)
  /-- `Next` holds the handle's mutex and its new lease read the counter; before the
  commit. -/
  | renewing (handle : Nat) (read : SeqRead)
  /-- Returned this value. -/
  | done (value : Nat)
  /-- Returned this error. -/
  | failed (err : GoError)
  deriving DecidableEq, Repr

/-- The handle a call is about to store or use. -/
def SeqPc.handle? : SeqPc → Option Nat
  | .store handle | .next handle | .renewing handle _ => some handle
  | _ => none

/-- One call of `getSequence`. -/
structure SeqCall where
  typeName : Bytes
  pc : SeqPc
  deriving DecidableEq, Repr

/-- What the calls share: the engine's sequence counters, every sequence handle created
so far (a handle is its position), the store's `sequences` map, and the values `Next`
handed out, in the order it did, with their type names. -/
structure SeqWorld where
  leases : Leases
  handles : List Sequence
  sequences : List (Bytes × Nat)
  issued : List (Bytes × Nat)

/-- A store just opened on a new engine: no handle and no counter. -/
def SeqWorld.empty : SeqWorld := ⟨.empty, [], [], []⟩

/-- One atomic step of a call of `getSequence`, or `none` when the call has returned or
waits for a handle's mutex. -/
def getSequence (bandwidth : Nat) (world : SeqWorld) (call : SeqCall) :
    Option (SeqWorld × SeqCall) :=
  match call.pc with
  | .load =>
    some (world, { call with pc := match world.sequences.lookup call.typeName with
      | some handle => .next handle
      | none => .lease })
  | .lease =>
    match getSequenceCheck call.typeName bandwidth with
    | some err => some (world, { call with pc := .failed err })
    | none => some (world, { call with pc := .leasing (world.leases.read call.typeName) })
  | .leasing read =>
    let seq : Sequence := ⟨call.typeName, 0, 0, bandwidth, false⟩
    match seq.commitLease world.leases read with
    | .error err => some (world, { call with pc := .failed err })
    | .ok leases =>
      some ({ world with leases := leases, handles := world.handles ++ [seq.leaseFrom read] },
        { call with pc := .store world.handles.length })
  | .store handle =>
    some ({ world with sequences := mapSet world.sequences call.typeName handle },
      { call with pc := .next handle })
  | .next handle =>
    match world.handles[handle]? with
    | none => none
    | some seq =>
      if seq.locked then none
      else if seq.leased ≤ seq.next then
        some ({ world with handles := world.handles.set handle { seq with locked := true } },
          { call with pc := .renewing handle (world.leases.read seq.key) })
      else
        some ({ world with
            handles := world.handles.set handle { seq with next := seq.next + 1 }
            issued := world.issued ++ [(call.typeName, seq.next)] },
          { call with pc := .done seq.next })
  | .renewing handle read =>
    match world.handles[handle]? with
    | none => none
    | some seq =>
      match seq.commitLease world.leases read with
      | .error err =>
        some ({ world with
            handles := world.handles.set handle { seq.leaseFrom read with locked := false } },
          { call with pc := .failed err })
      | .ok leases =>
        some ({ world with
            leases := leases
            handles := world.handles.set handle
              { seq.leaseFrom read with next := read.counter + 1, locked := false }
            issued := world.issued ++ [(call.typeName, read.counter)] },
          { call with pc := .done read.counter })
  | .done _ => none
  | .failed _ => none

/-- The shared state and the calls made so far. -/
structure SeqSystem where
  world : SeqWorld
  calls : List SeqCall

/-- An atomic step of the call at position `i`. -/
def SeqSystem.step (bandwidth : Nat) (system : SeqSystem) (i : Nat) : Option SeqSystem :=
  match system.calls[i]? with
  | none => none
  | some call => (getSequence bandwidth system.world call).map fun (world, call) =>
      ⟨world, system.calls.set i call⟩

/-- What a concurrent caller can do: start a call, or let a call take a step. -/
inductive SeqEvent where
  | start (typeName : Bytes)
  | step (call : Nat)
  deriving DecidableEq, Repr

/-- One event of a run. -/
def SeqSystem.apply (bandwidth : Nat) (system : SeqSystem) : SeqEvent → Option SeqSystem
  | .start typeName => some ⟨system.world, system.calls ++ [⟨typeName, .load⟩]⟩
  | .step i => system.step bandwidth i

/-- A run: the events in order, `none` when one of them cannot happen. -/
def SeqSystem.run (bandwidth : Nat) : SeqSystem → List SeqEvent → Option SeqSystem
  | system, [] => some system
  | system, event :: events => (system.apply bandwidth event).bind (·.run bandwidth events)

/-- The states a store's sequence calls reach from the opened store. -/
inductive SeqReachable (bandwidth : Nat) : SeqSystem → Prop where
  | init : SeqReachable bandwidth ⟨.empty, []⟩
  | step {system system' : SeqSystem} {event : SeqEvent} :
      SeqReachable bandwidth system → system.apply bandwidth event = some system' →
      SeqReachable bandwidth system'

theorem SeqReachable.run {bandwidth : Nat} :
    ∀ {system system' : SeqSystem} (events : List SeqEvent), SeqReachable bandwidth system →
      system.run bandwidth events = some system' → SeqReachable bandwidth system'
  | _, _, [], reachable, ran => by cases ran; exact reachable
  | system, _, event :: events, reachable, ran => by
      obtain ⟨next, applied, ran⟩ := Option.bind_eq_some.mp ran
      exact SeqReachable.run events (.step reachable applied) ran

/-!
## Two first calls for one type
-/

/-- Two calls for `T` start; both `Load`s miss before either `Store`s; the first lease
commits before the second reads; the second handle overwrites the first in the map; the
second call's `Next` runs first. -/
def raceSchedule : List SeqEvent :=
  [.start (goString "T"), .start (goString "T"), .step 0, .step 1, .step 0, .step 0, .step 1,
    .step 1, .step 0, .step 1, .step 1, .step 0]

/-- With bandwidth 1, the race above leaves handle 0 in the hands of the calls that
loaded it before the second `Store`. When both handles are used up, two `Next`s lease at
once: handle 1's commits, handle 0's conflicts but keeps the lease it read, and a later
`Next` on handle 0 hands out the value handle 1 handed out. -/
def conflictSchedule : List SeqEvent :=
  [.start (goString "T"), .start (goString "T"), .step 0, .step 1, .step 0, .step 0, .step 0,
    .start (goString "T"), .step 2, .start (goString "T"), .step 3, .step 1, .step 1, .step 1,
    .step 1, .step 0, .step 2, .start (goString "T"), .step 4, .step 4, .step 4, .step 2,
    .step 3]

/-- Two overlapping first calls for one type each lease a handle for it: with bandwidth
100 the map keeps only the second and the values come out as 100 and then 0; with
bandwidth 1 a `Next` whose commit conflicts keeps its lease, and 2 is handed out twice. -/
theorem getSequence_race_leases_twice :
    (∃ system, (SeqSystem.run 100 ⟨.empty, []⟩ raceSchedule) = some system ∧
      SeqReachable 100 system ∧
      system.world.handles.map (·.key) = [goString "T", goString "T"] ∧
      system.world.sequences = [(goString "T", 1)] ∧
      system.world.issued = [(goString "T", 100), (goString "T", 0)]) ∧
    ∃ system, SeqSystem.run 1 ⟨.empty, []⟩ conflictSchedule = some system ∧
      SeqReachable 1 system ∧
      system.world.issued =
        [(goString "T", 1), (goString "T", 0), (goString "T", 2), (goString "T", 2)] :=
  ⟨⟨_, rfl, SeqReachable.run raceSchedule .init rfl, by decide⟩,
    _, rfl, SeqReachable.run conflictSchedule .init rfl, by decide⟩

/-!
## What one step can do
-/

/-- What one atomic step of a call does, case by case. -/
inductive SeqStep (bandwidth : Nat) (world : SeqWorld) (call : SeqCall) :
    SeqWorld → SeqCall → Prop where
  | hit {handle : Nat} : call.pc = .load → world.sequences.lookup call.typeName = some handle →
      SeqStep bandwidth world call world { call with pc := .next handle }
  | miss : call.pc = .load → world.sequences.lookup call.typeName = none →
      SeqStep bandwidth world call world { call with pc := .lease }
  | refused {err : GoError} : call.pc = .lease → getSequenceCheck call.typeName bandwidth = some err →
      SeqStep bandwidth world call world { call with pc := .failed err }
  | read : call.pc = .lease → getSequenceCheck call.typeName bandwidth = none →
      SeqStep bandwidth world call world
        { call with pc := .leasing (world.leases.read call.typeName) }
  | conflicted {read : SeqRead} : call.pc = .leasing read →
      world.leases.commits call.typeName ≠ read.commits →
      SeqStep bandwidth world call world { call with pc := .failed .conflict }
  | leased {read : SeqRead} : call.pc = .leasing read →
      world.leases.commits call.typeName = read.commits →
      SeqStep bandwidth world call
        { world with
          leases := world.leases.write call.typeName (read.counter + bandwidth)
          handles := world.handles ++
            [⟨call.typeName, read.counter, read.counter + bandwidth, bandwidth, false⟩] }
        { call with pc := .store world.handles.length }
  | stored {handle : Nat} : call.pc = .store handle →
      SeqStep bandwidth world call
        { world with sequences := mapSet world.sequences call.typeName handle }
        { call with pc := .next handle }
  | took {handle : Nat} {seq : Sequence} : call.pc = .next handle →
      world.handles[handle]? = some seq → seq.locked = false → seq.next < seq.leased →
      SeqStep bandwidth world call
        { world with
          handles := world.handles.set handle { seq with next := seq.next + 1 }
          issued := world.issued ++ [(call.typeName, seq.next)] }
        { call with pc := .done seq.next }
  | locked {handle : Nat} {seq : Sequence} : call.pc = .next handle →
      world.handles[handle]? = some seq → seq.locked = false → seq.leased ≤ seq.next →
      SeqStep bandwidth world call
        { world with handles := world.handles.set handle { seq with locked := true } }
        { call with pc := .renewing handle (world.leases.read seq.key) }
  | renewConflicted {handle : Nat} {read : SeqRead} {seq : Sequence} :
      call.pc = .renewing handle read → world.handles[handle]? = some seq →
      world.leases.commits seq.key ≠ read.commits →
      SeqStep bandwidth world call
        { world with
          handles := world.handles.set handle { seq.leaseFrom read with locked := false } }
        { call with pc := .failed .conflict }
  | renewed {handle : Nat} {read : SeqRead} {seq : Sequence} :
      call.pc = .renewing handle read → world.handles[handle]? = some seq →
      world.leases.commits seq.key = read.commits →
      SeqStep bandwidth world call
        { world with
          leases := world.leases.write seq.key (read.counter + seq.bandwidth)
          handles := world.handles.set handle
            { seq.leaseFrom read with next := read.counter + 1, locked := false }
          issued := world.issued ++ [(call.typeName, read.counter)] }
        { call with pc := .done read.counter }

theorem getSequence_step {bandwidth : Nat} {world world' : SeqWorld} {call call' : SeqCall}
    (stepped : getSequence bandwidth world call = some (world', call')) :
    SeqStep bandwidth world call world' call' := by
  unfold getSequence at stepped
  split at stepped <;> rename_i pc
  · cases stepped
    split
    · exact .hit pc ‹_›
    · exact .miss pc ‹_›
  · split at stepped <;> cases stepped
    · exact .refused pc ‹_›
    · exact .read pc ‹_›
  · dsimp only at stepped
    split at stepped <;> rename_i committed <;> cases stepped
    · obtain ⟨differs, rfl⟩ := Leases.commit_eq_error committed
      exact .conflicted pc differs
    · obtain ⟨same, rfl⟩ := Leases.commit_eq_ok committed
      exact .leased pc same
  · cases stepped
    exact .stored pc
  · split at stepped
    · cases stepped
    · rename_i seq found
      split_ifs at stepped with held exhausted <;> cases stepped
      · exact .locked pc found (Bool.eq_false_iff.mpr held) exhausted
      · exact .took pc found (Bool.eq_false_iff.mpr held) (Nat.lt_of_not_le exhausted)
  · split at stepped
    · cases stepped
    · rename_i seq found
      split at stepped <;> rename_i committed <;> cases stepped
      · obtain ⟨differs, rfl⟩ := Leases.commit_eq_error committed
        exact .renewConflicted pc found differs
      · obtain ⟨same, rfl⟩ := Leases.commit_eq_ok committed
        exact .renewed pc found same
  · cases stepped
  · cases stepped

/-!
## Fresh worlds
-/

/-- Every value handed out or still reserved by a handle. -/
def SeqWorld.claimed (world : SeqWorld) : List (Bytes × Nat) :=
  world.issued ++ world.handles.flatMap Sequence.reserved

/-- The engine's counter for a key; zero before the first lease. -/
def SeqWorld.counter (world : SeqWorld) (key : Bytes) : Nat := (world.leases.counter key).getD 0

/-- Nothing is claimed twice, everything claimed for a key lies below the counter the
engine stores for it, and every handle leases a positive number of values. -/
structure SeqWorld.Fresh (world : SeqWorld) : Prop where
  nodup : world.claimed.Nodup
  below : ∀ claim ∈ world.claimed, claim.2 < world.counter claim.1
  bandwidth_pos : ∀ seq ∈ world.handles, 0 < seq.bandwidth

theorem SeqWorld.Fresh.empty : SeqWorld.empty.Fresh :=
  ⟨by simp [SeqWorld.claimed, SeqWorld.empty], by simp [SeqWorld.claimed, SeqWorld.empty],
    by simp [SeqWorld.empty]⟩

theorem SeqWorld.Fresh.lease {world world' : SeqWorld} (fresh : world.Fresh) {key : Bytes}
    {count : Nat} (counter : world'.leases.counter =
      Function.update world.leases.counter key (some (world.counter key + count)))
    (claimed : world'.claimed.Perm
      (world.claimed ++ (List.range' (world.counter key) count).map (key, ·)))
    (positive : ∀ seq ∈ world'.handles, 0 < seq.bandwidth) : world'.Fresh := by
  have counter' : ∀ other, world'.counter other =
      if other = key then world.counter key + count else world.counter other := by
    intro other
    by_cases same : other = key
    · subst same; simp [SeqWorld.counter, counter]
    · simp [SeqWorld.counter, counter, same]
  refine ⟨claimed.nodup_iff.mpr (List.Nodup.append fresh.nodup ?_ ?_), fun claim member => ?_,
    positive⟩
  · exact (List.nodup_range' _ _).map fun _ _ same => (Prod.mk.inj same).2
  · intro claim old new
    obtain ⟨value, inRange, rfl⟩ := List.mem_map.mp new
    have := fresh.below _ old
    simp only [List.mem_range'_1] at inRange this
    omega
  · rcases List.mem_append.mp (claimed.subset member) with old | new
    · have := fresh.below claim old
      rw [counter']
      split <;> (simp_all; try omega)
    · obtain ⟨value, inRange, rfl⟩ := List.mem_map.mp new
      simp only [List.mem_range'_1] at inRange
      simp [counter']
      omega

theorem SeqWorld.Fresh.perm {world world' : SeqWorld} (fresh : world.Fresh)
    (counter : world'.leases.counter = world.leases.counter)
    (claimed : world'.claimed.Perm world.claimed)
    (positive : ∀ seq ∈ world'.handles, 0 < seq.bandwidth) : world'.Fresh :=
  ⟨claimed.nodup_iff.mpr fresh.nodup,
    fun claim member => by
      simpa [SeqWorld.counter, counter] using fresh.below claim (claimed.subset member),
    positive⟩

theorem flatMap_set_perm {handles : List Sequence} {position : Nat} {seq seq' : Sequence}
    (found : handles[position]? = some seq) :
    ((handles.set position seq').flatMap Sequence.reserved ++ seq.reserved).Perm
      (handles.flatMap Sequence.reserved ++ seq'.reserved) := by
  obtain ⟨inside, rfl⟩ := List.getElem?_eq_some_iff.mp found
  have split :
      handles = handles.take position ++ handles[position] :: handles.drop (position + 1) := by
    rw [← List.drop_eq_getElem_cons, List.take_append_drop]
  rw [List.set_eq_take_cons_drop _ inside]
  conv_rhs => rw [split]
  simp only [List.flatMap_append, List.flatMap_cons, List.append_assoc]
  exact List.perm_iff_count.mpr fun x => by simp only [List.count_append]; omega

theorem bandwidth_pos_set {world : SeqWorld} (fresh : world.Fresh) {handle : Nat}
    {seq seq' : Sequence} (found : world.handles[handle]? = some seq)
    (width : seq'.bandwidth = seq.bandwidth) :
    ∀ other ∈ world.handles.set handle seq', 0 < other.bandwidth := by
  intro other member
  rcases List.mem_or_eq_of_mem_set member with old | rfl
  · exact fresh.bandwidth_pos other old
  · exact width ▸ fresh.bandwidth_pos seq (List.getElem?_mem found)

theorem SeqWorld.Fresh.set {world : SeqWorld} (fresh : world.Fresh) {handle : Nat}
    {seq seq' : Sequence} (found : world.handles[handle]? = some seq)
    (reserved : seq'.reserved = seq.reserved) (width : seq'.bandwidth = seq.bandwidth) :
    ({ world with handles := world.handles.set handle seq' } : SeqWorld).Fresh := by
  have swapped := List.perm_iff_count.mp (@flatMap_set_perm _ _ _ seq' found)
  refine fresh.perm rfl (List.perm_iff_count.mpr fun claim => ?_) (bandwidth_pos_set fresh found width)
  have := swapped claim
  simp only [SeqWorld.claimed, List.count_append, reserved] at this ⊢
  omega

theorem SeqWorld.Fresh.take {world : SeqWorld} (fresh : world.Fresh) {handle : Nat}
    {seq : Sequence} (found : world.handles[handle]? = some seq) (within : seq.next < seq.leased) :
    ({ world with
      handles := world.handles.set handle { seq with next := seq.next + 1 }
      issued := world.issued ++ [(seq.key, seq.next)] } : SeqWorld).Fresh := by
  have took : seq.reserved =
      (seq.key, seq.next) :: ({ seq with next := seq.next + 1 } : Sequence).reserved := by
    obtain ⟨rest, split⟩ : ∃ rest, seq.leased - seq.next = rest + 1 :=
      ⟨seq.leased - seq.next - 1, by omega⟩
    have rest' : seq.leased - (seq.next + 1) = rest := by omega
    simp only [Sequence.reserved, split, rest', List.range'_succ, List.map_cons]
  have swapped :=
    List.perm_iff_count.mp (@flatMap_set_perm _ _ _ { seq with next := seq.next + 1 } found)
  refine fresh.perm rfl (List.perm_iff_count.mpr fun claim => ?_)
    (bandwidth_pos_set fresh found rfl)
  have := swapped claim
  simp only [SeqWorld.claimed, took] at this ⊢
  simp only [List.count_append, List.count_cons, List.count_nil] at this ⊢
  omega

theorem SeqWorld.Fresh.renew {world : SeqWorld} (fresh : world.Fresh) {handle : Nat}
    {seq seq' : Sequence} (found : world.handles[handle]? = some seq)
    (exhausted : seq.leased ≤ seq.next) (key : seq'.key = seq.key)
    (next : seq'.next = world.counter seq.key + 1)
    (leased : seq'.leased = world.counter seq.key + seq.bandwidth)
    (width : seq'.bandwidth = seq.bandwidth) :
    ({ world with
      leases := world.leases.write seq.key (world.counter seq.key + seq.bandwidth)
      handles := world.handles.set handle seq'
      issued := world.issued ++ [(seq.key, world.counter seq.key)] } : SeqWorld).Fresh := by
  have positive := fresh.bandwidth_pos seq (List.getElem?_mem found)
  have emptied : seq.reserved = [] := by simp [Sequence.reserved, Nat.sub_eq_zero_of_le exhausted]
  have leased' : (List.range' (world.counter seq.key) seq.bandwidth).map (seq.key, ·) =
      (seq.key, world.counter seq.key) :: seq'.reserved := by
    obtain ⟨rest, split⟩ : ∃ rest, seq.bandwidth = rest + 1 := ⟨seq.bandwidth - 1, by omega⟩
    have rest' : seq'.leased - (world.counter seq.key + 1) = rest := by omega
    simp only [Sequence.reserved, key, next, rest', split, List.range'_succ, List.map_cons]
  have swapped := List.perm_iff_count.mp (@flatMap_set_perm _ _ _ seq' found)
  refine @SeqWorld.Fresh.lease _ _ fresh seq.key seq.bandwidth (by simp) ?_
    (bandwidth_pos_set fresh found width)
  rw [leased']
  refine List.perm_iff_count.mpr fun claim => ?_
  have := swapped claim
  simp only [SeqWorld.claimed, emptied, List.append_nil] at this ⊢
  simp only [List.count_append, List.count_cons, List.count_nil] at this ⊢
  omega

/-!
## What every reachable state satisfies
-/

/-- The read of a call's open transaction. -/
def SeqPc.read? : SeqPc → Option SeqRead
  | .leasing read | .renewing _ read => some read
  | _ => none

theorem mem_of_lookup {α : Type} {entries : List (Bytes × α)} {key : Bytes} {value : α}
    (found : entries.lookup key = some value) : (key, value) ∈ entries := by
  obtain ⟨front, back, rfl, -⟩ := List.lookup_eq_some_iff.mp found
  simp

/-- The handle at a position leases under this key. -/
def SeqWorld.Keyed (world : SeqWorld) (handle : Nat) (key : Bytes) : Prop :=
  ∃ seq, world.handles[handle]? = some seq ∧ seq.key = key

theorem SeqWorld.Keyed.extend {world world' : SeqWorld} {added : List Bytes}
    (keys : world'.handles.map Sequence.key = world.handles.map Sequence.key ++ added)
    {handle : Nat} {key : Bytes} (keyed : world.Keyed handle key) : world'.Keyed handle key := by
  obtain ⟨seq, found, rfl⟩ := keyed
  have inside : handle < (world.handles.map Sequence.key).length := by
    simpa using (List.getElem?_eq_some_iff.mp found).1
  have same : (world'.handles[handle]?).map Sequence.key = some seq.key := by
    rw [← List.getElem?_map, keys, List.getElem?_append_left inside, List.getElem?_map, found]
    rfl
  obtain ⟨seq', found', key'⟩ := Option.map_eq_some'.mp same
  exact ⟨seq', found', key'⟩

theorem keys_set {handles : List Sequence} {position : Nat} {seq seq' : Sequence}
    (found : handles[position]? = some seq) (same : seq'.key = seq.key) :
    (handles.set position seq').map Sequence.key = handles.map Sequence.key := by
  refine List.ext_getElem? fun i => ?_
  simp only [List.getElem?_map, List.getElem?_set]
  split
  · rename_i here
    subst here
    simp [found, (List.getElem?_eq_some_iff.mp found).1, same]
  · rfl

theorem SeqWorld.Keyed.unique {world : SeqWorld} {handle handle' : Nat} {key : Bytes}
    (keyed : world.Keyed handle key) (nodup : (world.handles.map Sequence.key).Nodup)
    (keyed' : world.Keyed handle' key) : handle = handle' := by
  obtain ⟨seq, found, rfl⟩ := keyed
  obtain ⟨seq', found', same⟩ := keyed'
  refine List.getElem?_inj (by simpa using (List.getElem?_eq_some_iff.mp found).1) nodup ?_
  simp [List.getElem?_map, found, found', same]

/-- What holds of a call in flight: a handle it is about to store or use leases under its
type name, the read of its open transaction is consistent, a first lease it opened has a
positive bandwidth, and a handle whose lease it renews is locked and used up. -/
structure SeqCall.Inv (bandwidth : Nat) (call : SeqCall) (world : SeqWorld) : Prop where
  keyed : ∀ handle, call.pc.handle? = some handle → world.Keyed handle call.typeName
  consistent : ∀ read, call.pc.read? = some read → read.Consistent world.leases call.typeName
  positive : ∀ read, call.pc = .leasing read → 0 < bandwidth
  renewing : ∀ handle read, call.pc = .renewing handle read →
    ∃ seq, world.handles[handle]? = some seq ∧ seq.locked = true ∧ seq.leased ≤ seq.next

theorem SeqCall.Inv.idle {bandwidth : Nat} {call : SeqCall} {world : SeqWorld}
    (noHandle : call.pc.handle? = none) (noRead : call.pc.read? = none) :
    call.Inv bandwidth world :=
  ⟨fun _ has => by simp [noHandle] at has, fun _ has => by simp [noRead] at has,
    fun _ leasing => by simp [leasing, SeqPc.read?] at noRead,
    fun _ _ renewing => by simp [renewing, SeqPc.handle?] at noHandle⟩

theorem SeqCall.Inv.holding {bandwidth : Nat} {call : SeqCall} {world : SeqWorld} {handle : Nat}
    (waiting : call.pc = .store handle ∨ call.pc = .next handle)
    (keyed : world.Keyed handle call.typeName) : call.Inv bandwidth world := by
  have same : ∀ other, call.pc.handle? = some other → other = handle := by
    rcases waiting with waiting | waiting <;> simp [waiting, SeqPc.handle?]
  refine ⟨fun other has => (same other has).symm ▸ keyed, fun _ has => ?_, fun _ leasing => ?_,
    fun _ _ renewing => ?_⟩ <;> rcases waiting with waiting | waiting <;> simp_all [SeqPc.read?]

/-- Every handle's key has a counter stored in the engine. -/
def SeqWorld.Counted (world : SeqWorld) : Prop :=
  ∀ key ∈ world.handles.map Sequence.key, (world.leases.counter key).isSome

/-- A call renewing a lease read what the engine holds under its key. -/
def SeqCall.Current (call : SeqCall) (world : SeqWorld) : Prop :=
  ∀ handle read, call.pc = .renewing handle read →
    read.commits = world.leases.commits call.typeName

/-!
### One step, part by part
-/

section Step

variable {bandwidth : Nat} {world world' : SeqWorld} {call call' : SeqCall}

theorem SeqStep.keys (step : SeqStep bandwidth world call world' call') :
    ∃ added, world'.handles.map Sequence.key = world.handles.map Sequence.key ++ added ∧
      ∀ key ∈ added, (world'.leases.counter key).isSome := by
  cases step with
  | leased => exact ⟨[call.typeName], by simp, by simp⟩
  | took _ found | locked _ found | renewConflicted _ found | renewed _ found =>
      exact ⟨[], by simpa using keys_set found rfl, by simp⟩
  | _ => exact ⟨[], by simp, by simp⟩

theorem SeqStep.leases (step : SeqStep bandwidth world call world' call') :
    world'.leases = world.leases ∨ ∃ key value, world'.leases = world.leases.write key value := by
  cases step with
  | leased => exact .inr ⟨_, _, rfl⟩
  | renewed => exact .inr ⟨_, _, rfl⟩
  | _ => exact .inl rfl

theorem SeqStep.counted (step : SeqStep bandwidth world call world' call')
    (counted : world.Counted) : world'.Counted := by
  obtain ⟨added, keys, written⟩ := step.keys
  intro key member
  rw [keys, List.mem_append] at member
  rcases member with old | new
  · rcases step.leases with same | ⟨key', value, written'⟩
    · rw [same]; exact counted key old
    · by_cases here : key = key'
      · simp [written', here]
      · simpa [written', Function.update_noteq here] using counted key old
  · exact written key new

theorem SeqStep.handle_frame (step : SeqStep bandwidth world call world' call') {handle : Nat}
    {seq : Sequence} (found : world.handles[handle]? = some seq) (held : seq.locked = true)
    (apart : ∀ read, call.pc ≠ .renewing handle read) : world'.handles[handle]? = some seq := by
  have inside := (List.getElem?_eq_some_iff.mp found).1
  cases step with
  | leased => simpa [List.getElem?_append_left inside] using found
  | @took position _ _ used free _ | @locked position _ _ used free _ =>
      have differs : position ≠ handle := by
        rintro rfl
        rw [found] at used
        cases used
        simp [held] at free
      simpa [List.getElem?_set_ne differs] using found
  | @renewConflicted position read _ renewing | @renewed position read _ renewing =>
      have differs : position ≠ handle := by
        rintro rfl
        exact apart read renewing
      simpa [List.getElem?_set_ne differs] using found
  | _ => exact found

theorem SeqStep.inv_self (step : SeqStep bandwidth world call world' call')
    (inv : call.Inv bandwidth world)
    (mapped : ∀ entry ∈ world.sequences, world.Keyed entry.2 entry.1) :
    call'.Inv bandwidth world' := by
  cases step with
  | hit _ found => exact .holding (.inr rfl) (mapped _ (mem_of_lookup found))
  | read _ checked =>
      refine ⟨fun _ has => by simp [SeqPc.handle?] at has, fun read has => ?_,
        fun _ _ => ?_, fun _ _ renewing => by simp at renewing⟩
      · simp only [SeqPc.read?, Option.some.injEq] at has
        subst has
        exact ⟨le_rfl, fun _ => rfl⟩
      · unfold getSequenceCheck at checked
        split_ifs at checked with empty zero
        exact Nat.pos_of_ne_zero zero
  | leased => exact .holding (.inl rfl) ⟨_, List.getElem?_concat_length .., rfl⟩
  | stored storing => exact .holding (.inr rfl) (inv.keyed _ (by simp [storing, SeqPc.handle?]))
  | locked calling found free exhausted =>
      rename_i handle seq
      obtain ⟨seq', found', key⟩ := inv.keyed handle (by simp [calling, SeqPc.handle?])
      rw [found] at found'
      cases found'
      have inside := (List.getElem?_eq_some_iff.mp found).1
      refine ⟨fun handle' has => ?_, fun read has => ?_, fun _ leasing => by simp at leasing,
        fun handle' read' renewing => ?_⟩
      · simp only [SeqPc.handle?, Option.some.injEq] at has
        subst has
        exact ⟨_, List.getElem?_set_self inside, key⟩
      · simp only [SeqPc.read?, Option.some.injEq] at has
        subst has
        exact key ▸ ⟨le_rfl, fun _ => rfl⟩
      · simp only [SeqPc.renewing.injEq] at renewing
        obtain ⟨rfl, -⟩ := renewing
        exact ⟨_, List.getElem?_set_self inside, rfl, exhausted⟩
  | _ => exact SeqCall.Inv.idle rfl rfl

theorem SeqStep.inv_other (step : SeqStep bandwidth world call world' call') {other : SeqCall}
    (inv : other.Inv bandwidth world)
    (apart : ∀ handle read read', other.pc = .renewing handle read' →
      call.pc ≠ .renewing handle read) :
    other.Inv bandwidth world' := by
  obtain ⟨added, keys, -⟩ := step.keys
  refine ⟨fun handle has => (inv.keyed handle has).extend keys, fun read has => ?_,
    inv.positive, fun handle read renewing => ?_⟩
  · rcases step.leases with same | ⟨written, value, written'⟩
    · rw [same]; exact inv.consistent read has
    · rw [written']; exact (inv.consistent read has).write written value
  · obtain ⟨seq, found, held, exhausted⟩ := inv.renewing handle read renewing
    exact ⟨seq, step.handle_frame found held fun read' => apart handle read' read renewing, held,
      exhausted⟩

theorem SeqStep.mapped (step : SeqStep bandwidth world call world' call')
    (inv : call.Inv bandwidth world)
    (mapped : ∀ entry ∈ world.sequences, world.Keyed entry.2 entry.1) :
    ∀ entry ∈ world'.sequences, world'.Keyed entry.2 entry.1 := by
  obtain ⟨added, keys, -⟩ := step.keys
  cases step with
  | stored storing =>
      intro entry member
      rcases List.mem_cons.mp member with rfl | old
      · exact inv.keyed _ (by simp [storing, SeqPc.handle?])
      · exact mapped entry (List.mem_of_mem_filter old)
  | _ => exact fun entry member => (mapped entry member).extend keys

theorem SeqStep.locks (step : SeqStep bandwidth world call world' call') {handle : Nat}
    {read : SeqRead} (renewing : call'.pc = .renewing handle read) :
    ∃ seq, world.handles[handle]? = some seq ∧ seq.locked = false := by
  cases step with
  | locked _ found free =>
      obtain ⟨rfl, -⟩ := SeqPc.renewing.inj renewing
      exact ⟨_, found, free⟩
  | _ => simp at renewing

theorem SeqStep.fresh (step : SeqStep bandwidth world call world' call')
    (inv : call.Inv bandwidth world) (current : call.Current world) (fresh : world.Fresh) :
    world'.Fresh := by
  cases step with
  | @leased read leasing same =>
      have counter : read.counter = world.counter call.typeName :=
        (inv.consistent read (by simp [leasing, SeqPc.read?])).2 same.symm
      refine @SeqWorld.Fresh.lease _ _ fresh call.typeName bandwidth (by simp [counter]) ?_ ?_
      · simp [SeqWorld.claimed, Sequence.reserved, counter]
      · intro seq member
        rcases List.mem_append.mp member with old | new
        · exact fresh.bandwidth_pos seq old
        · rw [List.mem_singleton.mp new]
          exact inv.positive read leasing
  | @took position _ calling found _ within =>
      obtain ⟨_, found', key⟩ := inv.keyed position (by simp [calling, SeqPc.handle?])
      cases found.symm.trans found'
      rw [← key]
      exact fresh.take found within
  | locked _ found => exact fresh.set found rfl rfl
  | @renewConflicted position _ _ renewing found differs =>
      obtain ⟨_, found', key⟩ := inv.keyed position (by simp [renewing, SeqPc.handle?])
      cases found.symm.trans found'
      exact absurd (key ▸ current _ _ renewing).symm differs
  | @renewed position read seq renewing found same =>
      obtain ⟨_, found', key⟩ := inv.keyed position (by simp [renewing, SeqPc.handle?])
      cases found.symm.trans found'
      obtain ⟨_, found'', _, exhausted⟩ := inv.renewing _ _ renewing
      cases found.symm.trans found''
      have counter : read.counter = world.counter seq.key := by
        rw [key]
        exact (inv.consistent read (by simp [renewing, SeqPc.read?])).2 (key ▸ same.symm)
      rw [← key, counter]
      exact fresh.renew found exhausted rfl rfl (by simp [Sequence.leaseFrom, counter]) rfl
  | _ => exact ⟨fresh.nodup, fresh.below, fresh.bandwidth_pos⟩

theorem SeqStep.current_self (step : SeqStep bandwidth world call world' call')
    (inv : call.Inv bandwidth world) : call'.Current world' := by
  intro handle read renewing
  cases step with
  | @locked position _ calling found =>
      obtain ⟨_, found', key⟩ := inv.keyed position (by simp [calling, SeqPc.handle?])
      cases found.symm.trans found'
      obtain ⟨-, rfl⟩ := SeqPc.renewing.inj renewing
      simp [key]
  | _ => simp at renewing

/-- With one handle per key, only the call holding a handle's mutex commits under its key. -/
theorem SeqStep.current_other (step : SeqStep bandwidth world call world' call') {other : SeqCall} (inv : other.Inv bandwidth world)
    (current : other.Current world)
    (apart : ∀ handle read read', other.pc = .renewing handle read' →
      call.pc ≠ .renewing handle read)
    (nodup : (world'.handles.map Sequence.key).Nodup) : other.Current world' := by
  intro handle read renewing
  have before := current handle read renewing
  have keyed := inv.keyed handle (by simp [renewing, SeqPc.handle?])
  obtain ⟨added, keys, -⟩ := step.keys
  have keyed' := keyed.extend keys
  cases step with
  | leased =>
      by_cases here : other.typeName = call.typeName
      · obtain ⟨_, found, -⟩ := keyed
        have := (List.getElem?_eq_some_iff.mp found).1
        have := keyed'.unique nodup ⟨_, List.getElem?_concat_length .., here.symm⟩
        omega
      · simpa [Function.update_noteq here] using before
  | @renewed position read' seq renewing' found =>
      by_cases here : other.typeName = seq.key
      · have same := keyed'.unique nodup
          ⟨_, List.getElem?_set_self (List.getElem?_eq_some_iff.mp found).1, by simp [here]⟩
        exact absurd renewing' (apart position read' read (same ▸ renewing))
      · simpa [Function.update_noteq here] using before
  | _ => exact before

end Step

/-!
### Every interleaving
-/

/-- What holds of every reachable state. No two calls hold one handle's mutex, and while
no two handles share a key, nothing is claimed twice and every renewing call read the
current counter. -/
structure SeqSystem.Inv (bandwidth : Nat) (system : SeqSystem) : Prop where
  counted : system.world.Counted
  mapped : ∀ entry ∈ system.world.sequences, system.world.Keyed entry.2 entry.1
  calls : ∀ call ∈ system.calls, call.Inv bandwidth system.world
  exclusive : ∀ (i j : Nat) (first second : SeqCall) (handle : Nat) (read read' : SeqRead),
    system.calls[i]? = some first →
    system.calls[j]? = some second → first.pc = .renewing handle read →
    second.pc = .renewing handle read' → i = j
  single : (system.world.handles.map Sequence.key).Nodup →
    system.world.Fresh ∧ ∀ call ∈ system.calls, call.Current system.world

section Run

variable {bandwidth : Nat}

theorem SeqSystem.Inv.init : (⟨.empty, []⟩ : SeqSystem).Inv bandwidth :=
  ⟨by simp [SeqWorld.Counted, SeqWorld.empty], by simp [SeqWorld.empty], by simp, by simp,
    fun _ => ⟨.empty, by simp⟩⟩

/-- One call's step keeps the invariant. -/
theorem SeqSystem.Inv.step {system : SeqSystem} (inv : system.Inv bandwidth) {i : Nat}
    {call call' : SeqCall} {world' : SeqWorld} (found : system.calls[i]? = some call)
    (step : SeqStep bandwidth system.world call world' call') :
    (⟨world', system.calls.set i call'⟩ : SeqSystem).Inv bandwidth := by
  have invCall := inv.calls call (List.getElem?_mem found)
  have inside := (List.getElem?_eq_some_iff.mp found).1
  have at_set : ∀ (j : Nat) (other : SeqCall), (system.calls.set i call')[j]? = some other →
      j = i ∧ other = call' ∨ j ≠ i ∧ system.calls[j]? = some other := by
    intro j other got
    by_cases here : j = i
    · subst here
      rw [List.getElem?_set_self inside, Option.some.injEq] at got
      exact .inl ⟨rfl, got.symm⟩
    · rw [List.getElem?_set_ne (Ne.symm here)] at got
      exact .inr ⟨here, got⟩
  have apart : ∀ (j : Nat) (other : SeqCall), j ≠ i → system.calls[j]? = some other →
      ∀ (handle : Nat) (read read' : SeqRead),
      other.pc = .renewing handle read' → call.pc ≠ .renewing handle read :=
    fun j other differs got handle read read' theirs ours =>
      differs (inv.exclusive j i other call handle read' read got found theirs ours)
  have unheld : ∀ (j : Nat) (other : SeqCall) (handle : Nat) (read read' : SeqRead), j ≠ i →
      system.calls[j]? = some other →
      call'.pc = .renewing handle read → other.pc ≠ .renewing handle read' := by
    intro j other handle read read' _ got ours theirs
    obtain ⟨seq, held, free⟩ := step.locks ours
    obtain ⟨seq', held', locked, -⟩ :=
      (inv.calls other (List.getElem?_mem got)).renewing handle read' theirs
    cases held.symm.trans held'
    simp [free] at locked
  obtain ⟨added, keys, -⟩ := step.keys
  refine ⟨step.counted inv.counted, step.mapped invCall inv.mapped, fun other member => ?_, ?_,
    fun nodup' => ?_⟩
  · obtain ⟨j, got⟩ := List.mem_iff_getElem?.mp member
    rcases at_set j other got with ⟨-, rfl⟩ | ⟨differs, got⟩
    · exact step.inv_self invCall inv.mapped
    · exact step.inv_other (inv.calls other (List.getElem?_mem got)) (apart j other differs got)
  · intro j k first second handle read read' gotFirst gotSecond renewingFirst renewingSecond
    rcases at_set j first gotFirst with ⟨rfl, rfl⟩ | ⟨differsFirst, oldFirst⟩ <;>
      rcases at_set k second gotSecond with ⟨rfl, rfl⟩ | ⟨differsSecond, oldSecond⟩
    · rfl
    · exact absurd renewingSecond (unheld k second handle read read' differsSecond oldSecond
        renewingFirst)
    · exact absurd renewingFirst (unheld j first handle read' read differsFirst oldFirst
        renewingSecond)
    · exact inv.exclusive j k first second handle read read' oldFirst oldSecond renewingFirst
        renewingSecond
  · have nodup : (system.world.handles.map Sequence.key).Nodup :=
      (List.nodup_append.mp (keys ▸ nodup')).1
    obtain ⟨fresh, current⟩ := inv.single nodup
    refine ⟨step.fresh invCall (current call (List.getElem?_mem found)) fresh,
      fun other member => ?_⟩
    obtain ⟨j, got⟩ := List.mem_iff_getElem?.mp member
    rcases at_set j other got with ⟨-, rfl⟩ | ⟨differs, got⟩
    · exact step.current_self invCall
    · exact step.current_other (inv.calls other (List.getElem?_mem got))
        (current other (List.getElem?_mem got)) (apart j other differs got) nodup'

theorem SeqSystem.Inv.start {system : SeqSystem} (inv : system.Inv bandwidth)
    (typeName : Bytes) :
    (⟨system.world, system.calls ++ [⟨typeName, .load⟩]⟩ : SeqSystem).Inv bandwidth := by
  have at_append : ∀ (j : Nat) (other : SeqCall), (system.calls ++ [⟨typeName, .load⟩])[j]? = some other →
      system.calls[j]? = some other ∨ other.pc = .load := by
    intro j other got
    by_cases inside : j < system.calls.length
    · exact .inl (by rwa [List.getElem?_append_left inside] at got)
    · rw [List.getElem?_append_right (by omega)] at got
      exact .inr (by cases List.mem_singleton.mp (List.getElem?_mem got); rfl)
  refine ⟨inv.counted, inv.mapped, fun call member => ?_, ?_, fun nodup => ?_⟩
  · rcases List.mem_append.mp member with old | new
    · exact inv.calls call old
    · rw [List.mem_singleton.mp new]
      exact SeqCall.Inv.idle rfl rfl
  · intro j k first second handle read read' gotFirst gotSecond renewingFirst renewingSecond
    rcases at_append j first gotFirst with gotFirst | loading
    · rcases at_append k second gotSecond with gotSecond | loading
      · exact inv.exclusive j k first second handle read read' gotFirst gotSecond renewingFirst
          renewingSecond
      · simp [loading] at renewingSecond
    · simp [loading] at renewingFirst
  · obtain ⟨fresh, current⟩ := inv.single nodup
    refine ⟨fresh, fun call member => ?_⟩
    rcases List.mem_append.mp member with old | new
    · exact current call old
    · intro handle read renewing
      simp [List.mem_singleton.mp new] at renewing

theorem SeqSystem.Inv.apply {system system' : SeqSystem} (inv : system.Inv bandwidth)
    {event : SeqEvent} (applied : system.apply bandwidth event = some system') :
    system'.Inv bandwidth := by
  cases event with
  | start typeName =>
      cases applied
      exact inv.start typeName
  | step i =>
      simp only [SeqSystem.apply, SeqSystem.step] at applied
      split at applied
      · cases applied
      · rename_i call found
        obtain ⟨⟨world', call'⟩, stepped, rfl⟩ := Option.map_eq_some'.mp applied
        exact inv.step found (getSequence_step stepped)

theorem SeqReachable.inv {system : SeqSystem} (reachable : SeqReachable bandwidth system) :
    system.Inv bandwidth := by
  induction reachable with
  | init => exact .init
  | step _ applied inv => exact inv.apply applied

end Run

end Kvdb.Hold

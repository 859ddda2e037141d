import Kvdb.Hold.Lifecycle
import Kvdb.Hold.SequenceOrder

/-!
# Sequences across sessions of one engine

`Open` may open an engine directory that an earlier store used. badger keeps the
counters it stores under the sequence keys; the new store starts with an empty
`sequences` map and no handle. `Close` (store.go) walks the map with `Range` and
`Release`s each handle, and a `Release` writes the handle's next value back as the
counter when no lease was taken after the handle's own.

When no two calls overlap and every session ends with `Close`, the store behaves as a
counter per type name, which hands out `0, 1, 2, ...`.
-/

set_option autoImplicit false

namespace Kvdb.Hold

open Go Badger

/-!
## Release
-/

/-- A `Release` writes the next value back only when its lease is the latest, so the
values it gives up were never handed out. -/
theorem SeqWorld.Fresh.release {world : SeqWorld} (fresh : world.Fresh) {handle : Nat}
    {seq : Sequence} (found : world.handles[handle]? = some seq) {leases : Leases}
    {released : Sequence} (ran : seq.release world.leases = .ok (leases, released)) :
    (⟨leases, world.handles.set handle released, world.sequences, world.issued⟩ :
      SeqWorld).Fresh := by
  obtain ⟨stored, storedFound, rfl, rfl⟩ := Sequence.release_eq_ok ran
  have whole : (world.issued ++ (world.handles.set handle { seq with leased := seq.next }).flatMap
      Sequence.reserved ++ seq.reserved).Perm world.claimed := by
    have swapped := @flatMap_set_perm _ _ _ { seq with leased := seq.next } found
    simp only [Sequence.reserved, Nat.sub_self, List.range'_zero, List.map_nil,
      List.append_nil] at swapped
    simpa only [SeqWorld.claimed, Sequence.reserved, List.append_assoc] using
      swapped.append_left world.issued
  have nodup := whole.nodup_iff.mpr fresh.nodup
  refine ⟨(List.nodup_append.mp nodup).1, fun claim member => ?_, fun other member => ?_⟩
  · have below := fresh.below claim (whole.subset (List.mem_append_left _ member))
    have notReserved : claim ∉ seq.reserved := (List.nodup_append.mp nodup).2.2 member
    obtain ⟨key, value⟩ := claim
    simp only [SeqWorld.counter] at below ⊢
    by_cases latest : stored = seq.leased ∧ key = seq.key
    · obtain ⟨rfl, rfl⟩ := latest
      have outside : ¬ (seq.next ≤ value ∧ value < seq.leased) := fun ⟨low, high⟩ =>
        notReserved (List.mem_map.mpr ⟨value, List.mem_range'_1.mpr ⟨low, by omega⟩, rfl⟩)
      simp only [storedFound, Option.getD_some, ↓reduceIte, Leases.write_counter,
        Function.update_same] at below ⊢
      omega
    · split
      · rename_i written
        have other : key ≠ seq.key := fun same => latest ⟨written, same⟩
        simpa [Function.update_noteq other] using below
      · exact below
  · rcases List.mem_or_eq_of_mem_set member with old | rfl
    · exact fresh.bandwidth_pos other old
    · exact fresh.bandwidth_pos seq (List.getElem?_mem found)

theorem SeqWorld.Fresh.released :
    ∀ (entries : List (Bytes × Nat)) {world : SeqWorld}, world.Fresh →
      (releaseSequences world entries).1.Fresh
  | [], _, fresh => fresh
  | (_, handle) :: rest, world, fresh => by
      unfold releaseSequences
      split
      · exact SeqWorld.Fresh.released rest fresh
      · rename_i seq found
        split
        · exact fresh
        · rename_i ran
          exact SeqWorld.Fresh.released rest (fresh.release found ran)

theorem releaseSequences_issued :
    ∀ (entries : List (Bytes × Nat)) (world : SeqWorld),
      (releaseSequences world entries).1.issued = world.issued
  | [], _ => rfl
  | (_, handle) :: rest, world => by
      unfold releaseSequences
      split
      · exact releaseSequences_issued rest world
      · split
        · rfl
        · exact releaseSequences_issued rest _

/-!
## Sessions in which no two calls overlap
-/

/-- How many values a key was handed. -/
def issuedCount (issued : List (Bytes × Nat)) (key : Bytes) : Nat :=
  issued.countP fun entry => entry.1 == key

@[simp] theorem issuedCount_append_self (issued : List (Bytes × Nat)) (key : Bytes)
    (value : Nat) : issuedCount (issued ++ [(key, value)]) key = issuedCount issued key + 1 := by
  simp [issuedCount]

theorem issuedCount_append_ne (issued : List (Bytes × Nat)) {key other : Bytes} (value : Nat)
    (different : other ≠ key) :
    issuedCount (issued ++ [(key, value)]) other = issuedCount issued other := by
  simp [issuedCount, Ne.symm different]

/-- What a sequence allocator is for: each type name counts from zero, and a call hands
out how many values its type name was handed before. As with `GetSequence`, a call for
an empty type name, or with a bandwidth of zero, fails and hands out nothing. -/
def counterNext (bandwidth : Nat) (issued : List (Bytes × Nat)) (typeName : Bytes) :
    List (Bytes × Nat) :=
  if typeName = [] ∨ bandwidth = 0 then issued
  else issued ++ [(typeName, issuedCount issued typeName)]

/-- Sessions of one engine in which no two calls overlap, each ended by `Close`: the
calls of a session run one after another on a store opened with the session's
bandwidth; `Close` walks the map in the order it lists its entries; the next `Open`
starts from the engine's counters. -/
def getSequenceSessions : SeqWorld → List (Nat × List Bytes) → SeqWorld
  | world, [] => world
  | world, (bandwidth, typeNames) :: sessions =>
    getSequenceSessions (releaseSequences (getSequenceCalls bandwidth world typeNames)
      (getSequenceCalls bandwidth world typeNames).sequences).1.reopen sessions

/-- Every handle and counter stands at the number of values its key was handed. The
handles are of distinct, non-empty keys and lease with the store's bandwidth; the
counter of a handle's key is the end of the handle's lease, and the counter of a key
with no handle is the key's count. -/
structure SeqWorld.Counting (bandwidth : Nat) (world : SeqWorld) : Prop where
  distinct : (world.handles.map Sequence.key).Nodup
  opened : ∀ seq ∈ world.handles, seq.key ≠ [] ∧ seq.bandwidth = bandwidth
  handle : ∀ seq ∈ world.handles, seq.next = issuedCount world.issued seq.key ∧
    seq.next ≤ seq.leased ∧ world.leases.counter seq.key = some seq.leased
  idle : ∀ key ∉ world.handles.map Sequence.key,
    world.counter key = issuedCount world.issued key

theorem SeqWorld.Counting.empty (bandwidth : Nat) : SeqWorld.empty.Counting bandwidth :=
  ⟨List.nodup_nil, by simp [SeqWorld.empty], by simp [SeqWorld.empty],
    fun _ _ => by simp [SeqWorld.counter, SeqWorld.empty, Leases.empty, issuedCount]⟩

private theorem mem_set_distinct {handles : List Sequence}
    (distinct : (handles.map Sequence.key).Nodup) {position : Nat} {seq seq' other : Sequence}
    (found : handles[position]? = some seq) (member : other ∈ handles.set position seq') :
    other = seq' ∨ (other ∈ handles ∧ other.key ≠ seq.key) := by
  obtain ⟨j, found'⟩ := List.mem_iff_getElem?.mp member
  rw [List.getElem?_set] at found'
  split at found'
  · split at found'
    · exact .inl (Option.some.inj found').symm
    · cases found'
  · rename_i elsewhere
    refine .inr ⟨List.getElem?_mem found', fun same => elsewhere ?_⟩
    refine List.getElem?_inj (by simpa using (List.getElem?_eq_some_iff.mp found).1) distinct ?_
    simp [List.getElem?_map, found, found', same]

section Counting

variable {bandwidth : Nat} {world : SeqWorld}

theorem SeqWorld.Counting.next (counting : world.Counting bandwidth) (positive : 0 < bandwidth)
    {handle : Nat} {seq : Sequence} (found : world.handles[handle]? = some seq) :
    (seq.nextValue world.leases).2.2 = issuedCount world.issued seq.key ∧
      (world.next handle seq seq.key).Counting bandwidth := by
  have member := List.getElem?_mem found
  obtain ⟨counted, within, stored⟩ := counting.handle seq member
  obtain ⟨named, width⟩ := counting.opened seq member
  obtain ⟨value, within', leases'⟩ := Sequence.nextValue_of_stored stored within (width ▸ positive)
  have keys := keys_set found (Sequence.nextValue_key world.leases seq)
  refine ⟨value.trans counted, ⟨by rw [SeqWorld.next_handles, keys]; exact counting.distinct,
    fun other inSet => ?_, fun other inSet => ?_, fun key absent => ?_⟩⟩
  · rcases mem_set_distinct counting.distinct found inSet with rfl | ⟨old, -⟩
    · rw [Sequence.nextValue_key, Sequence.nextValue_bandwidth]
      exact ⟨named, width⟩
    · exact counting.opened other old
  · rcases mem_set_distinct counting.distinct found inSet with rfl | ⟨old, differs⟩
    · rw [Sequence.nextValue_key, SeqWorld.next_issued, SeqWorld.next_leases, leases',
        Sequence.nextValue_next, value, counted, issuedCount_append_self]
      exact ⟨rfl, by simpa [Sequence.nextValue_next, value, counted] using within', by simp⟩
    · obtain ⟨counted', within'', stored'⟩ := counting.handle other old
      simp only [SeqWorld.next_issued, SeqWorld.next_leases, leases',
        Function.update_noteq differs, issuedCount_append_ne _ _ differs]
      exact ⟨counted', within'', stored'⟩
  · rw [SeqWorld.next_handles, keys] at absent
    have differs : key ≠ seq.key := fun same => absent (same ▸ List.mem_map_of_mem _ member)
    simp only [SeqWorld.counter, SeqWorld.next_issued, SeqWorld.next_leases, leases',
      Function.update_noteq differs, issuedCount_append_ne _ _ differs]
    exact counting.idle key absent

theorem SeqWorld.Counting.lease (counting : world.Counting bandwidth) {typeName : Bytes}
    (absent : typeName ∉ world.handles.map Sequence.key) (named : typeName ≠ [])
    (positive : 0 < bandwidth) :
    world.counter typeName = issuedCount world.issued typeName ∧
      (world.firstLease typeName bandwidth).Counting bandwidth := by
  have count := counting.idle typeName absent
  have other : ∀ seq ∈ world.handles, seq.key ≠ typeName := fun seq member same =>
    absent (same ▸ List.mem_map_of_mem _ member)
  refine ⟨count, ?_, fun seq member => ?_, fun seq member => ?_, fun key notMember => ?_⟩
  · simpa [List.nodup_append] using ⟨counting.distinct, other⟩
  · rcases List.mem_append.mp member with old | new
    · exact counting.opened seq old
    · rw [List.mem_singleton.mp new]
      exact ⟨named, rfl⟩
  · rcases List.mem_append.mp member with old | new
    · simpa [Function.update_noteq (other seq old), issuedCount_append_ne _ _ (other seq old)]
        using counting.handle seq old
    · rw [List.mem_singleton.mp new]
      exact ⟨by simp [count], by simp only; omega, by simp⟩
  · have differs : key ≠ typeName := fun same => notMember (by simp [same])
    have oldAbsent : key ∉ world.handles.map Sequence.key := fun old => notMember
      (by simp only [SeqWorld.firstLease_handles, List.map_append]; exact List.mem_append_left _ old)
    simpa [SeqWorld.counter, Function.update_noteq differs, issuedCount_append_ne _ _ differs]
      using counting.idle key oldAbsent

theorem SeqWorld.Counting.release (counting : world.Counting bandwidth) {position : Nat}
    {seq : Sequence} (found : world.handles[position]? = some seq) :
    seq.release world.leases = .ok (world.leases.write seq.key seq.next,
      { seq with leased := seq.next }) ∧
    (⟨world.leases.write seq.key seq.next,
      world.handles.set position { seq with leased := seq.next }, world.sequences,
      world.issued⟩ : SeqWorld).Counting bandwidth := by
  have member := List.getElem?_mem found
  obtain ⟨counted, -, stored⟩ := counting.handle seq member
  have keys := @keys_set _ _ _ { seq with leased := seq.next } found rfl
  refine ⟨by simp [Sequence.release, stored], ⟨by rw [keys]; exact counting.distinct,
    fun other inSet => ?_, fun other inSet => ?_, fun key absent => ?_⟩⟩
  · rcases mem_set_distinct counting.distinct found inSet with rfl | ⟨old, -⟩
    · exact counting.opened seq member
    · exact counting.opened other old
  · rcases mem_set_distinct counting.distinct found inSet with rfl | ⟨old, differs⟩
    · simpa using counted
    · simpa [Function.update_noteq differs] using counting.handle other old
  · rw [keys] at absent
    have differs : key ≠ seq.key := fun same => absent (same ▸ List.mem_map_of_mem _ member)
    simpa [SeqWorld.counter, Function.update_noteq differs] using counting.idle key absent

theorem SeqWorld.Counting.released (entries : List (Bytes × Nat))
    (counting : world.Counting bandwidth)
    (covered : ∀ position seq, world.handles[position]? = some seq →
      seq.leased = seq.next ∨ ∃ name, (name, position) ∈ entries) :
    (releaseSequences world entries).1.Counting bandwidth ∧
      ∀ seq ∈ (releaseSequences world entries).1.handles, seq.leased = seq.next := by
  induction entries generalizing world with
  | nil =>
      refine ⟨counting, fun seq member => ?_⟩
      obtain ⟨position, found⟩ := List.mem_iff_getElem?.mp member
      simpa using covered position seq found
  | cons entry rest ih =>
      obtain ⟨name, handle⟩ := entry
      have later : ∀ position, position ≠ handle → ∀ name',
          (name', position) ∈ (name, handle) :: rest → (name', position) ∈ rest :=
        fun position other name' member => (List.mem_cons.mp member).resolve_left
          fun same => other (Prod.mk.inj same).2
      unfold releaseSequences
      split
      · rename_i missing
        refine ih counting fun position seq found => (covered position seq found).imp_right ?_
        rintro ⟨name', member⟩
        refine ⟨name', later position (fun same => ?_) name' member⟩
        rw [same, missing] at found
        cases found
      · rename_i seq found
        obtain ⟨ran, counting'⟩ := counting.release found
        simp only [ran]
        refine ih counting' fun position other found' => ?_
        by_cases same : position = handle
        · subst same
          rw [List.getElem?_set_self (List.getElem?_eq_some_iff.mp found).1] at found'
          cases found'
          exact .inl rfl
        · rw [List.getElem?_set_ne (Ne.symm same)] at found'
          exact (covered position other found').imp_right fun ⟨name', member⟩ =>
            ⟨name', later position same name' member⟩

theorem SeqWorld.Counting.reopen (counting : world.Counting bandwidth)
    (settled : ∀ seq ∈ world.handles, seq.leased = seq.next) (bandwidth' : Nat) :
    world.reopen.Counting bandwidth' := by
  refine ⟨List.nodup_nil, by simp, by simp, fun key _ => ?_⟩
  by_cases present : key ∈ world.handles.map Sequence.key
  · obtain ⟨seq, member, rfl⟩ := List.mem_map.mp present
    obtain ⟨counted, -, stored⟩ := counting.handle seq member
    simp [SeqWorld.counter, stored, settled seq member, counted]
  · simpa [SeqWorld.counter] using counting.idle key present

theorem SeqWorld.Counting.call {before : List (Bytes × Nat)} (alone : world.Alone before)
    (counting : world.Counting bandwidth) (typeName : Bytes) :
    (getSequenceCall bandwidth 6 world ⟨typeName, .load⟩).1.Counting bandwidth ∧
      (getSequenceCall bandwidth 6 world ⟨typeName, .load⟩).1.issued =
        counterNext bandwidth world.issued typeName := by
  cases hit : world.sequences.lookup typeName with
  | some handle =>
      obtain ⟨seq, found, rfl⟩ := alone.mapped _ (mem_of_lookup hit)
      have member := List.getElem?_mem found
      obtain ⟨named, width⟩ := counting.opened seq member
      have positive := width ▸ alone.fresh.bandwidth_pos seq member
      obtain ⟨value, counting'⟩ := counting.next positive found
      rw [getSequenceCall_hit hit found (alone.free seq member)]
      exact ⟨counting', by simp [counterNext, named, Nat.pos_iff_ne_zero.mp positive, value]⟩
  | none =>
      cases checked : getSequenceCheck typeName bandwidth with
      | some err =>
          rw [getSequenceCall_failed hit checked]
          refine ⟨counting, ?_⟩
          unfold getSequenceCheck at checked
          split_ifs at checked with empty zero <;> simp [counterNext, *]
      | none =>
          have absent : typeName ∉ world.handles.map Sequence.key := by
            intro present
            obtain ⟨other, member, same⟩ := List.mem_map.mp present
            obtain ⟨position, found⟩ := List.mem_iff_getElem?.mp member
            have cached := alone.cached position other found
            rw [same, hit] at cached
            cases cached
          unfold getSequenceCheck at checked
          split_ifs at checked with empty zero
          obtain ⟨count, counting'⟩ :=
            counting.lease absent empty (Nat.pos_of_ne_zero zero)
          rw [getSequenceCall_leased hit (by simp [getSequenceCheck, empty, zero])]
          exact ⟨counting', by simp [counterNext, empty, zero, count]⟩

theorem SeqWorld.Counting.runCalls {before : List (Bytes × Nat)} :
    ∀ (typeNames : List Bytes) {world : SeqWorld}, world.Alone before →
      world.Counting bandwidth →
      (getSequenceCalls bandwidth world typeNames).Counting bandwidth ∧
        (getSequenceCalls bandwidth world typeNames).issued =
          typeNames.foldl (counterNext bandwidth) world.issued
  | [], _, _, counting => ⟨counting, rfl⟩
  | typeName :: rest, world, alone, counting => by
      obtain ⟨counting', issued'⟩ := counting.call alone typeName
      obtain ⟨final, issuedFinal⟩ :=
        SeqWorld.Counting.runCalls rest (alone.call bandwidth typeName) counting'
      exact ⟨final, issuedFinal.trans (by rw [issued']; rfl)⟩

end Counting

/-- Sessions of calls run one after another, each ended by `Close`, hand out what the
counter hands out. -/
theorem SeqWorld.Counting.sessions :
    ∀ (sessions : List (Nat × List Bytes)) {before : List (Bytes × Nat)} {world : SeqWorld},
      world.Alone before → (∀ bandwidth, world.Counting bandwidth) →
      (getSequenceSessions world sessions).issued =
        sessions.foldl (fun issued session => session.2.foldl (counterNext session.1) issued)
          world.issued
  | [], _, _, _, _ => rfl
  | (bandwidth, typeNames) :: sessions, _, world, alone, counting => by
      have calls := SeqWorld.Alone.runCalls bandwidth typeNames alone
      obtain ⟨countingCalls, issuedCalls⟩ :=
        SeqWorld.Counting.runCalls typeNames alone (counting bandwidth)
      obtain ⟨countingClosed, settled⟩ := countingCalls.released _ fun position seq found =>
        .inr ⟨seq.key, mem_of_lookup (calls.cached position seq found)⟩
      have issuedClosed := releaseSequences_issued (getSequenceCalls bandwidth world typeNames).sequences
        (getSequenceCalls bandwidth world typeNames)
      have later := SeqWorld.Counting.sessions sessions
        (SeqWorld.Alone.reopen (SeqWorld.Fresh.released _ calls.fresh))
        (countingClosed.reopen settled)
      rw [getSequenceSessions, later, List.foldl_cons, SeqWorld.reopen_issued, issuedClosed,
        issuedCalls]

/-- The values of each type name are `0, 1, 2, ...`, in the order they were handed out. -/
def Consecutive (issued : List (Bytes × Nat)) : Prop :=
  ∀ key, (issued.filter (·.1 == key)).map Prod.snd = List.range (issuedCount issued key)

theorem Consecutive.call {issued : List (Bytes × Nat)} (consecutive : Consecutive issued)
    (bandwidth : Nat) (typeName : Bytes) : Consecutive (counterNext bandwidth issued typeName) := by
  intro key
  unfold counterNext
  split
  · exact consecutive key
  · by_cases same : typeName = key
    · subst same
      simp [List.filter_append, consecutive typeName, List.range_succ]
    · simp [List.filter_append, consecutive key, same, issuedCount_append_ne _ _ (Ne.symm same)]

theorem Consecutive.foldl (bandwidth : Nat) :
    ∀ (typeNames : List Bytes) {issued : List (Bytes × Nat)}, Consecutive issued →
      Consecutive (typeNames.foldl (counterNext bandwidth) issued)
  | [], _, consecutive => consecutive
  | typeName :: typeNames, _, consecutive =>
      Consecutive.foldl bandwidth typeNames (consecutive.call bandwidth typeName)

theorem Consecutive.sessions :
    ∀ (sessions : List (Nat × List Bytes)) {issued : List (Bytes × Nat)}, Consecutive issued →
      Consecutive (sessions.foldl
        (fun issued session => session.2.foldl (counterNext session.1) issued) issued)
  | [], _, consecutive => consecutive
  | (bandwidth, typeNames) :: sessions, _, consecutive =>
      Consecutive.sessions sessions (Consecutive.foldl bandwidth typeNames consecutive)

/-- With a bandwidth of 2, the third call for `T` leases a second range; `Close` writes
`3` back, and the next session goes on from there. -/
example : (getSequenceSessions .empty [(2, [goString "T", goString "T", goString "T"]),
    (100, [goString "T", goString "U"])]).issued =
      [(goString "T", 0), (goString "T", 1), (goString "T", 2), (goString "T", 3),
        (goString "U", 0)] := by
  decide

end Kvdb.Hold

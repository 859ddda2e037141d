import Kvdb.Hold.Sequence

/-!
# Sequences when calls do not overlap

When each call of `getSequence` returns before the next one starts, no commit conflicts,
the store's map holds the only handle of each type name, and the values handed out for a
type name strictly increase. The same holds on a store opened on an engine earlier stores
used, whose counters stand where they left them: the values handed out after `Open` lie
above every value handed out before. The calls take the steps of `getSequence`, the same
steps the interleaving model takes; only the schedule differs.
-/

set_option autoImplicit false

namespace Kvdb.Hold

open Go Badger

/-- A call whose steps run with no other call in between, for at most `fuel` steps. -/
def getSequenceCall (bandwidth : Nat) : Nat → SeqWorld → SeqCall → SeqWorld × SeqCall
  | 0, world, call => (world, call)
  | fuel + 1, world, call =>
    match getSequence bandwidth world call with
    | none => (world, call)
    | some (world', call') => getSequenceCall bandwidth fuel world' call'

/-- Calls one after another, each returning before the next starts; a call takes at most
six steps. -/
def getSequenceCalls (bandwidth : Nat) (world : SeqWorld) (typeNames : List Bytes) :
    SeqWorld :=
  typeNames.foldl
    (fun world typeName => (getSequenceCall bandwidth 6 world ⟨typeName, .load⟩).1) world

/-- The store a later `Open` of the same engine starts with: the counters the engine
stored, no handle and no map entry. The values handed out before are kept, to speak
about every value the engine handed out. -/
def SeqWorld.reopen (world : SeqWorld) : SeqWorld := ⟨world.leases, [], [], world.issued⟩

/-- `Next` on a free handle, with no other commit inside its lease's transaction. -/
def SeqWorld.next (world : SeqWorld) (handle : Nat) (seq : Sequence) (typeName : Bytes) :
    SeqWorld :=
  ⟨(seq.nextValue world.leases).1, world.handles.set handle (seq.nextValue world.leases).2.1,
    world.sequences, world.issued ++ [(typeName, (seq.nextValue world.leases).2.2)]⟩

/-- A call whose `Load` missed, with no other commit inside its first lease: `GetSequence`
leases at the key's counter, the map's `Store`, and `Next` hands out the lease's first
value. -/
def SeqWorld.firstLease (world : SeqWorld) (typeName : Bytes) (bandwidth : Nat) : SeqWorld :=
  ⟨world.leases.write typeName (world.counter typeName + bandwidth),
    world.handles ++ [⟨typeName, world.counter typeName + 1,
      world.counter typeName + bandwidth, bandwidth, false⟩],
    mapSet world.sequences typeName world.handles.length,
    world.issued ++ [(typeName, world.counter typeName)]⟩

@[simp] theorem SeqWorld.reopen_leases (world : SeqWorld) : world.reopen.leases = world.leases :=
  rfl

@[simp] theorem SeqWorld.reopen_handles (world : SeqWorld) : world.reopen.handles = [] := rfl

@[simp] theorem SeqWorld.reopen_sequences (world : SeqWorld) : world.reopen.sequences = [] := rfl

@[simp] theorem SeqWorld.reopen_issued (world : SeqWorld) : world.reopen.issued = world.issued :=
  rfl

@[simp] theorem SeqWorld.next_leases (world : SeqWorld) (handle : Nat) (seq : Sequence)
    (typeName : Bytes) : (world.next handle seq typeName).leases = (seq.nextValue world.leases).1 :=
  rfl

@[simp] theorem SeqWorld.next_handles (world : SeqWorld) (handle : Nat) (seq : Sequence)
    (typeName : Bytes) :
    (world.next handle seq typeName).handles =
      world.handles.set handle (seq.nextValue world.leases).2.1 :=
  rfl

@[simp] theorem SeqWorld.next_sequences (world : SeqWorld) (handle : Nat) (seq : Sequence)
    (typeName : Bytes) : (world.next handle seq typeName).sequences = world.sequences :=
  rfl

@[simp] theorem SeqWorld.next_issued (world : SeqWorld) (handle : Nat) (seq : Sequence)
    (typeName : Bytes) :
    (world.next handle seq typeName).issued =
      world.issued ++ [(typeName, (seq.nextValue world.leases).2.2)] :=
  rfl

@[simp] theorem SeqWorld.firstLease_leases (world : SeqWorld) (typeName : Bytes) (bandwidth : Nat) :
    (world.firstLease typeName bandwidth).leases =
      world.leases.write typeName (world.counter typeName + bandwidth) :=
  rfl

@[simp] theorem SeqWorld.firstLease_handles (world : SeqWorld) (typeName : Bytes)
    (bandwidth : Nat) :
    (world.firstLease typeName bandwidth).handles = world.handles ++ [⟨typeName,
      world.counter typeName + 1, world.counter typeName + bandwidth, bandwidth, false⟩] :=
  rfl

@[simp] theorem SeqWorld.firstLease_sequences (world : SeqWorld) (typeName : Bytes)
    (bandwidth : Nat) :
    (world.firstLease typeName bandwidth).sequences =
      mapSet world.sequences typeName world.handles.length :=
  rfl

@[simp] theorem SeqWorld.firstLease_issued (world : SeqWorld) (typeName : Bytes)
    (bandwidth : Nat) :
    (world.firstLease typeName bandwidth).issued =
      world.issued ++ [(typeName, world.counter typeName)] :=
  rfl

/-!
## Whole calls
-/

theorem getSequenceCall_hit {bandwidth : Nat} {world : SeqWorld} {typeName : Bytes}
    {handle : Nat} {seq : Sequence} (hit : world.sequences.lookup typeName = some handle)
    (found : world.handles[handle]? = some seq) (free : seq.locked = false) :
    getSequenceCall bandwidth 6 world ⟨typeName, .load⟩ =
      (world.next handle seq typeName, ⟨typeName, .done (seq.nextValue world.leases).2.2⟩) := by
  have inside := (List.getElem?_eq_some_iff.mp found).1
  by_cases exhausted : seq.leased ≤ seq.next
  · simp [getSequenceCall, getSequence, hit, found, free, exhausted, inside,
      Sequence.commitLease, Leases.commit_read, SeqWorld.next, Sequence.nextValue,
      Sequence.updateLease, Sequence.leaseFrom]
  · simp [getSequenceCall, getSequence, hit, found, free, exhausted, SeqWorld.next,
      Sequence.nextValue]

theorem getSequenceCall_failed {bandwidth : Nat} {world : SeqWorld} {typeName : Bytes}
    {err : GoError} (missed : world.sequences.lookup typeName = none)
    (refused : getSequenceCheck typeName bandwidth = some err) :
    getSequenceCall bandwidth 6 world ⟨typeName, .load⟩ = (world, ⟨typeName, .failed err⟩) := by
  simp [getSequenceCall, getSequence, missed, refused]

/-- A call whose `Load` misses: its first lease commits at the counter. -/
theorem getSequenceCall_leased {bandwidth : Nat} {world : SeqWorld} {typeName : Bytes}
    (missed : world.sequences.lookup typeName = none)
    (checked : getSequenceCheck typeName bandwidth = none) :
    getSequenceCall bandwidth 6 world ⟨typeName, .load⟩ =
      (world.firstLease typeName bandwidth, ⟨typeName, .done (world.counter typeName)⟩) := by
  have unused : ∀ counter, ¬ counter + bandwidth ≤ counter := by
    unfold getSequenceCheck at checked
    split_ifs at checked with empty zero
    omega
  simp [getSequenceCall, getSequence, missed, checked, Sequence.commitLease, Leases.commit_read,
    Sequence.leaseFrom, unused, SeqWorld.counter, SeqWorld.firstLease]

/-!
## Between two calls
-/

/-- The values handed out after `before`: for each type name they increase, and lie above
every value `before` handed out for it. -/
def IncreasingAfter (before issued : List (Bytes × Nat)) : Prop :=
  ∃ session, issued = before ++ session ∧
    session.Pairwise (fun a b => a.1 = b.1 → a.2 < b.2) ∧
    ∀ a ∈ before, ∀ b ∈ session, a.1 = b.1 → a.2 < b.2

theorem IncreasingAfter.append {before issued : List (Bytes × Nat)}
    (increasing : IncreasingAfter before issued) {key : Bytes} {value : Nat}
    (above : ∀ a ∈ issued, a.1 = key → a.2 < value) :
    IncreasingAfter before (issued ++ [(key, value)]) := by
  obtain ⟨session, rfl, pairwise, cross⟩ := increasing
  refine ⟨session ++ [(key, value)], List.append_assoc ..,
    List.pairwise_append.mpr ⟨pairwise, List.pairwise_singleton _ _, fun a old b new => ?_⟩,
    fun a old b new => ?_⟩
  · rw [List.mem_singleton.mp new]
    exact above a (List.mem_append_right _ old)
  · rcases List.mem_append.mp new with new | new
    · exact cross a old b new
    · rw [List.mem_singleton.mp new]
      exact above a (List.mem_append_left _ old)

/-- What holds between two calls: every handle is the map's for its key, free, and ahead
of the values handed out for its key, and the values handed out since `before` increase. -/
structure SeqWorld.Alone (before : List (Bytes × Nat)) (world : SeqWorld) : Prop where
  fresh : world.Fresh
  mapped : ∀ entry ∈ world.sequences, world.Keyed entry.2 entry.1
  cached : ∀ handle seq, world.handles[handle]? = some seq →
    world.sequences.lookup seq.key = some handle
  free : ∀ seq ∈ world.handles, seq.locked = false
  ahead : ∀ seq ∈ world.handles, ∀ value, (seq.key, value) ∈ world.issued → value < seq.next
  increasing : IncreasingAfter before world.issued

theorem SeqWorld.Fresh.reopen {world : SeqWorld} (fresh : world.Fresh) : world.reopen.Fresh :=
  ⟨by simpa [SeqWorld.claimed] using (List.nodup_append.mp fresh.nodup).1,
    fun claim member => by
      simpa [SeqWorld.counter] using
        fresh.below claim (List.mem_append_left _ (by simpa [SeqWorld.claimed] using member)),
    by simp⟩

theorem SeqWorld.Alone.reopen {world : SeqWorld} (fresh : world.Fresh) :
    world.reopen.Alone world.issued :=
  ⟨fresh.reopen, by simp, by simp, by simp, by simp, ⟨[], by simp, by simp, by simp⟩⟩

section Alone

variable {before : List (Bytes × Nat)} {world : SeqWorld}

theorem SeqWorld.Alone.value_gt (alone : world.Alone before) {handle : Nat} {seq : Sequence}
    (found : world.handles[handle]? = some seq) {value : Nat}
    (issued : (seq.key, value) ∈ world.issued) : value < (seq.nextValue world.leases).2.2 := by
  unfold Sequence.nextValue
  split
  · simpa [Sequence.updateLease, Sequence.leaseFrom, SeqWorld.counter] using
      alone.fresh.below _ (List.mem_append_left _ issued)
  · exact alone.ahead seq (List.getElem?_mem found) value issued

theorem SeqWorld.Fresh.next (fresh : world.Fresh) {handle : Nat} {seq : Sequence}
    (found : world.handles[handle]? = some seq) : (world.next handle seq seq.key).Fresh := by
  by_cases exhausted : seq.leased ≤ seq.next
  · have renewed := @SeqWorld.Fresh.renew _ fresh _ _ ⟨seq.key, world.counter seq.key + 1,
      world.counter seq.key + seq.bandwidth, seq.bandwidth, seq.locked⟩ found exhausted rfl rfl
      rfl rfl
    simpa [SeqWorld.next, Sequence.nextValue, exhausted, Sequence.updateLease,
      Sequence.leaseFrom, SeqWorld.counter] using renewed
  · have took := fresh.take found (Nat.lt_of_not_le exhausted)
    simpa [SeqWorld.next, Sequence.nextValue, exhausted] using took

theorem SeqWorld.Alone.same_handle (alone : world.Alone before) {i j : Nat}
    {seq seq' : Sequence} (found : world.handles[i]? = some seq)
    (found' : world.handles[j]? = some seq') (same : seq.key = seq'.key) : i = j := by
  have cached := alone.cached i seq found
  rw [same, alone.cached j seq' found'] at cached
  exact (Option.some.inj cached).symm

theorem SeqWorld.Alone.next (alone : world.Alone before) {handle : Nat} {seq : Sequence}
    (found : world.handles[handle]? = some seq) :
    (world.next handle seq seq.key).Alone before := by
  have inside := (List.getElem?_eq_some_iff.mp found).1
  have keys := keys_set found (Sequence.nextValue_key world.leases seq)
  refine ⟨alone.fresh.next found, fun entry member => ?_, fun other seq' found' => ?_,
    fun seq' member => ?_, fun seq' member value issued => ?_,
    alone.increasing.append fun a old same => ?_⟩
  · exact @SeqWorld.Keyed.extend _ _ [] (by simpa using keys) _ _ (alone.mapped entry member)
  · by_cases here : other = handle
    · subst here
      rw [SeqWorld.next_handles, List.getElem?_set_self inside] at found'
      cases found'
      rw [Sequence.nextValue_key]
      exact alone.cached other seq found
    · rw [SeqWorld.next_handles, List.getElem?_set_ne (Ne.symm here)] at found'
      exact alone.cached other seq' found'
  · rcases List.mem_or_eq_of_mem_set member with old | rfl
    · exact alone.free seq' old
    · rw [Sequence.nextValue_locked]
      exact alone.free seq (List.getElem?_mem found)
  · obtain ⟨position, found'⟩ := List.mem_iff_getElem?.mp member
    rw [SeqWorld.next_issued] at issued
    by_cases here : position = handle
    · subst here
      rw [SeqWorld.next_handles, List.getElem?_set_self inside] at found'
      cases found'
      rw [Sequence.nextValue_key] at issued
      rw [Sequence.nextValue_next]
      rcases List.mem_append.mp issued with old | new
      · exact Nat.lt_succ_of_lt (alone.value_gt found old)
      · simp only [List.mem_singleton, Prod.mk.injEq] at new
        omega
    · rw [SeqWorld.next_handles, List.getElem?_set_ne (Ne.symm here)] at found'
      rcases List.mem_append.mp issued with old | new
      · exact alone.ahead seq' (List.getElem?_mem found') value old
      · simp only [List.mem_singleton, Prod.mk.injEq] at new
        exact absurd (alone.same_handle found' found new.1) here
  · obtain ⟨key, value⟩ := a
    simp only at same
    subst same
    exact alone.value_gt found old

theorem SeqWorld.Fresh.first (fresh : world.Fresh) {bandwidth : Nat} (positive : 0 < bandwidth)
    (typeName : Bytes) : (world.firstLease typeName bandwidth).Fresh := by
  obtain ⟨rest, rfl⟩ : ∃ rest, bandwidth = rest + 1 := ⟨bandwidth - 1, by omega⟩
  refine @SeqWorld.Fresh.lease _ _ fresh typeName (rest + 1)
    (by simp [SeqWorld.firstLease, SeqWorld.counter]) (List.perm_iff_count.mpr fun claim => ?_)
    fun seq member => ?_
  · have rest' : world.counter typeName + (rest + 1) - (world.counter typeName + 1) = rest := by
      omega
    simp only [SeqWorld.firstLease, SeqWorld.claimed, List.flatMap_append,
      List.flatMap_singleton, Sequence.reserved, rest', List.range'_succ, List.map_cons]
    simp only [List.count_append, List.count_cons, List.count_nil]
    omega
  · rcases List.mem_append.mp member with old | new
    · exact fresh.bandwidth_pos seq old
    · rw [List.mem_singleton.mp new]
      exact positive

theorem SeqWorld.Alone.lease (alone : world.Alone before) {bandwidth : Nat} {typeName : Bytes}
    (missed : world.sequences.lookup typeName = none) (positive : 0 < bandwidth) :
    (world.firstLease typeName bandwidth).Alone before := by
  have absent : ∀ seq ∈ world.handles, seq.key ≠ typeName := fun seq member same => by
    obtain ⟨position, found⟩ := List.mem_iff_getElem?.mp member
    have cached := alone.cached position seq found
    rw [same, missed] at cached
    cases cached
  have below : ∀ a ∈ world.issued, a.1 = typeName → a.2 < world.counter typeName :=
    fun a member same => same ▸ alone.fresh.below a (List.mem_append_left _ member)
  refine ⟨alone.fresh.first positive typeName, fun entry member => ?_,
    fun handle seq found => ?_, fun seq member => ?_, fun seq member value issued => ?_,
    alone.increasing.append below⟩
  · rcases List.mem_cons.mp member with rfl | old
    · exact ⟨_, List.getElem?_concat_length .., rfl⟩
    · exact @SeqWorld.Keyed.extend _ _ [typeName] (by simp [SeqWorld.firstLease]) _ _
        (alone.mapped entry (List.mem_of_mem_filter old))
  · dsimp only [SeqWorld.firstLease] at found ⊢
    by_cases old : handle < world.handles.length
    · rw [List.getElem?_append_left old] at found
      rw [lookup_mapSet_ne _ _ (absent seq (List.getElem?_mem found)).symm]
      exact alone.cached handle seq found
    · have bound := (List.getElem?_eq_some_iff.mp found).1
      simp only [List.length_append, List.length_singleton] at bound
      have last : handle = world.handles.length := by omega
      subst last
      rw [List.getElem?_concat_length, Option.some.injEq] at found
      subst found
      exact lookup_mapSet_self _ _ _
  · rcases List.mem_append.mp member with old | new
    · exact alone.free seq old
    · rw [List.mem_singleton.mp new]
  · rcases List.mem_append.mp member with old | new
    · rcases List.mem_append.mp issued with issued | new
      · exact alone.ahead seq old value issued
      · simp only [List.mem_singleton, Prod.mk.injEq] at new
        exact absurd new.1 (absent seq old)
    · obtain rfl := List.mem_singleton.mp new
      show value < world.counter typeName + 1
      rcases List.mem_append.mp issued with issued | new
      · exact Nat.lt_succ_of_lt (below _ issued rfl)
      · simp only [List.mem_singleton, Prod.mk.injEq] at new
        omega

/-- A whole call keeps what holds between calls. -/
theorem SeqWorld.Alone.call (alone : world.Alone before) (bandwidth : Nat) (typeName : Bytes) :
    (getSequenceCall bandwidth 6 world ⟨typeName, .load⟩).1.Alone before := by
  cases hit : world.sequences.lookup typeName with
  | some handle =>
      obtain ⟨seq, found, rfl⟩ := alone.mapped _ (mem_of_lookup hit)
      rw [getSequenceCall_hit hit found (alone.free seq (List.getElem?_mem found))]
      exact alone.next found
  | none =>
      cases checked : getSequenceCheck typeName bandwidth with
      | some err =>
          rw [getSequenceCall_failed hit checked]
          exact alone
      | none =>
          have positive : 0 < bandwidth := by
            unfold getSequenceCheck at checked
            split_ifs at checked with empty zero
            exact Nat.pos_of_ne_zero zero
          rw [getSequenceCall_leased hit checked]
          exact alone.lease hit positive

theorem SeqWorld.Alone.runCalls (bandwidth : Nat) :
    ∀ (typeNames : List Bytes) {world : SeqWorld}, world.Alone before →
      (getSequenceCalls bandwidth world typeNames).Alone before
  | [], _, alone => alone
  | typeName :: rest, _, alone => SeqWorld.Alone.runCalls bandwidth rest (alone.call bandwidth typeName)

end Alone

end Kvdb.Hold

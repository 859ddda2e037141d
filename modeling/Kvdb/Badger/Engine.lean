import Kvdb.Go.Basic

/-!
# The badger engine

The part of badger that hold relies on: transactions that read a snapshot of the
committed keys and buffer their writes until `Update` commits them, and sequences that
lease ranges of values from a counter the engine stores under the sequence key. An
`Update` here runs with no other writer, so its commit applies its buffered writes; the
transactions of sequences, which do run side by side, commit only when no other commit
wrote their key since their read.
-/

set_option autoImplicit false

namespace Kvdb.Badger

open Go

/-- The committed contents of a database: the value under each key. -/
abbrev Kv := Bytes → Option Bytes

/-- A transaction: whether it may write, the snapshot it reads, and its buffered
writes, newest first (`some` a set, `none` a delete). -/
structure Txn where
  update : Bool
  snapshot : Kv
  pending : List (Bytes × Option Bytes)

namespace Txn

/-- What the transaction sees under a key: its own latest write, or the snapshot. -/
def read (tx : Txn) (key : Bytes) : Option Bytes := (tx.pending.lookup key).getD (tx.snapshot key)

/-- `txn.Get(key)`: the value of the item, or `ErrKeyNotFound`. -/
def get (tx : Txn) (key : Bytes) : Except GoError Bytes :=
  match tx.read key with
  | some value => .ok value
  | none => .error .keyNotFound

theorem get_eq_ok {tx : Txn} {key value : Bytes} :
    tx.get key = .ok value ↔ tx.read key = some value := by
  unfold get
  split <;> simp_all

/-- `txn.Delete(key)`: a buffered delete; a read-only transaction refuses it. -/
def delete (tx : Txn) (key : Bytes) : Except GoError Txn :=
  if tx.update then .ok { tx with pending := (key, none) :: tx.pending } else .error .readOnlyTxn

/-- The committed state once the buffered writes are applied. -/
def applyTo (tx : Txn) (kv : Kv) : Kv := fun key => (tx.pending.lookup key).getD (kv key)

@[simp] theorem delete_update {tx : Txn} {key : Bytes} (writable : tx.update = true) :
    tx.delete key = .ok { tx with pending := (key, none) :: tx.pending } := by
  simp [delete, writable]

theorem applyTo_delete (tx : Txn) (key : Bytes) (kv : Kv) :
    ({ tx with pending := (key, none) :: tx.pending } : Txn).applyTo kv =
      Function.update (tx.applyTo kv) key none := by
  funext other
  by_cases same : other = key
  · subst same; simp [applyTo]
  · simp [applyTo, same, List.lookup_cons, beq_false_of_ne same]

end Txn

/-- A fresh read-write transaction over the committed state. -/
def begin (kv : Kv) : Txn := ⟨true, kv, []⟩

/-- `db.Update(fn)` with no other writer: `fn` runs in a fresh read-write transaction,
which commits when `fn` returns a nil error and is discarded otherwise. -/
def update (kv : Kv) (fn : Txn → Outcome (Txn × Option GoError)) : Outcome (Kv × Option GoError) :=
  (fn (begin kv)).bind fun (tx, err) =>
    match err with
    | none => .returns (tx.applyTo kv, none)
    | some err => .returns (kv, some err)

theorem update_ok {kv kv' : Kv} {fn : Txn → Outcome (Txn × Option GoError)}
    (ran : update kv fn = .returns (kv', none)) :
    ∃ tx, fn (begin kv) = .returns (tx, none) ∧ kv' = tx.applyTo kv := by
  obtain ⟨⟨tx, result⟩, fnRan, ran⟩ := Outcome.bind_eq_returns ran
  cases result with
  | none => cases ran; exact ⟨tx, fnRan, rfl⟩
  | some err' => cases ran

/-!
## Sequences

`updateLease` and `Release` each run in a transaction of their own: it reads the
sequence key, its function sets the handle's fields, and its commit writes the new
counter. badger fails the commit with `ErrConflict` when another commit wrote the key
after the read; the handle keeps what the function set.
-/

/-- `badger.Sequence`: the key it leases under, the next value it hands out, the end of
its current lease, how many values a lease takes, and whether its mutex is held.
Counters are the `uint64` the engine stores, taken here without wraparound. -/
structure Sequence where
  key : Bytes
  next : Nat
  leased : Nat
  bandwidth : Nat
  locked : Bool
  deriving DecidableEq, Repr

/-- The counters the engine stores under sequence keys (badger keeps them as 8-byte
big-endian values), and how many commits wrote each key. -/
structure Leases where
  counter : Bytes → Option Nat
  commits : Bytes → Nat

/-- What a sequence's transaction read under its key: the counter, zero when the key is
absent, and how many commits had written the key. -/
structure SeqRead where
  counter : Nat
  commits : Nat
  deriving DecidableEq, Repr

namespace Leases

/-- No sequence key written yet. -/
def empty : Leases := ⟨fun _ => none, fun _ => 0⟩

/-- The `txn.Get(key)` a sequence's transaction starts with. -/
def read (leases : Leases) (key : Bytes) : SeqRead :=
  ⟨(leases.counter key).getD 0, leases.commits key⟩

/-- A committed write of a counter. -/
def write (leases : Leases) (key : Bytes) (value : Nat) : Leases :=
  ⟨Function.update leases.counter key (some value),
    Function.update leases.commits key (leases.commits key + 1)⟩

/-- `txn.Commit()` of a transaction that read `key` and sets it to `value`. -/
def commit (leases : Leases) (key : Bytes) (read : SeqRead) (value : Nat) :
    Except GoError Leases :=
  if leases.commits key = read.commits then .ok (leases.write key value) else .error .conflict

@[simp] theorem write_counter (leases : Leases) (key : Bytes) (value : Nat) :
    (leases.write key value).counter = Function.update leases.counter key (some value) := rfl

@[simp] theorem write_commits (leases : Leases) (key : Bytes) (value : Nat) :
    (leases.write key value).commits =
      Function.update leases.commits key (leases.commits key + 1) := rfl

@[simp] theorem read_counter (leases : Leases) (key : Bytes) :
    (leases.read key).counter = (leases.counter key).getD 0 := rfl

@[simp] theorem read_commits (leases : Leases) (key : Bytes) :
    (leases.read key).commits = leases.commits key := rfl

theorem commit_read (leases : Leases) (key : Bytes) (value : Nat) :
    leases.commit key (leases.read key) value = .ok (leases.write key value) := by
  simp [commit]

theorem commit_eq_ok {leases leases' : Leases} {key : Bytes} {read : SeqRead} {value : Nat}
    (committed : leases.commit key read value = .ok leases') :
    leases.commits key = read.commits ∧ leases' = leases.write key value := by
  unfold commit at committed
  split at committed <;> cases committed
  exact ⟨‹_›, rfl⟩

theorem commit_eq_error {leases : Leases} {key : Bytes} {read : SeqRead} {value : Nat}
    {err : GoError} (failed : leases.commit key read value = .error err) :
    leases.commits key ≠ read.commits ∧ err = .conflict := by
  unfold commit at failed
  split at failed <;> cases failed
  exact ⟨‹_›, rfl⟩

end Leases

/-- What a transaction read under a key is still what the engine holds, unless a commit
wrote the key since; the commits of a key only add up. -/
def SeqRead.Consistent (read : SeqRead) (leases : Leases) (key : Bytes) : Prop :=
  read.commits ≤ leases.commits key ∧
    (read.commits = leases.commits key → read.counter = (leases.counter key).getD 0)

theorem SeqRead.consistent_read (leases : Leases) (key : Bytes) :
    (leases.read key).Consistent leases key :=
  ⟨le_rfl, fun _ => rfl⟩

theorem SeqRead.Consistent.write {read : SeqRead} {leases : Leases} {key : Bytes}
    (consistent : read.Consistent leases key) (written : Bytes) (value : Nat) :
    read.Consistent (leases.write written value) key := by
  by_cases same : key = written
  · subst same
    have bound := consistent.1
    exact ⟨by simp; omega, fun equal => by simp at equal; omega⟩
  · simpa [SeqRead.Consistent, Function.update_noteq same] using consistent

/-- The checks `db.GetSequence(key, bandwidth)` makes before its first lease. -/
def getSequenceCheck (key : Bytes) (bandwidth : Nat) : Option GoError :=
  if key = [] then some .emptyKey else if bandwidth = 0 then some .zeroBandwidth else none

namespace Sequence

/-- `updateLease`'s function: the lease now starts at the counter read and ends a
bandwidth above it. This is set before the commit, and stays when the commit fails. -/
def leaseFrom (seq : Sequence) (read : SeqRead) : Sequence :=
  { seq with next := read.counter, leased := read.counter + seq.bandwidth }

/-- `updateLease`'s commit of the end of the new lease. -/
def commitLease (leases : Leases) (seq : Sequence) (read : SeqRead) : Except GoError Leases :=
  leases.commit seq.key read (read.counter + seq.bandwidth)

/-- `updateLease` with no other commit between its read and its commit. -/
def updateLease (leases : Leases) (seq : Sequence) : Leases × Sequence :=
  (leases.write seq.key ((leases.read seq.key).counter + seq.bandwidth),
    seq.leaseFrom (leases.read seq.key))

/-- `seq.Next()` with no other commit inside its lease's transaction: the next value of
the lease, after leasing again when it is used up. -/
def nextValue (leases : Leases) (seq : Sequence) : Leases × Sequence × Nat :=
  let current := if seq.leased ≤ seq.next then seq.updateLease leases else (leases, seq)
  (current.1, { current.2 with next := current.2.next + 1 }, current.2.next)

/-- The values a sequence may still hand out from its lease, with its key. -/
def reserved (seq : Sequence) : List (Bytes × Nat) :=
  (List.range' seq.next (seq.leased - seq.next)).map (seq.key, ·)

/-- `seq.Release()` with no other commit inside its transaction: hand the unused rest of
the lease back when no other lease was taken after it. -/
def release (leases : Leases) (seq : Sequence) : Except GoError (Leases × Sequence) :=
  match leases.counter seq.key with
  | none => .error .keyNotFound
  | some stored =>
    .ok (if stored = seq.leased then leases.write seq.key seq.next else leases,
      { seq with leased := seq.next })

@[simp] theorem leaseFrom_key (seq : Sequence) (read : SeqRead) :
    (seq.leaseFrom read).key = seq.key := rfl

@[simp] theorem leaseFrom_bandwidth (seq : Sequence) (read : SeqRead) :
    (seq.leaseFrom read).bandwidth = seq.bandwidth := rfl

@[simp] theorem leaseFrom_locked (seq : Sequence) (read : SeqRead) :
    (seq.leaseFrom read).locked = seq.locked := rfl

theorem nextValue_key (leases : Leases) (seq : Sequence) :
    (seq.nextValue leases).2.1.key = seq.key := by
  unfold nextValue
  split <;> rfl

theorem nextValue_bandwidth (leases : Leases) (seq : Sequence) :
    (seq.nextValue leases).2.1.bandwidth = seq.bandwidth := by
  unfold nextValue
  split <;> rfl

theorem nextValue_locked (leases : Leases) (seq : Sequence) :
    (seq.nextValue leases).2.1.locked = seq.locked := by
  unfold nextValue
  split <;> rfl

theorem nextValue_next (leases : Leases) (seq : Sequence) :
    (seq.nextValue leases).2.1.next = (seq.nextValue leases).2.2 + 1 := by
  unfold nextValue
  split <;> rfl

theorem release_eq_ok {leases leases' : Leases} {seq seq' : Sequence}
    (released : seq.release leases = .ok (leases', seq')) :
    ∃ stored, leases.counter seq.key = some stored ∧
      leases' = (if stored = seq.leased then leases.write seq.key seq.next else leases) ∧
      seq' = { seq with leased := seq.next } := by
  unfold release at released
  split at released <;> cases released
  exact ⟨_, ‹_›, rfl, rfl⟩

theorem nextValue_of_stored {leases : Leases} {seq : Sequence}
    (stored : leases.counter seq.key = some seq.leased) (within : seq.next ≤ seq.leased)
    (positive : 0 < seq.bandwidth) :
    (seq.nextValue leases).2.2 = seq.next ∧
      (seq.nextValue leases).2.1.next ≤ (seq.nextValue leases).2.1.leased ∧
      (seq.nextValue leases).1.counter =
        Function.update leases.counter seq.key (some (seq.nextValue leases).2.1.leased) := by
  by_cases exhausted : seq.leased ≤ seq.next
  · simp only [nextValue, updateLease, leaseFrom, exhausted, ↓reduceIte, Leases.read_counter,
      stored, Option.getD_some, Leases.write_counter]
    exact ⟨by omega, by omega, trivial⟩
  · simp only [nextValue, exhausted, ↓reduceIte, ← stored, Function.update_eq_self]
    exact ⟨trivial, by omega, trivial⟩

/-!
## Which keys have a stored counter
-/

theorem updateLease_isSome (leases : Leases) (seq : Sequence) {key : Bytes}
    (counted : (leases.counter key).isSome ∨ key = seq.key) :
    ((seq.updateLease leases).1.counter key).isSome := by
  by_cases same : key = seq.key
  · subst same; simp [updateLease]
  · simpa [updateLease, Function.update_noteq same] using counted.resolve_right same

theorem nextValue_isSome (leases : Leases) (seq : Sequence) {key : Bytes}
    (counted : (leases.counter key).isSome) : ((seq.nextValue leases).1.counter key).isSome := by
  unfold nextValue
  split
  · exact updateLease_isSome leases seq (.inl counted)
  · exact counted

theorem release_of_isSome {leases : Leases} {seq : Sequence}
    (counted : (leases.counter seq.key).isSome) :
    ∃ leases', seq.release leases = .ok (leases', { seq with leased := seq.next }) ∧
      ∀ key, (leases.counter key).isSome → (leases'.counter key).isSome := by
  obtain ⟨stored, found⟩ := Option.isSome_iff_exists.mp counted
  refine ⟨if stored = seq.leased then leases.write seq.key seq.next else leases,
    by simp only [release, found], fun key kept => ?_⟩
  split
  · by_cases same : key = seq.key
    · subst same; simp
    · simpa [Function.update_noteq same] using kept
  · exact kept

end Sequence

end Kvdb.Badger

import Kvdb.Hold.Delete
import Kvdb.Hold.Sequence
import Mathlib.Logic.Relation

/-!
# The store's lifecycle

`Open`, `Close` and the garbage collector that `Open` starts (store.go), over the whole
process: the package-level `encode` and `decode` that every store's catalog reads, the
stores with the engines they own, and the `runStorageGC` goroutines. Each event is one
atomic step; the `getSequence` calls of a store interleave with the rest, and `Close`
walks the store's map in one step. Operations on a store after its `Close` are outside
the model.
-/

set_option autoImplicit false

namespace Kvdb.Hold

open Go Badger

/-- `Options`: the codec and the sequence bandwidth; badger's own options are left out. -/
structure Options where
  encoder : EncodeFunc
  decoder : DecodeFunc
  sequenceBandwith : Nat

/-- A store `Open` returned, with the engine it owns: the store's `sequences` map and the
engine's sequence counters, with the `getSequence` calls made on the store, and whether
the engine has been closed. -/
structure Store where
  sequenceBandwith : Nat
  seqs : SeqSystem
  closed : Bool

/-- A `runStorageGC` goroutine, with the engine it collects, named by its store. -/
structure GcTask where
  db : Nat
  deriving DecidableEq, Repr

/-- The process: the package's codec, every store opened so far, every GC goroutine, and
the engines `RunValueLogGC` was called on, in order. -/
structure Process where
  encode : EncodeFunc
  decode : DecodeFunc
  stores : List Store
  tasks : List GcTask
  valueLogGC : List Nat

/-- The process before its first `Open`, with the package's codec. -/
def Process.init (encode : EncodeFunc) (decode : DecodeFunc) : Process :=
  ⟨encode, decode, [], [], []⟩

/-- What can happen next. -/
inductive LifeEvent where
  /-- `Open(options)`; `badger.Open` fails with `failure` when it is set. -/
  | openStore (options : Options) (failure : Option GoError)
  /-- The ticker of a GC goroutine fires; `RunValueLogGC` returns nil `rounds` times and
  then an error. -/
  | tick (task rounds : Nat)
  /-- `Close` on a store; the engine's `Close` returns `failure`. -/
  | close (store : Nat) (failure : optParam (Option GoError) none)
  /-- An atomic step of the `getSequence` calls on a store. -/
  | sequence (store : Nat) (event : SeqEvent)

/-- `Open`: the package's `encode` and `decode` are set first, then badger opens the
engine; when it succeeds, a GC goroutine starts on the engine and the store is
returned. -/
def openStore (p : Process) (options : Options) (failure : Option GoError) :
    Process × Option GoError :=
  match failure with
  | some err => (⟨options.encoder, options.decoder, p.stores, p.tasks, p.valueLogGC⟩, some err)
  | none =>
    (⟨options.encoder, options.decoder,
      p.stores ++ [⟨options.sequenceBandwith, ⟨.empty, []⟩, false⟩], p.tasks ++ [⟨p.stores.length⟩],
      p.valueLogGC⟩, none)

/-- `storageGC`: `RunValueLogGC` again and again until it returns an error; `rounds` is
how many times it returned nil. The calls, by engine. -/
def storageGC (db rounds : Nat) : List Nat := List.replicate (rounds + 1) db

/-- `s.sequences.Range` calling `Release` on the handle of each entry in turn; the first
error stops it, and the releases before it stay done. -/
def releaseSequences (world : SeqWorld) : List (Bytes × Nat) → SeqWorld × Option GoError
  | [] => (world, none)
  | (_, handle) :: rest =>
    match world.handles[handle]? with
    | none => releaseSequences world rest
    | some seq =>
      match seq.release world.leases with
      | .error err => (world, some err)
      | .ok (leases, seq) =>
        releaseSequences ⟨leases, world.handles.set handle seq, world.sequences, world.issued⟩ rest

/-- `Close`: release the map's sequences; the first error is returned and leaves the
engine open. Otherwise the engine is closed, and `Close` returns what `db.Close()`
returns. The GC goroutine is not told. -/
def Store.close (store : Store) (failure : Option GoError) : Store × Option GoError :=
  match releaseSequences store.seqs.world store.seqs.world.sequences with
  | (world, some err) =>
    (⟨store.sequenceBandwith, ⟨world, store.seqs.calls⟩, store.closed⟩, some err)
  | (world, none) => (⟨store.sequenceBandwith, ⟨world, store.seqs.calls⟩, true⟩, failure)

/-- A handle of the map whose mutex a `Next` holds: `Release` waits for it. -/
def Store.releaseWaits (store : Store) : Bool :=
  store.seqs.world.sequences.any fun entry =>
    (store.seqs.world.handles[entry.2]?).any Sequence.locked

/-- One event and what it returns; `none` when it cannot happen. A tick runs whether or
not the engine is closed: `runStorageGC` has no way out of its loop. `Close` walks the
map in one step, once no `Next` holds the mutex of a handle in it. -/
def Process.apply (p : Process) : LifeEvent → Option (Process × Option GoError)
  | .openStore options failure => some (openStore p options failure)
  | .tick task rounds =>
    p.tasks[task]?.map fun gc =>
      (⟨p.encode, p.decode, p.stores, p.tasks, p.valueLogGC ++ storageGC gc.db rounds⟩, none)
  | .close s failure =>
    match p.stores[s]? with
    | none => none
    | some store =>
      if store.closed ∨ store.releaseWaits then none
      else some (⟨p.encode, p.decode, p.stores.set s (store.close failure).1, p.tasks,
        p.valueLogGC⟩, (store.close failure).2)
  | .sequence s event =>
    match p.stores[s]? with
    | none => none
    | some store =>
      if store.closed then none
      else (store.seqs.apply store.sequenceBandwith event).map fun seqs =>
        (⟨p.encode, p.decode, p.stores.set s ⟨store.sequenceBandwith, seqs, false⟩, p.tasks,
          p.valueLogGC⟩, none)

/-- A run: the events in order and what each returned; `none` when one cannot happen. -/
def Process.run : Process → List LifeEvent → Option (Process × List (Option GoError))
  | p, [] => some (p, [])
  | p, event :: events =>
    (p.apply event).bind fun (p, result) =>
      (p.run events).map fun (p, results) => (p, result :: results)

/-- One event, whatever it returned. -/
def Process.Step (p p' : Process) : Prop := ∃ event result, p.apply event = some (p', result)

/-- The states reachable from the start, whatever the package's codec was before the
first `Open`. -/
def Process.Reachable (p : Process) : Prop :=
  ∃ encode decode, Relation.ReflTransGen Process.Step (Process.init encode decode) p

theorem Process.Reachable.step {p p' : Process} (reachable : p.Reachable)
    (step : Process.Step p p') : p'.Reachable :=
  let ⟨encode, decode, path⟩ := reachable
  ⟨encode, decode, path.tail step⟩

theorem Process.apply_tick {p p' : Process} {task rounds : Nat} {result : Option GoError}
    (applied : p.apply (.tick task rounds) = some (p', result)) :
    ∃ gc, p.tasks[task]? = some gc ∧
      p' = ⟨p.encode, p.decode, p.stores, p.tasks, p.valueLogGC ++ storageGC gc.db rounds⟩ ∧
      result = none := by
  obtain ⟨gc, found, applied⟩ := Option.map_eq_some'.mp applied
  cases applied
  exact ⟨gc, found, rfl, rfl⟩

theorem Process.apply_close {p p' : Process} {s : Nat} {failure result : Option GoError}
    (applied : p.apply (.close s failure) = some (p', result)) :
    ∃ store, p.stores[s]? = some store ∧ store.closed = false ∧
      p' = ⟨p.encode, p.decode, p.stores.set s (store.close failure).1, p.tasks,
        p.valueLogGC⟩ ∧
      result = (store.close failure).2 := by
  simp only [Process.apply] at applied
  split at applied
  · cases applied
  · rename_i store found
    split_ifs at applied with waits
    cases applied
    exact ⟨store, found, by simpa using (not_or.mp waits).1, rfl, rfl⟩

theorem Process.apply_sequence {p p' : Process} {s : Nat} {event : SeqEvent}
    {result : Option GoError} (applied : p.apply (.sequence s event) = some (p', result)) :
    ∃ store seqs, p.stores[s]? = some store ∧ store.closed = false ∧
      store.seqs.apply store.sequenceBandwith event = some seqs ∧
      p' = ⟨p.encode, p.decode, p.stores.set s ⟨store.sequenceBandwith, seqs, false⟩, p.tasks,
        p.valueLogGC⟩ ∧ result = none := by
  simp only [Process.apply] at applied
  split at applied
  · cases applied
  · rename_i store found
    split_ifs at applied with closed
    obtain ⟨seqs, stepped, applied⟩ := Option.map_eq_some'.mp applied
    cases applied
    exact ⟨store, seqs, found, Bool.eq_false_iff.mpr closed, stepped, rfl, rfl⟩

/-!
## Close
-/

theorem releaseSequences_ok :
    ∀ (entries : List (Bytes × Nat)) (world : SeqWorld), world.Counted →
      (releaseSequences world entries).2 = none
  | [], _, _ => rfl
  | (_, handle) :: rest, world, counted => by
      unfold releaseSequences
      split
      · exact releaseSequences_ok rest world counted
      · rename_i seq found
        have member := List.mem_map_of_mem Sequence.key (List.getElem?_mem found)
        obtain ⟨leases, released, kept⟩ := Sequence.release_of_isSome (counted _ member)
        simp only [released]
        refine releaseSequences_ok rest _ fun key inSet => kept key (counted key ?_)
        dsimp only at inSet
        rwa [@keys_set _ _ _ { seq with leased := seq.next } found rfl] at inSet

theorem Store.close_of_released {store : Store} {failure : Option GoError}
    (released : (releaseSequences store.seqs.world store.seqs.world.sequences).2 = none) :
    (store.close failure).1.closed = true ∧ (store.close failure).2 = failure := by
  unfold Store.close
  split <;> simp_all

theorem Store.close_closed {store : Store} {failure : Option GoError}
    (closedNil : (store.close failure).2 = none) : (store.close failure).1.closed = true := by
  unfold Store.close at closedNil ⊢
  split <;> simp_all

/-!
## What holds of every reachable state
-/

/-- Each store has the GC goroutine its `Open` started, and there is no other; the
sequence state of an open store is one its calls reach. -/
structure Process.Inv (p : Process) : Prop where
  tasks : p.tasks = (List.range p.stores.length).map GcTask.mk
  sequences : ∀ store ∈ p.stores, store.closed = false →
    SeqReachable store.sequenceBandwith store.seqs

theorem Process.Inv.init (encode : EncodeFunc) (decode : DecodeFunc) :
    (Process.init encode decode).Inv :=
  ⟨rfl, by simp [Process.init]⟩

theorem Process.Inv.set {p : Process} (invariant : p.Inv) {s : Nat} {store : Store}
    {encode : EncodeFunc} {decode : DecodeFunc} {valueLogGC : List Nat}
    (reachable : store.closed = false → SeqReachable store.sequenceBandwith store.seqs) :
    (⟨encode, decode, p.stores.set s store, p.tasks, valueLogGC⟩ : Process).Inv := by
  refine ⟨by simp [invariant.tasks], fun other member opened => ?_⟩
  rcases List.mem_or_eq_of_mem_set member with old | rfl
  · exact invariant.sequences other old opened
  · exact reachable opened

theorem Process.Inv.apply {p p' : Process} {event : LifeEvent} {result : Option GoError}
    (invariant : p.Inv) (applied : p.apply event = some (p', result)) : p'.Inv := by
  cases event with
  | openStore options failure =>
      cases failure with
      | some err =>
          cases applied
          exact ⟨invariant.tasks, invariant.sequences⟩
      | none =>
          cases applied
          refine ⟨by simp [invariant.tasks, List.range_succ], fun store member opened => ?_⟩
          rcases List.mem_append.mp member with old | new
          · exact invariant.sequences store old opened
          · simp only [List.mem_singleton] at new
            subst new
            exact .init
  | tick task rounds =>
      obtain ⟨gc, -, rfl, -⟩ := Process.apply_tick applied
      exact ⟨invariant.tasks, invariant.sequences⟩
  | close s failure =>
      obtain ⟨store, found, opened, rfl, -⟩ := Process.apply_close applied
      have reachable := invariant.sequences store (List.getElem?_mem found) opened
      refine invariant.set fun closedOpen => ?_
      have released :=
        releaseSequences_ok store.seqs.world.sequences _ reachable.inv.counted
      rw [(Store.close_of_released released).1] at closedOpen
      cases closedOpen
  | sequence s event =>
      obtain ⟨store, seqs, found, opened, stepped, rfl, -⟩ := Process.apply_sequence applied
      have reachable := invariant.sequences store (List.getElem?_mem found) opened
      exact invariant.set fun _ => .step reachable stepped

theorem Process.Reachable.inv {p : Process} (reachable : p.Reachable) : p.Inv := by
  obtain ⟨encode, decode, path⟩ := reachable
  induction path with
  | refl => exact Process.Inv.init encode decode
  | tail _ step invariant =>
      obtain ⟨event, result, applied⟩ := step
      exact invariant.apply applied

/-- In every state of the process, a store still open with one handle per type name has
handed out no value twice, however its calls interleaved with the rest of the process. -/
theorem Process.Reachable.issued_nodup {p : Process} (reachable : p.Reachable) {store : Store}
    (member : store ∈ p.stores) (opened : store.closed = false)
    (oneHandle : (store.seqs.world.handles.map Sequence.key).Nodup) :
    store.seqs.world.issued.Nodup :=
  (List.nodup_append.mp
    ((reachable.inv.sequences store member opened).inv.single oneHandle).1.nodup).1

private theorem position_ne {stores : List Store} {s s' : Nat} {store other : Store}
    (found : stores[s]? = some store) (closed : store.closed = true)
    (otherFound : stores[s']? = some other) (opened : other.closed = false) : s' ≠ s := by
  rintro rfl
  rw [found] at otherFound
  cases otherFound
  rw [closed] at opened
  cases opened

theorem Process.apply_keeps_closed {p p' : Process} {event : LifeEvent} {result : Option GoError}
    (applied : p.apply event = some (p', result)) {s : Nat} {store : Store}
    (found : p.stores[s]? = some store) (closed : store.closed = true) :
    p'.stores[s]? = some store := by
  cases event with
  | openStore options failure =>
      cases failure <;> cases applied
      · rw [List.getElem?_append_left (List.getElem?_eq_some_iff.mp found).1, found]
      · exact found
  | tick task rounds =>
      obtain ⟨gc, -, rfl, -⟩ := Process.apply_tick applied
      exact found
  | close s' failure =>
      obtain ⟨other, otherFound, opened, rfl, -⟩ := Process.apply_close applied
      rw [List.getElem?_set_ne (position_ne found closed otherFound opened), found]
  | sequence s' event =>
      obtain ⟨other, seqs, otherFound, opened, -, rfl, -⟩ := Process.apply_sequence applied
      rw [List.getElem?_set_ne (position_ne found closed otherFound opened), found]

theorem Process.keeps_closed {p q : Process} (later : Relation.ReflTransGen Process.Step p q)
    {s : Nat} {store : Store} (found : p.stores[s]? = some store) (closed : store.closed = true) :
    q.stores[s]? = some store := by
  induction later with
  | refl => exact found
  | tail _ step kept =>
      obtain ⟨event, result, applied⟩ := step
      exact Process.apply_keeps_closed applied kept closed

/-!
## Close does not stop the collector
-/

theorem Process.Inv.tick {p : Process} (invariant : p.Inv) {s : Nat} (opened : s < p.stores.length)
    (rounds : Nat) :
    p.tasks[s]? = some ⟨s⟩ ∧
      p.apply (.tick s rounds) =
        some (⟨p.encode, p.decode, p.stores, p.tasks, p.valueLogGC ++ storageGC s rounds⟩,
          none) := by
  have task : p.tasks[s]? = some ⟨s⟩ := by
    simp [invariant.tasks, List.getElem?_range opened]
  exact ⟨task, by simp [Process.apply, task]⟩

/-- After a `Close` of a store returned nil, in every state the process goes on to reach,
the engine stays closed, the GC goroutine that the store's `Open` started is still there,
and its next tick calls `RunValueLogGC` on the closed engine. -/
theorem close_leaves_gc_running {p p' q : Process} {s : Nat} (reachable : p.Reachable)
    (closedNil : p.apply (.close s) = some (p', none))
    (later : Relation.ReflTransGen Process.Step p' q) (rounds : Nat) :
    (q.stores[s]?).map Store.closed = some true ∧ q.tasks[s]? = some ⟨s⟩ ∧
      q.apply (.tick s rounds) =
        some (⟨q.encode, q.decode, q.stores, q.tasks, q.valueLogGC ++ storageGC s rounds⟩,
          none) := by
  have reachable' : q.Reachable :=
    let ⟨encode, decode, path⟩ := reachable.step ⟨_, _, closedNil⟩
    ⟨encode, decode, path.trans later⟩
  obtain ⟨store, found, -, rfl, released⟩ := Process.apply_close closedNil
  have closed := Store.close_closed released.symm
  have kept := Process.keeps_closed later
    (List.getElem?_set_self (List.getElem?_eq_some_iff.mp found).1) closed
  obtain ⟨task, ticked⟩ := reachable'.inv.tick (List.getElem?_eq_some_iff.mp kept).1 rounds
  exact ⟨by rw [kept, Option.map_some', closed], task, ticked⟩

/-- A store opened once, with `payloadCodec` as the package's codec. -/
def openedOnce : Process :=
  (openStore (Process.init payloadCodec.encode payloadCodec.decode)
    ⟨payloadCodec.encode, payloadCodec.decode, 100⟩ none).1

theorem openedOnce_reachable : openedOnce.Reachable :=
  ⟨payloadCodec.encode, payloadCodec.decode,
    .single ⟨.openStore ⟨payloadCodec.encode, payloadCodec.decode, 100⟩ none, none, rfl⟩⟩

/-- Open a store, close it, and let its ticker fire: `Close` returned nil and closed the
engine, and the tick calls `RunValueLogGC` on it. -/
theorem gc_ticks_after_close :
    ∃ p', openedOnce.apply (.close 0) = some (p', none) ∧
      ((p'.stores[0]?).map Store.closed = some true ∧ p'.tasks[0]? = some ⟨0⟩ ∧
        p'.apply (.tick 0 0) =
          some (⟨p'.encode, p'.decode, p'.stores, p'.tasks, p'.valueLogGC ++ storageGC 0 0⟩,
            none)) :=
  ⟨_, rfl, @close_leaves_gc_running openedOnce _ _ 0 openedOnce_reachable rfl .refl 0⟩

/-!
## The codec of the latest Open
-/

/-- A codec that stores a scalar as a marker byte followed by its bytes. -/
def markedCodec : Codec where
  encode
    | .scalar _ payload => .ok (0x7B :: payload)
    | _ => .error (.other (goString "unsupported"))
  decode
    | 0x7B :: bytes, _ => (.scalar 1 bytes, none)
    | _, target => (target, some (.other (goString "unsupported")))

/-- The `Item` whose `Category` is `5`. -/
def categoryRecord : GoValue := .struct 0 [(goString "Category", .scalar 1 [5])]

unseal StructTag.lookup unquoteLoop in
/-- An `Open` that fails still changes how a store already open computes index values:
`[5]` under the store's own codec, `[0x7B, 5]` after the failed `Open`. -/
theorem failed_open_changes_index_values :
    ∃ p, Process.run (Process.init categoryCodec.encode categoryCodec.decode)
        [.openStore ⟨categoryCodec.encode, categoryCodec.decode, 100⟩ none,
          .openStore ⟨markedCodec.encode, markedCodec.decode, 100⟩
            (some (.other (goString "open failed")))] =
        some (p, [none, some (.other (goString "open failed"))]) ∧
      p.stores.length = 1 ∧
      ∃ storer index, newStorer categoryItem (.struct 0 []) = .returns storer ∧
        storer.indexes.lookup (goString "Category") = some index ∧
        index.indexFunc categoryCodec.encode (goString "Category") categoryRecord =
          .returns (.ok [5]) ∧
        index.indexFunc p.encode (goString "Category") categoryRecord = .returns (.ok [0x7B, 5]) :=
  ⟨_, rfl, rfl, _, _, rfl, rfl, rfl, rfl⟩

end Kvdb.Hold

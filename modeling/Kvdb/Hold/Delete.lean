import Kvdb.Hold.Storer
import Kvdb.Badger.Engine

/-!
# Delete

`Delete` and `TxDelete` (delete.go): find the record by its key, decode it into a new
value of the sample's type, delete it, and remove its index entries. The removal of
index entries (`indexDelete`, index.go) is not among the sources; it is modelled from
the spec's indexer contract and the spec's key layout.
-/

set_option autoImplicit false

namespace Kvdb.Hold

open Go Badger

/-- Modelled from the spec: the index prefix `"_index:" + type_name + ":" + index_name +
":"` (index.go is not among the sources). -/
def indexPrefix (typeName indexName : Bytes) : Bytes :=
  goString "_index:" ++ typeName ++ goString ":" ++ indexName ++ goString ":"

/-- Modelled from the spec: the unique prefix `"_unique:" + type_name + ":" + index_name
+ ":"` (index.go is not among the sources). -/
def uniquePrefix (typeName indexName : Bytes) : Bytes :=
  goString "_unique:" ++ typeName ++ goString ":" ++ indexName ++ goString ":"

/-- Modelled from the spec: the key of a record's entry in an index (index.go is not
among the sources). A unique index keys it by the encoded field value; any other index
by the encoded field value followed by the record's key. -/
def indexEntryKey (typeName indexName : Bytes) (index : Index) (value recordKey : Bytes) :
    Bytes :=
  if index.unique then uniquePrefix typeName indexName ++ value
  else indexPrefix typeName indexName ++ value ++ recordKey

/-- Modelled from the spec: `indexDelete` (index.go is not among the sources), the
indexer's `on_delete`. For each index of the storer it computes the record's index value
with the index's `IndexFunc` and deletes the record's entry; an error of `IndexFunc` or of
the engine ends it with that error. -/
def indexDelete (encode : EncodeFunc) (storer : Storer) (gk : Bytes) (value : GoValue) :
    List (Bytes × Index) → Txn → Outcome (Txn × Option GoError)
  | [], tx => .returns (tx, none)
  | (name, index) :: rest, tx =>
    (index.indexFunc encode name value).bind fun
      | .error err => .returns (tx, some err)
      | .ok indexValue =>
        match tx.delete (indexEntryKey storer.type name index indexValue gk) with
        | .error err => .returns (tx, some err)
        | .ok tx => indexDelete encode storer gk value rest tx

/-- `TxDelete`. The value `reflect.New(reflect.TypeOf(dataType))` starts as the zero
value of the sample's type; the record's bytes are decoded into it through
`item.Value`, whose error is dropped, so the `err` tested after it is still the nil
error of `tx.Get`. -/
def txDelete (program : Program) (codec : Codec) (tx : Txn) (key dataType : GoValue) :
    Outcome (Txn × Option GoError) :=
  (newStorer program dataType).bind fun storer =>
  match encodeKey codec key storer.type with
  | .error err => .returns (tx, some err)
  | .ok gk =>
    match dataType.typeOf with
    | none => .panics (.text (goString "reflect: New(nil)"))
    | some t =>
      match tx.get gk with
      | .error .keyNotFound => .returns (tx, some .notFound)
      | .error err => .returns (tx, some err)
      | .ok stored =>
        let value : GoValue :=
          .ptr (program.types.ptrTo t) (some (codec.decode stored (program.types.get t).zero).1)
        match tx.delete gk with
        | .error err => .returns (tx, some err)
        | .ok tx => indexDelete codec.encode storer gk value storer.indexes tx

/-- `Delete`: `TxDelete` inside `Update`. -/
def delete (program : Program) (codec : Codec) (kv : Kv) (key dataType : GoValue) :
    Outcome (Kv × Option GoError) :=
  update kv fun tx => txDelete program codec tx key dataType

/-!
## What a Delete commits
-/

/-- The keys of a record's entries in the given indexes, computed as `indexDelete`
computes them; the first error of an `IndexFunc` ends it. -/
def indexEntryKeys (encode : EncodeFunc) (storer : Storer) (gk : Bytes) (value : GoValue) :
    List (Bytes × Index) → Outcome (Except GoError (List Bytes))
  | [] => .returns (.ok [])
  | (name, index) :: rest =>
    (index.indexFunc encode name value).bind fun
      | .error err => .returns (.error err)
      | .ok indexValue =>
        (indexEntryKeys encode storer gk value rest).bind fun
          | .error err => .returns (.error err)
          | .ok keys => .returns (.ok (indexEntryKey storer.type name index indexValue gk :: keys))

/-- The committed state with the given keys removed. -/
def removeKeys (kv : Kv) (keys : List Bytes) : Kv := fun key => if key ∈ keys then none else kv key

theorem removeKeys_cons (kv : Kv) (key : Bytes) (keys : List Bytes) :
    removeKeys kv (key :: keys) = removeKeys (Function.update kv key none) keys := by
  funext other
  by_cases same : other = key
  · subst same; simp [removeKeys]
  · simp [removeKeys, same]

theorem indexDelete_ok {encode : EncodeFunc} {storer : Storer} {gk : Bytes} {value : GoValue} :
    ∀ (indexes : List (Bytes × Index)) (tx tx' : Txn), tx.update = true →
      indexDelete encode storer gk value indexes tx = .returns (tx', none) →
      ∃ keys, indexEntryKeys encode storer gk value indexes = .returns (.ok keys) ∧
        ∀ kv, tx'.applyTo kv = removeKeys (tx.applyTo kv) keys
  | [], tx, tx', _, ran => by
      cases ran
      exact ⟨[], rfl, fun kv => by funext key; simp [removeKeys]⟩
  | (name, index) :: rest, tx, tx', writable, ran => by
      simp only [indexDelete] at ran
      obtain ⟨result, computed, ran⟩ := Outcome.bind_eq_returns ran
      cases result with
      | error err => cases ran
      | ok indexValue =>
          simp only [Txn.delete_update writable] at ran
          obtain ⟨keys, entries, applied⟩ := indexDelete_ok rest
            { tx with
              pending := (indexEntryKey storer.type name index indexValue gk, none) :: tx.pending }
            tx' writable ran
          refine ⟨indexEntryKey storer.type name index indexValue gk :: keys,
            by simp [indexEntryKeys, computed, entries], fun kv => ?_⟩
          rw [applied, Txn.applyTo_delete, removeKeys_cons]

theorem indexDelete_of_entries {encode : EncodeFunc} {storer : Storer} {gk : Bytes}
    {value : GoValue} :
    ∀ (indexes : List (Bytes × Index)) (keys : List Bytes) (tx : Txn), tx.update = true →
      indexEntryKeys encode storer gk value indexes = .returns (.ok keys) →
      ∃ tx', indexDelete encode storer gk value indexes tx = .returns (tx', none) ∧
        ∀ kv, tx'.applyTo kv = removeKeys (tx.applyTo kv) keys
  | [], keys, tx, _, computed => by
      cases computed
      exact ⟨tx, rfl, fun kv => by funext key; simp [removeKeys]⟩
  | (name, index) :: rest, keys, tx, writable, computed => by
      simp only [indexEntryKeys] at computed
      obtain ⟨result, indexed, computed⟩ := Outcome.bind_eq_returns computed
      cases result with
      | error err => cases computed
      | ok indexValue =>
          obtain ⟨result, restComputed, computed⟩ := Outcome.bind_eq_returns computed
          cases result with
          | error err => cases computed
          | ok restKeys =>
              cases computed
              obtain ⟨tx', ran, applied⟩ := indexDelete_of_entries rest restKeys
                { tx with pending :=
                    (indexEntryKey storer.type name index indexValue gk, none) :: tx.pending }
                writable restComputed
              refine ⟨tx', by simp [indexDelete, indexed, Txn.delete_update writable, ran],
                fun kv => ?_⟩
              rw [applied, Txn.applyTo_delete, removeKeys_cons]

/-- A Delete that returns nil found a record under the key, and committed the removal of
that record and of exactly the index entries computed from the value its bytes decoded
into. -/
theorem delete_ok {program : Program} {codec : Codec} {kv kv' : Kv} {key dataType : GoValue}
    {storer : Storer} {gk : Bytes} {t : TypeId}
    (catalog : newStorer program dataType = .returns storer)
    (keyed : encodeKey codec key storer.type = .ok gk) (typed : dataType.typeOf = some t)
    (deleted : delete program codec kv key dataType = .returns (kv', none)) :
    ∃ stored keys, kv gk = some stored ∧
      indexEntryKeys codec.encode storer gk
        (.ptr (program.types.ptrTo t) (some (codec.decode stored (program.types.get t).zero).1))
        storer.indexes = .returns (.ok keys) ∧
      kv' = removeKeys kv (gk :: keys) := by
  obtain ⟨tx, ran, rfl⟩ := update_ok deleted
  simp only [txDelete, catalog, keyed, typed, Outcome.bind_returns] at ran
  cases found : (begin kv).get gk with
  | error err =>
      rw [found] at ran
      cases err <;> cases ran
  | ok stored =>
      simp only [found, Txn.delete_update (show (begin kv).update = true from rfl)] at ran
      obtain ⟨keys, entries, applied⟩ := indexDelete_ok storer.indexes _ tx rfl ran
      refine ⟨stored, keys, Txn.get_eq_ok.mp found, entries, ?_⟩
      rw [applied, Txn.applyTo_delete, removeKeys_cons]
      rfl

/-- Delete never looks at the decoder's error: whatever a record's bytes are, it removes
the record and the entries computed from the value the decoder left, and returns nil. -/
theorem delete_ignores_decode_error {program : Program} {codec : Codec} {kv : Kv}
    {key dataType : GoValue} {storer : Storer} {gk stored : Bytes} {t : TypeId}
    {keys : List Bytes}
    (catalog : newStorer program dataType = .returns storer)
    (keyed : encodeKey codec key storer.type = .ok gk) (typed : dataType.typeOf = some t)
    (present : kv gk = some stored)
    (entries : indexEntryKeys codec.encode storer gk
      (.ptr (program.types.ptrTo t) (some (codec.decode stored (program.types.get t).zero).1))
      storer.indexes = .returns (.ok keys)) :
    delete program codec kv key dataType = .returns (removeKeys kv (gk :: keys), none) := by
  have found : (begin kv).get gk = .ok stored := Txn.get_eq_ok.mpr present
  obtain ⟨tx, ran, applied⟩ := indexDelete_of_entries storer.indexes keys
    { begin kv with pending := (gk, none) :: (begin kv).pending } rfl entries
  simp only [delete, update, txDelete, catalog, keyed, typed, found, Outcome.bind_returns,
    Txn.delete_update (show (begin kv).update = true from rfl), ran]
  rw [applied, Txn.applyTo_delete, removeKeys_cons]
  rfl

/-- `type Item struct { Category string \`hold:"index"\` }`; its zero value has an
empty `Category`. -/
def categoryItem : Program where
  types := ⟨[⟨goString "Item", .struct, 0,
      [⟨goString "Category", [], goString "hold:\"index\"", by decide⟩],
      .struct 0 [(goString "Category", .scalar 1 [])]⟩], fun _ => 1, by decide⟩
  storerOf _ := none

/-- A codec for scalar keys and `Item` records: a scalar or a record's `Category` is
stored as its bytes, and empty bytes do not decode. -/
def categoryCodec : Codec where
  encode
    | .scalar _ payload => .ok payload
    | .struct _ [(_, .scalar _ payload)] => .ok payload
    | _ => .error (.other (goString "unsupported"))
  decode
    | [], target => (target, some (.other (goString "EOF")))
    | bytes, _ => (.struct 0 [(goString "Category", .scalar 1 bytes)], none)

/-- The record key of the `Item` with key `7`. -/
def staleRecordKey : Bytes := typePrefix (goString "Item") ++ [7]

/-- The entry of that record in the `Category` index, written when its `Category` was
`5`. -/
def staleEntryKey : Bytes :=
  indexPrefix (goString "Item") (goString "Category") ++ [5] ++ staleRecordKey

/-- A store whose `Item` under key `7` holds bytes that no longer decode, next to the
index entry written for it. -/
def undecodableStore : Kv := fun key =>
  if key = staleRecordKey then some [] else if key = staleEntryKey then some [] else none

/-- The same `Item` stored as `5`, with its index entry. -/
def indexedStore : Kv := fun key =>
  if key = staleRecordKey then some [5] else if key = staleEntryKey then some [] else none

unseal StructTag.lookup unquoteLoop in
/-- Deleting that record removes it and the entry computed from the decoded value. -/
theorem delete_indexed_record :
    ∃ storer gk kv', newStorer categoryItem (.struct 0 []) = .returns storer ∧
      encodeKey categoryCodec (.scalar 1 [7]) storer.type = .ok gk ∧
      delete categoryItem categoryCodec indexedStore (.scalar 1 [7]) (.struct 0 []) =
        .returns (kv', none) ∧
      ∃ stored keys, indexedStore gk = some stored ∧
        indexEntryKeys categoryCodec.encode storer gk
          (.ptr (categoryItem.types.ptrTo 0)
            (some (categoryCodec.decode stored (categoryItem.types.get 0).zero).1))
          storer.indexes = .returns (.ok keys) ∧
        kv' = removeKeys indexedStore (gk :: keys) :=
  ⟨_, _, _, rfl, rfl, rfl,
    @delete_ok categoryItem categoryCodec indexedStore _ (.scalar 1 [7]) (.struct 0 []) _ _ 0
      rfl rfl rfl rfl⟩

unseal StructTag.lookup unquoteLoop in
/-- Delete on a record whose bytes no longer decode: the decoder fails with `EOF`, and
Delete still returns nil, removes the record and leaves its index entry behind. -/
theorem delete_undecodable_record :
    (categoryCodec.decode [] (categoryItem.types.get 0).zero).2 = some (.other (goString "EOF")) ∧
    ∃ keys, delete categoryItem categoryCodec undecodableStore (.scalar 1 [7]) (.struct 0 []) =
        .returns (removeKeys undecodableStore (staleRecordKey :: keys), none) ∧
      removeKeys undecodableStore (staleRecordKey :: keys) staleRecordKey = none ∧
      removeKeys undecodableStore (staleRecordKey :: keys) staleEntryKey = some [] :=
  ⟨rfl, _, @delete_ignores_decode_error categoryItem categoryCodec undecodableStore (.scalar 1 [7])
    (.struct 0 []) _ staleRecordKey [] 0 _ rfl rfl rfl (by decide) rfl, by decide, by decide⟩

end Kvdb.Hold

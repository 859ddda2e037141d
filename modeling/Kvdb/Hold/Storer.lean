import Kvdb.Hold.Encode

/-!
# The type catalog

`newStorer` (store.go): a value that implements `Storer` describes itself; any other
value is reflected. The reflection follows pointer types to the type they point to,
insists on a named struct, and reads one index per tagged field from the struct tags.
-/

set_option autoImplicit false

namespace Kvdb.Hold

open Go

/-- `HoldIndexTag`. -/
def HoldIndexTag : Bytes := goString "holdIndex"

/-- `holdPrefixTag`. -/
def holdPrefixTag : Bytes := goString "hold"

/-- `holdPrefixIndexValue`. -/
def holdPrefixIndexValue : Bytes := goString "index"

/-- `holdPrefixUniqueValue`. -/
def holdPrefixUniqueValue : Bytes := goString "unique"

/-- `Index`: `IndexFunc(name, value)` computes the index value of a record, running
with the package's `encode` of the moment; `Unique` marks a unique constraint. -/
structure Index where
  indexFunc : EncodeFunc → Bytes → GoValue → Outcome (Except GoError Bytes)
  unique : Bool

/-- `Storer`: what `Type()` and `Indexes()` return. A Go map is kept as an association
list whose first entry for a key is the live one. -/
structure Storer where
  type : Bytes
  indexes : List (Bytes × Index)

/-- The program whose values reach hold: its types, and, for each type that
implements `Storer` itself, what its methods return. -/
structure Program where
  types : Universe
  storerOf : TypeId → Option Storer

/-- `m[key] = value` on a Go map. -/
def mapSet {α : Type} (m : List (Bytes × α)) (key : Bytes) (value : α) : List (Bytes × α) :=
  (key, value) :: m.filter (·.1 != key)

theorem lookup_cons_of_ne {α : Type} {rest : List (Bytes × α)} {name other : Bytes} {value : α}
    (different : other ≠ name) : ((name, value) :: rest).lookup other = rest.lookup other := by
  simp only [List.lookup_cons, beq_false_of_ne different]

theorem lookup_mapSet_self {α : Type} (m : List (Bytes × α)) (key : Bytes) (value : α) :
    (mapSet m key value).lookup key = some value := by
  simp [mapSet]

theorem lookup_mapSet_ne {α : Type} (m : List (Bytes × α)) {key other : Bytes} (value : α)
    (different : key ≠ other) : (mapSet m key value).lookup other = m.lookup other := by
  rw [mapSet, lookup_cons_of_ne (Ne.symm different)]
  induction m with
  | nil => rfl
  | cons entry m ih =>
      obtain ⟨name, stored⟩ := entry
      by_cases dropped : name = key
      · subst dropped
        simp [lookup_cons_of_ne (Ne.symm different), ih]
      · by_cases found : other = name
        · subst found
          simp [dropped]
        · simp [dropped, lookup_cons_of_ne found, ih]

/-!
## Reflection
-/

/-- The `IndexFunc` closure of a reflected index: it follows pointers from the value,
takes the field called `name` and encodes it with the current `encode`. -/
def anonIndexFunc (types : Universe) (encode : EncodeFunc) (name : Bytes) (value : GoValue) :
    Outcome (Except GoError Bytes) :=
  (GoValue.fieldInterface types name value.deref).bind fun field => .returns (encode field)

/-- The body of newStorer's field loop: the index name it settles on, empty for no
index, and the unique flag. -/
def fieldIndex (field : StructField) : Bytes × Bool :=
  if contains field.tag HoldIndexTag then
    let indexName := field.tag.get HoldIndexTag
    (if indexName ≠ [] then field.name else indexName, false)
  else
    let tag := field.tag.get holdPrefixTag
    if tag ≠ [] then
      if tag = holdPrefixIndexValue then (field.name, false)
      else if tag = holdPrefixUniqueValue then (field.name, true)
      else ([], false)
    else ([], false)

/-- One pass of the field loop: a non-empty index name gets an entry. -/
def addFieldIndex (types : Universe) (indexes : List (Bytes × Index)) (field : StructField) :
    List (Bytes × Index) :=
  if (fieldIndex field).1 ≠ [] then
    mapSet indexes (fieldIndex field).1 ⟨anonIndexFunc types, (fieldIndex field).2⟩
  else indexes

/-- The indexes of a reflected struct type, built field by field. -/
def reflectIndexes (types : Universe) (fields : List StructField) : List (Bytes × Index) :=
  fields.foldl (addFieldIndex types) []

/-- The panic of an unnamed type. -/
def unnamedPanic : Panic := .text (goString "Invalid Type for Storer.  Type is unnamed")

/-- The panic of a type that is not a struct. -/
def notStructPanic : Panic :=
  .text (goString "Invalid Type for Storer.  Hold only works with structs")

/-- `newStorer`. For a nil `dataType`, `reflect.TypeOf` is nil and `tp.Kind()`
dereferences it. -/
def newStorer (program : Program) (dataType : GoValue) : Outcome Storer :=
  match dataType.typeOf with
  | none => .panics .nilDereference
  | some t =>
    match program.storerOf t with
    | some storer => .returns storer
    | none =>
      match program.types.stripPointers t with
      | none => .diverges
      | some tp =>
        let rType := program.types.get tp
        if rType.name = [] then .panics unnamedPanic
        else if rType.kind ≠ .struct then .panics notStructPanic
        else .returns ⟨rType.name, reflectIndexes program.types rType.fields⟩

/-!
## The field loop
-/

theorem fieldIndex_name (field : StructField) :
    (fieldIndex field).1 = [] ∨ (fieldIndex field).1 = field.name := by
  unfold fieldIndex
  dsimp only
  split_ifs <;> simp_all

/-- A field gets an index exactly as its tag reads. -/
theorem fieldIndex_ne_nil_iff (field : StructField) :
    (fieldIndex field).1 ≠ [] ↔
      (contains field.tag HoldIndexTag ∧ field.tag.get HoldIndexTag ≠ []) ∨
      (¬ contains field.tag HoldIndexTag ∧
        (field.tag.get holdPrefixTag = holdPrefixIndexValue ∨
          field.tag.get holdPrefixTag = holdPrefixUniqueValue)) := by
  have indexNonEmpty : holdPrefixIndexValue ≠ [] := by decide
  have uniqueNonEmpty : holdPrefixUniqueValue ≠ [] := by decide
  unfold fieldIndex
  by_cases mentioned : contains field.tag HoldIndexTag
  · by_cases empty : field.tag.get HoldIndexTag = [] <;>
      simp [mentioned, empty, field.name_ne_nil]
  · simp only [mentioned, Bool.false_eq_true, ↓reduceIte, false_and, not_false_eq_true,
      true_and, false_or]
    split_ifs <;> simp_all [field.name_ne_nil]

theorem fieldIndex_unique_iff (field : StructField) :
    (fieldIndex field).2 = true ↔
      ¬ contains field.tag HoldIndexTag ∧ field.tag.get holdPrefixTag = holdPrefixUniqueValue := by
  have distinct : holdPrefixIndexValue ≠ holdPrefixUniqueValue := by decide
  have uniqueNonEmpty : holdPrefixUniqueValue ≠ [] := by decide
  unfold fieldIndex
  dsimp only
  split_ifs <;> simp_all

theorem lookup_foldl_addFieldIndex (types : Universe) (field : StructField) :
    ∀ (fields : List StructField) (indexes : List (Bytes × Index)),
      (∀ other ∈ fields, (fieldIndex other).1 = field.name → other = field) →
      (fields.foldl (addFieldIndex types) indexes).lookup field.name =
        if field ∈ fields ∧ (fieldIndex field).1 = field.name then
          some ⟨anonIndexFunc types, (fieldIndex field).2⟩
        else indexes.lookup field.name
  | [], _, _ => by simp
  | other :: fields, indexes, alone => by
      rw [List.foldl_cons,
        lookup_foldl_addFieldIndex types field fields _ (fun g member => alone g (.tail _ member))]
      by_cases later : field ∈ fields ∧ (fieldIndex field).1 = field.name
      · simp [later]
      · rw [if_neg later]
        unfold addFieldIndex
        by_cases settles : (fieldIndex other).1 = field.name
        · obtain rfl := alone other (.head _) settles
          simp [settles, other.name_ne_nil, lookup_mapSet_self]
        · have unchanged : (if (fieldIndex other).1 ≠ [] then
              mapSet indexes (fieldIndex other).1 ⟨anonIndexFunc types, (fieldIndex other).2⟩
              else indexes).lookup field.name = indexes.lookup field.name := by
            split
            · exact lookup_mapSet_ne _ _ settles
            · rfl
          rw [unchanged, if_neg]
          rintro ⟨member, same⟩
          rcases List.mem_cons.mp member with rfl | inFields
          · exact settles same
          · exact later ⟨inFields, same⟩

theorem lookup_foldl_addFieldIndex_some {types : Universe} {name : Bytes} {index : Index} :
    ∀ (fields : List StructField) (indexes : List (Bytes × Index)),
      (fields.foldl (addFieldIndex types) indexes).lookup name = some index →
      (∃ field ∈ fields, (fieldIndex field).1 = name ∧ name ≠ []) ∨
        indexes.lookup name = some index
  | [], _, found => .inr found
  | other :: fields, indexes, found => by
      rcases lookup_foldl_addFieldIndex_some fields _ found with ⟨field, member, settles⟩ | earlier
      · exact .inl ⟨field, .tail _ member, settles⟩
      · unfold addFieldIndex at earlier
        split at earlier
        · rename_i nonEmpty
          by_cases same : (fieldIndex other).1 = name
          · exact .inl ⟨other, .head _, same, same ▸ nonEmpty⟩
          · exact .inr (by rwa [lookup_mapSet_ne _ _ same] at earlier)
        · exact .inr earlier

/-- The reflected `IndexFunc` reads the named field through any chain of non-nil pointers. -/
theorem anonIndexFunc_wrapPtrs {u : Universe} (encode : EncodeFunc) {name : Bytes}
    (types : List TypeId) {type : TypeId} {field : StructField}
    {values : List (Bytes × GoValue)} {value : GoValue}
    (declared : (u.get type).fields.find? (·.name == name) = some field)
    (found : values.lookup name = some value) :
    anonIndexFunc u encode name (GoValue.wrapPtrs types (.struct type values)) =
      if field.pkgPath = [] then .returns (encode value) else .panics unexportedPanic := by
  simp only [anonIndexFunc, GoValue.deref_wrapPtrs, GoValue.deref, GoValue.fieldInterface,
    declared, found]
  split <;> rfl

/-!
## newStorer
-/

theorem newStorer_of_struct {program : Program} {dataType : GoValue} {t tp : TypeId}
    (typed : dataType.typeOf = some t) (reflected : program.storerOf t = none)
    (stops : program.types.stripPointers t = some tp)
    (named : (program.types.get tp).name ≠ []) (isStruct : (program.types.get tp).kind = .struct) :
    newStorer program dataType = .returns ⟨(program.types.get tp).name,
      reflectIndexes program.types (program.types.get tp).fields⟩ := by
  simp [newStorer, typed, reflected, stops, named, isStruct]

/-- newStorer never returns exactly when `dataType` is reflected and the chain of
element types from its type consists of pointer types only. -/
theorem newStorer_eq_diverges_iff (program : Program) (dataType : GoValue) :
    newStorer program dataType = .diverges ↔
      ∃ t, dataType.typeOf = some t ∧ program.storerOf t = none ∧
        ∀ k, (program.types.get (program.types.elem^[k] t)).kind = .ptr := by
  simp only [← Universe.stripPointers_eq_none_iff]
  unfold newStorer
  split
  · rename_i untyped
    simp [untyped]
  · rename_i t typed
    simp only [typed, Option.some.injEq, exists_eq_left']
    split
    · rename_i storer own
      simp [own]
    · rename_i reflected
      simp only [reflected, true_and]
      split
      · simp [*]
      · rename_i tp stops
        simp only [stops, reduceCtorEq, iff_false]
        split_ifs <;> simp

/-- The catalog of a reflected named struct type: which fields get an entry, which entries
are unique, and what each entry's `IndexFunc` gives. -/
theorem newStorer_indexes_by_tag {program : Program} {dataType : GoValue} {t tp : TypeId}
    (typed : dataType.typeOf = some t) (reflected : program.storerOf t = none)
    (stops : program.types.stripPointers t = some tp)
    (named : (program.types.get tp).name ≠ []) (isStruct : (program.types.get tp).kind = .struct) :
    ∃ storer, newStorer program dataType = .returns storer ∧
      storer.type = (program.types.get tp).name ∧
      (∀ field ∈ (program.types.get tp).fields,
        (∀ other ∈ (program.types.get tp).fields, other.name = field.name → other = field) →
        ((storer.indexes.lookup field.name).isSome ↔
          (contains field.tag HoldIndexTag ∧ field.tag.get HoldIndexTag ≠ []) ∨
          (¬ contains field.tag HoldIndexTag ∧
            (field.tag.get holdPrefixTag = holdPrefixIndexValue ∨
              field.tag.get holdPrefixTag = holdPrefixUniqueValue))) ∧
        ∀ index, storer.indexes.lookup field.name = some index →
          (index.unique = true ↔ ¬ contains field.tag HoldIndexTag ∧
            field.tag.get holdPrefixTag = holdPrefixUniqueValue) ∧
          ∀ (encode : EncodeFunc) (types : List TypeId) (values : List (Bytes × GoValue))
            (value : GoValue), values.lookup field.name = some value →
            index.indexFunc encode field.name (GoValue.wrapPtrs types (.struct tp values)) =
              if field.pkgPath = [] then .returns (encode value) else .panics unexportedPanic) ∧
      ∀ name index, storer.indexes.lookup name = some index →
        ∃ field ∈ (program.types.get tp).fields, field.name = name := by
  refine ⟨_, newStorer_of_struct typed reflected stops named isStruct, rfl,
    fun field member alone => ?_, fun name index found => ?_⟩
  · have settledAlone : ∀ other ∈ (program.types.get tp).fields,
        (fieldIndex other).1 = field.name → other = field := by
      intro other otherMember settles
      rcases fieldIndex_name other with empty | same
      · exact absurd (empty ▸ settles).symm field.name_ne_nil
      · exact alone other otherMember (same ▸ settles)
    have declared : (program.types.get tp).fields.find? (·.name == field.name) = some field := by
      obtain ⟨first, found⟩ := Option.isSome_iff_exists.mp
        ((@List.find?_isSome _ _ (·.name == field.name)).mpr ⟨field, member, beq_self_eq_true _⟩)
      rw [found, alone first (List.mem_of_find?_eq_some found)
        (by simpa using List.find?_some found)]
    have entry := lookup_foldl_addFieldIndex program.types field _ [] settledAlone
    have settledIff : (fieldIndex field).1 = field.name ↔ (fieldIndex field).1 ≠ [] := by
      rcases fieldIndex_name field with empty | same
      · simp [empty, field.name_ne_nil.symm]
      · simp [same, field.name_ne_nil]
    simp only [member, true_and, settledIff, List.lookup_nil] at entry
    refine ⟨?_, fun index found => ?_⟩
    · rw [reflectIndexes, entry, ← fieldIndex_ne_nil_iff]
      split <;> rename_i settled <;> simpa using settled
    · rw [reflectIndexes, entry] at found
      split at found
      · cases found
        exact ⟨fieldIndex_unique_iff field, fun encode types values value found =>
          anonIndexFunc_wrapPtrs encode types declared found⟩
      · cases found
  · rcases lookup_foldl_addFieldIndex_some _ [] found with
      ⟨field, member, settles, nonEmpty⟩ | none
    · rcases fieldIndex_name field with empty | same
      · exact absurd (empty ▸ settles).symm nonEmpty
      · exact ⟨field, member, same ▸ settles⟩
    · cases none

/-- `type User struct { Email string \`hold:"unique"\` }`. -/
def uniqueEmailUser : Program where
  types := ⟨[⟨goString "User", .struct, 0,
      [⟨goString "Email", [], goString "hold:\"unique\"", by decide⟩], .struct 0 []⟩],
    fun _ => 0, by decide⟩
  storerOf _ := none

unseal StructTag.lookup unquoteLoop in
theorem newStorer_unique_email :
    ∃ storer, newStorer uniqueEmailUser (.struct 0 []) = .returns storer ∧
      ∃ index, storer.indexes.lookup (goString "Email") = some index ∧ index.unique = true := by
  obtain ⟨storer, ran, -, byTag, -⟩ :=
    @newStorer_indexes_by_tag uniqueEmailUser (.struct 0 []) 0 0 rfl rfl rfl (by decide) rfl
  obtain ⟨present, entries⟩ := byTag _ (.head _) (by simp [uniqueEmailUser, Universe.get])
  obtain ⟨index, found⟩ :=
    Option.isSome_iff_exists.mp (present.mpr (.inr ⟨by decide, .inr (by decide)⟩))
  exact ⟨storer, ran, index, found, (entries index found).1.mpr ⟨by decide, by decide⟩⟩

/-- `type Item struct` with three fields that the tag table documents as indexes: `Name
string \`json:"holdIndex" hold:"index"\``, `Code string \`holdIndex:""\`` and, unexported
(in package `main`), `category string \`hold:"index"\``. -/
def taggedItem : Program where
  types := ⟨[⟨goString "Item", .struct, 0,
      [⟨goString "Name", [], goString "json:\"holdIndex\" hold:\"index\"", by decide⟩,
        ⟨goString "Code", [], goString "holdIndex:\"\"", by decide⟩,
        ⟨goString "category", goString "main", goString "hold:\"index\"", by decide⟩],
      .struct 0 []⟩],
    fun _ => 0, by decide⟩
  storerOf _ := none

unseal StructTag.lookup unquoteLoop in
/-- Of the three documented indexes of `taggedItem`, `Name` and `Code` get none, and the
`IndexFunc` of `category` panics on every `Item`. -/
theorem newStorer_misses_documented_indexes :
    ∃ storer, newStorer taggedItem (.struct 0 []) = .returns storer ∧
      storer.indexes.lookup (goString "Name") = none ∧
      storer.indexes.lookup (goString "Code") = none ∧
      ∃ index, storer.indexes.lookup (goString "category") = some index ∧
        ∀ (encode : EncodeFunc) (name code category : GoValue),
          index.indexFunc encode (goString "category") (.struct 0 [(goString "Name", name),
            (goString "Code", code), (goString "category", category)]) =
            .panics unexportedPanic :=
  ⟨_, rfl, Option.isNone_iff_eq_none.mp (by decide), Option.isNone_iff_eq_none.mp (by decide),
    _, rfl, fun _ _ _ _ => rfl⟩

/-!
## Self-referential pointer types
-/

/-- `type P *P`: a named pointer type whose element type is itself. -/
def selfPointer : Program where
  types := ⟨[⟨goString "P", .ptr, 0, [], .ptr 0 none⟩], fun _ => 0, by decide⟩
  storerOf _ := none

/-- On a value of `type P *P`, every pass of newStorer's pointer loop finds a pointer
type again, so newStorer never returns. -/
theorem newStorer_self_pointer_diverges :
    newStorer selfPointer (.ptr 0 none) = .diverges ∧
      ∀ k, (selfPointer.types.get (selfPointer.types.elem^[k] 0)).kind = .ptr := by
  have stays : ∀ k, selfPointer.types.elem^[k] 0 = 0 := Function.iterate_fixed rfl
  exact ⟨rfl, fun k => by rw [stays]; rfl⟩

end Kvdb.Hold

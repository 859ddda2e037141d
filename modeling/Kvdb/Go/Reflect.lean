import Kvdb.Go.StructTag
import Mathlib.Data.Finset.Card

/-!
# Types and values through reflect

The part of `reflect` that hold's catalog uses: the dynamic type of a value, the
kind, name, element type and fields of a type, and a value's fields by name. Types
live in a finite universe and refer to one another by position, so that
self-referential types such as `type P *P` can be written down.
-/

set_option autoImplicit false

namespace Kvdb.Go

/-- A Go type, named by its position in the program's type universe. -/
abbrev TypeId := Nat

/-- `reflect.Kind`, as far as hold tells kinds apart. -/
inductive Kind where
  | ptr
  | struct
  | other
  deriving DecidableEq, Repr

/-- `reflect.StructField`: the field's name, never empty in Go; its `PkgPath`, empty
exactly when the field is exported (its name starts with an upper-case letter); and its
tag. -/
structure StructField where
  name : Bytes
  pkgPath : Bytes
  tag : StructTag
  name_ne_nil : name ≠ []
  deriving DecidableEq

/-- A dynamic Go value, as an `interface{}` holds it. A struct lists its fields by
name; a pointer is nil or points to a value. -/
inductive GoValue where
  /-- The nil interface. -/
  | nil
  /-- A value of a kind that hold never looks into. -/
  | scalar (type : TypeId) (payload : Bytes)
  | ptr (type : TypeId) (target : Option GoValue)
  | struct (type : TypeId) (fields : List (Bytes × GoValue))
  deriving Repr

/-- A type as `reflect.Type` presents it. `name` is empty for an unnamed type, `elem`
is read for pointer kinds, `fields` for struct kinds, and `zero` is `reflect.Zero`. -/
structure RType where
  name : Bytes
  kind : Kind
  elem : TypeId
  fields : List StructField
  zero : GoValue

/-- The types of a program. The element type of every pointer type is one of them,
and `ptrTo` is `reflect.PtrTo`. -/
structure Universe where
  types : List RType
  ptrTo : TypeId → TypeId
  elem_lt : ∀ type ∈ types, type.kind = .ptr → type.elem < types.length

/-- What a position outside the universe stands for: no type, of no kind hold reads. -/
def RType.absent : RType := ⟨[], .other, 0, [], .nil⟩

namespace Universe

variable (u : Universe)

/-- The type at a position. -/
def get (id : TypeId) : RType := u.types.getD id RType.absent

/-- `Elem()` of a type. -/
def elem (id : TypeId) : TypeId := (u.get id).elem

/-- The loop `for tp.Kind() == reflect.Ptr { tp = tp.Elem() }`, run for at most
`fuel` passes beyond the first test: the type it stops on, or `none` when it is still
on a pointer type. -/
def derefType : Nat → TypeId → Option TypeId
  | 0, t => if (u.get t).kind = .ptr then none else some t
  | fuel + 1, t => if (u.get t).kind = .ptr then derefType fuel (u.elem t) else some t

/-- The type newStorer's pointer loop stops on, or `none` when the loop never ends.
With `n` types in the universe, a chain of `n + 1` pointer types repeats one and
then cycles (`stripPointers_eq_none_iff`). -/
def stripPointers (t : TypeId) : Option TypeId := u.derefType u.types.length t

variable {u}

theorem lt_length_of_ptr {id : TypeId} (isPtr : (u.get id).kind = .ptr) :
    id < u.types.length := by
  by_contra outside
  simp [get, List.getD_eq_getElem?_getD, List.getElem?_eq_none (Nat.le_of_not_lt outside),
    RType.absent] at isPtr

theorem derefType_eq_none_iff {fuel : Nat} {t : TypeId} :
    u.derefType fuel t = none ↔ ∀ k ≤ fuel, (u.get (u.elem^[k] t)).kind = .ptr := by
  induction fuel generalizing t with
  | zero => simp [derefType]
  | succ fuel ih =>
      by_cases isPtr : (u.get t).kind = .ptr
      · simp only [derefType, isPtr, ↓reduceIte, ih]
        constructor
        · intro later k bound
          cases k with
          | zero => exact isPtr
          | succ k => exact later k (by omega)
        · intro all k bound
          exact all (k + 1) (by omega)
      · simp only [derefType, isPtr, ↓reduceIte, reduceCtorEq, false_iff, not_forall]
        exact ⟨0, Nat.zero_le _, isPtr⟩

theorem derefType_eq_some {fuel : Nat} {t stop : TypeId} (ended : u.derefType fuel t = some stop) :
    ∃ k ≤ fuel, stop = u.elem^[k] t ∧ (u.get stop).kind ≠ .ptr ∧
      ∀ j < k, (u.get (u.elem^[j] t)).kind = .ptr := by
  induction fuel generalizing t with
  | zero =>
      simp only [derefType] at ended
      split at ended
      · cases ended
      · cases ended
        exact ⟨0, le_rfl, rfl, ‹_›, fun _ bound => absurd bound (Nat.not_lt_zero _)⟩
  | succ fuel ih =>
      simp only [derefType] at ended
      split at ended
      · obtain ⟨k, bound, rfl, stops, before⟩ := ih ended
        refine ⟨k + 1, by omega, rfl, stops, fun j below => ?_⟩
        cases j with
        | zero => assumption
        | succ j => exact before j (by omega)
      · cases ended
        exact ⟨0, Nat.zero_le _, rfl, ‹_›, fun _ bound => absurd bound (Nat.not_lt_zero _)⟩

private theorem iterate_revisits {i j : Nat} {t : TypeId} (before : i < j)
    (repeated : u.elem^[i] t = u.elem^[j] t) :
    ∀ k, ∃ k' ≤ j, u.elem^[k] t = u.elem^[k'] t := by
  intro k
  induction k using Nat.strong_induction_on with
  | _ k ih =>
      by_cases small : k ≤ j
      · exact ⟨k, small, rfl⟩
      · have back : u.elem^[k] t = u.elem^[k - (j - i)] t :=
          calc u.elem^[k] t = u.elem^[k - j] (u.elem^[j] t) := by
                rw [← Function.iterate_add_apply]; congr 1; omega
            _ = u.elem^[k - j] (u.elem^[i] t) := by rw [repeated]
            _ = u.elem^[k - (j - i)] t := by
                rw [← Function.iterate_add_apply]; congr 1; omega
        obtain ⟨k', bound, same⟩ := ih (k - (j - i)) (by omega)
        exact ⟨k', bound, back.trans same⟩

/-- newStorer's pointer loop ends exactly when the chain of element types reaches a
type that is not a pointer. -/
theorem stripPointers_eq_none_iff {t : TypeId} :
    u.stripPointers t = none ↔ ∀ k, (u.get (u.elem^[k] t)).kind = .ptr := by
  unfold stripPointers
  rw [derefType_eq_none_iff]
  refine ⟨fun chain => ?_, fun all k _ => all k⟩
  have inside : ∀ k ∈ Finset.range (u.types.length + 1),
      u.elem^[k] t ∈ Finset.range u.types.length := fun k member =>
    Finset.mem_range.mpr (lt_length_of_ptr (chain k (by simpa [Nat.lt_succ_iff] using member)))
  obtain ⟨i, iMember, j, jMember, different, repeated⟩ :=
    Finset.exists_ne_map_eq_of_card_lt_of_maps_to (by simp) inside
  have iBound := Nat.lt_succ_iff.mp (Finset.mem_range.mp iMember)
  have jBound := Nat.lt_succ_iff.mp (Finset.mem_range.mp jMember)
  intro k
  rcases Nat.lt_or_gt_of_ne different with before | after
  · obtain ⟨k', bound, same⟩ := iterate_revisits before repeated k
    rw [same]
    exact chain k' (by omega)
  · obtain ⟨k', bound, same⟩ := iterate_revisits after repeated.symm k
    rw [same]
    exact chain k' (by omega)

end Universe

/-!
## Values
-/

/-- The panic of `Interface` on a value read through an unexported field. -/
def unexportedPanic : Panic := .text <| goString <|
  "reflect.Value.Interface: cannot return value obtained from unexported field or method"

namespace GoValue

/-- `reflect.TypeOf`: the dynamic type, `none` for the nil interface. -/
def typeOf : GoValue → Option TypeId
  | nil => none
  | scalar type _ => some type
  | ptr type _ => some type
  | struct type _ => some type

/-- `reflect.ValueOf(v)` followed by the loop `for tp.Kind() == reflect.Ptr { tp =
tp.Elem() }`: the value the loop stops on, or `none` for the zero `reflect.Value` that
`ValueOf(nil)` and the `Elem` of a nil pointer give. -/
def deref : GoValue → Option GoValue
  | nil => none
  | ptr _ none => none
  | ptr _ (some target) => deref target
  | scalar type payload => some (scalar type payload)
  | struct type fields => some (struct type fields)

/-- `tp.FieldByName(name).Interface()` on the value the loop stopped on. Both calls
panic on a value of the wrong kind or on the zero `Value`; `FieldByName` finds the field
through the struct's type, and gives the zero `Value` when the type has no such field;
`Interface` refuses a field that is not exported. -/
def fieldInterface (u : Universe) (name : Bytes) : Option GoValue → Outcome GoValue
  | some (struct type fields) =>
    match (u.get type).fields.find? (·.name == name), fields.lookup name with
    | some field, some value =>
      if field.pkgPath = [] then .returns value else .panics unexportedPanic
    | _, _ => .panics (.reflectValue (goString "reflect.Value.Interface"))
  | _ => .panics (.reflectValue (goString "reflect.Value.FieldByName"))

/-- A value behind a chain of non-nil pointers of the given types. -/
def wrapPtrs : List TypeId → GoValue → GoValue
  | [], value => value
  | type :: types, value => ptr type (some (wrapPtrs types value))

@[simp] theorem deref_wrapPtrs (types : List TypeId) (value : GoValue) :
    (wrapPtrs types value).deref = value.deref := by
  induction types with
  | nil => rfl
  | cons type types ih => simpa [wrapPtrs, deref] using ih

end GoValue

end Kvdb.Go

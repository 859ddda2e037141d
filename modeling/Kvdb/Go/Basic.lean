import Mathlib.Data.List.Infix

/-!
# Go basics

Byte strings, error values, panics and the ways a call can end. Go's `string` and
`[]byte` are both finite byte sequences, and `len` counts bytes; both are lists of
bytes here. A string literal of the source stands for its UTF-8 encoding, which is
what the Go compiler stores.
-/

set_option autoImplicit false

namespace Kvdb.Go

/-- A Go `string` or `[]byte`. -/
abbrev Bytes := List UInt8

/-- The bytes of a Go string literal. -/
def goString (literal : String) : Bytes := literal.data.flatMap String.utf8EncodeChar

/-- `strings.Contains(s, substr)`: `substr` occurs in `s` at some offset. -/
def contains (s substr : Bytes) : Bool :=
  substr.isPrefixOf s || match s with
    | [] => false
    | _ :: rest => contains rest substr

theorem contains_iff_infix {s substr : Bytes} : contains s substr = true ↔ substr <:+: s := by
  induction s with
  | nil => cases substr <;> simp [contains]
  | cons byte rest ih =>
      simp [contains, ih, List.infix_cons_iff, List.isPrefixOf_iff_prefix]

/-!
## Errors, panics and outcomes
-/

/-- Go `error` values that the modelled code produces or compares against. The
sentinels of hold and badger are distinct values; every other error (a codec's, for
one) is told apart only by its text. -/
inductive GoError where
  /-- `hold.ErrNotFound`. -/
  | notFound
  /-- `badger.ErrKeyNotFound`. -/
  | keyNotFound
  /-- `badger.ErrReadOnlyTxn`. -/
  | readOnlyTxn
  /-- `badger.ErrZeroBandwidth`, from `GetSequence` with bandwidth zero. -/
  | zeroBandwidth
  /-- `badger.ErrEmptyKey`. -/
  | emptyKey
  /-- `badger.ErrConflict`, from the commit of a transaction that read a key another
  commit wrote since. -/
  | conflict
  | other (text : Bytes)
  deriving DecidableEq, Repr

/-- Why a Go call panicked. -/
inductive Panic where
  /-- `panic(message)` with a string of the program. -/
  | text (message : Bytes)
  /-- The run-time error of a method called through a nil interface or pointer. -/
  | nilDereference
  /-- A `reflect.ValueError`: the `reflect.Value` method `method` called on a value of
  the wrong kind, or on the zero `Value`. -/
  | reflectValue (method : Bytes)
  /-- The run-time error of slicing `s[low:]` with `low` past `len(s)`. -/
  | sliceBounds (low length : Nat)
  deriving DecidableEq, Repr

/-- How a call of Go code ends: it returns its results, it panics, or it never
returns. -/
inductive Outcome (α : Type) where
  | returns (value : α)
  | panics (p : Panic)
  | diverges
  deriving DecidableEq, Repr

namespace Outcome

/-- Sequencing: a panic or a call that never returns ends the caller the same way. -/
def bind {α β : Type} : Outcome α → (α → Outcome β) → Outcome β
  | returns value, next => next value
  | panics p, _ => panics p
  | diverges, _ => diverges

instance : Monad Outcome where
  pure := returns
  bind := bind

@[simp] theorem bind_returns {α β : Type} (value : α) (next : α → Outcome β) :
    (returns value).bind next = next value := rfl

@[simp] theorem bind_panics {α β : Type} (p : Panic) (next : α → Outcome β) :
    (panics p).bind next = panics p := rfl

@[simp] theorem bind_diverges {α β : Type} (next : α → Outcome β) :
    (diverges : Outcome α).bind next = diverges := rfl

theorem bind_eq_returns {α β : Type} {first : Outcome α} {next : α → Outcome β} {result : β}
    (ran : first.bind next = returns result) :
    ∃ value, first = returns value ∧ next value = returns result := by
  cases first with
  | returns value => exact ⟨value, rfl, ran⟩
  | panics p => cases ran
  | diverges => cases ran

end Outcome

end Kvdb.Go

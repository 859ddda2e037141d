import Kvdb.Go.Reflect

/-!
# Record keys

hold's codec and the layout of record keys (encode.go, `typePrefix` in store.go): a
record of type `T` with key `k` is stored under `"bh_" ++ T ++ encode(k)`, with no
separator between the type name and the encoded key.
-/

set_option autoImplicit false

namespace Kvdb.Hold

open Go

/-- `EncodeFunc`: `func(value interface{}) ([]byte, error)`. -/
abbrev EncodeFunc := GoValue → Except GoError Bytes

/-- `DecodeFunc`: `func(data []byte, value interface{}) error`, which writes through the
pointer `value`. It takes the value behind the pointer and gives the value it leaves
there, with the error it returns; a failed decode may leave a partly written value. -/
abbrev DecodeFunc := Bytes → GoValue → GoValue × Option GoError

/-- The encoder and decoder a store runs with. -/
structure Codec where
  encode : EncodeFunc
  decode : DecodeFunc

/-- `typePrefix`: `[]byte("bh_" + typeName)`. -/
def typePrefix (typeName : Bytes) : Bytes := goString "bh_" ++ typeName

/-- `encodeKey`: the encoded key behind the type prefix. -/
def encodeKey (codec : Codec) (key : GoValue) (typeName : Bytes) : Except GoError Bytes :=
  match codec.encode key with
  | .error err => .error err
  | .ok encoded => .ok (typePrefix typeName ++ encoded)

/-- `decodeKey`: `decode(data[len(typePrefix(typeName)):], key)`. Slicing past the end
of `data` panics. -/
def decodeKey (codec : Codec) (data : Bytes) (key : GoValue) (typeName : Bytes) :
    Outcome (GoValue × Option GoError) :=
  if (typePrefix typeName).length ≤ data.length then
    .returns (codec.decode (data.drop (typePrefix typeName).length) key)
  else .panics (.sliceBounds (typePrefix typeName).length data.length)

theorem encodeKey_eq_ok {codec : Codec} {key : GoValue} {typeName gk : Bytes}
    (encoded : encodeKey codec key typeName = .ok gk) :
    ∃ bytes, codec.encode key = .ok bytes ∧ gk = typePrefix typeName ++ bytes := by
  unfold encodeKey at encoded
  split at encoded
  · cases encoded
  · cases encoded
    exact ⟨_, ‹_›, rfl⟩

/-!
## Record keys of different types
-/

theorem typePrefix_prefix_iff {T₁ T₂ encoded : Bytes} :
    typePrefix T₁ <+: typePrefix T₂ ++ encoded ↔ T₁ <+: T₂ ++ encoded := by
  simp only [typePrefix, List.append_assoc, List.prefix_append_right_inj]

theorem typePrefix_not_prefix {codec : Codec} {key : GoValue} {T₁ T₂ gk : Bytes}
    (notPrefix : ¬ T₁ <+: T₂) (notPrefix' : ¬ T₂ <+: T₁)
    (encoded : encodeKey codec key T₂ = .ok gk) : ¬ typePrefix T₁ <+: gk := by
  obtain ⟨bytes, -, rfl⟩ := encodeKey_eq_ok encoded
  rw [typePrefix_prefix_iff]
  intro starts
  rcases List.prefix_or_prefix_of_prefix starts (List.prefix_append T₂ bytes) with
    shorter | longer
  · exact notPrefix shorter
  · exact notPrefix' longer

theorem typePrefix_prefix_of_prefix {codec : Codec} {key : GoValue} {T₁ T₂ gk : Bytes}
    (shorter : T₁ <+: T₂) (encoded : encodeKey codec key T₂ = .ok gk) :
    typePrefix T₁ <+: gk := by
  obtain ⟨bytes, -, rfl⟩ := encodeKey_eq_ok encoded
  exact typePrefix_prefix_iff.mpr (shorter.trans (List.prefix_append T₂ bytes))

/-- The record keys of two types neither of whose names is a prefix of the other never
meet, and neither does one type's key range reach the other's records; when one name is
a prefix of the other, the longer name's records all lie in the shorter name's range. -/
theorem typePrefix_ranges (codec : Codec) (T₁ T₂ : Bytes) :
    ((¬ T₁ <+: T₂ ∧ ¬ T₂ <+: T₁) →
      ∀ (k₁ k₂ : GoValue) (gk₁ gk₂ : Bytes), encodeKey codec k₁ T₁ = .ok gk₁ →
        encodeKey codec k₂ T₂ = .ok gk₂ → ¬ typePrefix T₁ <+: gk₂ ∧ gk₁ ≠ gk₂) ∧
    (T₁ <+: T₂ → ∀ (k₂ : GoValue) (gk₂ : Bytes), encodeKey codec k₂ T₂ = .ok gk₂ →
      typePrefix T₁ <+: gk₂) := by
  refine ⟨fun ⟨notPrefix, notPrefix'⟩ k₁ k₂ gk₁ gk₂ encoded₁ encoded₂ => ⟨?_, ?_⟩,
    fun shorter k₂ gk₂ => typePrefix_prefix_of_prefix shorter⟩
  · exact typePrefix_not_prefix notPrefix notPrefix' encoded₂
  · rintro rfl
    obtain ⟨bytes, -, rfl⟩ := encodeKey_eq_ok encoded₁
    exact typePrefix_not_prefix notPrefix notPrefix' encoded₂ (List.prefix_append _ _)

/-- Distinct type names do not always have disjoint key ranges: the records of
`ItemTest` lie in the prefix scan of `Item`, whatever the codec. -/
theorem typePrefix_not_disjoint :
    ¬ ∀ (T₁ T₂ : Bytes) (codec : Codec) (key : GoValue) (gk : Bytes), T₁ ≠ T₂ →
      encodeKey codec key T₂ = .ok gk → ¬ typePrefix T₁ <+: gk := by
  intro disjoint
  let codec : Codec := ⟨fun _ => .ok [], fun _ value => (value, none)⟩
  exact disjoint (goString "Item") (goString "ItemTest") codec .nil
    (typePrefix (goString "ItemTest"))
    (by decide) (by simp [encodeKey, codec]) ⟨goString "Test", by decide⟩

/-!
## Round trip
-/

/-- Decoding a record key strips exactly the prefix that encoding put there: under a
codec that decodes the key's encoding back to the key, `decodeKey` slices within bounds
and stores the key, for every type name. -/
theorem decodeKey_encodeKey (codec : Codec) (typeName : Bytes) (key out : GoValue)
    (roundTrip : ∃ bytes, codec.encode key = .ok bytes ∧ codec.decode bytes out = (key, none)) :
    ∃ gk, encodeKey codec key typeName = .ok gk ∧
      decodeKey codec gk out typeName = .returns (key, none) := by
  obtain ⟨bytes, encoded, decoded⟩ := roundTrip
  refine ⟨typePrefix typeName ++ bytes, by simp [encodeKey, encoded], ?_⟩
  simp [decodeKey, decoded]

/-- A codec that stores the payload of a scalar as it is. -/
def payloadCodec : Codec where
  encode
    | .scalar _ payload => .ok payload
    | _ => .error (.other (goString "not a scalar"))
  decode bytes _ := (.scalar 0 bytes, none)

/-- A type name whose UTF-8 encoding is longer than its character count. -/
theorem decodeKey_encodeKey_multibyte :
    (∃ bytes, payloadCodec.encode (.scalar 0 [7]) = .ok bytes ∧
      payloadCodec.decode bytes .nil = (.scalar 0 [7], none)) ∧
    ∃ gk, encodeKey payloadCodec (.scalar 0 [7]) (goString "Prüfung") = .ok gk ∧
      decodeKey payloadCodec gk .nil (goString "Prüfung") = .returns (.scalar 0 [7], none) :=
  ⟨⟨[7], rfl, rfl⟩, decodeKey_encodeKey payloadCodec (goString "Prüfung") _ _ ⟨[7], rfl, rfl⟩⟩

end Kvdb.Hold

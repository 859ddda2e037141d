import Kvdb.Go.Basic

/-!
# Struct tags

`reflect.StructTag.Get` as the Go library computes it: `Lookup` scans the
conventional `key:"value"` pairs of the tag, and the value of the first pair with
the wanted key goes through `strconv.Unquote`. Both loops recurse on a strictly
shorter suffix of their input.
-/

set_option autoImplicit false

namespace Kvdb.Go

/-- `reflect.StructTag`: the raw text of a struct field's tag. -/
abbrev StructTag := Bytes

/-!
## strconv.Unquote
-/

/-- `strconv.unhex`: the value of one hexadecimal digit. -/
def unhex (c : UInt8) : Option Nat :=
  if 0x30 ≤ c ∧ c ≤ 0x39 then some (c.toNat - 0x30)
  else if 0x61 ≤ c ∧ c ≤ 0x66 then some (c.toNat - 0x61 + 10)
  else if 0x41 ≤ c ∧ c ≤ 0x46 then some (c.toNat - 0x41 + 10)
  else none

/-- The number spelled by hexadecimal digits, most significant first. -/
def unhexDigits (digits : Bytes) : Option Nat :=
  digits.foldlM (fun acc c => (unhex c).map (acc * 16 + ·)) 0

/-- `utf8.EncodeRune`: surrogates and code points past U+10FFFF become U+FFFD. -/
def encodeRune (r : Nat) : Bytes :=
  if r < 0xD800 ∨ (0xDFFF < r ∧ r < 0x110000) then String.utf8EncodeChar (Char.ofNat r)
  else [0xEF, 0xBF, 0xBD]

/-- The width `utf8.DecodeRune` reads from a leading byte (its `first` table); `none`
for a byte that starts no sequence. -/
def utf8Width (c : UInt8) : Option Nat :=
  if c < 0x80 then some 1 else if c < 0xC2 then none else if c < 0xE0 then some 2
  else if c < 0xF0 then some 3 else if c < 0xF5 then some 4 else none

/-- The accept range of the byte after a leading byte (`utf8.acceptRanges`). -/
def utf8SecondRange (c : UInt8) : UInt8 × UInt8 :=
  (if c = 0xE0 then 0xA0 else if c = 0xF0 then 0x90 else 0x80,
   if c = 0xED then 0x9F else if c = 0xF4 then 0x8F else 0xBF)

/-- The width of the well-formed UTF-8 sequence at the head of `bytes`, as
`utf8.DecodeRune` accepts it; `none` where `DecodeRune` answers `RuneError` of width
one. -/
def utf8SeqLen : Bytes → Option Nat
  | [] => none
  | c :: rest => (utf8Width c).bind fun size =>
    if size = 1 then some 1
    else match rest with
      | b1 :: more =>
        if (utf8SecondRange c).1 ≤ b1 ∧ b1 ≤ (utf8SecondRange c).2 ∧ size - 2 ≤ more.length ∧
            (more.take (size - 2)).all (fun b => 0x80 ≤ b ∧ b ≤ 0xBF) then some size
        else none
      | [] => none

/-- A `\x`, `\u` or `\U` escape of `strconv.UnquoteChar` with `width` digits after the
letter; `\x` yields one raw byte, the others a code point that `Unquote` re-encodes. -/
def hexEscape (width : Nat) (codePoint : Bool) (s : Bytes) : Option (Bytes × Bytes) :=
  if s.length < width then none
  else (unhexDigits (s.take width)).bind fun v =>
    if !codePoint then some ([v.toUInt8], s.drop width)
    else if 0x10FFFF < v then none
    else some (if v < 0x80 then [v.toUInt8] else encodeRune v, s.drop width)

/-- An octal escape `\ooo`: the first digit `c` and two more, at most 255. -/
def octalEscape (c : UInt8) : Bytes → Option (Bytes × Bytes)
  | d1 :: d2 :: rest =>
    if 0x30 ≤ d1 ∧ d1 ≤ 0x37 ∧ 0x30 ≤ d2 ∧ d2 ≤ 0x37 ∧
        (c.toNat - 0x30) * 64 + (d1.toNat - 0x30) * 8 + (d2.toNat - 0x30) ≤ 255 then
      some ([((c.toNat - 0x30) * 64 + (d1.toNat - 0x30) * 8 + (d2.toNat - 0x30)).toUInt8], rest)
    else none
  | _ => none

/-- The escape after a backslash, in a double-quoted literal. -/
def unquoteEscape (c : UInt8) (s : Bytes) : Option (Bytes × Bytes) :=
  match c with
  | 0x61 => some ([0x07], s)
  | 0x62 => some ([0x08], s)
  | 0x66 => some ([0x0C], s)
  | 0x6E => some ([0x0A], s)
  | 0x72 => some ([0x0D], s)
  | 0x74 => some ([0x09], s)
  | 0x76 => some ([0x0B], s)
  | 0x78 => hexEscape 2 false s
  | 0x75 => hexEscape 4 true s
  | 0x55 => hexEscape 8 true s
  | 0x5C => some ([0x5C], s)
  | 0x22 => some ([0x22], s)
  | _ => if 0x30 ≤ c ∧ c ≤ 0x37 then octalEscape c s else none

/-- `strconv.UnquoteChar(s, '"')` followed by the append of `Unquote`'s loop: the bytes
the first character or escape of `s` stands for, and the rest of `s`. A multi-byte
character is decoded and encoded again, which keeps a well-formed sequence and
turns a malformed byte into U+FFFD. -/
def unquoteChar : Bytes → Option (Bytes × Bytes)
  | [] => none
  | 0x22 :: _ => none
  | 0x5C :: [] => none
  | 0x5C :: c :: s => unquoteEscape c s
  | c :: s =>
    if c < 0x80 then some ([c], s)
    else match utf8SeqLen (c :: s) with
      | some size => some ((c :: s).take size, (c :: s).drop size)
      | none => some ([0xEF, 0xBF, 0xBD], s)

private theorem hexEscape_tail {width : Nat} {codePoint : Bool} {s value tail : Bytes}
    (decoded : hexEscape width codePoint s = some (value, tail)) : tail = s.drop width := by
  unfold hexEscape at decoded
  split at decoded
  · cases decoded
  · obtain ⟨v, -, decoded⟩ := Option.bind_eq_some.mp decoded
    split at decoded
    · cases decoded; rfl
    · split at decoded
      · cases decoded
      · cases decoded; rfl

private theorem octalEscape_tail {c : UInt8} {s value tail : Bytes}
    (decoded : octalEscape c s = some (value, tail)) : tail.length ≤ s.length := by
  unfold octalEscape at decoded
  split at decoded
  · split at decoded
    · cases decoded; simp only [List.length_cons]; omega
    · cases decoded
  · cases decoded

private theorem unquoteEscape_tail_le {c : UInt8} {s value tail : Bytes}
    (decoded : unquoteEscape c s = some (value, tail)) : tail.length ≤ s.length := by
  unfold unquoteEscape at decoded
  split at decoded
  all_goals first
    | (cases decoded; exact le_rfl)
    | (rw [hexEscape_tail decoded]; simp)
    | skip
  split at decoded
  · exact octalEscape_tail decoded
  · cases decoded

private theorem utf8SeqLen_pos {bytes : Bytes} {size : Nat}
    (sized : utf8SeqLen bytes = some size) : 0 < size := by
  cases bytes with
  | nil => cases sized
  | cons c rest =>
      obtain ⟨width, widthIs, sized⟩ := Option.bind_eq_some.mp sized
      have positive : 0 < width := by
        unfold utf8Width at widthIs
        split_ifs at widthIs <;> cases widthIs <;> decide
      split at sized
      · cases sized; exact Nat.one_pos
      · split at sized
        · split at sized
          · cases sized; exact positive
          · cases sized
        · cases sized

theorem unquoteChar_tail_lt {s value tail : Bytes}
    (decoded : unquoteChar s = some (value, tail)) : tail.length < s.length := by
  unfold unquoteChar at decoded
  split at decoded
  · cases decoded
  · cases decoded
  · cases decoded
  · have := unquoteEscape_tail_le decoded
    simp only [List.length_cons]
    omega
  · split at decoded
    · cases decoded; simp
    · split at decoded
      · rename_i size sized
        cases decoded
        have := utf8SeqLen_pos sized
        simp only [List.length_drop, List.length_cons]
        omega
      · cases decoded; simp

/-- The characters of a double-quoted literal's body, decoded one after another. -/
def unquoteLoop (s : Bytes) : Option Bytes :=
  if s = [] then some []
  else match decoded : unquoteChar s with
    | none => none
    | some (value, tail) => (unquoteLoop tail).map (value ++ ·)
termination_by s.length
decreasing_by exact unquoteChar_tail_lt decoded

/-- `strconv.Unquote` of the literal `"` ++ `body` ++ `"`: a newline anywhere in the
body is a syntax error, and otherwise the body is decoded character by character.
(The library's shortcut for a body that is valid UTF-8 with no backslash and no quote
returns the body unchanged, which is also what the loop computes for it.) -/
def unquote (body : Bytes) : Option Bytes :=
  if body.contains 0x0A then none else unquoteLoop body

/-!
## reflect.StructTag.Lookup
-/

/-- A byte that may stand in a tag key: `Lookup`'s scan to the colon stops at a space,
a control character, a colon, a quote or DEL. -/
def isKeyByte (c : UInt8) : Bool := 0x20 < c && c != 0x3A && c != 0x22 && c != 0x7F

/-- `Lookup`'s scan of a quoted value, from the byte after the opening quote: the raw
body and what follows the closing quote. A backslash makes the scan step over the next
byte; the tag ending inside the quotes stops the scan. -/
def scanQuoted : Bytes → Option (Bytes × Bytes)
  | [] => none
  | 0x22 :: rest => some ([], rest)
  | 0x5C :: [] => none
  | 0x5C :: escaped :: rest =>
    (scanQuoted rest).map fun (body, after) => (0x5C :: escaped :: body, after)
  | c :: rest => (scanQuoted rest).map fun (body, after) => (c :: body, after)

theorem scanQuoted_after_lt {s body after : Bytes}
    (scanned : scanQuoted s = some (body, after)) : after.length < s.length := by
  induction s using scanQuoted.induct generalizing body after with
  | case1 => cases scanned
  | case2 rest => cases scanned; simp
  | case3 => cases scanned
  | case4 escaped rest ih =>
      simp only [scanQuoted, Option.map_eq_some'] at scanned
      obtain ⟨⟨body', after'⟩, inner, ⟨⟩⟩ := scanned
      have := ih inner
      simp only [List.length_cons]
      omega
  | case5 c rest _ _ _ ih =>
      rw [scanQuoted.eq_5 _ _ ‹_› ‹_› ‹_›] at scanned
      simp only [Option.map_eq_some'] at scanned
      obtain ⟨⟨body', after'⟩, inner, ⟨⟩⟩ := scanned
      have := ih inner
      simp only [List.length_cons]
      omega

/-- `reflect.StructTag.Lookup(key)`: the unquoted value of the first `key:"value"` pair
with this key. Leading spaces before a pair are skipped; the scan stops, with no value,
at the first malformed pair, and also when the value it found does not unquote. -/
def StructTag.lookup (tag : StructTag) (key : Bytes) : Option Bytes :=
  let trimmed := tag.dropWhile (· == 0x20)
  let name := trimmed.takeWhile isKeyByte
  let rest := trimmed.dropWhile isKeyByte
  if name = [] ∨ rest.take 2 ≠ [0x3A, 0x22] then none
  else match scanned : scanQuoted (rest.drop 2) with
    | none => none
    | some (body, after) => if key = name then unquote body else StructTag.lookup after key
termination_by tag.length
decreasing_by
  have shorter := scanQuoted_after_lt scanned
  have restLe : rest.length ≤ trimmed.length := (List.dropWhile_suffix isKeyByte).length_le
  have trimmedLe : trimmed.length ≤ tag.length := (List.dropWhile_suffix _).length_le
  simp only [List.length_drop] at shorter
  omega

/-- `reflect.StructTag.Get(key)`: the value `Lookup` finds, or the empty string. -/
def StructTag.get (tag : StructTag) (key : Bytes) : Bytes := (tag.lookup key).getD []

/-!
## Conventional tags
-/

/-- A tag key that `Lookup` reads whole: not empty, and made of key bytes. -/
def ValidKey (key : Bytes) : Prop := key ≠ [] ∧ ∀ c ∈ key, isKeyByte c = true

instance (key : Bytes) : Decidable (ValidKey key) := inferInstanceAs (Decidable (_ ∧ _))

private theorem utf8SeqLen_drop_lt {bytes : Bytes} {size : Nat}
    (sized : utf8SeqLen bytes = some size) : (bytes.drop size).length < bytes.length := by
  cases bytes with
  | nil => cases sized
  | cons c rest =>
      have := utf8SeqLen_pos sized
      simp only [List.length_drop, List.length_cons]
      omega

/-- `utf8.Valid`: the bytes split into sequences that `utf8.DecodeRune` accepts. -/
def utf8Valid (bytes : Bytes) : Bool :=
  match sized : utf8SeqLen bytes with
  | none => bytes.isEmpty
  | some size => utf8Valid (bytes.drop size)
termination_by bytes.length
decreasing_by exact utf8SeqLen_drop_lt sized

/-- A value that needs no escape between double quotes: valid UTF-8 with no quote,
backslash or newline. -/
def PlainValue (value : Bytes) : Prop :=
  (∀ c ∈ value, c ≠ 0x22 ∧ c ≠ 0x5C ∧ c ≠ 0x0A) ∧ utf8Valid value = true

instance (value : Bytes) : Decidable (PlainValue value) :=
  inferInstanceAs (Decidable (_ ∧ _))

/-- The conventional form of a struct tag: `key:"value"` pairs separated by spaces. -/
def StructTag.render : List (Bytes × Bytes) → StructTag
  | [] => []
  | [(name, value)] => name ++ 0x3A :: 0x22 :: (value ++ [0x22])
  | (name, value) :: pair :: rest =>
    name ++ 0x3A :: 0x22 :: (value ++ 0x22 :: 0x20 :: StructTag.render (pair :: rest))

theorem scanQuoted_cons {c : UInt8} {l : Bytes} (notQuote : c ≠ 0x22) (notSlash : c ≠ 0x5C) :
    scanQuoted (c :: l) = (scanQuoted l).map fun (body, after) => (c :: body, after) := by
  rw [scanQuoted.eq_5] <;> simp_all

theorem unquoteChar_seq {c : UInt8} {rest : Bytes} {size : Nat} (notQuote : c ≠ 0x22)
    (notSlash : c ≠ 0x5C) (sized : utf8SeqLen (c :: rest) = some size) :
    unquoteChar (c :: rest) = some ((c :: rest).take size, (c :: rest).drop size) := by
  rw [unquoteChar.eq_5 _ _ notQuote (fun slash => absurd slash notSlash)
    (fun _ _ slash => absurd slash notSlash)]
  split
  · rename_i ascii
    have one : utf8SeqLen (c :: rest) = some 1 := by simp [utf8SeqLen, utf8Width, ascii]
    rw [one] at sized
    cases sized
    rfl
  · rw [sized]

theorem scanQuoted_plain {value : Bytes} (after : Bytes)
    (special : ∀ c ∈ value, c ≠ 0x22 ∧ c ≠ 0x5C ∧ c ≠ 0x0A) :
    scanQuoted (value ++ 0x22 :: after) = some (value, after) := by
  induction value with
  | nil => rfl
  | cons c value ih =>
      obtain ⟨notQuote, notSlash, -⟩ := special c (.head _)
      rw [List.cons_append, scanQuoted_cons notQuote notSlash,
        ih fun d member => special d (.tail _ member)]
      rfl

theorem unquoteLoop_plain {value : Bytes} (special : ∀ c ∈ value, c ≠ 0x22 ∧ c ≠ 0x5C)
    (valid : utf8Valid value = true) : unquoteLoop value = some value := by
  induction value using utf8Valid.induct with
  | case1 bytes none =>
      rw [utf8Valid, none] at valid
      rw [List.isEmpty_iff.mp valid, unquoteLoop]
      rfl
  | case2 bytes size sized ih =>
      obtain ⟨c, rest, rfl⟩ : ∃ c rest, bytes = c :: rest := by
        cases bytes with
        | nil => cases sized
        | cons c rest => exact ⟨c, rest, rfl⟩
      obtain ⟨notQuote, notSlash⟩ := special c (.head _)
      rw [utf8Valid, sized] at valid
      rw [unquoteLoop, if_neg (List.cons_ne_nil c rest)]
      split
      · rename_i failed
        rw [unquoteChar_seq notQuote notSlash sized] at failed
        cases failed
      · rename_i decodedValue tail decoded
        rw [unquoteChar_seq notQuote notSlash sized] at decoded
        cases decoded
        rw [ih (fun d member => special d (List.mem_of_mem_drop member)) valid,
          Option.map_some', List.take_append_drop]

theorem unquote_plain {value : Bytes} (plain : PlainValue value) : unquote value = some value := by
  have noNewline : value.contains 0x0A = false := by
    simpa using fun member => (plain.1 0x0A member).2.2 rfl
  rw [unquote, noNewline, if_neg Bool.false_ne_true,
    unquoteLoop_plain (fun c member => ⟨(plain.1 c member).1, (plain.1 c member).2.1⟩) plain.2]

theorem StructTag.lookup_space (tag : StructTag) (key : Bytes) :
    StructTag.lookup (0x20 :: tag) key = StructTag.lookup tag key := by
  have skipped : (0x20 :: tag).dropWhile (· == 0x20) = tag.dropWhile (· == 0x20) :=
    List.dropWhile_cons_of_pos rfl
  rw [StructTag.lookup, StructTag.lookup.eq_1 tag, skipped]

theorem StructTag.lookup_pair {name value : Bytes} (after : StructTag) (key : Bytes)
    (valid : ValidKey name) (plain : PlainValue value) :
    StructTag.lookup (name ++ 0x3A :: 0x22 :: (value ++ 0x22 :: after)) key =
      if key = name then some value else StructTag.lookup after key := by
  obtain ⟨nonEmpty, keyBytes⟩ := valid
  have colon : isKeyByte 0x3A = false := rfl
  have trimmed : (name ++ 0x3A :: 0x22 :: (value ++ 0x22 :: after)).dropWhile (· == 0x20) =
      name ++ 0x3A :: 0x22 :: (value ++ 0x22 :: after) := by
    obtain ⟨c, rest, rfl⟩ := List.exists_cons_of_ne_nil nonEmpty
    have above : 0x20 < c := by
      have first := keyBytes c (.head _)
      simp only [isKeyByte, Bool.and_eq_true, decide_eq_true_eq] at first
      exact first.1.1.1
    refine List.dropWhile_cons_of_neg fun space => ?_
    rw [beq_iff_eq] at space
    subst space
    exact absurd above (by decide)
  have named : (name ++ 0x3A :: 0x22 :: (value ++ 0x22 :: after)).takeWhile isKeyByte = name := by
    rw [List.takeWhile_append_of_pos keyBytes, List.takeWhile_cons_of_neg (by simp [colon]),
      List.append_nil]
  have dropped : (name ++ 0x3A :: 0x22 :: (value ++ 0x22 :: after)).dropWhile isKeyByte =
      0x3A :: 0x22 :: (value ++ 0x22 :: after) := by
    rw [List.dropWhile_append_of_pos keyBytes, List.dropWhile_cons_of_neg (by simp [colon])]
  have scanned : scanQuoted ((0x3A :: 0x22 :: (value ++ 0x22 :: after)).drop 2) =
      some (value, after) := scanQuoted_plain after plain.1
  rw [StructTag.lookup, trimmed, named, dropped, scanned]
  simp [nonEmpty, unquote_plain plain]

/-- `Lookup` reads a conventional tag back. -/
theorem StructTag.lookup_render (key : Bytes) :
    ∀ (pairs : List (Bytes × Bytes)), (∀ pair ∈ pairs, ValidKey pair.1 ∧ PlainValue pair.2) →
      (StructTag.render pairs).lookup key = pairs.lookup key
  | [], _ => by rw [StructTag.render, StructTag.lookup]; rfl
  | [(name, value)], wellFormed => by
      obtain ⟨valid, plain⟩ := wellFormed _ (.head _)
      rw [StructTag.render, StructTag.lookup_pair [] key valid plain, StructTag.lookup]
      by_cases same : key = name
      · simp [same]
      · simp [same, List.lookup_cons, beq_false_of_ne same]
  | (name, value) :: pair :: rest, wellFormed => by
      obtain ⟨valid, plain⟩ := wellFormed _ (.head _)
      rw [StructTag.render, StructTag.lookup_pair _ key valid plain, StructTag.lookup_space,
        StructTag.lookup_render key (pair :: rest) fun p member => wellFormed p (.tail _ member)]
      by_cases same : key = name
      · simp [same]
      · simp [same, List.lookup_cons, beq_false_of_ne same]

/-- `Get` on a conventional tag, with keys made of key bytes and values that need no
escape, gives the value of the first pair with the wanted key, and the empty string when
there is none. -/
theorem StructTag.get_render (key : Bytes) (pairs : List (Bytes × Bytes))
    (wellFormed : ∀ pair ∈ pairs, ValidKey pair.1 ∧ PlainValue pair.2) :
    (StructTag.render pairs).get key = (pairs.lookup key).getD [] := by
  rw [StructTag.get, StructTag.lookup_render key pairs wellFormed]

unseal utf8Valid in
/-- A conventional tag with a multi-byte `json` value before the `hold` key. -/
theorem get_render_json_hold :
    (∀ pair ∈ [(goString "json", goString "café"), (goString "hold", goString "index")],
      ValidKey pair.1 ∧ PlainValue pair.2) ∧
    (StructTag.render [(goString "json", goString "café"), (goString "hold", goString "index")]).get
      (goString "json") = goString "café" :=
  ⟨by decide, (StructTag.get_render _ _ (by decide)).trans (by decide)⟩

end Kvdb.Go

import Fhevm.Sdk.DecryptedResult

/-!
# The values of a result

Values that are encoded one behind the other are read back, whatever follows them. Other texts give
errors, but a handle whose type would be cut out of a character makes the SDK panic.

## Main definitions

* `ClearValue` — a value of one of the supported types, and its word.
* `HandleOfType` — a text of a handle with a type.
* `Misaligned` — a handle whose type does not lie between characters.
* `deserializeDecryptedResult_spec` — which results are read, and when the SDK panics.
-/

namespace Fhevm.Sdk

open Foundation Host

/-! ## Encoded values -/

/-- A value of a supported type. -/
inductive ClearValue
  | ebool (b : Bool)
  | euint8 (n : BitVec 8)
  | euint16 (n : BitVec 16)
  | euint32 (n : BitVec 32)
  | euint64 (n : BitVec 64)
  | euint128 (n : BitVec 128)
  | eaddress (a : Address)
  | euint256 (n : BitVec 256)
deriving DecidableEq, Repr

namespace ClearValue

def type : ClearValue → UInt8
  | ebool _ => 0
  | euint8 _ => 2
  | euint16 _ => 3
  | euint32 _ => 4
  | euint64 _ => 5
  | euint128 _ => 6
  | eaddress _ => 7
  | euint256 _ => 8

def number : ClearValue → Nat
  | ebool b => b.toNat
  | euint8 n => n.toNat
  | euint16 n => n.toNat
  | euint32 n => n.toNat
  | euint64 n => n.toNat
  | euint128 n => n.toNat
  | eaddress a => a.toNat
  | euint256 n => n.toNat

/-- The word of a value in its ABI encoding. -/
def word (v : ClearValue) : Bytes := BigEndian.encode 32 v.number

/-- What an application gets: a number is written in decimals. -/
def json : ClearValue → JsonValue
  | ebool b => .bool b
  | eaddress a => .string ("0x" ++ String.ofList (hexEncode (addressBytes a)))
  | v => .string (toString v.number)

theorem number_lt (v : ClearValue) : v.number < 2 ^ 256 := by
  cases v with
  | ebool b => cases b <;> simp [number]
  | euint256 n => exact n.isLt
  | euint8 n | euint16 n | euint32 n | euint64 n | euint128 n | eaddress n =>
    exact n.isLt.trans (by norm_num)

@[simp] theorem length_word (v : ClearValue) : v.word.length = 32 := BigEndian.length_encode _ _

theorem decode_word (v : ClearValue) : BigEndian.decode v.word = v.number := by
  rw [word, BigEndian.decode_encode, Nat.mod_eq_of_lt]
  exact v.number_lt.trans_eq (by norm_num)

theorem decodeNumeric_word (v : ClearValue) :
    (decodeNumeric v.word).run = some (.ok (.string (toString v.number))) := by
  simp only [decodeNumeric, Panics.bind_eq_ok, Panics.ofOption_eq_ok, Panics.pure_eq_ok,
    length_word, le_refl, if_true, Option.some.injEq, exists_eq_left', decode_word]

theorem word_eaddress (a : Address) :
    (eaddress a).word = List.replicate 12 0 ++ addressBytes a := by
  have hpad := BigEndian.encode_add 12 (n := 20) (v := a.toNat) (a.isLt.trans_eq (by norm_num))
  rw [word, addressBytes]
  exact hpad

theorem decodeAddress_word (a : Address) :
    (decodeAddress (eaddress a).word).run = some (.ok (eaddress a).json) := by
  have hlength : (addressBytes a).length = 20 := BigEndian.length_encode _ _
  have hslice : subslice (eaddress a).word ADDRESS_BYTE_OFFSET WORD_SIZE =
      some (addressBytes a) := by
    rw [word_eaddress]
    simp [subslice, ADDRESS_BYTE_OFFSET, WORD_SIZE, hlength]
  unfold decodeAddress
  rw [if_neg (by simp [WORD_SIZE]), hslice]
  rfl

theorem decodeBool_word (b : Bool) :
    (decodeBool (ebool b).word).run = some (.ok (ebool b).json) := by
  have hpad := BigEndian.encode_add 31 (n := 1) (v := b.toNat) (by cases b <;> norm_num)
  have hword : (ebool b).word = List.replicate 31 0 ++ BigEndian.encode 1 b.toNat := hpad
  have hbyte : (ebool b).word[BOOL_VALUE_OFFSET]? = some (UInt8.ofNat b.toNat) := by
    rw [hword]
    cases b <;> rfl
  unfold decodeBool
  rw [if_neg (by simp [WORD_SIZE]), hbyte]
  cases b <;> rfl

/-- A word is decoded by the type of its value. -/
theorem decodeValueByType_word (v : ClearValue) :
    (decodeValueByType v.type v.word).run = some (.ok v.json) := by
  unfold decodeValueByType
  cases v with
  | ebool b =>
    have htype : (ebool b).type = 0 := rfl
    rw [if_pos htype]
    exact decodeBool_word b
  | eaddress a =>
    have htype : (eaddress a).type = 7 := rfl
    rw [htype, if_neg (by decide), if_neg (by decide), if_pos rfl]
    exact decodeAddress_word a
  | euint8 n | euint16 n | euint32 n | euint64 n | euint128 n | euint256 n =>
    rw [if_neg (by simp [type]), if_pos (by simp [type])]
    exact decodeNumeric_word _

end ClearValue

/-! ## Texts of handles -/

/-- The type of a handle is written before the last two bytes of its text. -/
def HandleOfType (handle : String) (type : UInt8) : Prop :=
  ∃ front pair back, handle.toList = front ++ pair ++ back ∧ utf8Len pair = 2 ∧ utf8Len back = 2 ∧
    fromStrRadix16 pair = .ok type

/-- A handle that is long enough, but whose type would begin or end inside a character. -/
def Misaligned (handle : String) : Prop :=
  4 ≤ utf8Len (withoutPrefix handle) ∧
    ¬ (IsCharBoundary (withoutPrefix handle) (utf8Len (withoutPrefix handle) - 4) ∧
      IsCharBoundary (withoutPrefix handle) (utf8Len (withoutPrefix handle) - 2))

theorem fromStrRadix16_eq_ok {text : List Char} {value : UInt8} :
    fromStrRadix16 text = .ok value ↔ text ≠ [] ∧ ∃ numbers,
      (withoutPlus text).mapM hexDigit = some numbers ∧
      numbers.foldl (fun value n => 16 * value + n) 0 < 256 ∧
      UInt8.ofNat (numbers.foldl (fun value n => 16 * value + n) 0) = value := by
  simp only [fromStrRadix16, bind_eq_ok, require_eq_ok, pure_eq_ok]
  cases (withoutPlus text).mapM hexDigit with
  | none => simp
  | some numbers => simp

theorem mem_withoutPlus {c : Char} {text : List Char} (hc : c ∈ text) (hplus : c ≠ '+') :
    c ∈ withoutPlus text := by
  unfold withoutPlus
  split
  · exact (List.mem_cons.mp hc).resolve_left hplus
  · exact hc

theorem hexDigit_of_mapM {text : List Char} {numbers : List Nat} {c : Char}
    (h : text.mapM hexDigit = some numbers) (hc : c ∈ text) : ∃ n, hexDigit c = some n := by
  induction text generalizing numbers with
  | nil => cases hc
  | cons d text ih =>
    simp only [List.mapM_cons, Option.bind_eq_bind, Option.bind_eq_some_iff] at h
    obtain ⟨n, hn, numbers, hnumbers, -⟩ := h
    obtain rfl | hc := List.mem_cons.mp hc
    · exact ⟨n, hn⟩
    · exact ih hnumbers hc

/-- The characters of a number are digits, but for a plus sign. -/
theorem hexDigit_of_fromStrRadix16 {text : List Char} {value : UInt8} {c : Char}
    (h : fromStrRadix16 text = .ok value) (hc : c ∈ text) (hplus : c ≠ '+') :
    ∃ n, hexDigit c = some n := by
  obtain ⟨-, numbers, hnumbers, -⟩ := fromStrRadix16_eq_ok.mp h
  exact hexDigit_of_mapM hnumbers (mem_withoutPlus hc hplus)

theorem toList_eq_mark_append (handle : String) :
    ∃ mark, handle.toList = mark ++ withoutPrefix handle := by
  unfold withoutPrefix
  split
  · next rest heq => exact ⟨['0', 'x'], heq⟩
  · next rest heq => exact ⟨['0', 'X'], heq⟩
  · exact ⟨[], rfl⟩

/-- A mark in front of a text is no part of the type. -/
theorem mark_in_front {x : Char} {rest front pair back : List Char} {type : UInt8}
    (htext : '0' :: x :: rest = front ++ pair ++ back) (hpair : utf8Len pair = 2)
    (htype : fromStrRadix16 pair = .ok type) (hx : hexDigit x = none) (hplus : x ≠ '+') :
    ∃ front', rest = front' ++ pair ++ back := by
  have hnotMem : x ∉ pair := by
    intro hmem
    obtain ⟨n, hn⟩ := hexDigit_of_fromStrRadix16 htype hmem hplus
    rw [hx] at hn
    cases hn
  match front, pair with
  | _ :: _ :: front, pair =>
    obtain ⟨-, rfl⟩ := List.cons.inj (List.cons.inj htext).2
    exact ⟨front, rfl⟩
  | [_], c :: pair =>
    obtain ⟨rfl, -⟩ := List.cons.inj (List.cons.inj htext).2
    exact absurd List.mem_cons_self hnotMem
  | [], c :: d :: pair =>
    obtain ⟨rfl, -⟩ := List.cons.inj (List.cons.inj htext).2
    exact absurd (List.mem_cons_of_mem _ List.mem_cons_self) hnotMem
  | [], [c] =>
    obtain ⟨rfl, -⟩ := List.cons.inj htext
    exact absurd hpair (by decide)
  | _, [] => simp at hpair

theorem withoutPrefix_of_type {handle : String} {front pair back : List Char} {type : UInt8}
    (htext : handle.toList = front ++ pair ++ back) (hpair : utf8Len pair = 2)
    (htype : fromStrRadix16 pair = .ok type) :
    ∃ front', withoutPrefix handle = front' ++ pair ++ back := by
  unfold withoutPrefix
  split
  · next rest heq => exact mark_in_front (heq ▸ htext) hpair htype rfl (by decide)
  · next rest heq => exact mark_in_front (heq ▸ htext) hpair htype rfl (by decide)
  · exact ⟨front, htext⟩

/-- The type of a handle is read off its text, and nothing else is. -/
theorem extractTypeFromHandle_eq_ok {handle : String} {type : UInt8} :
    (extractTypeFromHandle handle).run = some (.ok type) ↔ HandleOfType handle type := by
  simp only [extractTypeFromHandle]
  constructor
  · intro h
    split_ifs at h with hshort
    · simp at h
    simp only [Panics.bind_eq_ok, Panics.ofOption_eq_ok, Panics.ofExcept_eq_ok, mapError_eq_ok,
      sliceBytes_eq_some] at h
    obtain ⟨pair, ⟨front, back, htext, hfront, hpair⟩, htype⟩ := h
    obtain ⟨mark, hmark⟩ := toList_eq_mark_append handle
    have hlen := congrArg utf8Len htext
    rw [utf8Len_append, utf8Len_append] at hlen
    rw [utf8Len_append] at hpair
    refine ⟨mark ++ front, pair, back, ?_, by omega, by omega, htype⟩
    rw [hmark, htext]
    simp
  · rintro ⟨front, pair, back, htext, hpair, hback, htype⟩
    obtain ⟨front, hbody⟩ := withoutPrefix_of_type htext hpair htype
    have hlen : utf8Len (withoutPrefix handle) = utf8Len front + 4 := by
      rw [hbody, utf8Len_append, utf8Len_append]
      omega
    have hslice : sliceBytes (withoutPrefix handle) (utf8Len (withoutPrefix handle) - 4)
        (utf8Len (withoutPrefix handle) - 2) = some pair := by
      rw [sliceBytes_eq_some]
      refine ⟨front, back, hbody, by omega, ?_⟩
      rw [utf8Len_append]
      omega
    rw [if_neg (by omega), hslice]
    simp only [Panics.bind_eq_ok, Panics.ofOption_eq_ok, Panics.ofExcept_eq_ok, Option.some.injEq,
      exists_eq_left', mapError_eq_ok, htype]

/-- The SDK panics at a handle whose type it would cut out of a character. -/
theorem extractTypeFromHandle_eq_none {handle : String} :
    (extractTypeFromHandle handle).run = none ↔ Misaligned handle := by
  have hslice := @sliceBytes_isSome (withoutPrefix handle) (utf8Len (withoutPrefix handle) - 4)
    (utf8Len (withoutPrefix handle) - 2)
  rw [Option.isSome_iff_ne_none] at hslice
  simp only [extractTypeFromHandle, Misaligned]
  split_ifs with hshort
  · simp
    omega
  · simp only [Panics.bind_eq_none, Panics.ofOption_eq_none, Panics.ofExcept_eq_none, and_false,
      exists_false, or_false]
    grind

theorem fromStrRadix16_pair {m n : Nat} (hm : m < 16) (hn : n < 16) :
    fromStrRadix16 [hexDigits.getD m '0', hexDigits.getD n '0'] =
      .ok (UInt8.ofNat (16 * m + n)) := by
  have hdigits : withoutPlus [hexDigits.getD m '0', hexDigits.getD n '0'] =
      [hexDigits.getD m '0', hexDigits.getD n '0'] := by
    have hplus : ∀ m < 16, hexDigits.getD m '0' ≠ '+' := by decide
    unfold withoutPlus
    split
    · next heq => exact absurd (List.cons.inj heq).1 (hplus m hm)
    · rfl
  rw [fromStrRadix16_eq_ok, hdigits]
  refine ⟨List.cons_ne_nil _ _, [m, n], ?_, ?_, ?_⟩
  · simp only [List.mapM_cons, List.mapM_nil, hexDigit_getD hm, hexDigit_getD hn]
    rfl
  · simp only [List.foldl_cons, List.foldl_nil]
    omega
  · simp

theorem utf8Len_hexEncode (bytes : Bytes) : utf8Len (hexEncode bytes) = 2 * bytes.length := by
  rw [← length_hexEncode]
  apply utf8Len_eq_length
  intro c hc
  have hdigit := mem_hexDigits_of_hexEncode hc
  have hdigits : hexDigits = ['0', '1', '2', '3', '4', '5', '6', '7', '8', '9', 'a', 'b', 'c', 'd',
      'e', 'f'] := rfl
  rw [hdigits] at hdigit
  fin_cases hdigit <;> rfl

/-- The digits of a handle carry its type in the last byte but one. -/
theorem handleOfType_hexEncode (bytes : Bytes) (type version : UInt8) :
    HandleOfType (String.ofList ('0' :: 'x' :: hexEncode (bytes ++ [type, version]))) type := by
  have htype : type.toNat < 256 := type.toNat_lt
  refine ⟨'0' :: 'x' :: hexEncode bytes, hexEncode [type], hexEncode [version], ?_,
    utf8Len_hexEncode _, utf8Len_hexEncode _, ?_⟩
  · simp [hexEncode]
  · change fromStrRadix16 [_, _] = _
    rw [fromStrRadix16_pair (by omega) (by omega)]
    have hsplit : 16 * (type.toNat / 16) + type.toNat % 16 = type.toNat := by omega
    rw [hsplit, UInt8.ofNat_toNat]

/-! ## Results -/

theorem length_subslice {bytes slice : Bytes} {start stop : Nat}
    (h : subslice bytes start stop = some slice) : slice.length = stop - start := by
  unfold subslice at h
  split_ifs at h with hbounds
  · obtain rfl := Option.some.inj h
    simp
    omega

theorem subslice_eq_none {bytes : Bytes} {start stop : Nat} :
    subslice bytes start stop = none ↔ ¬ (start ≤ stop ∧ stop ≤ bytes.length) := by
  simp [subslice]

theorem subslice_append (front slice back : Bytes) :
    subslice (front ++ slice ++ back) front.length (front.length + slice.length) = some slice := by
  simp [subslice]

/-- A word is decoded without a panic, whatever its type is. -/
theorem decodeValueByType_ne_none {typeDisc : UInt8} {valueBytes : Bytes}
    (h : valueBytes.length = WORD_SIZE) : (decodeValueByType typeDisc valueBytes).run ≠ none := by
  unfold decodeValueByType
  split_ifs
  · simp [decodeBool, h, WORD_SIZE, BOOL_VALUE_OFFSET]
  · simp [decodeNumeric, h, WORD_SIZE]
  · simp [decodeAddress, h, subslice_eq_none, WORD_SIZE, ADDRESS_BYTE_OFFSET]
  · simp

/-- A word between two offsets is decoded without a panic. -/
theorem decode_subslice_ne_none {typesList : List UInt8} {restoredEncoded : Bytes} {i offset : Nat}
    {α : Type} {f : JsonValue → Deserialized α} (htypes : i < typesList.length)
    (hbytes : offset + WORD_SIZE ≤ restoredEncoded.length) (hf : ∀ value, (f value).run ≠ none) :
    (do
      let typeDisc ← .ofOption typesList[i]?
      let valueBytes ← .ofOption (subslice restoredEncoded offset (offset + WORD_SIZE))
      let value ← decodeValueByType typeDisc valueBytes
      f value : Deserialized α).run ≠ none := by
  apply Panics.bind_ne_none
  · simpa using htypes
  intro typeDisc _
  apply Panics.bind_ne_none
  · simp [subslice_eq_none, hbytes]
  intro valueBytes hslice
  apply Panics.bind_ne_none
  · apply decodeValueByType_ne_none
    rw [length_subslice (Panics.ofOption_eq_ok.mp hslice)]
    omega
  exact fun value _ => hf value

theorem decodeSingleValue_ne_none {handles : List String} {typesList : List UInt8}
    {restoredEncoded : Bytes} (hhandles : 0 < handles.length) (htypes : 0 < typesList.length) :
    (decodeSingleValue handles typesList restoredEncoded).run ≠ none := by
  simp only [decodeSingleValue]
  split_ifs with hshort
  · simp
  · apply Panics.bind_ne_none
    · simpa using List.ne_nil_of_length_pos hhandles
    intro handle _
    exact decode_subslice_ne_none htypes (by omega) fun value => by simp

/-- The loop decodes without a panic where each handle has a type. -/
theorem decodeValuesFrom_ne_none {typesList : List UInt8} {restoredEncoded : Bytes}
    {handles : List String} {i offset : Nat} {results : DecryptedResults}
    (h : i + handles.length ≤ typesList.length) :
    (decodeValuesFrom typesList restoredEncoded handles i offset results).run ≠ none := by
  induction handles generalizing i offset results with
  | nil => simp [decodeValuesFrom]
  | cons handle handles ih =>
    rw [List.length_cons] at h
    simp only [decodeValuesFrom]
    split_ifs with hshort
    · simp
    · exact decode_subslice_ne_none (by omega) (by omega) fun value => ih (by omega)

/-- The types of all handles are read, and from then on there is no panic. -/
theorem deserializeDecryptedResult_eq_none {handles : List String} {decryptedResult : String} :
    (deserializeDecryptedResult handles decryptedResult).run = none ↔
      ∃ before handle after, handles = before ++ handle :: after ∧
        (∀ h ∈ before, ∃ type, HandleOfType h type) ∧ Misaligned handle := by
  rw [deserializeDecryptedResult, Panics.bind_eq_none]
  simp only [extractTypesFromHandles, Panics.mapM_eq_none, extractTypeFromHandle_eq_none,
    extractTypeFromHandle_eq_ok]
  constructor
  · rintro (htypes | ⟨typesList, htypes, hnone⟩)
    · exact htypes
    · have hlength := (Panics.mapM_eq_ok.mp htypes).length_eq
      refine absurd hnone (Panics.bind_ne_none (by simp) fun decryptedBytes _ => ?_)
      by_cases hshort : decryptedBytes.length < handles.length * WORD_SIZE
      · simp [hshort]
      · rw [if_neg hshort]
        split_ifs with hone
        · exact decodeSingleValue_ne_none (by omega) (by omega)
        · exact decodeValuesFrom_ne_none (by omega)
  · exact .inl

/-- A word at an offset is decoded by the type at the index. -/
theorem decode_subslice_word {typesList : List UInt8} {bytes front rest : Bytes} {i offset : Nat}
    {α : Type} {f : JsonValue → Deserialized α} {v : ClearValue}
    (htype : typesList[i]? = some v.type) (hbytes : bytes = front ++ v.word ++ rest)
    (hoffset : offset = front.length) :
    (do
      let typeDisc ← .ofOption typesList[i]?
      let valueBytes ← .ofOption (subslice bytes offset (offset + WORD_SIZE))
      let value ← decodeValueByType typeDisc valueBytes
      f value : Deserialized α).run = (f v.json).run := by
  subst hbytes hoffset
  have hslice : subslice (front ++ v.word ++ rest) front.length (front.length + WORD_SIZE) =
      some v.word := by
    have hword := subslice_append front v.word rest
    rwa [v.length_word] at hword
  rw [htype, hslice]
  change (decodeValueByType v.type v.word >>= f).run = _
  rw [ExceptT.run_bind, v.decodeValueByType_word]
  rfl

/-- The loop reads the values one behind the other, whatever follows. -/
theorem decodeValuesFrom_words {typesList : List UInt8} {handles : List String}
    {values : List ClearValue} {i offset : Nat} {front rest : Bytes} {results : DecryptedResults}
    (hlength : handles.length = values.length)
    (htypes : typesList.drop i = values.map ClearValue.type) (hoffset : offset = front.length) :
    (decodeValuesFrom typesList (front ++ values.flatMap ClearValue.word ++ rest) handles i offset
      results).run =
        some (.ok (results.insertAll (handles.zip (values.map ClearValue.json)))) := by
  induction handles generalizing values i offset front results with
  | nil => rfl
  | cons handle handles ih =>
    obtain ⟨v, values, rfl⟩ := List.exists_cons_of_length_eq_add_one hlength.symm
    have htype : typesList[i]? = some v.type := by
      rw [← List.head?_drop, htypes]
      rfl
    have hrest : typesList.drop (i + 1) = values.map ClearValue.type := by
      rw [← List.tail_drop, htypes]
      rfl
    have hbytes : front ++ (v :: values).flatMap ClearValue.word ++ rest =
        front ++ v.word ++ (values.flatMap ClearValue.word ++ rest) := by
      simp
    have hnext : front ++ v.word ++ (values.flatMap ClearValue.word ++ rest) =
        front ++ v.word ++ values.flatMap ClearValue.word ++ rest := by
      simp
    have hnextOffset : offset + WORD_SIZE = (front ++ v.word).length := by
      simp [WORD_SIZE, hoffset]
    simp only [decodeValuesFrom]
    rw [hbytes, if_neg (by simp [WORD_SIZE, hoffset])]
    rw [decode_subslice_word htype rfl hoffset, hnext]
    exact ih (Nat.succ.inj hlength) hrest hnextOffset

theorem decodeSingleValue_word {handle : String} {v : ClearValue} {rest : Bytes} :
    (decodeSingleValue [handle] [v.type]
      (List.replicate DUMMY_REQUEST_ID_SIZE 0 ++ v.word ++ rest)).run =
        some (.ok (HashMap.empty.insert handle v.json)) := by
  simp only [decodeSingleValue]
  rw [if_neg (by simp [WORD_SIZE]), Panics.bind_eq_ok]
  refine ⟨handle, by simp, ?_⟩
  rw [decode_subslice_word rfl rfl (List.length_replicate ..).symm]
  rfl

/-- Encoded values are read back, whatever follows them. -/
theorem deserializeDecryptedResult_words {handles : List String} {values : List ClearValue}
    {decryptedResult : String} {tail : Bytes}
    (htypes : List.Forall₂ (fun handle v => HandleOfType handle (ClearValue.type v)) handles values)
    (hresult : parseHexString decryptedResult "decrypted result" =
      .ok (values.flatMap ClearValue.word ++ tail)) :
    (deserializeDecryptedResult handles decryptedResult).run =
      some (.ok (HashMap.empty.insertAll (handles.zip (values.map ClearValue.json)))) := by
  have hlength := htypes.length_eq
  have hread : (extractTypesFromHandles handles).run = some (.ok (values.map ClearValue.type)) := by
    rw [extractTypesFromHandles, Panics.mapM_eq_ok, List.forall₂_map_right_iff]
    exact htypes.imp fun handle v => extractTypeFromHandle_eq_ok.mpr
  have hbytes : createRestoredEncoded (values.flatMap ClearValue.word ++ tail) =
      List.replicate DUMMY_REQUEST_ID_SIZE 0 ++ values.flatMap ClearValue.word ++
        (tail ++ List.replicate DUMMY_REQUEST_ID_SIZE 0) := by
    simp [createRestoredEncoded]
  have hsize : handles.length * WORD_SIZE ≤ (values.flatMap ClearValue.word ++ tail).length := by
    simp [List.length_flatMap, hlength, WORD_SIZE]
  rw [deserializeDecryptedResult, Panics.bind_eq_ok]
  refine ⟨_, hread, ?_⟩
  rw [hresult, Panics.bind_eq_ok]
  refine ⟨_, Panics.ofExcept_eq_ok.mpr rfl, ?_⟩
  simp only
  rw [if_neg (by omega), hbytes]
  split_ifs with hone
  · obtain ⟨handle, rfl⟩ := List.length_eq_one_iff.mp hone
    obtain ⟨v, rfl⟩ := List.length_eq_one_iff.mp (hlength.symm.trans hone)
    rw [List.flatMap_singleton]
    exact decodeSingleValue_word
  · exact decodeValuesFrom_words hlength rfl (List.length_replicate ..).symm

theorem get?_insertAll_zip {handles : List String} {values : List ClearValue} {handle : String}
    {value : JsonValue} (hnodup : handles.Nodup) (hlength : handles.length = values.length) :
    (HashMap.empty.insertAll (handles.zip (values.map ClearValue.json))).get? handle = some value ↔
      ∃ v, (handle, v) ∈ handles.zip values ∧ v.json = value := by
  have hentry : (handle, value) ∈ handles.zip (values.map ClearValue.json) ↔
      ∃ v, (handle, v) ∈ handles.zip values ∧ v.json = value := by
    rw [List.zip_map_right, List.mem_map]
    constructor
    · rintro ⟨⟨_, v⟩, hmem, heq⟩
      obtain ⟨rfl, rfl⟩ := Prod.mk.inj heq
      exact ⟨v, hmem, rfl⟩
    · rintro ⟨v, hmem, rfl⟩
      exact ⟨(handle, v), hmem, rfl⟩
  rw [← hentry]
  constructor
  · intro h
    exact (HashMap.mem_of_get?_insertAll h).resolve_left (by simp)
  · apply HashMap.get?_insertAll_of_nodup
    rwa [List.map_fst_zip (by simp [hlength])]

/-- Values of distinct handles that are encoded one behind the other are read back. On other handles
and texts, the SDK panics exactly if it reaches a handle that is misaligned. -/
theorem deserializeDecryptedResult_spec (handles : List String) (decryptedResult : String) :
    (∀ (values : List ClearValue) (tail : Bytes) (digits : List Char), handles.Nodup →
      List.Forall₂ (fun handle v => HandleOfType handle (ClearValue.type v)) handles values →
      hexDecode digits = some (values.flatMap ClearValue.word ++ tail) →
      decryptedResult.toList = digits ∨ decryptedResult.toList = '0' :: 'x' :: digits →
      ∃ results, (deserializeDecryptedResult handles decryptedResult).run = some (.ok results) ∧
        ∀ handle value, results.get? handle = some value ↔
          ∃ v, (handle, v) ∈ handles.zip values ∧ v.json = value) ∧
    ((deserializeDecryptedResult handles decryptedResult).run ≠ none ↔
      ¬ ∃ before handle after, handles = before ++ handle :: after ∧
        (∀ h ∈ before, ∃ type, HandleOfType h type) ∧ Misaligned handle) := by
  refine ⟨?_, deserializeDecryptedResult_eq_none.not⟩
  intro values tail digits hnodup htypes hdigits htext
  refine ⟨_, deserializeDecryptedResult_words htypes
    (parseHexString_of_digits htext hdigits _), fun handle value => ?_⟩
  exact get?_insertAll_zip hnodup htypes.length_eq

/-! ## A handle of two characters -/

/-- Of the six bytes of a text of two characters, the type would be the third and the fourth. -/
theorem euros_panic :
    ¬ ∀ (handles : List String) (decryptedResult : String),
      (deserializeDecryptedResult handles decryptedResult).run ≠ none := by
  intro h
  exact h ["€€"] "" rfl

def resultHandle (type : UInt8) : String :=
  String.ofList ('0' :: 'x' :: hexEncode (List.replicate 30 7 ++ [type, 0]))

def sampleValues : List ClearValue := [.ebool true, .euint8 42]

theorem resultHandle_type (type : UInt8) : HandleOfType (resultHandle type) type :=
  handleOfType_hexEncode _ _ _

/-- A boolean and a number, with three more bytes behind them. -/
theorem sampleValues_read :
    ∃ results, (deserializeDecryptedResult [resultHandle 0, resultHandle 2]
        (String.ofList (hexEncode (sampleValues.flatMap ClearValue.word ++ [1, 2, 3])))).run =
          some (.ok results) ∧
      results.get? (resultHandle 0) = some (.bool true) ∧
      results.get? (resultHandle 2) = some (.string "42") := by
  obtain ⟨results, hrun, hresults⟩ := (deserializeDecryptedResult_spec
    [resultHandle 0, resultHandle 2] _).1 sampleValues [1, 2, 3] _ (by decide)
    (.cons (resultHandle_type 0) (.cons (resultHandle_type 2) .nil)) (hexDecode_hexEncode _)
    (.inl String.toList_ofList)
  refine ⟨results, hrun, ?_, ?_⟩
  · exact (hresults _ _).mpr ⟨.ebool true, List.mem_cons_self, rfl⟩
  · exact (hresults _ _).mpr ⟨.euint8 42, List.mem_cons_of_mem _ List.mem_cons_self, rfl⟩

end Fhevm.Sdk

import Mathlib

/-!
# Byte orders

Numbers as byte strings of a fixed length, most significant byte first or least
significant byte first, and the number a byte string stands for.

## Main definitions

* `encode` — the last `n` bytes of a number.
* `decode` — the number of a byte string.
* `lastBytes` — a byte string cut or padded on the left to a given length.
* `copyFromSlice` — a byte string with a part written over.
* `LittleEndian.encode`, `LittleEndian.decode` — the same with the least significant byte first.
* `LittleEndian.decode_take` — the first bytes hold the number modulo their length.
-/

namespace Foundation.BigEndian

/-- The `n` low bytes of `v`, most significant first. -/
def encode : Nat → Nat → List UInt8
  | 0, _ => []
  | n + 1, v => encode n (v / 256) ++ [UInt8.ofNat (v % 256)]

/-- The number that the bytes stand for, most significant first. -/
def decode (bs : List UInt8) : Nat := bs.foldl (fun acc b => acc * 256 + b.toNat) 0

@[simp] theorem length_encode (n v : Nat) : (encode n v).length = n := by
  induction n generalizing v with
  | zero => rfl
  | succ n ih => simp [encode, ih]

@[simp] theorem decode_nil : decode [] = 0 := rfl

@[simp] theorem decode_concat (bs : List UInt8) (b : UInt8) :
    decode (bs ++ [b]) = decode bs * 256 + b.toNat := by
  simp [decode]

/-- Decoding a concatenation. -/
theorem decode_append (as bs : List UInt8) :
    decode (as ++ bs) = decode as * 256 ^ bs.length + decode bs := by
  induction bs using List.reverseRecOn with
  | nil => simp
  | append_singleton bs b ih =>
    rw [← List.append_assoc, decode_concat, decode_concat, ih]
    simp only [List.length_append, List.length_cons, List.length_nil, pow_succ]
    ring

theorem decode_lt (bs : List UInt8) : decode bs < 256 ^ bs.length := by
  induction bs using List.reverseRecOn with
  | nil => simp
  | append_singleton bs b ih =>
    have hb := b.toNat_lt
    rw [decode_concat, List.length_append, List.length_singleton, pow_succ]
    omega

@[simp] theorem decode_encode (n v : Nat) : decode (encode n v) = v % 256 ^ n := by
  induction n generalizing v with
  | zero => simp [encode, Nat.mod_one]
  | succ n ih =>
    have hbyte : (UInt8.ofNat (v % 256)).toNat = v % 256 := by
      simp [UInt8.toNat_ofNat']
    rw [encode, decode_concat, ih, hbyte, pow_succ, mul_comm (256 ^ n), Nat.mod_mul]
    ring

/-- A byte string is the encoding of its number. -/
theorem encode_decode (bs : List UInt8) : encode bs.length (decode bs) = bs := by
  induction bs using List.reverseRecOn with
  | nil => rfl
  | append_singleton bs b ih =>
    have hb := b.toNat_lt
    have hdiv : (decode bs * 256 + b.toNat) / 256 = decode bs := by omega
    have hmod : (decode bs * 256 + b.toNat) % 256 = b.toNat := by omega
    rw [List.length_append, List.length_singleton, encode, decode_concat, hdiv, hmod, ih]
    simp

/-- The byte at an index, counted from the left. -/
theorem getElem?_encode {n i : Nat} (hi : i < n) (v : Nat) :
    (encode n v)[i]? = some (UInt8.ofNat (v / 256 ^ (n - 1 - i) % 256)) := by
  induction n generalizing v with
  | zero => omega
  | succ n ih =>
    rw [encode]
    by_cases hlast : i = n
    · subst hlast
      rw [List.getElem?_append_right (by simp)]
      simp
    · have hlt : i < n := by omega
      have hdiv : v / 256 / 256 ^ (n - 1 - i) = v / 256 ^ (n + 1 - 1 - i) := by
        rw [Nat.div_div_eq_div_mul, ← pow_succ']
        congr 2
        omega
      rw [List.getElem?_append_left (by simpa using hlt), ih hlt, hdiv]

/-- A number that fits in fewer bytes is padded with zeros. -/
theorem encode_add (m : Nat) {n v : Nat} (hv : v < 256 ^ n) :
    encode (m + n) v = List.replicate m 0 ++ encode n v := by
  induction n generalizing v with
  | zero =>
    obtain rfl : v = 0 := by simpa using hv
    rw [encode, List.append_nil, Nat.add_zero]
    induction m with
    | zero => rfl
    | succ m ih => simp [encode, ih, List.replicate_succ']
  | succ n ih =>
    have hdiv : v / 256 < 256 ^ n := by
      rw [Nat.div_lt_iff_lt_mul (by norm_num), ← pow_succ]
      exact hv
    rw [← Nat.add_assoc, encode, encode, ih hdiv, List.append_assoc]

theorem encode_injective {n v w : Nat} (hv : v < 256 ^ n) (hw : w < 256 ^ n)
    (h : encode n v = encode n w) : v = w := by
  have := congrArg decode h
  rwa [decode_encode, decode_encode, Nat.mod_eq_of_lt hv, Nat.mod_eq_of_lt hw] at this

theorem decode_replicate_zero (n : Nat) : decode (List.replicate n 0) = 0 := by
  induction n with
  | zero => rfl
  | succ n ih => simp [List.replicate_succ', ih]

/-- The last `n` bytes, with zeros in front where there are fewer. -/
def lastBytes (n : Nat) (bs : List UInt8) : List UInt8 :=
  List.replicate (n - bs.length) 0 ++ bs.drop (bs.length - n)

@[simp] theorem length_lastBytes (n : Nat) (bs : List UInt8) : (lastBytes n bs).length = n := by
  simp only [lastBytes, List.length_append, List.length_replicate, List.length_drop]
  omega

/-- Cutting a byte string on the left reduces its number modulo the length kept. -/
theorem decode_lastBytes (n : Nat) (bs : List UInt8) :
    decode (lastBytes n bs) = decode bs % 256 ^ n := by
  rw [lastBytes, decode_append, decode_replicate_zero, zero_mul, zero_add]
  by_cases hn : bs.length ≤ n
  · rw [Nat.sub_eq_zero_of_le hn, List.drop_zero, Nat.mod_eq_of_lt]
    exact (decode_lt bs).trans_le (Nat.pow_le_pow_right (by norm_num) hn)
  · have hdrop : (bs.drop (bs.length - n)).length = n := by
      rw [List.length_drop]
      omega
    have hlt := decode_lt (bs.drop (bs.length - n))
    rw [hdrop] at hlt
    conv_rhs => rw [← List.take_append_drop (bs.length - n) bs]
    rw [decode_append, hdrop, Nat.mul_add_mod_self_right, Nat.mod_eq_of_lt hlt]

/-! ## Writing over a part -/

/-- `bs[i..i + cs.len()].copy_from_slice(cs)` -/
def copyFromSlice (bs : List UInt8) (i : Nat) (cs : List UInt8) : List UInt8 :=
  bs.take i ++ cs ++ bs.drop (i + cs.length)

/-- Writing behind a part of known length. -/
theorem copyFromSlice_append {front back : List UInt8} {i : Nat} (cs : List UInt8)
    (hi : front.length = i) :
    copyFromSlice (front ++ back) i cs = (front ++ cs) ++ back.drop cs.length := by
  subst hi
  rw [copyFromSlice, List.take_left, List.drop_length_add_append]

/-! ## Blocks -/

/-- Blocks of one length can be read off their concatenation. -/
theorem flatMap_injective {α β : Type*} {f : α → List β} {k : ℕ} (hk : 0 < k)
    (hlength : ∀ a, (f a).length = k) (hf : Function.Injective f) :
    Function.Injective fun as : List α => as.flatMap f := by
  intro as
  induction as with
  | nil =>
    intro bs h
    cases bs with
    | nil => rfl
    | cons b bs =>
      have hlen := congrArg List.length h
      simp only [List.flatMap_nil, List.flatMap_cons, List.length_nil, List.length_append,
        hlength b] at hlen
      omega
  | cons a as ih =>
    intro bs h
    cases bs with
    | nil =>
      have hlen := congrArg List.length h
      simp only [List.flatMap_nil, List.flatMap_cons, List.length_nil, List.length_append,
        hlength a] at hlen
      omega
    | cons b bs =>
      obtain ⟨hhead, htail⟩ := List.append_inj (by simpa using h)
        ((hlength a).trans (hlength b).symm)
      rw [hf hhead, ih htail]

/-- The blocks, read off one after the other. -/
theorem blocks_flatMap {α β : Type*} {f : α → List β} {k : ℕ} {as : List α}
    (hlength : ∀ a ∈ as, (f a).length = k) (rest : List β) :
    ((List.range as.length).map fun i => ((as.flatMap f ++ rest).drop (k * i)).take k) =
      as.map f := by
  induction as with
  | nil => rfl
  | cons a as ih =>
    obtain ⟨ha, has⟩ := List.forall_mem_cons.mp hlength
    rw [List.length_cons, List.range_succ_eq_map, List.map_cons, List.map_map, List.map_cons]
    congr 1
    · rw [Nat.mul_zero, List.drop_zero, List.flatMap_cons, List.append_assoc, ← ha,
        List.take_left]
    · rw [← ih has]
      apply List.map_congr_left
      intro i _
      have hdrop : k * (i + 1) = (f a).length + k * i := by rw [ha]; ring
      rw [Function.comp_apply, Nat.succ_eq_add_one, hdrop, List.flatMap_cons, List.append_assoc,
        List.drop_length_add_append]

theorem length_flatMap_blocks {α β : Type*} {f : α → List β} {k : ℕ} {as : List α}
    (hlength : ∀ a ∈ as, (f a).length = k) : (as.flatMap f).length = k * as.length := by
  rw [List.length_flatMap, List.map_congr_left hlength, List.map_const', List.sum_replicate,
    smul_eq_mul, mul_comm]

end Foundation.BigEndian

namespace Foundation.LittleEndian

/-- The `n` low bytes of `v`, least significant first. -/
def encode (n v : Nat) : List UInt8 := (BigEndian.encode n v).reverse

/-- The number that the bytes stand for, least significant first. -/
def decode (bs : List UInt8) : Nat := BigEndian.decode bs.reverse

@[simp] theorem length_encode (n v : Nat) : (encode n v).length = n := by simp [encode]

theorem decode_encode (n v : Nat) : decode (encode n v) = v % 256 ^ n := by
  rw [decode, encode, List.reverse_reverse, BigEndian.decode_encode]

theorem encode_decode (bs : List UInt8) : encode bs.length (decode bs) = bs := by
  have h := BigEndian.encode_decode bs.reverse
  rw [List.length_reverse] at h
  rw [encode, decode, h, List.reverse_reverse]

theorem encode_injective {n v w : Nat} (hv : v < 256 ^ n) (hw : w < 256 ^ n)
    (h : encode n v = encode n w) : v = w :=
  BigEndian.encode_injective hv hw (List.reverse_injective h)

/-- The first bytes are the number modulo what fits in them. -/
theorem decode_take {k : Nat} {bs : List UInt8} (hk : k ≤ bs.length) :
    decode (bs.take k) = decode bs % 256 ^ k := by
  have hlast : BigEndian.lastBytes k bs.reverse = (bs.take k).reverse := by
    rw [BigEndian.lastBytes, List.length_reverse, Nat.sub_eq_zero_of_le hk, List.reverse_take]
    rfl
  rw [decode, ← hlast, BigEndian.decode_lastBytes, decode]

end Foundation.LittleEndian

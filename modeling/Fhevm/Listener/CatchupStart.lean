import Fhevm.Listener.LogIter

/-!
# Where the catch-up starts

The start of the catch-up is one number for two purposes: from zero on it is a block, and below
zero it counts from the last block of the node. A margin below the last valid block is negative
when that block is younger than the margin, and counts from the head then.

## Main definitions

* `startBelow`, `blockFrom` — the computation of the listener, in words of 64 bits.
* `blockFrom_eq` — it is the one on all numbers where nothing overflows.
* `firstBlock_le_iff` — when the first block is at most the one behind the last valid one.
-/

namespace Fhevm.Listener

/-- `u64` and `i64` have the same words. -/
abbrev Word := BitVec 64

/-- `n - args.catchup_margin as i64`, unless it overflows. -/
def startBelow (margin n : Word) : Option Word :=
  if n.ssubOverflow margin then none else some (n - margin)

/-- The head that the node answers, less a number of blocks. -/
def fromLast (getBlockNumber : Option Word) (catchSize : Word) : Word :=
  match getBlockNumber with
  | some lastBlock => lastBlock - (if catchSize ≤ lastBlock then catchSize else lastBlock)
  | none => 0

/-- `catchup_block_from` while no valid block was seen, from an `i64` to a `u64`. -/
def blockFrom (margin : Word) (startAtBlock getBlockNumber : Option Word) : Option Word :=
  match startAtBlock with
  | some startAtBlock =>
    if 0 ≤ startAtBlock.toInt then some startAtBlock
    else if startAtBlock.negOverflow then none
    else some (fromLast getBlockNumber (-startAtBlock))
  | none => some (fromLast getBlockNumber margin)

/-- The first block that is asked for on a connection, when the listener has found a last valid
block at its start. -/
def firstBlock (margin : Word) (lastValidBlock getBlockNumber : Option Word) : Option Word :=
  match lastValidBlock with
  | some n => (startBelow margin n).bind fun start => blockFrom margin (some start) getBlockNumber
  | none => blockFrom margin none getBlockNumber

section

variable {margin : Word}

/-! ## Words as numbers -/

theorem toInt_cases (w : Word) :
    w.toNat < 2 ^ 63 ∧ w.toInt = w.toNat ∨ 2 ^ 63 ≤ w.toNat ∧ w.toInt = w.toNat - 2 ^ 64 := by
  have hlt := w.isLt
  rw [BitVec.toInt_eq_toNat_cond]
  split_ifs <;> omega

theorem toNat_of_toInt_nonneg {w : Word} (h : 0 ≤ w.toInt) :
    (w.toNat : ℤ) = w.toInt ∧ w.toNat < 2 ^ 63 := by
  have hlt := w.isLt
  rcases toInt_cases w with hw | hw <;> omega

theorem toNat_fromLast (getBlockNumber : Option Word) (catchSize : Word) :
    (fromLast getBlockNumber catchSize).toNat = (getBlockNumber.map fun lastBlock =>
      lastBlock.toNat - min catchSize.toNat lastBlock.toNat).getD 0 := by
  cases getBlockNumber with
  | none => rfl
  | some lastBlock =>
    simp only [fromLast, Option.map_some, Option.getD_some]
    split_ifs with hle
    · rw [BitVec.toNat_sub_of_le hle, Nat.min_eq_left (BitVec.le_def.mp hle)]
    · have hlt := BitVec.le_def.not.mp hle
      rw [BitVec.sub_self, BitVec.toNat_ofNat, Nat.min_eq_right (by omega)]
      omega

/-- The start counts with sign, and there is one unless the difference has no word. -/
theorem startBelow_of_fits {n : Word} (hmin : -2 ^ 63 ≤ n.toInt - margin.toInt)
    (hmax : n.toInt - margin.toInt < 2 ^ 63) :
    startBelow margin n = some (n - margin) ∧ (n - margin).toInt = n.toInt - margin.toInt := by
  have hoverflow : ¬ n.ssubOverflow margin := by
    simp only [BitVec.ssubOverflow]
    grind
  exact ⟨if_neg hoverflow, BitVec.toInt_sub_of_not_ssubOverflow hoverflow⟩

theorem startBelow_of_overflow {n : Word} (h : 2 ^ 63 ≤ n.toInt - margin.toInt) :
    startBelow margin n = none := by
  have hoverflow : n.ssubOverflow margin := by
    simp only [BitVec.ssubOverflow]
    grind
  exact if_pos hoverflow

theorem blockFrom_of_nonneg {start : Word} (h : 0 ≤ start.toInt) (head : Option Word) :
    blockFrom margin (some start) head = some start := if_pos h

/-- A negative start counts from the head. -/
theorem blockFrom_of_neg {start : Word} (hneg : start.toInt < 0) (hmin : -2 ^ 63 < start.toInt)
    (head : Option Word) :
    blockFrom margin (some start) head = some (fromLast head (-start)) ∧
      ((-start).toNat : ℤ) = -start.toInt := by
  have hoverflow : ¬ start.negOverflow := by
    simp only [BitVec.negOverflow]
    grind
  have hopposite := BitVec.toInt_neg_of_not_negOverflow hoverflow
  refine ⟨?_, ?_⟩
  · simp only [blockFrom]
    rw [if_neg (by omega), if_neg hoverflow]
  · have hsize := @toNat_of_toInt_nonneg (-start) (by omega)
    omega

/-- A block that counts from the head is early when the head is. -/
theorem fromLast_le_iff (head : Option Word) (catchSize : Word) (bound : ℕ) :
    (fromLast head catchSize).toNat ≤ bound ↔ ∀ h ∈ head, h.toNat ≤ bound + catchSize.toNat := by
  rw [toNat_fromLast]
  cases head with
  | none => simp
  | some lastBlock =>
    simp only [Option.map_some, Option.getD_some, Option.mem_some_iff, forall_eq']
    omega

/-- Where nothing overflows, the start is that of the iterator. -/
theorem blockFrom_eq {A : Args} {it : InfiniteLogIter} {node : Node} {start head : Option Word}
    {b : Word} (h : blockFrom margin start head = some b) (hmargin : A.catchupMargin = margin.toNat)
    (hvalid : it.lastValidBlock = none) (hstart : it.startAtBlock = start.map BitVec.toInt)
    (hhead : node.getBlockNumber = head.map BitVec.toNat) :
    it.catchupBlockFrom A node = b.toNat := by
  cases start with
  | none =>
    obtain rfl := Option.some.inj h
    cases head <;> simp_all [InfiniteLogIter.catchupBlockFrom, toNat_fromLast]
  | some start =>
    by_cases hnonneg : 0 ≤ start.toInt
    · obtain rfl := Option.some.inj ((blockFrom_of_nonneg hnonneg head).symm.trans h)
      have hsize := toNat_of_toInt_nonneg hnonneg
      simp only [InfiniteLogIter.catchupBlockFrom, hvalid, hstart, Option.map_some, if_pos hnonneg]
      omega
    · simp only [blockFrom, if_neg hnonneg] at h
      split_ifs at h with hoverflow
      obtain rfl := Option.some.inj h
      have hopposite := BitVec.toInt_neg_of_not_negOverflow hoverflow
      have hsize := @toNat_of_toInt_nonneg (-start) (by omega)
      have hcatchSize : (-start.toInt).toNat = (-start).toNat := by omega
      rw [toNat_fromLast]
      cases head <;> simp [InfiniteLogIter.catchupBlockFrom, hvalid, hstart, hhead, hnonneg,
        hcatchSize]

end

/-! ## Restarts and reconnections -/

/-- The margin, the last valid block at the start of the listener, the one when it connects, and the
head then. As an `i64`, a margin from `2 ^ 63` on is negative. -/
def StartsInTime (margin : Word) (atStart : Option Word) (n : Word) (head : Option Word) : Prop :=
  match atStart with
  | some m =>
    margin.toNat < 2 ^ 63 ∧ (margin.toNat ≤ m.toNat ∨
      ∀ h ∈ head, h.toNat + m.toNat ≤ n.toNat + 1 + margin.toNat) ∨
    m.toNat + 2 ^ 64 ≤ n.toNat + 1 + margin.toNat ∧ m.toNat + 2 ^ 63 < margin.toNat
  | none => ∀ h ∈ head, h.toNat ≤ n.toNat + 1 + margin.toNat

/-- The first block is in time exactly when the block at the start is not younger than the margin,
or the head has not gone away from it by more than the margin. -/
theorem firstBlock_le_iff (margin : Word) (atStart : Option Word) (n : Word) (head : Option Word)
    (hstart : ∀ m ∈ atStart, 0 ≤ m.toInt ∧ m.toInt ≤ n.toInt) (hn : 0 ≤ n.toInt) :
    (∃ b, firstBlock margin atStart head = some b ∧ b.toNat ≤ n.toNat + 1) ↔
      StartsInTime margin atStart n head := by
  have hnNat := toNat_of_toInt_nonneg hn
  cases atStart with
  | none =>
    have hle := fromLast_le_iff head margin (n.toNat + 1)
    simpa [firstBlock, blockFrom, StartsInTime] using hle
  | some m =>
    obtain ⟨hm, hmn⟩ := hstart m rfl
    have hmNat := toNat_of_toInt_nonneg hm
    simp only [firstBlock, StartsInTime]
    rcases toInt_cases margin with ⟨hsmall, hmargin⟩ | ⟨hlarge, hmargin⟩
    · obtain ⟨hbelow, hdiff⟩ := @startBelow_of_fits margin m (by omega) (by omega)
      by_cases hyoung : margin.toNat ≤ m.toNat
      · have hsize := @toNat_of_toInt_nonneg (m - margin) (by omega)
        rw [hbelow, Option.bind_some, blockFrom_of_nonneg (by omega)]
        simp only [Option.some.injEq, exists_eq_left']
        omega
      · obtain ⟨hblock, hopposite⟩ := @blockFrom_of_neg margin (m - margin) (by omega) (by omega) head
        have hle := fromLast_le_iff head (-(m - margin)) (n.toNat + 1)
        rw [hbelow, Option.bind_some, hblock]
        have hsum : ∀ h : ℕ, h ≤ n.toNat + 1 + (-(m - margin)).toNat ↔
            h + m.toNat ≤ n.toNat + 1 + margin.toNat := by omega
        have hwrapped : ¬ (m.toNat + 2 ^ 64 ≤ n.toNat + 1 + margin.toNat ∧
            m.toNat + 2 ^ 63 < margin.toNat) := by omega
        simp only [Option.some.injEq, exists_eq_left', hle, hsum, hsmall, hyoung, hwrapped, true_and,
          false_or, or_false]
    · by_cases hfits : m.toNat + 2 ^ 63 < margin.toNat
      · obtain ⟨hbelow, hdiff⟩ := @startBelow_of_fits margin m (by omega) (by omega)
        have hsize := @toNat_of_toInt_nonneg (m - margin) (by omega)
        rw [hbelow, Option.bind_some, blockFrom_of_nonneg (by omega)]
        simp only [Option.some.injEq, exists_eq_left']
        omega
      · rw [startBelow_of_overflow (by omega)]
        simp only [Option.bind_none, reduceCtorEq, false_and, exists_false, false_iff]
        omega

/-- A reconnection at block eight of a listener that has started at block six. -/
theorem firstBlock_reconnection :
    (∃ b, firstBlock 2 (some 6) (some 9) = some b ∧ b.toNat ≤ (8 : Word).toNat + 1) ↔
      StartsInTime 2 (some 6) 8 (some 9) :=
  firstBlock_le_iff 2 (some 6) 8 (some 9) (by simp) (by decide)

/-- At block three with the margin of five blocks, the start is two blocks below the head, however
far that has gone. -/
theorem firstBlock_youngChain :
    ¬ ∀ margin n h : Word, 0 ≤ n.toInt → n.toNat ≤ h.toNat →
      ∃ b, firstBlock margin (some n) (some h) = some b ∧ b.toNat ≤ n.toNat + 1 := by
  intro hclaim
  obtain ⟨b, hb, hle⟩ := hclaim 5 3 1000 (by decide) (by decide)
  have heq : firstBlock 5 (some 3) (some 1000) = some 998 := by decide
  obtain rfl := Option.some.inj (heq.symm.trans hb)
  exact absurd hle (by decide)

end Fhevm.Listener

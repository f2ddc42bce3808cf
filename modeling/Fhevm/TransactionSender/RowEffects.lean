import Fhevm.TransactionSender.Batches

/-!
# What becomes of the rows of a batch

## Main definitions

* `HandlesUnshared` — no other row of the batch has the handle of a row that is sent.

## Main results

* `multichainACL_ownEffects_iff`, `addCiphertext_ownEffects_iff`, `verifyProof_ownEffects_iff` — when
  every row of a batch is, at the end of every run, as its own transaction has left it.
-/

namespace Fhevm.TransactionSender

open Foundation Gateway

/-! ## Permissions and proofs -/

theorem Bookkeeping.own_idem {α κ : Type} {key : α → κ} {f : Bookkeeping → α → α}
    {hf : ∀ e a, key (f e a) = key a}
    (hsent : ∀ h b a, f (.sent h b) (f (.sent h b) a) = f (.sent h b) a) {e : Bookkeeping}
    (hok : e.ok = true) (x : Option α) :
    (Statement.update (f e) (hf e)).own ((Statement.update (f e) (hf e)).own x) =
      (Statement.update (f e) (hf e)).own x := by
  cases e with
  | sent h b => cases x <;> simp [Statement.own, hsent]
  | limitedRetry => cases hok
  | unlimitedRetry => cases hok

theorem prepareAllow_ne_remove (S : SenderSetup) (row : AllowedHandleRow) :
    prepareAllow S row ≠ .remove := by
  unfold prepareAllow
  repeat' split
  all_goals simp

theorem multichainACL_ownEffects_iff (S : SenderSetup)
    {t : Table (multichainACLOperation S).key} {rows : List AllowedHandleRow}
    (h : (multichainACLOperation S).Picked t rows) (ends : ℕ → Bookkeeping) :
    (multichainACLOperation S).OwnEffects t rows ends ↔
      ((multichainACLOperation S).batch rows ends).Isolated := by
  constructor
  · refine RowOperation.isolated_of_ownEffects h fun row hremove => ?_
    exact absurd hremove (prepareAllow_ne_remove S row)
  · intro hiso
    refine RowOperation.ownEffects_of_isolated h (fun k => by simp [multichainACLOperation]) ?_ hiso
      (RowOperation.unshared_of_exact h fun k k' => by simp [multichainACLOperation])
    exact fun e hok => Bookkeeping.own_idem (f := Bookkeeping.allowedHandle) (fun _ _ _ => rfl) hok

theorem verifyProof_ownEffects_iff (S : ProofSetup)
    {t : Table (verifyProofOperation S).key} {rows : List VerifyProofRow}
    (h : (verifyProofOperation S).Picked t rows) (ends : ℕ → ProofBookkeeping) :
    (verifyProofOperation S).OwnEffects t rows ends ↔
      ((verifyProofOperation S).batch rows ends).Isolated := by
  have hexact : ∀ k k', (verifyProofOperation S).selects k k' = true → k' = k := by
    simp [verifyProofOperation]
  constructor
  · exact RowOperation.isolated_of_ownEffects h fun row _ k hk => (hexact _ _ hk).symm
  · intro hiso
    refine RowOperation.ownEffects_of_isolated h (fun k => by simp [verifyProofOperation]) ?_ hiso
      (RowOperation.unshared_of_exact h hexact)
    intro e hok x
    cases e with
    | removed => rfl
    | retry => cases hok

/-! ## Ciphertexts -/

/-- No other row of the batch has the handle of a row whose transaction is sent, unless the books of
both rows are kept in the same way. -/
def HandlesUnshared (S : SenderSetup) (rows : List CiphertextDigestRow) (ends : ℕ → Bookkeeping) :
    Prop :=
  ∀ i j rowi rowj, i ≠ j → rows[i]? = some rowi → rows[j]? = some rowj →
    rowi.handle = rowj.handle → (prepareAddCiphertext S rowi).IsRequest →
      (prepareAddCiphertext S rowj).IsRequest ∧ ends i = ends j

theorem prepareAddCiphertext_ne_remove (S : SenderSetup) (row : CiphertextDigestRow) :
    prepareAddCiphertext S row ≠ .remove := by
  unfold prepareAddCiphertext
  repeat' split
  all_goals simp

section AddCiphertext

variable {S : SenderSetup} {rows : List CiphertextDigestRow} {ends : ℕ → Bookkeeping}

theorem rowStatement_addCiphertext (row : CiphertextDigestRow) (e : Bookkeeping) :
    (addCiphertextOperation S).rowStatement row e = none ∨
      (prepareAddCiphertext S row).IsRequest ∧
        (addCiphertextOperation S).rowStatement row e =
          some ((addCiphertextOperation S).statement e) := by
  by_cases hreq : (prepareAddCiphertext S row).IsRequest
  · exact .inr ⟨hreq, RowOperation.rowStatement_of_isRequest hreq e⟩
  · exact .inl (RowOperation.rowStatement_eq_none hreq (prepareAddCiphertext_ne_remove S row) e)

theorem unshared_of_handlesUnshared (h : HandlesUnshared S rows ends) :
    (addCiphertextOperation S).Unshared rows ends := by
  intro i j rowi rowj hne hi hj hselects
  have hhandle : rowj.handle = rowi.handle := by
    simpa [addCiphertextOperation, CiphertextDigestRow.key] using hselects
  obtain hnone | ⟨hreq, hstatement⟩ := rowStatement_addCiphertext (S := S) rowi (ends i)
  · exact .inl hnone
  · obtain ⟨hreqj, hends⟩ := h i j rowi rowj hne hi hj hhandle.symm hreq
    right
    rw [hstatement, RowOperation.rowStatement_of_isRequest hreqj, hends]

/-- How much has been written to a row. -/
def CiphertextDigestRow.weight (row : CiphertextDigestRow) : ℕ :=
  row.txnIsSent.toNat + row.txnLimitedRetriesCount + row.txnUnlimitedRetriesCount

theorem weight_le (e : Bookkeeping) (row : CiphertextDigestRow) :
    row.weight ≤ (e.ciphertextDigest row).weight := by
  cases e <;> simp [Bookkeeping.ciphertextDigest, CiphertextDigestRow.weight, Bool.toNat_le]

theorem weight_lt (e : Bookkeeping) {row : CiphertextDigestRow} (h : row.txnIsSent = false) :
    row.weight < (e.ciphertextDigest row).weight := by
  cases e <;> simp [Bookkeeping.ciphertextDigest, CiphertextDigestRow.weight, h]

/-- A row that has not been sent is another one after some statements. -/
theorem exists_weight_lt {row : CiphertextDigestRow} (hrow : row.txnIsSent = false) {l : List ℕ}
    (hl : l ≠ []) {own : ℕ → Option CiphertextDigestRow → Option CiphertextDigestRow}
    (hown : ∀ k ∈ l, ∀ x, own k x = x.map (ends k).ciphertextDigest) :
    ∃ row', l.foldr own (some row) = some row' ∧ row.weight < row'.weight := by
  induction l with
  | nil => exact absurd rfl hl
  | cons k l ih =>
    rw [List.foldr_cons, hown k List.mem_cons_self]
    cases l with
    | nil => exact ⟨_, rfl, weight_lt _ hrow⟩
    | cons k' l =>
      obtain ⟨row', hrow', hlt⟩ := ih (by simp) fun k hk => hown k (List.mem_cons_of_mem _ hk)
      rw [hrow']
      exact ⟨_, rfl, hlt.trans_le (weight_le _ _)⟩

theorem ownAt_addCiphertext {k j : ℕ} {t : Table (addCiphertextOperation S).key}
    {past : List Batch.Input} {s : Batch.State (Table (addCiphertextOperation S).key)}
    (hrun : ((addCiphertextOperation S).batch rows ends).Runs t past s)
    (hk : k ∈ s.log.filter ((addCiphertextOperation S).touches rows · j)) :
    ∃ row, rows[k]? = some row ∧ (prepareAddCiphertext S row).IsRequest ∧
      ∀ x, (addCiphertextOperation S).ownAt rows ends k x = x.map (ends k).ciphertextDigest := by
  obtain ⟨hlog, htouches⟩ := List.mem_filter.mp hk
  obtain ⟨row, -, hrow, -, -⟩ := RowOperation.exists_touching htouches
  have hacts := RowOperation.rowStatement_of_acts hrow (Batch.acts_of_mem_log hrun hlog)
  obtain ⟨hreq, hstatement⟩ := (rowStatement_addCiphertext row (ends k)).resolve_left hacts
  exact ⟨row, hrow, hreq, fun x => RowOperation.ownAt_eq hrow hstatement x⟩

theorem touches_of_handle {i j : ℕ} {rowi rowj : CiphertextDigestRow} (hi : rows[i]? = some rowi)
    (hj : rows[j]? = some rowj) (hhandle : rowi.handle = rowj.handle) (k : ℕ) :
    (addCiphertextOperation S).touches rows k i = (addCiphertextOperation S).touches rows k j := by
  cases hk : rows[k]? with
  | none => simp [RowOperation.touches, hk]
  | some rowk =>
    rw [RowOperation.touches_iff hk hi, RowOperation.touches_iff hk hj]
    simp [addCiphertextOperation, CiphertextDigestRow.key, hhandle]

section

variable {t : Table (addCiphertextOperation S).key}
  (h : (addCiphertextOperation S).Picked t rows)
include h

/-- A row whose handle a transaction has is changed at the end of a run. -/
theorem isRequest_of_ownEffects (hown : (addCiphertextOperation S).OwnEffects t rows ends)
    {past : List Batch.Input} {s : Batch.State (Table (addCiphertextOperation S).key)}
    (hrun : ((addCiphertextOperation S).batch rows ends).Runs t past s)
    (hret : s.returned.isSome) {i j : ℕ} {row : CiphertextDigestRow} (hj : rows[j]? = some row)
    (hi : i ∈ s.log.filter ((addCiphertextOperation S).touches rows · j)) :
    (prepareAddCiphertext S row).IsRequest := by
  by_contra hreq
  have hget := (hown past s hrun hret j row hj).2
  have hpending : row.txnIsSent = false := by
    have hpending := h.pending row (List.mem_of_getElem? hj)
    simp only [addCiphertextOperation, decide_eq_true_eq] at hpending
    exact hpending.1
  rw [RowOperation.get?_shared h hrun hj, RowOperation.ownEffect,
    RowOperation.rowStatement_eq_none hreq (prepareAddCiphertext_ne_remove S row)] at hget
  obtain ⟨row', hrow', hlt⟩ := @exists_weight_lt ends _ hpending _ (List.ne_nil_of_mem hi) _
    fun k hk => (ownAt_addCiphertext hrun hk).choose_spec.2.2
  rw [hrow', Option.some.injEq] at hget
  exact hlt.ne (by rw [hget])

/-- The books of a row are those of the last statement with its handle. -/
theorem ends_eq_of_ownEffects (hown : (addCiphertextOperation S).OwnEffects t rows ends)
    {past : List Batch.Input} {s : Batch.State (Table (addCiphertextOperation S).key)}
    (hrun : ((addCiphertextOperation S).batch rows ends).Runs t past s)
    (hret : s.returned.isSome) {j k : ℕ} {l : List ℕ} {row : CiphertextDigestRow}
    (hj : rows[j]? = some row) (hreq : (prepareAddCiphertext S row).IsRequest)
    (hfilter : s.log.filter ((addCiphertextOperation S).touches rows · j) = k :: l)
    (hok : (ends j).ok = true) (hokk : (ends k).ok = true) : ends j = ends k := by
  have hget := (hown past s hrun hret j row hj).2
  obtain ⟨-, -, -, hownk⟩ := ownAt_addCiphertext hrun
    (hfilter ▸ List.mem_cons_self : k ∈ s.log.filter ((addCiphertextOperation S).touches rows · j))
  rw [RowOperation.get?_shared h hrun hj, hfilter, List.foldr_cons, hownk, RowOperation.ownEffect,
    RowOperation.rowStatement_of_isRequest hreq] at hget
  obtain ⟨last, -, hlast⟩ := Option.map_eq_some_iff.mp hget
  cases hj' : ends j with
  | sent hash block =>
    cases hk' : ends k with
    | sent hash' block' =>
      simp only [hj', hk', Bookkeeping.ciphertextDigest] at hlast
      injection hlast
      congr 1 <;> exact Eq.symm ‹_›
    | limitedRetry => simp [hk', Bookkeeping.ok] at hokk
    | unlimitedRetry => simp [hk', Bookkeeping.ok] at hokk
  | limitedRetry => simp [hj', Bookkeeping.ok] at hok
  | unlimitedRetry => simp [hj', Bookkeeping.ok] at hok

theorem handlesUnshared_of_ownEffects (hown : (addCiphertextOperation S).OwnEffects t rows ends)
    (hiso : ((addCiphertextOperation S).batch rows ends).Isolated) :
    HandlesUnshared S rows ends := by
  intro i j rowi rowj hne hi hj hhandle hreqi
  obtain ⟨past, s, hrun, hret⟩ :=
    Batch.exists_returned ((addCiphertextOperation S).batch rows ends) t
  have htask : ∀ {k : ℕ} {row}, rows[k]? = some row → (prepareAddCiphertext S row).IsRequest →
      ((addCiphertextOperation S).batch rows ends).prepared[k]? = some .task := by
    intro k row hk hreq
    rw [RowOperation.prepared_eq hk]
    exact congrArg some (Preparation.prepared_eq_task.mpr hreq)
  have hmem : i ∈ s.log.filter ((addCiphertextOperation S).touches rows · j) := by
    refine List.mem_filter.mpr
      ⟨Batch.mem_log_of_isolated hiso hrun hret (.inl (htask hi hreqi)), ?_⟩
    rw [RowOperation.touches_iff hi hj]
    simp [addCiphertextOperation, CiphertextDigestRow.key, hhandle]
  have hreqj := isRequest_of_ownEffects h hown hrun hret hj hmem
  -- none of the two, nor any third one, can have failed
  have hok : ∀ {k : ℕ} {row}, rows[k]? = some row → (prepareAddCiphertext S row).IsRequest →
      (ends k).ok = true := by
    intro k row hk hreq
    by_contra hfail
    have hfails : ((addCiphertextOperation S).batch rows ends).Fails k :=
      .inr ⟨htask hk hreq, by simpa [RowOperation.batch, addCiphertextOperation] using hfail⟩
    by_cases hki : k = i
    · exact hiso k j (hki ▸ hne) hfails (.inl (htask hj hreqj))
    · exact hiso k i hki hfails (.inl (htask hi hreqi))
  refine ⟨hreqj, ?_⟩
  obtain ⟨k, l, hfilter⟩ := List.exists_cons_of_ne_nil (List.ne_nil_of_mem hmem)
  obtain ⟨rowk, hk, hreqk, -⟩ := ownAt_addCiphertext hrun
    (hfilter ▸ List.mem_cons_self : k ∈ s.log.filter ((addCiphertextOperation S).touches rows · j))
  have hfilteri : s.log.filter ((addCiphertextOperation S).touches rows · i) = k :: l := by
    rw [← hfilter]
    exact List.filter_congr fun k _ => touches_of_handle hi hj hhandle k
  calc ends i = ends k :=
        ends_eq_of_ownEffects h hown hrun hret hi hreqi hfilteri (hok hi hreqi) (hok hk hreqk)
    _ = ends j :=
        (ends_eq_of_ownEffects h hown hrun hret hj hreqj hfilter (hok hj hreqj) (hok hk hreqk)).symm

theorem addCiphertext_ownEffects_iff :
    (addCiphertextOperation S).OwnEffects t rows ends ↔
      ((addCiphertextOperation S).batch rows ends).Isolated ∧ HandlesUnshared S rows ends := by
  constructor
  · intro hown
    have hiso := RowOperation.isolated_of_ownEffects h
      (fun row hremove => absurd hremove (prepareAddCiphertext_ne_remove S row)) hown
    exact ⟨hiso, handlesUnshared_of_ownEffects h hown hiso⟩
  · rintro ⟨hiso, hunshared⟩
    refine RowOperation.ownEffects_of_isolated h (fun k => by simp [addCiphertextOperation]) ?_ hiso
      (unshared_of_handlesUnshared hunshared)
    exact fun e hok =>
      Bookkeeping.own_idem (f := Bookkeeping.ciphertextDigest) (fun _ _ _ => rfl) hok

end

end AddCiphertext

/-! ## All operations -/

/-- In every run on every batch, all transactions are sent and every row is as its own transaction
has left it, exactly if no row makes the call return early or has a transaction that fails while
another row has something to lose by it, and, for ciphertexts, no two tenants share a handle. -/
theorem ownEffects_iff_isolated (S : SenderSetup) (S' : ProofSetup) :
    (∀ (t : Table (multichainACLOperation S).key) (rows : List AllowedHandleRow)
      (results : ℕ → TxnResult (Option MultichainACLErrors)),
      (multichainACLOperation S).Picked t rows →
        ((multichainACLOperation S).OwnEffects t rows
            (fun i => bookkeeping alreadyAllowedError (results i)) ↔
          ((multichainACLOperation S).batch rows
            (fun i => bookkeeping alreadyAllowedError (results i))).Isolated)) ∧
    (∀ (t : Table (addCiphertextOperation S).key)
      (rows : List CiphertextDigestRow) (results : ℕ → TxnResult (Option CiphertextCommitsErrors)),
      (addCiphertextOperation S).Picked t rows →
        ((addCiphertextOperation S).OwnEffects t rows
            (fun i => bookkeeping alreadyAddedError (results i)) ↔
          ((addCiphertextOperation S).batch rows
            (fun i => bookkeeping alreadyAddedError (results i))).Isolated ∧
          HandlesUnshared S rows (fun i => bookkeeping alreadyAddedError (results i)))) ∧
    ∀ (t : Table (verifyProofOperation S').key) (rows : List VerifyProofRow)
      (results : ℕ → TxnResult (Option InputVerificationErrors)),
      (verifyProofOperation S').Picked t rows →
        ((verifyProofOperation S').OwnEffects t rows (fun i => proofBookkeeping (results i)) ↔
          ((verifyProofOperation S').batch rows fun i => proofBookkeeping (results i)).Isolated) :=
  ⟨fun _ _ _ h => multichainACL_ownEffects_iff S h _,
    fun _ _ _ h => addCiphertext_ownEffects_iff h,
    fun _ _ _ h => verifyProof_ownEffects_iff S' h _⟩

/-! ### A batch with a failure -/

def sampleSetup : SenderSetup where
  tenants := ⟨[{ tenantId := 1, chainId := 12345, keyId := List.replicate 32 1 }], by decide⟩
  maxRetries := 10
  batchLimit := 10
  addressFromStr text :=
    if text = "0x0000000000000000000000000000000000000007" then some 7 else none

/-- A row for an account, and one with the length of its handle. -/
def sampleAllow (length : ℕ) (accountAddress : String) : AllowedHandleRow where
  tenantId := 1
  handle := List.replicate length 5
  accountAddress := accountAddress
  eventType := if accountAddress = "" then 1 else 0

def sampleAllows : List AllowedHandleRow :=
  [sampleAllow 32 "0x0000000000000000000000000000000000000007", sampleAllow 32 ""]

def sampleAllowTable (rows : List AllowedHandleRow) (h : (rows.map AllowedHandleRow.key).Nodup) :
    Table (multichainACLOperation sampleSetup).key := ⟨rows, h⟩

def included (status : Bool) : TxnResult (Option MultichainACLErrors) :=
  .receipt ⟨status, 9, some 100⟩

theorem sampleAllows_picked : (multichainACLOperation sampleSetup).Picked
    (sampleAllowTable sampleAllows (by decide)) sampleAllows := by
  refine ⟨by decide, by decide, by decide, by decide⟩

def sampleDigests : List CiphertextDigestRow :=
  [{ tenantId := 1
     handle := List.replicate 32 5
     ciphertext := some (List.replicate 32 6)
     ciphertext128 := some (List.replicate 32 7) },
   { tenantId := 2
     handle := List.replicate 32 8
     ciphertext := some (List.replicate 32 6)
     ciphertext128 := some (List.replicate 32 7) }]

def sampleDigestTable : Table (addCiphertextOperation sampleSetup).key :=
  ⟨sampleDigests, by decide⟩

def sampleProofSetup : ProofSetup where
  gwChainId := 54321
  inputVerificationAddress := 3
  keccak256 _ := 0
  signHash _ := some (List.replicate 65 0)
  addressFromStr := sampleSetup.addressFromStr
  maxRetries := 10
  batchLimit := 10

def sampleProofs : List VerifyProofRow :=
  [{ zkProofId := 1, chainId := 12345, contractAddress := "", userAddress := "", extraData := [],
     verified := some false },
   { zkProofId := 2, chainId := 12345, contractAddress := "", userAddress := "", extraData := [],
     verified := some true, handles := some [1] }]

def sampleProofTable : Table (verifyProofOperation sampleProofSetup).key :=
  ⟨sampleProofs, by decide⟩

/-- Batches in which nothing fails; a ciphertext of a tenant that is not known is skipped, and a
proof with bad handles is removed. -/
theorem sampleBatches_ownEffects :
    (multichainACLOperation sampleSetup).OwnEffects
      (sampleAllowTable sampleAllows (by decide)) sampleAllows
        (fun _ => bookkeeping alreadyAllowedError (included true)) ∧
    (addCiphertextOperation sampleSetup).OwnEffects sampleDigestTable sampleDigests
      (fun _ => bookkeeping alreadyAddedError (.receipt ⟨true, 9, some 100⟩)) ∧
    (verifyProofOperation sampleProofSetup).OwnEffects sampleProofTable sampleProofs
      (fun _ => proofBookkeeping (.sendError
        (.errorResp (some .coprocessorAlreadyRejected)))) := by
  refine ⟨?_, ?_, ?_⟩
  · exact ((ownEffects_iff_isolated sampleSetup sampleProofSetup).1 _ sampleAllows
      (fun _ => included true) sampleAllows_picked).mpr
        (RowOperation.isolated_of_ok (by decide) fun _ => rfl)
  · refine ((ownEffects_iff_isolated sampleSetup sampleProofSetup).2.1 sampleDigestTable
      sampleDigests (fun _ => .receipt ⟨true, 9, some 100⟩)
        ⟨by decide, by decide, by decide, by decide⟩).mpr
          ⟨RowOperation.isolated_of_ok (by decide) fun _ => rfl, ?_⟩
    intro i j rowi rowj hne hi hj hhandle _
    have hinj : (sampleDigests.map CiphertextDigestRow.handle).Nodup := by decide
    refine absurd ((List.getElem?_inj ?_ hinj).mp ?_) hne
    · simpa using (List.getElem?_eq_some_iff.mp hi).1
    · simp [hi, hj, hhandle]
  · exact ((ownEffects_iff_isolated sampleSetup sampleProofSetup).2.2 sampleProofTable sampleProofs
      (fun _ => .sendError (.errorResp (some .coprocessorAlreadyRejected)))
        ⟨by decide, by decide, by decide, by decide⟩).mpr
          (RowOperation.isolated_of_ok (by decide) fun _ => rfl)

/-- The transaction of the first row reverts, and the second row loses its own; or the handle of the
first row has not 32 bytes, and no transaction is sent for the second. -/
theorem sampleAllows_not_ownEffects :
    ¬ (multichainACLOperation sampleSetup).OwnEffects
      (sampleAllowTable sampleAllows (by decide)) sampleAllows
        (fun i => bookkeeping alreadyAllowedError (included (i ≠ 0))) ∧
    ¬ (multichainACLOperation sampleSetup).OwnEffects
      (sampleAllowTable [sampleAllow 31 "", sampleAllow 32 ""] (by decide))
        [sampleAllow 31 "", sampleAllow 32 ""]
          (fun _ => bookkeeping alreadyAllowedError (included true)) := by
  constructor
  · rw [multichainACL_ownEffects_iff _ sampleAllows_picked]
    intro hiso
    exact hiso 0 1 (by decide) (.inr ⟨by decide, by decide⟩) (.inl (by decide))
  · rw [multichainACL_ownEffects_iff _ ⟨by decide, by decide, by decide, by decide⟩]
    intro hiso
    exact hiso 0 1 (by decide) (.inl (by decide)) (.inl (by decide))

end Fhevm.TransactionSender

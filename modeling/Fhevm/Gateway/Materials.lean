import Fhevm.Gateway.Allow

/-!
# Settled materials and permissions

What the reports of the coprocessors settle over a run, whatever the order of the reports
and whatever the thresholds at their times.

## Main definitions

* `materialVotes`, `allowVotes` — the accepted reports of a run.
* `MaterialsSettled` — one material for each handle, with a quorum behind it.
* `AllowsSettled` — a target is allowed exactly if a quorum has reported it.
* `commitments_settled` — both hold after every run.
-/

namespace Fhevm.Gateway

open Foundation Contract Host

variable {D : GatewayDeployment}

/-! ## Materials -/

section Materials

variable {calls : List (GatewayTx × AddCiphertextMaterial)}

abbrev MaterialBallot := Ballot AddCiphertextMaterial GatewayConfigStorage

def materialVote (i : GatewayTx × AddCiphertextMaterial) (_ : CiphertextCommitsStorage) :
    Option MaterialBallot :=
  some ⟨i.2, i.1.sender, i.1.sender, i.1.config, []⟩

/-- The accepted reports of a run, oldest first. -/
def materialVotes (D : GatewayDeployment) (calls : List (GatewayTx × AddCiphertextMaterial)) :
    List MaterialBallot :=
  (ciphertextCommits D).votes .init materialVote calls

theorem step_commits {i : GatewayTx × AddCiphertextMaterial} {s : CiphertextCommitsStorage}
    (h : (ciphertextCommits D).Commits i s) :
    i.1.config.coprocessors.isTxSender i.1.sender = true ∧
      s.alreadyAddedCoprocessorTxSenders i.2.ctHandle i.1.sender = false ∧
        (ciphertextCommits D).step i s = s.afterReport D i.1 i.2 := by
  obtain ⟨ev, h⟩ := h.call_eq
  obtain ⟨hsender, -, hfresh, hstep, -⟩ := addCiphertextMaterial_ok h
  exact ⟨hsender, hfresh, hstep⟩

theorem senders_commitsAfter (hash : Bytes32) :
    (commitsAfter D calls).coprocessorTxSenderAddresses hash =
      ((materialVotes D calls).filter fun v => addCiphertextHash D v.topic = hash).map
        Ballot.sender := by
  have happend : ∀ i s, (ciphertextCommits D).Commits i s →
      ((ciphertextCommits D).step i s).coprocessorTxSenderAddresses hash =
        s.coprocessorTxSenderAddresses hash ++ ((materialVote i s).toList.filter
          fun v => addCiphertextHash D v.topic = hash).map Ballot.sender := by
    intro i s h
    rw [(step_commits h).2.2, senders_afterReport]
    by_cases hh : addCiphertextHash D i.2 = hash
    · subst hh
      simp [materialVote]
    · simp [materialVote, hh, Ne.symm hh]
  exact @record_eq _ _ _ _ _ _ (ciphertextCommits D) .init materialVote
    (fun s => s.coprocessorTxSenderAddresses hash) (fun v => addCiphertextHash D v.topic = hash)
    _ Ballot.sender rfl happend calls

theorem counters_commitsAfter (hash : Bytes32) :
    (commitsAfter D calls).addCiphertextHashCounters hash =
      ((commitsAfter D calls).coprocessorTxSenderAddresses hash).length := by
  apply exec_invariant (P := fun s : CiphertextCommitsStorage =>
    s.addCiphertextHashCounters hash = (s.coprocessorTxSenderAddresses hash).length)
  · rfl
  · intro i s ev s' hs h
    obtain ⟨-, -, -, rfl, -⟩ := addCiphertextMaterial_ok h
    rw [counters_afterReport, senders_afterReport]
    simp only [Function.update_apply]
    split_ifs with hh
    · subst hh
      simp [hs]
    · exact hs

/-- No coprocessor reports a handle twice. -/
theorem materialVotes_nodup :
    ((materialVotes D calls).map fun v => (v.topic.ctHandle, v.sender)).Nodup := by
  refine @votes_nodup _ _ _ _ _ _ (ciphertextCommits D) .init materialVote
    (fun v => (v.topic.ctHandle, v.sender))
    (fun s p => s.alreadyAddedCoprocessorTxSenders p.1 p.2 = true) ?_ ?_ calls
  · intro i s v h hv
    obtain ⟨-, hfresh, hstep⟩ := step_commits h
    cases hv
    rw [hstep, alreadyAdded_afterReport]
    simp [hfresh]
  · intro i s p h hp
    rw [(step_commits h).2.2, alreadyAdded_afterReport]
    simp only [Function.update_apply]
    grind

/-- The material of the handle is the reported one, under its hash. -/
structure StoredAs (D : GatewayDeployment) (s : CiphertextCommitsStorage)
    (args : AddCiphertextMaterial) : Prop where
  added : s.isCiphertextMaterialAdded args.ctHandle = true
  keyId : s.keyIds args.ctHandle = args.keyId
  digest : s.ciphertextDigests args.ctHandle = args.ciphertextDigest
  snsDigest : s.snsCiphertextDigests args.ctHandle = args.snsCiphertextDigest
  hash : s.ctHandleConsensusHash args.ctHandle = addCiphertextHash D args

theorem StoredAs.unique {s : CiphertextCommitsStorage} {args args' : AddCiphertextMaterial}
    (h : StoredAs D s args) (h' : StoredAs D s args') (hsame : args.ctHandle = args'.ctHandle) :
    args = args' := by
  obtain ⟨ctHandle, keyId, digest, sns⟩ := args
  obtain ⟨ctHandle', keyId', digest', sns'⟩ := args'
  obtain rfl : ctHandle = ctHandle' := hsame
  have h₁ := h.keyId.symm.trans h'.keyId
  have h₂ := h.digest.symm.trans h'.digest
  have h₃ := h.snsDigest.symm.trans h'.snsDigest
  simp_all

/-- What the getters return of a handle. -/
theorem StoredAs.material {s : CiphertextCommitsStorage} {args : AddCiphertextMaterial}
    (h : StoredAs D s args) :
    getCiphertextMaterials s [args.ctHandle] = .ok [⟨args.ctHandle, args.keyId,
        args.ciphertextDigest, s.coprocessorTxSenderAddresses (addCiphertextHash D args)⟩] ∧
      getSnsCiphertextMaterials s [args.ctHandle] = .ok [⟨args.ctHandle, args.keyId,
        args.snsCiphertextDigest, s.coprocessorTxSenderAddresses (addCiphertextHash D args)⟩] := by
  have hone : ∀ digests : Bytes32 → Bytes32, [args.ctHandle].mapM (s.material digests) =
      .ok [⟨args.ctHandle, args.keyId, digests args.ctHandle,
        s.coprocessorTxSenderAddresses (addCiphertextHash D args)⟩] := by
    intro digests
    rw [mapM_eq_ok]
    simp [CiphertextCommitsStorage.material, h.added, h.keyId, h.hash]
  constructor
  · rw [← h.digest]
    exact hone _
  · rw [← h.snsDigest]
    exact hone _

/-- A report changes nothing of a handle that has its material. -/
theorem StoredAs.afterReport {s : CiphertextCommitsStorage} {args args' : AddCiphertextMaterial}
    {tx : GatewayTx} (h : StoredAs D s args') : StoredAs D (s.afterReport D tx args) args' := by
  obtain ⟨h₁, h₂, h₃, h₄, h₅⟩ := h
  unfold CiphertextCommitsStorage.afterReport
  dsimp only
  split_ifs with hd
  · have hne : args'.ctHandle ≠ args.ctHandle := by
      intro he
      rw [he, hd.1] at h₁
      cases h₁
    exact ⟨by simpa [CiphertextCommitsStorage.withMaterial, CiphertextCommitsStorage.counted,
        Function.update_apply] using .inr h₁,
      by simpa [CiphertextCommitsStorage.withMaterial, CiphertextCommitsStorage.counted, hne]
        using h₂,
      by simpa [CiphertextCommitsStorage.withMaterial, CiphertextCommitsStorage.counted, hne]
        using h₃,
      by simpa [CiphertextCommitsStorage.withMaterial, CiphertextCommitsStorage.counted, hne]
        using h₄,
      by simpa [CiphertextCommitsStorage.withMaterial, CiphertextCommitsStorage.counted, hne]
        using h₅⟩
  · exact ⟨h₁, h₂, h₃, h₄, h₅⟩

theorem storedAs_of_decides {s : CiphertextCommitsStorage} {args : AddCiphertextMaterial}
    {tx : GatewayTx} (hd : DecidesMaterial D tx args s) :
    StoredAs D (s.afterReport D tx args) args := by
  unfold CiphertextCommitsStorage.afterReport
  dsimp only
  rw [if_pos hd]
  exact ⟨by simp [CiphertextCommitsStorage.withMaterial],
    by simp [CiphertextCommitsStorage.withMaterial],
    by simp [CiphertextCommitsStorage.withMaterial],
    by simp [CiphertextCommitsStorage.withMaterial],
    by simp [CiphertextCommitsStorage.withMaterial]⟩

theorem storedAs_kept {past : List (GatewayTx × AddCiphertextMaterial)}
    {args : AddCiphertextMaterial} (hsuffix : past <:+ calls)
    (h : StoredAs D (commitsAfter D past) args) : StoredAs D (commitsAfter D calls) args :=
  holds_later (P := fun s => StoredAs D s args)
    (fun _ _ hc hs => (step_commits hc).2.2 ▸ hs.afterReport) hsuffix h

/-- What the reports of a run have settled on the materials. -/
structure MaterialsSettled (D : GatewayDeployment)
    (calls : List (GatewayTx × AddCiphertextMaterial)) : Prop where
  counters : ∀ hash, (commitsAfter D calls).addCiphertextHashCounters hash =
    ((commitsAfter D calls).coprocessorTxSenderAddresses hash).length
  senders : ∀ hash, (commitsAfter D calls).coprocessorTxSenderAddresses hash =
    ((materialVotes D calls).filter fun v => addCiphertextHash D v.topic = hash).map Ballot.sender
  distinct : ((materialVotes D calls).map fun v => (v.topic.ctHandle, v.sender)).Nodup
  kept : ∀ past args, past <:+ calls → StoredAs D (commitsAfter D past) args →
    StoredAs D (commitsAfter D calls) args
  agreed : ∀ ctHandle, (commitsAfter D calls).isCiphertextMaterialAdded ctHandle = true →
    ∃ i past, Ran calls i past ∧ (ciphertextCommits D).Commits i (commitsAfter D past) ∧
      i.2.ctHandle = ctHandle ∧ StoredAs D (commitsAfter D calls) i.2 ∧
        i.1.config.coprocessorThreshold ≤
          ((commitsAfter D (i :: past)).coprocessorTxSenderAddresses
            (addCiphertextHash D i.2)).length

theorem materialsSettled (D : GatewayDeployment)
    (calls : List (GatewayTx × AddCiphertextMaterial)) : MaterialsSettled D calls := by
  refine ⟨counters_commitsAfter, senders_commitsAfter, materialVotes_nodup,
    fun past args hsuffix h => storedAs_kept hsuffix h, fun ctHandle hadded => ?_⟩
  -- the handle was added by the report that completed a quorum
  have hset : ∀ i s, (ciphertextCommits D).Commits i s →
      (((ciphertextCommits D).step i s).isCiphertextMaterialAdded ctHandle = true ↔
        s.isCiphertextMaterialAdded ctHandle = true ∨
          (DecidesMaterial D i.1 i.2 s ∧ i.2.ctHandle = ctHandle)) := by
    intro i s hc
    rw [(step_commits hc).2.2, isAdded_afterReport]
  have hinit : ¬ CiphertextCommitsStorage.init.isCiphertextMaterialAdded ctHandle = true := by
    simp [CiphertextCommitsStorage.init]
  obtain ⟨i, past, hran, hc, hd, hhandle⟩ :=
    (@holds_iff _ _ _ _ (ciphertextCommits D) .init
      (fun s => s.isCiphertextMaterialAdded ctHandle = true)
      (fun i s => DecidesMaterial D i.1 i.2 s ∧ i.2.ctHandle = ctHandle) hinit hset calls).mp hadded
  have hstep : commitsAfter D (i :: past) = (commitsAfter D past).afterReport D i.1 i.2 :=
    (step_commits hc).2.2
  refine ⟨i, past, hran, hc, hhandle, storedAs_kept hran ?_, ?_⟩
  · rw [hstep]
    exact storedAs_of_decides hd
  · rw [← counters_commitsAfter, hstep, counters_afterReport, Function.update_self]
    exact hd.2

end Materials

/-! ## Permissions -/

section Allows

variable {calls : List (GatewayTx × AllowCall)}

abbrev AllowBallot := Ballot AllowTarget GatewayConfigStorage

def allowVote (i : GatewayTx × AllowCall) (_ : MultichainACLAllows) :
    Option AllowBallot :=
  some ⟨i.2.target, i.1.sender, i.1.sender, i.1.config, []⟩

/-- The accepted reports of a run, oldest first. -/
def allowVotes (D : GatewayDeployment) (calls : List (GatewayTx × AllowCall)) :
    List AllowBallot :=
  (allows D).votes .init allowVote calls

theorem allow_commits {i : GatewayTx × AllowCall} {s : MultichainACLAllows}
    (h : (allows D).Commits i s) :
    i.1.config.coprocessors.isTxSender i.1.sender = true ∧
      s.allowCoprocessors (i.2.target.key D) i.1.sender = false ∧
        (allows D).step i s = s.afterReport D i := by
  obtain ⟨ev, h⟩ := h.call_eq
  obtain ⟨hsender, -, hfresh, hstep, -⟩ := allows_ok h
  exact ⟨hsender, hfresh, hstep⟩

theorem senders_allowsAfter (key : Bytes32) :
    (allowsAfter D calls).allowConsensusTxSenders key =
      ((allowVotes D calls).filter fun v => v.topic.key D = key).map Ballot.sender := by
  have happend : ∀ i s, (allows D).Commits i s →
      ((allows D).step i s).allowConsensusTxSenders key =
        s.allowConsensusTxSenders key ++ ((allowVote i s).toList.filter
          fun v => v.topic.key D = key).map Ballot.sender := by
    intro i s h
    rw [(allow_commits h).2.2, senders_afterAllow]
    by_cases hh : i.2.target.key D = key
    · subst hh
      simp [allowVote]
    · simp [allowVote, hh, Ne.symm hh]
  exact @record_eq _ _ _ _ _ _ (allows D) .init allowVote
    (fun s => s.allowConsensusTxSenders key) (fun v => v.topic.key D = key)
    _ Ballot.sender rfl happend calls

theorem counters_allowsAfter (key : Bytes32) :
    (allowsAfter D calls).allowCounters key =
      ((allowsAfter D calls).allowConsensusTxSenders key).length := by
  apply exec_invariant (P := fun s : MultichainACLAllows =>
    s.allowCounters key = (s.allowConsensusTxSenders key).length)
  · rfl
  · intro i s ev s' hs h
    obtain ⟨-, -, -, rfl, -⟩ := allows_ok h
    rw [counters_afterAllow, senders_afterAllow]
    simp only [Function.update_apply]
    split_ifs with hh
    · subst hh
      simp [hs]
    · exact hs

/-- No coprocessor is counted twice under a key. -/
theorem allowVotes_nodup : ((allowVotes D calls).map fun v => (v.topic.key D, v.sender)).Nodup := by
  refine @votes_nodup _ _ _ _ _ _ (allows D) .init allowVote
    (fun v => (v.topic.key D, v.sender)) (fun s p => s.allowCoprocessors p.1 p.2 = true) ?_ ?_ calls
  · intro i s v h hv
    obtain ⟨-, hfresh, hstep⟩ := allow_commits h
    cases hv
    rw [hstep, coprocessors_afterAllow]
    simp [hfresh]
  · intro i s p h hp
    rw [(allow_commits h).2.2, coprocessors_afterAllow]
    simp only [Function.update_apply]
    grind

theorem allowSenders_nodup (key : Bytes32) :
    (((allowVotes D calls).filter fun v => v.topic.key D = key).map Ballot.sender).Nodup :=
  nodup_of_topic allowVotes_nodup key

/-- No report of the run is counted under the key of the target but those on the target. -/
def KeysApart (D : GatewayDeployment) (calls : List (GatewayTx × AllowCall))
    (target : AllowTarget) : Prop :=
  ∀ i ∈ calls, i.2.target.key D = target.key D → i.2.target = target

/-- The senders of the accepted reports on a target. -/
def allowSenders (D : GatewayDeployment) (calls : List (GatewayTx × AllowCall))
    (target : AllowTarget) : List Address :=
  ((allowVotes D calls).filter fun v => v.topic = target).map Ballot.sender

theorem senders_of_keysApart {target : AllowTarget} (h : KeysApart D calls target) :
    (allowsAfter D calls).allowConsensusTxSenders (target.key D) = allowSenders D calls target := by
  rw [senders_allowsAfter, allowSenders]
  congr 1
  refine List.filter_congr fun v hv => ?_
  obtain ⟨i, past, hran, -, hcast⟩ := mem_votes.mp hv
  cases hcast
  have hmem : i ∈ calls := hran.mem List.mem_cons_self
  exact decide_eq_decide.mpr ⟨h i hmem, fun he => he ▸ rfl⟩

/-- What the reports of a run have settled on a target. -/
structure AllowsSettled (D : GatewayDeployment) (calls : List (GatewayTx × AllowCall))
    (target : AllowTarget) : Prop where
  counter : (allowsAfter D calls).allowCounters (target.key D) =
    ((allowsAfter D calls).allowConsensusTxSenders (target.key D)).length
  senders : (allowsAfter D calls).allowConsensusTxSenders (target.key D) =
    allowSenders D calls target
  flag : (allowsAfter D calls).isAllowed (target.key D) = true ↔
    ∃ i past, Ran calls i past ∧ (allows D).Commits i (allowsAfter D past) ∧ i.2.target = target ∧
      i.1.config.coprocessorThreshold ≤ (allowSenders D (i :: past) target).toFinset.card

theorem allowsSettled {target : AllowTarget} (h : KeysApart D calls target) :
    AllowsSettled D calls target := by
  refine ⟨counters_allowsAfter _, senders_of_keysApart h, ?_⟩
  have hmono : ∀ {later : List (GatewayTx × AllowCall)}, later <:+ calls →
      KeysApart D later target := fun hs i hi => h i (hs.mem hi)
  -- after a report on the target the list under its key holds its distinct senders
  have hcount : ∀ i past, Ran calls i past → (allows D).Commits i (allowsAfter D past) →
      i.2.target.key D = target.key D →
        (allowSenders D (i :: past) target).toFinset.card =
          (allowsAfter D past).allowCounters (target.key D) + 1 := by
    intro i past hran hc hkey
    have hnd : (((allowVotes D (i :: past)).filter fun v =>
        v.topic.key D = target.key D).map Ballot.sender).Nodup := allowSenders_nodup _
    rw [← senders_allowsAfter, senders_of_keysApart (hmono hran)] at hnd
    have hstep : allowsAfter D (i :: past) = (allowsAfter D past).afterReport D i :=
      (allow_commits hc).2.2
    rw [List.toFinset_card_of_nodup hnd, ← senders_of_keysApart (hmono hran),
      ← counters_allowsAfter, hstep, counters_afterAllow, hkey, Function.update_self]
  -- a report that meets the threshold of a target that is allowed already changes nothing
  have hset : ∀ i s, (allows D).Commits i s →
      (((allows D).step i s).isAllowed (target.key D) = true ↔
        s.isAllowed (target.key D) = true ∨ (i.2.target.key D = target.key D ∧
          i.1.config.coprocessorThreshold ≤ s.allowCounters (target.key D) + 1)) := by
    intro i s hc
    rw [(allow_commits hc).2.2, isAllowed_afterAllow]
    unfold DecidesAllow
    constructor
    · rintro (ha | ⟨hd, hkey⟩)
      · exact .inl ha
      · exact .inr ⟨hkey, hkey ▸ hd.2⟩
    · rintro (ha | ⟨hkey, hmet⟩)
      · exact .inl ha
      · cases ha : s.isAllowed (target.key D) with
        | true => exact .inl rfl
        | false => exact .inr ⟨by rw [hkey]; exact ⟨ha, hmet⟩, hkey⟩
  have hinit : ¬ MultichainACLAllows.init.isAllowed (target.key D) = true := by
    simp [MultichainACLAllows.init]
  rw [show allowsAfter D calls = (allows D).exec .init calls from rfl,
    @holds_iff _ _ _ _ (allows D) .init (fun s => s.isAllowed (target.key D) = true) _ hinit hset]
  constructor
  · rintro ⟨i, past, hran, hc, hkey, hmet⟩
    refine ⟨i, past, hran, hc, h i (hran.mem List.mem_cons_self) hkey, ?_⟩
    rwa [hcount i past hran hc hkey]
  · rintro ⟨i, past, hran, hc, rfl, hmet⟩
    rw [hcount i past hran hc rfl] at hmet
    exact ⟨i, past, hran, hc, rfl, hmet⟩

end Allows

/-! ## Both -/

/-- After every run each handle has at most one material, for ever, that of a report whose
hash reached the threshold; no coprocessor reports a handle twice; counters count the listed
senders; and a target is allowed exactly if at some report on it the threshold in force was
met by distinct senders. -/
theorem commitments_settled (D : GatewayDeployment)
    (reports : List (GatewayTx × AddCiphertextMaterial)) (calls : List (GatewayTx × AllowCall))
    (target : AllowTarget) (hkeys : KeysApart D calls target) :
    MaterialsSettled D reports ∧ AllowsSettled D calls target :=
  ⟨materialsSettled D reports, allowsSettled hkeys⟩

/-! ## A run -/

/-- One coprocessor, one host chain and a threshold of one vote. -/
def oneCoprocessor : GatewayConfigStorage :=
  { GatewayConfigStorage.emptyProxy 1 with
    coprocessors := Registry.empty.registerAll [⟨30, 40, ""⟩]
    coprocessorThreshold := 1
    isHostChainRegistered := fun chainId => decide (chainId = 1) }

def sampleDeployment : GatewayDeployment where
  keccak256 bytes := BitVec.ofNat 256 (BigEndian.decode bytes % 1000003 + 1)
  recover _ _ := some 40
  chainid := 5
  gatewayConfigAddress := 69
  decryptionAddress := 70
  inputVerificationAddress := 71

/-- An account and the public are allowed the same handle of chain 1. -/
def sampleAllows : List (GatewayTx × AllowCall) :=
  [(⟨30, oneCoprocessor⟩, ⟨.publicDecrypt (1 <<< 16), []⟩),
    (⟨30, oneCoprocessor⟩, ⟨.account (1 <<< 16) 9, []⟩)]

theorem sampleAllows_settled :
    (allowsAfter sampleDeployment sampleAllows).isAllowed
        ((AllowTarget.account (1 <<< 16) 9).key sampleDeployment) = true ∧
      AllowsSettled sampleDeployment sampleAllows (.account (1 <<< 16) 9) :=
  ⟨by decide +kernel, (commitments_settled sampleDeployment [] sampleAllows _
    (by unfold KeysApart; decide +kernel)).2⟩

end Fhevm.Gateway

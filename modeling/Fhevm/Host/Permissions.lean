import Fhevm.Host.HostChain

/-!
# Where permissions come from

Every permission on a handle goes back to the operation that returned the handle,
over permissions that were passed on by accounts that held them.

## Main definitions

* `Reaches` — a handle reached an account from the caller of the operation that returned it.
* `Traced` — all permissions of a state are such.
-/

namespace Fhevm.Host

open Foundation Contract FHEVMExecutor

variable {K : HostConfig}

/-! ## Chains of permissions -/

/-- The account got the handle from an operation that it called, or from an account that the
handle had reached before and that was allowed to pass it on. -/
inductive Reaches (K : HostConfig) : List (HostCall K.deployment) → Bytes32 → Address → Prop
  | result {calls past : List (HostCall K.deployment)} {ctx : Context} {call : ExecutorCall}
      {handle : Bytes32} (hran : Ran calls (.executor ctx call) past)
      (hreturns : Returns K past ctx call handle) : Reaches K calls handle ctx.sender
  | passed {calls past : List (HostCall K.deployment)} {ctx : Context} {call : ACLCall}
      {external : ctx.sender ≠ K.deployment.fhevmExecutorAdd} {handle : Bytes32} {account : Address}
      (hran : Ran calls (.acl ctx call external) past)
      (hcall : call = .allow handle account ∨ call = .allowTransient handle account)
      (hdenied : isAccountDenied ctx.sender (hostAfter K past).acl = false)
      (hallowed : isAllowed K.deployment handle ctx.sender (hostAfter K past).acl = true)
      (hreaches : Reaches K past handle ctx.sender) : Reaches K calls handle account

theorem Reaches.mono {past calls : List (HostCall K.deployment)} {handle : Bytes32}
    {account : Address} (h : Reaches K past handle account) (hs : past <:+ calls) :
    Reaches K calls handle account := by
  cases h with
  | result hran hreturns => exact .result (hran.of_suffix hs) hreturns
  | passed hran hcall hdenied hallowed hreaches =>
    exact .passed (hran.of_suffix hs) hcall hdenied hallowed hreaches

/-- The handle was returned by an operation. -/
theorem Reaches.returned {calls : List (HostCall K.deployment)} {handle : Bytes32}
    {account : Address} (h : Reaches K calls handle account) :
    ∃ ctx call past, Ran calls (.executor ctx call) past ∧ Returns K past ctx call handle := by
  induction h with
  | result hran hreturns => exact ⟨_, _, _, hran, hreturns⟩
  | passed hran _ _ _ _ ih =>
    obtain ⟨ctx, call, past, hran', hreturns⟩ := ih
    exact ⟨ctx, call, past, hran'.of_suffix hran.past_suffix, hreturns⟩

/-- An account that the handle had reached, and that was not denied, allowed everyone to
decrypt it. -/
def Published (K : HostConfig) (calls : List (HostCall K.deployment)) (handle : Bytes32) : Prop :=
  ∃ ctx handlesList external past,
    Ran calls (.acl ctx (.allowForDecryption handlesList) external) past ∧
      handle ∈ handlesList ∧ isAccountDenied ctx.sender (hostAfter K past).acl = false ∧
        isAllowed K.deployment handle ctx.sender (hostAfter K past).acl = true ∧
          Reaches K past handle ctx.sender

theorem Published.mono {past calls : List (HostCall K.deployment)} {handle : Bytes32}
    (h : Published K past handle) (hs : past <:+ calls) : Published K calls handle := by
  obtain ⟨ctx, handlesList, external, before, hran, hrest⟩ := h
  exact ⟨ctx, handlesList, external, before, hran.of_suffix hs, hrest⟩

/-! ## The invariant -/

/-- The slot of a permission. -/
abbrev slotOf (K : HostConfig) (p : Bytes32 × Address) : Bytes32 :=
  permissionKey K.deployment p.1 p.2

/-- All permissions of a state go back to operations of the run that led to it. Those of
transient storage are among the permissions `P`. -/
structure Traced (K : HostConfig) (P : Set (Bytes32 × Address)) (bound : Nat)
    (past : List (HostCall K.deployment)) (s : ACLState) : Prop where
  transient : ∃ pairs : List (Bytes32 × Address),
    TransientSet.Holds bound s.transient (pairs.map (slotOf K)) ∧ pairs.length ≤ past.length ∧
      ∀ p ∈ pairs, p ∈ P ∧ Reaches K past p.1 p.2
  persisted : ∀ handle account, persistAllowed handle account s = true →
    Reaches K past handle account
  published : ∀ handle, s.allowedForDecryption handle = true → Published K past handle

section Steps

variable {P : Set (Bytes32 × Address)} {bound : Nat} {past : List (HostCall K.deployment)}
  {s s' : ACLState} {i : HostCall K.deployment}

theorem Traced.reaches (h : Traced K P bound past s) (hinj : Set.InjOn (slotOf K) P)
    (hlarge : ∀ p ∈ P, bound ≤ (slotOf K p).toNat) {handle : Bytes32} {account : Address}
    (hp : (handle, account) ∈ P) (hallowed : isAllowed K.deployment handle account s = true) :
    Reaches K past handle account := by
  rw [isAllowed, Bool.or_eq_true] at hallowed
  rcases hallowed with ht | hpersisted
  · obtain ⟨pairs, hholds, -, hpairs⟩ := h.transient
    obtain ⟨p, hmem, hslot⟩ := List.mem_map.mp ((hholds.contains_iff (hlarge _ hp)).mp ht)
    obtain ⟨hpP, hreaches⟩ := hpairs p hmem
    obtain rfl : p = (handle, account) := hinj hpP hp hslot
    exact hreaches
  · exact h.persisted handle account hpersisted

/-- A step that changes the transient storage only. -/
theorem Traced.of_transient (h : Traced K P bound past s)
    (hpersisted : s'.persistedAllowedPairs = s.persistedAllowedPairs)
    (hdecryption : s'.allowedForDecryption = s.allowedForDecryption)
    (htransient : ∃ pairs : List (Bytes32 × Address),
      TransientSet.Holds bound s'.transient (pairs.map (slotOf K)) ∧
        pairs.length ≤ (i :: past).length ∧
          ∀ p ∈ pairs, p ∈ P ∧ Reaches K (i :: past) p.1 p.2) :
    Traced K P bound (i :: past) s' := by
  have hs : past <:+ i :: past := List.suffix_cons i past
  refine ⟨htransient, ?_, ?_⟩
  · intro handle account hallowed
    rw [persistAllowed, hpersisted] at hallowed
    exact (h.persisted handle account hallowed).mono hs
  · intro handle hallowed
    rw [hdecryption] at hallowed
    exact (h.published handle hallowed).mono hs

/-- A step that leaves the transient storage alone. -/
theorem Traced.kept (h : Traced K P bound past s) : ∃ pairs : List (Bytes32 × Address),
    TransientSet.Holds bound s.transient (pairs.map (slotOf K)) ∧
      pairs.length ≤ (i :: past).length ∧
        ∀ p ∈ pairs, p ∈ P ∧ Reaches K (i :: past) p.1 p.2 := by
  obtain ⟨pairs, hholds, hlength, hpairs⟩ := h.transient
  refine ⟨pairs, hholds, Nat.le_succ_of_le hlength, ?_⟩
  intro p hp
  exact ⟨(hpairs p hp).1, (hpairs p hp).2.mono (List.suffix_cons i past)⟩

/-- A step that leaves all permissions alone. -/
theorem Traced.same (h : Traced K P bound past s) (htransient : s'.transient = s.transient)
    (hpersisted : s'.persistedAllowedPairs = s.persistedAllowedPairs)
    (hdecryption : s'.allowedForDecryption = s.allowedForDecryption) :
    Traced K P bound (i :: past) s' :=
  h.of_transient hpersisted hdecryption (htransient ▸ h.kept)

/-- A step that clears the transient storage. -/
theorem Traced.cleared (h : Traced K P bound past s)
    (hholds : TransientSet.Holds bound s'.transient [])
    (hpersisted : s'.persistedAllowedPairs = s.persistedAllowedPairs)
    (hdecryption : s'.allowedForDecryption = s.allowedForDecryption) :
    Traced K P bound (i :: past) s' :=
  h.of_transient hpersisted hdecryption ⟨[], hholds, Nat.zero_le _, by simp⟩

/-- A step that records one permission for the transaction. -/
theorem Traced.recorded (h : Traced K P bound past s) {handle : Bytes32} {account : Address}
    (hlarge : ∀ p ∈ P, bound ≤ (slotOf K p).toNat) (hlength : past.length + 1 < bound)
    (hp : (handle, account) ∈ P) (hreaches : Reaches K (i :: past) handle account)
    (heq : s' = { s with
      transient := TransientSet.record (permissionKey K.deployment handle account) s.transient }) :
    Traced K P bound (i :: past) s' := by
  obtain ⟨pairs, hholds, hpairsLength, hpairs⟩ := h.transient
  have hslots : (pairs.map (slotOf K)).length + 1 < bound := by
    rw [List.length_map]
    omega
  have hrecord := TransientSet.holds_record hholds (hlarge _ hp) hslots
  have hmap : pairs.map (slotOf K) ++ [slotOf K (handle, account)] =
      (pairs ++ [(handle, account)]).map (slotOf K) := by
    rw [List.map_append, List.map_singleton]
  rw [hmap] at hrecord
  have htransient : s'.transient = TransientSet.record (slotOf K (handle, account)) s.transient := by
    rw [heq]
  refine h.of_transient (by rw [heq]) (by rw [heq])
    ⟨pairs ++ [(handle, account)], htransient ▸ hrecord, by simpa using hpairsLength, ?_⟩
  intro p hmem
  rcases List.mem_append.mp hmem with hmem | hmem
  · exact ⟨(hpairs p hmem).1, (hpairs p hmem).2.mono (List.suffix_cons i past)⟩
  · rw [List.mem_singleton.mp hmem]
    exact ⟨hp, hreaches⟩

end Steps

/-! ## Every run -/

section Runs

variable {P : Set (Bytes32 × Address)} {bound : Nat} {past : List (HostCall K.deployment)}

/-- Calls of the access control list. -/
theorem traced_acl {ctx : Context} {call : ACLCall}
    {external : ctx.sender ≠ K.deployment.fhevmExecutorAdd} {events : List ACLEvent} {s' : ACLState}
    (hinj : Set.InjOn (slotOf K) P) (hlarge : ∀ p ∈ P, bound ≤ (slotOf K p).toNat)
    (hlength : past.length + 1 < bound) (htouched : Touched K (.acl ctx call external :: past) ⊆ P)
    (h : Traced K P bound past (hostAfter K past).acl)
    (hok : aclCall K.deployment ctx (hostAfter K past).acl call = .ok (events, s')) :
    Traced K P bound (.acl ctx call external :: past) s' := by
  have hran : Ran (.acl ctx call external :: past) (.acl ctx call external) past := Ran.head _ _
  have htouch : ∀ p, Touches K (.acl ctx call external) past p → p ∈ P := fun p hp =>
    htouched ⟨_, _, hran, hp⟩
  cases call with
  | allow handle account =>
    simp only [aclCall, allow, whenNotPaused, checkSender, bind_eq_ok, require_eq_ok,
      exists_const] at hok
    obtain ⟨-, ⟨hdenied, hallowed⟩, heq⟩ := hok
    cases heq
    have hfrom := h.reaches hinj hlarge (htouch _ rfl) hallowed
    have hs : past <:+ .acl ctx (.allow handle account) external :: past := List.suffix_cons _ _
    refine ⟨h.kept, ?_, fun handle' hp => (h.published handle' hp).mono hs⟩
    intro handle' account' hp
    rw [persistAllowed] at hp
    by_cases hnew : handle' = handle ∧ account' = account
    · obtain ⟨rfl, rfl⟩ := hnew
      exact .passed hran (.inl rfl) hdenied hallowed hfrom
    · have hold : (hostAfter K past).acl.persistedAllowedPairs handle' account' = true := by
        by_cases hh : handle' = handle
        · subst hh
          have hne : account' ≠ account := fun ha => hnew ⟨rfl, ha⟩
          simpa [hne] using hp
        · simpa [hh] using hp
      exact (h.persisted handle' account' hold).mono hs
  | allowForDecryption handlesList =>
    simp only [aclCall, allowForDecryption, whenNotPaused, bind_eq_ok, require_eq_ok, exists_const,
      allowHandlesForDecryption_eq_ok] at hok
    obtain ⟨-, -, hdenied, _, ⟨hallowed, rfl⟩, heq⟩ := hok
    cases heq
    have hs : past <:+ .acl ctx (.allowForDecryption handlesList) external :: past :=
      List.suffix_cons _ _
    refine ⟨h.kept, fun handle account hp => (h.persisted handle account hp).mono hs, ?_⟩
    intro handle hp
    rw [Bool.or_eq_true, decide_eq_true_eq] at hp
    rcases hp with hmem | hold
    · exact ⟨ctx, handlesList, external, past, hran, hmem, hdenied, hallowed handle hmem,
        h.reaches hinj hlarge (htouch _ ⟨hmem, rfl⟩) (hallowed handle hmem)⟩
    · exact (h.published handle hold).mono hs
  | allowTransient handle account =>
    simp only [aclCall, bind_eq_ok] at hok
    obtain ⟨_, hallow, heq⟩ := hok
    cases heq
    obtain ⟨⟨-, hchecks⟩, rfl⟩ := (allowTransient_eq_ok _).mp hallow
    obtain ⟨hdenied, hallowed⟩ := hchecks external
    have hfrom := h.reaches hinj hlarge (htouch _ (.inl rfl)) hallowed
    exact h.recorded hlarge hlength (htouch _ (.inr rfl))
      (.passed hran (.inr rfl) hdenied hallowed hfrom) rfl
  | delegateForUserDecryption delegate contractAddress expirationDate =>
    simp only [aclCall, delegateForUserDecryption, bind_eq_ok] at hok
    obtain ⟨-, -, -, -, -, -, -, -, -, -, -, -, -, -, _, -, heq⟩ := hok
    cases heq
    exact h.same rfl rfl rfl
  | revokeDelegationForUserDecryption delegate contractAddress =>
    simp only [aclCall, revokeDelegationForUserDecryption, bind_eq_ok] at hok
    obtain ⟨-, -, -, -, -, -, _, -, heq⟩ := hok
    cases heq
    exact h.same rfl rfl rfl
  | pause =>
    simp only [aclCall, pause, bind_eq_ok] at hok
    obtain ⟨-, -, -, -, heq⟩ := hok
    cases heq
    exact h.same rfl rfl rfl
  | unpause =>
    simp only [aclCall, unpause, bind_eq_ok] at hok
    obtain ⟨-, -, -, -, heq⟩ := hok
    cases heq
    exact h.same rfl rfl rfl
  | blockAccount account =>
    simp only [aclCall, blockAccount, bind_eq_ok] at hok
    obtain ⟨-, -, -, -, heq⟩ := hok
    cases heq
    exact h.same rfl rfl rfl
  | unblockAccount account =>
    simp only [aclCall, unblockAccount, bind_eq_ok] at hok
    obtain ⟨-, -, -, -, heq⟩ := hok
    cases heq
    exact h.same rfl rfl rfl
  | cleanTransientStorage =>
    cases hok
    obtain ⟨pairs, hholds, -⟩ := h.transient
    exact h.cleared (TransientSet.holds_clear hholds) rfl rfl

theorem traced (hfits : bound ≤ 2 ^ 256) (hinj : Set.InjOn (slotOf K) P)
    (hlarge : ∀ p ∈ P, bound ≤ (slotOf K p).toNat) (hlength : past.length < bound)
    (htouched : Touched K past ⊆ P) : Traced K P bound past (hostAfter K past).acl := by
  induction past with
  | nil =>
    refine ⟨⟨[], TransientSet.holds_empty hfits (by omega), le_rfl, by simp⟩, ?_, ?_⟩
    · intro handle account h
      cases h
    · intro handle h
      cases h
  | cons i past ih =>
    have hpast := ih ((Nat.lt_succ_self _).trans hlength)
      ((Touched.mono (List.suffix_cons i past)).trans htouched)
    obtain ⟨e, -, hs⟩ | ⟨o, ho⟩ := step_cases i (hostAfter K past) (C := hostChain K)
    · rw [hostAfter_cons, hs]
      exact hpast.same rfl rfl rfl
    rw [hostAfter_cons]
    generalize hs' : (hostChain K).step i (hostAfter K past) = s' at ho
    cases i with
    | acl ctx call external =>
      obtain ⟨events, acl, hok, -, rfl⟩ := acl_eq_ok.mp ho
      exact traced_acl hinj hlarge hlength htouched hpast hok
    | executor ctx call =>
      obtain ⟨result, event, hok, -⟩ := executor_eq_ok.mp ho
      have hran : Ran (.executor ctx call :: past) (.executor ctx call) past := Ran.head _ _
      have hreturns : Returns K past ctx call result := ⟨event, s', hok⟩
      exact hpast.recorded hlarge hlength (htouched ⟨_, _, hran, rfl, .inr hreturns⟩)
        (.result hran hreturns) (executorCall_effect hok).1
    | verifyInput context inputHandle inputProof =>
      obtain ⟨handle, verifier, -, -, rfl⟩ := verifyInput_eq_ok.mp ho
      exact hpast.same rfl rfl rfl
    | cleanProofCache =>
      cases ho
      exact hpast.same rfl rfl rfl
    | endTransaction =>
      cases ho
      exact hpast.cleared (TransientSet.holds_empty hfits (by omega)) rfl rfl

end Runs

/-- Who can use a handle, and with what right. -/
structure PermissionsTraced (K : HostConfig) (calls : List (HostCall K.deployment))
    (handle : Bytes32) (account : Address) : Prop where
  allowed : isAllowed K.deployment handle account (hostAfter K calls).acl = true →
    Reaches K calls handle account
  persisted : persistAllowed handle account (hostAfter K calls).acl = true →
    Reaches K calls handle account
  published : (hostAfter K calls).acl.allowedForDecryption handle = true → Published K calls handle
  operands : ∀ ctx call past result, Ran calls (.executor ctx call) past →
    Returns K past ctx call result → ∀ operand ∈ call.operands,
      isAllowed K.deployment operand ctx.sender (hostAfter K past).acl = true

/-- A handle can be used, for a transaction, for good or for decryption by everyone, only where
it got from the operation that returned it over accounts that were allowed to pass it on;
and operations only take operands that their caller may use. -/
theorem permissionsTraced (K : HostConfig) (calls : List (HostCall K.deployment))
    (handle : Bytes32) (account : Address) (hslots : SlotsApart K calls {(handle, account)}) :
    PermissionsTraced K calls handle account := by
  have hmem : (handle, account) ∈ Touched K calls ∪ {(handle, account)} := .inr rfl
  have hfits : calls.length + 1 ≤ 2 ^ 256 :=
    (hslots.large _ hmem).trans (slotOf K (handle, account)).isLt
  have h := traced hfits hslots.injOn hslots.large (Nat.lt_succ_self _) Set.subset_union_left
  refine ⟨h.reaches hslots.injOn hslots.large hmem, h.persisted handle account,
    h.published handle, ?_⟩
  rintro ctx call past result - ⟨event, s', hok⟩
  exact (executorCall_effect hok).2

/-! ### A shared handle -/

/-- The account 10 encrypts 5 and allows the account 11 to use it. -/
def sharingRun : List (HostCall sampleConfig.deployment) :=
  [.acl (sampleContext 10) (.allow (handleOf sampleConfig.deployment
      ((ExecutorCall.trivialEncrypt 5 .uint8).preimage sampleConfig.deployment 0) .uint8) 11)
      (by decide),
    .executor (sampleContext 10) (.trivialEncrypt 5 .uint8)]

def sharedHandle : Bytes32 := handleOf sampleConfig.deployment
  ((ExecutorCall.trivialEncrypt 5 .uint8).preimage sampleConfig.deployment 0) .uint8

theorem touched_sharingRun : Touched sampleConfig sharingRun ⊆ {(sharedHandle, 10)} := by
  rintro ⟨h, a⟩ ⟨i, past, hran, htouch⟩
  rw [sharingRun, ran_cons, ran_cons] at hran
  rcases hran with ⟨rfl, rfl⟩ | ⟨rfl, rfl⟩ | hran
  · exact htouch
  · obtain ⟨rfl, hmem | ⟨event, s', hok⟩⟩ := htouch
    · simp [ExecutorCall.operands] at hmem
    · obtain ⟨-, -, c, hc, hperforms⟩ := executorCall_ok rfl hok
      cases hc
      exact congrArg (·, _) hperforms.result_eq
  · simp at hran

theorem slotsApart_sharingRun : SlotsApart sampleConfig sharingRun {(sharedHandle, 11)} := by
  have hsub : Touched sampleConfig sharingRun ∪ {(sharedHandle, 11)} ⊆
      {(sharedHandle, 10), (sharedHandle, 11)} :=
    Set.union_subset_union_left _ touched_sharingRun
  constructor
  · refine Set.InjOn.mono hsub ?_
    rintro p (rfl | rfl) q (rfl | rfl) heq
    · rfl
    · exact absurd heq (by decide +kernel)
    · exact absurd heq (by decide +kernel)
    · rfl
  · intro p hp
    rcases hsub hp with rfl | rfl
    · decide +kernel
    · decide +kernel

theorem sharedHandle_reaches : Reaches sampleConfig sharingRun sharedHandle 11 :=
  (permissionsTraced sampleConfig sharingRun sharedHandle 11 slotsApart_sharingRun).allowed
    (by decide +kernel)

end Fhevm.Host

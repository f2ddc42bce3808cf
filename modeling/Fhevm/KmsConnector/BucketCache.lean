import Fhevm.Foundation.Memo
import Fhevm.Gateway.GatewayConfig
import Fhevm.KmsConnector.KmsRequests

/-!
# The URLs of buckets

A worker asks the gateway for the URL of the bucket of a coprocessor once, and keeps it until it is
restarted. A URL that is changed later, or one that is registered only later, is never used.

## Main definitions

* `retrieveThroughCache` — a retrieval, and what it leaves in the cache.
* `WorkerState.step` — what happens to a worker and the configuration of the gateway.
* `Serves` — a bucket has the ciphertext of a material.
* `retrieval_succeeds_iff` — a retrieval succeeds by the URLs that were registered when the worker
  first asked for them.
-/

namespace Fhevm.KmsConnector

open Foundation Gateway Host Sdk

/-! ## Lookups -/

abbrev S3BucketCache := HashMap Address String

/-- The gateway is asked where the cache has no entry. An empty URL is kept as any other. -/
def getCoprocessorS3Urls (s3 : S3Answers) (cache : S3BucketCache) (coproAddr : Address) :
    Option String × S3BucketCache :=
  Memo.lookup s3.getCoprocessorS3Url cache coproAddr

def getAllCoprocessorsS3Urls (s3 : S3Answers) (coprocessorAddresses : List Address)
    (cache : S3BucketCache) : List String × S3BucketCache :=
  Memo.lookupAll s3.getCoprocessorS3Url coprocessorAddresses cache

/-- One turn of the loop over the coprocessors. -/
theorem getAllCoprocessorsS3Urls_cons (s3 : S3Answers) (a : Address) (as : List Address)
    (cache : S3BucketCache) : getAllCoprocessorsS3Urls s3 (a :: as) cache =
      let (url, cache) := getCoprocessorS3Urls s3 cache a
      let (urls, cache) := getAllCoprocessorsS3Urls s3 as cache
      (url.toList ++ urls, cache) := rfl

section Retrievals

variable (L : KmsLibrary) (config : Config)

/-- `retrieve_s3_ciphertext_with_retry`, with the cache that it uses. -/
def retrieveThroughCache (s3 : S3Answers) (m : SnsCiphertextMaterial) (cache : S3BucketCache) :
    Option TypedCiphertext × S3BucketCache :=
  let (s3Urls, cache) := getAllCoprocessorsS3Urls s3 m.coprocessorTxSenderAddresses cache
  let ciphertext := (List.range config.s3CiphertextRetrievalRetries.toNat).findSome? fun attempt =>
    s3Urls.zipIdx.findSome? fun (s3Url, bucket) =>
      retrieveS3Ciphertext L s3 (attempt, bucket) m s3Url
  (ciphertext, cache)

/-- A retrieval is one from the buckets whose URLs the cache answers. -/
theorem retrieveThroughCache_fst (s3 : S3Answers) (m : SnsCiphertextMaterial)
    (cache : S3BucketCache) : (retrieveThroughCache L config s3 m cache).1 =
      retrieveS3CiphertextWithRetry L config
        { s3 with getCoprocessorS3Url := Memo.answer s3.getCoprocessorS3Url cache } m := by
  simp only [retrieveThroughCache, getAllCoprocessorsS3Urls, Memo.lookupAll_fst]
  rfl

/-! ## Histories -/

def getCoprocessor (s : GatewayConfigStorage) (coprocessorTxSenderAddress : Address) : Operator :=
  s.coprocessors.operators coprocessorTxSenderAddress

/-- The gateway answers some of the calls of a worker, with the URLs that are registered. -/
def registeredAnswers (s : GatewayConfigStorage) (answered : Address → Bool)
    (get : ℕ × ℕ → String → Option (Bytes × Option String)) : S3Answers where
  getCoprocessorS3Url a := if answered a = true then some (getCoprocessor s a).url else none
  get := get

/-- A call of the gateway's configuration, a retrieval, or a restart of the worker. -/
inductive WorkerEvent
  | gateway (sender : Address) (call : GatewayConfigCall)
  | retrieve (m : SnsCiphertextMaterial) (answered : Address → Bool)
      (get : ℕ × ℕ → String → Option (Bytes × Option String))
  | restart

structure WorkerState where
  gateway : GatewayConfigStorage
  cache : S3BucketCache

namespace WorkerState

def init (owner : Address) : WorkerState := ⟨.emptyProxy owner, .empty⟩

def step : WorkerEvent → WorkerState → WorkerState
  | .gateway sender call, s =>
    { s with gateway := gatewayConfig.step (sender, call) s.gateway }
  | .retrieve m answered get, s =>
    { s with cache :=
        (retrieveThroughCache L config (registeredAnswers s.gateway answered get) m s.cache).2 }
  | .restart, s => { s with cache := .empty }

/-- The state after a history, newest event first. -/
def after (owner : Address) : List WorkerEvent → WorkerState
  | [] => init owner
  | e :: past => step L config e (after owner past)

/-- What a history does to the cache. -/
def rounds (owner : Address) : List WorkerEvent → List (Memo.Round Address String)
  | [] => []
  | .gateway _ _ :: past => rounds owner past
  | .retrieve m answered get :: past =>
    .lookups m.coprocessorTxSenderAddresses
      (registeredAnswers (after L config owner past).gateway answered get).getCoprocessorS3Url ::
        rounds owner past
  | .restart :: past => .loss :: rounds owner past

theorem cache_after (owner : Address) (past : List WorkerEvent) :
    (after L config owner past).cache = Memo.after (rounds L config owner past) := by
  induction past with
  | nil => rfl
  | cons e past ih =>
    cases e with
    | gateway sender call => exact ih
    | retrieve m answered get =>
      simp only [after, step, rounds, Memo.after, ← ih]
      rfl
    | restart => rfl

end WorkerState

/-! ## Retrievals -/

/-- The worker knows the type of the handle. -/
def KnownType (m : SnsCiphertextMaterial) : Prop :=
  ∃ fheType, extractFheTypeFromHandle L (wordBytes m.ctHandle) = some fheType

/-- A bucket answers with bytes that have the digest of the material. -/
def Serves (get : ℕ × ℕ → String → Option (Bytes × Option String)) (attempt : ℕ × ℕ)
    (m : SnsCiphertextMaterial) (url : String) : Prop :=
  ∃ ciphertext format,
    get attempt (url ++ "/" ++ String.ofList (hexEncode (wordBytes m.snsCiphertextDigest))) =
      some (ciphertext, format) ∧ L.keccak256 ciphertext = m.snsCiphertextDigest

variable {L config}

theorem retrieveS3Ciphertext_isSome {s3 : S3Answers} {attempt : ℕ × ℕ} {m : SnsCiphertextMaterial}
    {url : String} : (retrieveS3Ciphertext L s3 attempt m url).isSome ↔
      KnownType L m ∧ Serves L s3.get attempt m url := by
  simp only [retrieveS3Ciphertext, Option.isSome_iff_exists, Option.bind_eq_bind,
    Option.bind_eq_some_iff, Option.pure_def, Option.some.injEq, Option.guard_eq_some', KnownType,
    Serves]
  constructor
  · rintro ⟨_, fheType, htype, ⟨ciphertext, format⟩, hanswer, -, hdigest, -⟩
    exact ⟨⟨fheType, htype⟩, ciphertext, format, hanswer, hdigest⟩
  · rintro ⟨⟨fheType, htype⟩, ciphertext, format, hanswer, hdigest⟩
    exact ⟨_, fheType, htype, (ciphertext, format), hanswer, (), hdigest, rfl⟩

/-- In some attempt, some bucket serves the ciphertext. -/
theorem retrieveS3CiphertextWithRetry_isSome {s3 : S3Answers} {m : SnsCiphertextMaterial} :
    (retrieveS3CiphertextWithRetry L config s3 m).isSome ↔ KnownType L m ∧
      ∃ attempt < config.s3CiphertextRetrievalRetries.toNat, ∃ bucket url,
        (m.coprocessorTxSenderAddresses.filterMap s3.getCoprocessorS3Url)[bucket]? = some url ∧
          Serves L s3.get (attempt, bucket) m url := by
  simp only [retrieveS3CiphertextWithRetry, List.findSome?_isSome_iff, List.mem_range, Prod.exists,
    List.mem_zipIdx_iff_getElem?, retrieveS3Ciphertext_isSome]
  constructor
  · rintro ⟨attempt, hattempt, url, bucket, hurl, htype, hserves⟩
    exact ⟨htype, attempt, hattempt, bucket, url, hurl, hserves⟩
  · rintro ⟨htype, attempt, hattempt, bucket, url, hurl, hserves⟩
    exact ⟨attempt, hattempt, url, bucket, hurl, htype, hserves⟩

/-- At least one bucket whose URL is registered serves the ciphertext at any time. -/
def RegisteredServes (L : KmsLibrary) (s : GatewayConfigStorage) (m : SnsCiphertextMaterial)
    (get : ℕ × ℕ → String → Option (Bytes × Option String)) : Prop :=
  ∃ a ∈ m.coprocessorTxSenderAddresses, ∀ attempt, Serves L get attempt m (getCoprocessor s a).url

/-- In some attempt, a bucket serves the ciphertext at the URL that was registered when the worker
first asked for it. -/
def FirstServes (L : KmsLibrary) (config : Config) (owner : Address) (past : List WorkerEvent)
    (m : SnsCiphertextMaterial) (get : ℕ × ℕ → String → Option (Bytes × Option String)) : Prop :=
  ∃ attempt < config.s3CiphertextRetrievalRetries.toNat, ∃ bucket a url,
    m.coprocessorTxSenderAddresses[bucket]? = some a ∧
      Memo.FirstAnswer (WorkerState.rounds L config owner (.retrieve m (fun _ => true) get :: past))
        a url ∧ Serves L get (attempt, bucket) m url

/-- The retrieval after a history, with all calls answered. -/
def retrieveAfter (L : KmsLibrary) (config : Config) (owner : Address) (past : List WorkerEvent)
    (m : SnsCiphertextMaterial) (get : ℕ × ℕ → String → Option (Bytes × Option String)) :
    Option TypedCiphertext :=
  let s := WorkerState.after L config owner past
  (retrieveThroughCache L config (registeredAnswers s.gateway (fun _ => true) get) m s.cache).1

variable {owner : Address} {past : List WorkerEvent} {m : SnsCiphertextMaterial}
  {get : ℕ × ℕ → String → Option (Bytes × Option String)}

/-- A retrieval uses the URLs that were registered first. -/
theorem retrieveAfter_isSome : (retrieveAfter L config owner past m get).isSome ↔
    KnownType L m ∧ FirstServes L config owner past m get := by
  have hanswers : ∀ a ∈ m.coprocessorTxSenderAddresses,
      (Memo.answer (registeredAnswers (WorkerState.after L config owner past).gateway
        (fun _ => true) get).getCoprocessorS3Url
          (WorkerState.after L config owner past).cache a).isSome := by
    intro a _
    simp [Memo.answer, registeredAnswers]
  rw [retrieveAfter, retrieveThroughCache_fst, retrieveS3CiphertextWithRetry_isSome, FirstServes]
  simp only [Memo.getElem?_filterMap_of_isSome hanswers]
  apply and_congr_right
  rintro -
  apply exists_congr
  intro attempt
  apply and_congr_right
  rintro -
  apply exists_congr
  intro bucket
  constructor
  · rintro ⟨url, ⟨a, ha, hanswer⟩, hserves⟩
    rw [WorkerState.cache_after, Memo.answer_eq_some (List.mem_of_getElem? ha)] at hanswer
    exact ⟨a, url, ha, hanswer, hserves⟩
  · rintro ⟨a, url, ha, hanswer, hserves⟩
    rw [WorkerState.rounds, ← Memo.answer_eq_some (List.mem_of_getElem? ha),
      ← WorkerState.cache_after] at hanswer
    exact ⟨url, ⟨a, ha, hanswer⟩, hserves⟩

/-- No URL of a coprocessor of the material has changed since the worker first asked for it. -/
def Unchanged (L : KmsLibrary) (config : Config) (owner : Address) (past : List WorkerEvent)
    (m : SnsCiphertextMaterial) : Prop :=
  ∀ a ∈ m.coprocessorTxSenderAddresses, ∀ url,
    Memo.FirstAnswer (WorkerState.rounds L config owner past) a url →
      url = (getCoprocessor (WorkerState.after L config owner past).gateway a).url

theorem firstServes_of_unchanged (hretries : config.s3CiphertextRetrievalRetries ≠ 0)
    (hsame : Unchanged L config owner past m)
    (h : RegisteredServes L (WorkerState.after L config owner past).gateway m get) :
    FirstServes L config owner past m get := by
  obtain ⟨a, ha, hserves⟩ := h
  obtain ⟨bucket, hbucket⟩ := List.mem_iff_getElem?.mp ha
  have hpos : 0 < config.s3CiphertextRetrievalRetries.toNat := by
    rw [Nat.pos_iff_ne_zero, ne_eq, ← UInt8.toNat_zero, UInt8.toNat_inj]
    exact hretries
  refine ⟨0, hpos, bucket, a, _, hbucket, ?_, hserves _⟩
  rw [WorkerState.rounds, ← Memo.answer_eq_some ha]
  unfold Memo.answer
  cases hentry : (Memo.after (WorkerState.rounds L config owner past)).get? a with
  | some url => rw [Option.some_or, hsame a ha url (Memo.get?_after.mp hentry)]
  | none => rfl

/-- With at least one retry, a registered bucket that serves the ciphertext is enough exactly if the
type is known and a bucket serves it at the URL that the worker got first. It is enough in every
history that has not changed these URLs. -/
theorem retrieveAfter_registered_iff (L : KmsLibrary) (config : Config) (owner : Address)
    (past : List WorkerEvent) (m : SnsCiphertextMaterial)
    (get : ℕ × ℕ → String → Option (Bytes × Option String))
    (hretries : config.s3CiphertextRetrievalRetries ≠ 0) :
    ((RegisteredServes L (WorkerState.after L config owner past).gateway m get →
        (retrieveAfter L config owner past m get).isSome) ↔
      (RegisteredServes L (WorkerState.after L config owner past).gateway m get →
        KnownType L m ∧ FirstServes L config owner past m get)) ∧
    (KnownType L m → Unchanged L config owner past m →
      RegisteredServes L (WorkerState.after L config owner past).gateway m get →
        (retrieveAfter L config owner past m get).isSome) := by
  rw [retrieveAfter_isSome]
  refine ⟨Iff.rfl, fun htype hsame hserves => ⟨htype, ?_⟩⟩
  exact firstServes_of_unchanged hretries hsame hserves

end Retrievals

/-! ## A bucket that is registered late -/

def lateMaterial : SnsCiphertextMaterial := ⟨1 <<< 16, 1, 0, [30]⟩

/-- The ciphertext is at one URL only. -/
def lateBucket (_ : ℕ × ℕ) (url : String) : Option (Bytes × Option String) :=
  if url = "https://bucket/" ++ String.ofList (hexEncode (wordBytes 0)) then some ([9], none)
  else none

def registration (url : String) : WorkerEvent :=
  .gateway 1 (.initializeFromEmptyProxy ⟨0, 1, 1, 1, 1⟩ [⟨20, 50, ""⟩] [⟨30, 60, url⟩]
    [⟨40, 70, ""⟩])

/-- The coprocessor has no URL yet when it is first looked up. -/
def lateHistory : List WorkerEvent :=
  [.gateway 1 (.updateCoprocessors [⟨30, 60, "https://bucket"⟩] 1),
    .retrieve lateMaterial (fun _ => true) lateBucket, registration ""]

theorem lateHistory_fails :
    ¬ ∀ past m get, sampleConfig.s3CiphertextRetrievalRetries ≠ 0 →
      RegisteredServes sampleKmsLibrary
        (WorkerState.after sampleKmsLibrary sampleConfig 1 past).gateway m get →
      (retrieveAfter sampleKmsLibrary sampleConfig 1 past m get).isSome := by
  intro h
  have hserves : RegisteredServes sampleKmsLibrary
      (WorkerState.after sampleKmsLibrary sampleConfig 1 lateHistory).gateway lateMaterial
        lateBucket := by
    refine ⟨30, List.mem_cons_self, fun attempt => ⟨[9], none, ?_, rfl⟩⟩
    rfl
  have hsome := h lateHistory lateMaterial lateBucket (by decide) hserves
  exact absurd hsome (by decide +kernel)

/-- The same URL is used for every retrieval. -/
theorem earlyHistory_retrieves : (retrieveAfter sampleKmsLibrary sampleConfig 1
    [.retrieve lateMaterial (fun _ => true) lateBucket, registration "https://bucket"] lateMaterial
      lateBucket).isSome := by
  refine (retrieveAfter_registered_iff sampleKmsLibrary sampleConfig 1 _ lateMaterial lateBucket
    (by decide)).2 ⟨0, by decide⟩ ?_ ?_
  · intro a ha url hfirst
    obtain rfl := List.mem_singleton.mp ha
    rw [← Memo.get?_after, ← WorkerState.cache_after] at hfirst
    exact (Option.some.inj hfirst).symm
  · refine ⟨30, List.mem_cons_self, fun attempt => ⟨[9], none, ?_, rfl⟩⟩
    rfl

end Fhevm.KmsConnector

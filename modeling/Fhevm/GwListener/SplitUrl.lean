import Fhevm.Foundation.Replace

/-!
# Endpoint and bucket of a key's URL

The bucket of an S3 URL is its path, or the first part of its domain. The endpoint is what is left
of the URL after the text of the bucket is deleted wherever it occurs.

## Main definitions

* `splitUrl` — the endpoint and the bucket.
* `PathStyle`, `VirtualHosted` — the two styles of S3 URLs.
* `splitUrl_iff` — the URLs of both styles that are split right.
-/

namespace Fhevm.GwListener

open Foundation

abbrev Text := List Char

/-! ## URLs -/

/-- What is read of a parsed URL. -/
structure Url where
  path : Text
  domain : Option Text
deriving DecidableEq, Repr

/-- A scheme other than that of files, whose hosts and paths have rules of their own. -/
def IsScheme (scheme : Text) : Prop :=
  scheme ≠ [] ∧ (∀ c ∈ scheme, c.isAlphanum ∨ c ∈ ['+', '-', '.']) ∧
    scheme.map Char.toLower ≠ ['f', 'i', 'l', 'e']

def IsHostChar (c : Char) : Prop := c.isAlphanum ∨ c ∈ ['-', '.', '_']

/-- A host name or an address, and a port. -/
def IsAuthority (authority : Text) : Prop :=
  authority ≠ [] ∧ ∀ c ∈ authority, IsHostChar c ∨ c ∈ [':', '[', ']']

/-- A segment of a path that is neither encoded nor resolved. -/
def IsSegment (segment : Text) : Prop :=
  segment ≠ [] ∧ segment ≠ ['.'] ∧ segment ≠ ['.', '.'] ∧
    ∀ c ∈ segment, c.isAlphanum ∨ c ∈ ['-', '.', '_', '~']

def slashes (n : ℕ) : Text := List.replicate n '/'

/-- `scheme://authority` -/
def site (scheme authority : Text) : Text := scheme ++ ':' :: '/' :: '/' :: authority

/-- The parser of URLs, and what it promises of the URLs that it accepts. -/
structure UrlCrate where
  parse : Text → Option Url
  path_segment : ∀ {scheme authority segment : Text} {n : ℕ} {url : Url}, IsScheme scheme →
    IsAuthority authority → IsSegment segment →
    parse (site scheme authority ++ '/' :: segment ++ slashes n) = some url →
    url.path = '/' :: segment ++ slashes n
  path_slashes : ∀ {scheme authority : Text} {n : ℕ} {url : Url}, IsScheme scheme →
    IsAuthority authority → parse (site scheme authority ++ slashes n) = some url →
    ∃ k, url.path = slashes k
  /-- The domain is what stands before the port; for some schemes it is turned to lower case. -/
  domain_eq : ∀ {scheme authority : Text} {n : ℕ} {url : Url} {domain : Text}, IsScheme scheme →
    IsAuthority authority → '[' ∉ authority →
    parse (site scheme authority ++ slashes n) = some url → url.domain = some domain →
    domain = authority.takeWhile (· ≠ ':') ∨
      domain = (authority.takeWhile (· ≠ ':')).map Char.toLower

/-! ## The code -/

inductive SplitError
  | parse
  | cannotDeduceBucket (url : Url)
deriving DecidableEq, Repr

def bucketFromDomain (url : Url) : Except SplitError Text :=
  match url.domain with
  | none => .error (.cannotDeduceBucket url)
  | some domain =>
    match domain.splitOn '.' with
    | bucket :: _ :: _ => .ok bucket
    | _ => .error (.cannotDeduceBucket url)

/-- `minio:9000` -/
def minioHost : Text := ['m', 'i', 'n', 'i', 'o', ':', '9', '0', '0', '0']

/-- `172.17.0.1:9000` -/
def dockerHost : Text :=
  ['1', '7', '2', '.', '1', '7', '.', '0', '.', '1', ':', '9', '0', '0', '0']

def splitUrl (crate : UrlCrate) (s3BucketUrl : Text) : Except SplitError (Text × Text) := do
  let s3BucketUrl :=
    if minioHost <:+: s3BucketUrl then replaceAll minioHost dockerHost s3BucketUrl else s3BucketUrl
  let some parsedUrlAndBucket := crate.parse s3BucketUrl | .error .parse
  let bucket := parsedUrlAndBucket.path.dropWhile (· = '/')
  if bucket = [] then
    let bucket ← bucketFromDomain parsedUrlAndBucket
    let url := (replaceAll (bucket ++ ['.']) [] s3BucketUrl).rdropWhile (· = '/')
    .ok (url, bucket)
  else
    let url := (replaceAll bucket [] s3BucketUrl).rdropWhile (· = '/')
    .ok (url, bucket)

/-! ## The two styles -/

/-- `scheme://authority/bucket`, with slashes behind it. -/
structure PathStyle where
  scheme : Text
  authority : Text
  bucket : Text
  trailing : ℕ
  isScheme : IsScheme scheme
  isAuthority : IsAuthority authority
  isSegment : IsSegment bucket

/-- `scheme://bucket.rest`, with slashes behind it. -/
structure VirtualHosted where
  scheme : Text
  bucket : Text
  rest : Text
  trailing : ℕ
  isScheme : IsScheme scheme
  bucket_ne : bucket ≠ []
  bucketChar : ∀ c ∈ bucket, c.isLower ∨ c.isDigit ∨ c ∈ ['-', '.', '_']
  rest_ne : rest ≠ []
  restChar : ∀ c ∈ rest, IsHostChar c ∨ c = ':'

namespace PathStyle

def endpoint (u : PathStyle) : Text := site u.scheme u.authority

def text (u : PathStyle) : Text := u.endpoint ++ '/' :: u.bucket ++ slashes u.trailing

end PathStyle

namespace VirtualHosted

def endpoint (u : VirtualHosted) : Text := site u.scheme u.rest

def text (u : VirtualHosted) : Text :=
  site u.scheme (u.bucket ++ '.' :: u.rest) ++ slashes u.trailing

end VirtualHosted

/-! ## Characters -/

instance : DecidablePred IsHostChar := fun _ => inferInstanceAs (Decidable (_ ∨ _))

theorem IsAuthority.slash_not_mem {authority : Text} (h : IsAuthority authority) :
    '/' ∉ authority := fun hmem => absurd (h.2 '/' hmem) (by decide)

theorem IsScheme.colon_not_mem {scheme : Text} (h : IsScheme scheme) : ':' ∉ scheme :=
  fun hmem => by simpa using h.2.1 ':' hmem

theorem IsSegment.slash_not_mem {segment : Text} (h : IsSegment segment) : '/' ∉ segment :=
  fun hmem => by simpa using h.2.2.2 '/' hmem

theorem IsSegment.colon_not_mem {segment : Text} (h : IsSegment segment) : ':' ∉ segment :=
  fun hmem => by simpa using h.2.2.2 ':' hmem

theorem VirtualHosted.not_mem_bucket (u : VirtualHosted) {c : Char}
    (hc : ¬ (c.isLower ∨ c.isDigit ∨ c ∈ ['-', '.', '_'])) : c ∉ u.bucket :=
  fun hmem => hc (u.bucketChar c hmem)

theorem mem_slashes {n : ℕ} {c : Char} (h : c ∈ slashes n) : c = '/' := List.eq_of_mem_replicate h

/-! ## Sites -/

section Site

variable {p q scheme authority : Text}

theorem replaceAll_site (hp : p ≠ []) (hslash : '/' ∉ p) :
    replaceAll p q (site scheme authority) =
      replaceAll p q (scheme ++ [':']) ++ '/' :: '/' :: replaceAll p q authority := by
  have hcut : site scheme authority = (scheme ++ [':']) ++ '/' :: ([] ++ '/' :: authority) := by
    simp [site]
  rw [hcut, replaceAll_append_cons hp hslash, replaceAll_append_cons hp hslash, replaceAll_nil,
    List.nil_append]

theorem infix_site (hp : p ≠ []) (hslash : '/' ∉ p) :
    p <:+: site scheme authority ↔ p <:+: scheme ++ [':'] ∨ p <:+: authority := by
  have hcut : site scheme authority = (scheme ++ [':']) ++ '/' :: ([] ++ '/' :: authority) := by
    simp [site]
  rw [hcut, infix_append_cons hslash, infix_append_cons hslash, List.infix_nil, or_iff_right hp]

/-- The name of the host is followed by a port. -/
theorem not_minioHost_infix_scheme (h : IsScheme scheme) : ¬ minioHost <:+: scheme ++ [':'] := by
  rw [List.infix_concat_iff]
  rintro (⟨front, hfront⟩ | hscheme)
  · have hlast := congrArg List.getLast? hfront
    simp [minioHost] at hlast
  · exact not_infix_of_not_mem (by decide : ':' ∈ minioHost) h.colon_not_mem hscheme

/-- A site stays one when the host of minio is replaced. -/
theorem replaceAll_minioHost_site (h : IsScheme scheme) :
    replaceAll minioHost dockerHost (site scheme authority) =
      site scheme (replaceAll minioHost dockerHost authority) := by
  rw [replaceAll_site (by decide) (by decide),
    replaceAll_eq_self (not_minioHost_infix_scheme h), site, List.append_assoc,
    List.singleton_append]

theorem minioHost_infix_site (h : IsScheme scheme) :
    minioHost <:+: site scheme authority ↔ minioHost <:+: authority := by
  rw [infix_site (by decide) (by decide), or_iff_right (not_minioHost_infix_scheme h)]

theorem isHostChar_or_of_mem_dockerHost {c : Char} (h : c ∈ dockerHost) :
    IsHostChar c ∨ c = ':' := by
  simp only [dockerHost, List.mem_cons, List.not_mem_nil, or_false] at h
  obtain rfl | rfl | rfl | rfl | rfl | rfl | rfl | rfl | rfl | rfl | rfl | rfl | rfl | rfl | rfl :=
    h <;> decide

theorem IsAuthority.replaceAll_minioHost (h : IsAuthority authority) :
    IsAuthority (replaceAll minioHost dockerHost authority) := by
  refine ⟨replaceAll_ne_nil (by decide) (by decide) h.1, fun c hc => ?_⟩
  obtain hold | hnew := mem_or_mem_of_mem_replaceAll (by decide) hc
  · exact h.2 c hold
  · exact (isHostChar_or_of_mem_dockerHost hnew).imp_right fun h => by simp [h]

/-- The slashes behind a site are no part of it. -/
theorem rdropWhile_append_slashes (t : Text) (n : ℕ) :
    (t ++ slashes n).rdropWhile (· = '/') = t.rdropWhile (· = '/') := by
  rw [List.rdropWhile, List.reverse_append, List.dropWhile_append_of_pos, List.rdropWhile]
  intro c hc
  simpa using mem_slashes (List.mem_reverse.mp hc)

theorem rdropWhile_site (h : authority ≠ []) (hslash : '/' ∉ authority) :
    (site scheme authority).rdropWhile (· = '/') = site scheme authority := by
  rw [List.rdropWhile_eq_self_iff]
  intro hne hlast
  have hmem : (site scheme authority).getLast hne ∈ authority := by
    simp [site, List.getLast_append_of_ne_nil, List.getLast_cons h]
  rw [of_decide_eq_true hlast] at hmem
  exact hslash hmem

/-- The letter that only the name of the host has. -/
def letterM (c : Char) : ℕ := if c = 'm' then 1 else 0

/-- Deleting a pattern leaves a site as it was if neither the pattern nor the host of minio is found
in it. The replacement of that host takes away a letter, which no deletion brings back. -/
theorem trimmed_eq_iff {base : Text} (hp : p ≠ [])
    (hbase : base.rdropWhile (· = '/') = base) :
    (replaceAll p [] (replaceAll minioHost dockerHost base)).rdropWhile (· = '/') = base ↔
      ¬ minioHost <:+: base ∧ ¬ p <:+: base := by
  constructor
  · intro h
    -- nothing of what is left weighs more than the site
    have hle : ∀ w : Char → ℕ, weight w base ≤
        weight w (replaceAll p [] (replaceAll minioHost dockerHost base)) := by
      intro w
      have hstart := List.rdropWhile_prefix (· = '/')
        (replaceAll p [] (replaceAll minioHost dockerHost base))
      rw [h] at hstart
      exact weight_le_of_prefix hstart
    have hminio : ¬ minioHost <:+: base := by
      intro hoccurs
      have hlt : weight letterM (replaceAll minioHost dockerHost base) < weight letterM base :=
        weight_replaceAll_lt (by decide) (by decide) hoccurs
      have hdelete : weight letterM (replaceAll p [] (replaceAll minioHost dockerHost base)) ≤
          weight letterM (replaceAll minioHost dockerHost base) :=
        weight_replaceAll_le hp (Nat.zero_le _) _
      exact absurd (hle letterM) (not_le.mpr (hdelete.trans_lt hlt))
    refine ⟨hminio, fun hoccurs => ?_⟩
    rw [replaceAll_eq_self hminio] at hle
    have hpos : weight (fun _ => 1) ([] : Text) < weight (fun _ => 1) p := by
      rw [weight_nil, weight_one]
      exact List.length_pos_of_ne_nil hp
    exact absurd (hle fun _ => 1) (not_le.mpr (weight_replaceAll_lt hp hpos hoccurs))
  · rintro ⟨hminio, hpattern⟩
    rw [replaceAll_eq_self hminio, replaceAll_eq_self hpattern, hbase]

end Site

/-- The test before the replacement of the host makes no difference. -/
theorem replaceAll_of_contains (t : Text) :
    (if minioHost <:+: t then replaceAll minioHost dockerHost t else t) =
      replaceAll minioHost dockerHost t := by
  split_ifs with h
  · rfl
  · exact (replaceAll_eq_self h).symm

/-! ## Path style -/

namespace PathStyle

variable (u : PathStyle) {crate : UrlCrate}

/-- The URL with another host in place of that of minio. -/
def resolve : PathStyle :=
  { u with
    authority := replaceAll minioHost dockerHost u.authority
    isAuthority := u.isAuthority.replaceAll_minioHost }

theorem endpoint_resolve : replaceAll minioHost dockerHost u.endpoint = u.resolve.endpoint :=
  replaceAll_minioHost_site u.isScheme

theorem text_eq : u.text = u.endpoint ++ '/' :: (u.bucket ++ slashes u.trailing) := by
  rw [text, List.append_assoc, List.cons_append]

theorem minioHost_not_infix_tail : ¬ minioHost <:+: u.bucket ++ slashes u.trailing := by
  refine not_infix_of_not_mem (c := ':') (by decide) fun hmem => ?_
  obtain hbucket | hslashes := List.mem_append.mp hmem
  · exact u.isSegment.colon_not_mem hbucket
  · exact absurd (mem_slashes hslashes) (by decide)

theorem text_resolve : replaceAll minioHost dockerHost u.text = u.resolve.text := by
  rw [text_eq, replaceAll_append_cons (by decide) (by decide), endpoint_resolve,
    replaceAll_eq_self u.minioHost_not_infix_tail, text_eq]
  rfl

theorem minioHost_infix_text : minioHost <:+: u.text ↔ minioHost <:+: u.endpoint := by
  rw [text_eq, infix_append_cons (by decide), or_iff_left u.minioHost_not_infix_tail]

theorem splitUrl_eq {url : Url} (hparse : crate.parse u.resolve.text = some url) :
    splitUrl crate u.text =
      .ok ((replaceAll (u.bucket ++ slashes u.trailing) [] u.resolve.text).rdropWhile (· = '/'),
        u.bucket ++ slashes u.trailing) := by
  have hpath := crate.path_segment u.resolve.isScheme u.resolve.isAuthority u.isSegment hparse
  have hbucket : url.path.dropWhile (· = '/') = u.bucket ++ slashes u.trailing := by
    obtain ⟨a, bucket, hcons⟩ := List.exists_cons_of_ne_nil u.isSegment.1
    have ha : a ≠ '/' := fun h => u.isSegment.slash_not_mem (by simp [hcons, h])
    rw [hpath, hcons, List.cons_append, List.dropWhile_cons_of_pos (by decide), List.cons_append,
      List.dropWhile_cons_of_neg (by simpa using ha)]
    rfl
  have hne : u.bucket ++ slashes u.trailing ≠ [] := by simp [u.isSegment.1]
  simp only [splitUrl, replaceAll_of_contains]
  simp only [text_resolve, hparse, hbucket, if_neg hne]

/-- The endpoint that is found when no slash is behind the bucket. -/
theorem trimmed_eq (h : u.trailing = 0) :
    (replaceAll (u.bucket ++ slashes u.trailing) [] u.resolve.text).rdropWhile (· = '/') =
      (replaceAll u.bucket [] (replaceAll minioHost dockerHost u.endpoint)).rdropWhile
        (· = '/') := by
  have hslashes : u.bucket ++ slashes u.trailing = u.bucket := by simp [slashes, h]
  have hdeleted : replaceAll u.bucket [] u.bucket = [] := by
    simpa using replaceAll_append u.isSegment.1 (q := []) (t := [])
  have htext : u.resolve.text = u.resolve.endpoint ++ '/' :: u.bucket := by
    rw [text_eq]
    exact congrArg (_ ++ '/' :: ·) hslashes
  rw [hslashes, htext, replaceAll_append_cons u.isSegment.1 u.isSegment.slash_not_mem, hdeleted,
    ← endpoint_resolve]
  exact rdropWhile_append_slashes _ 1

theorem splitUrl_eq_ok_iff (hparse : (crate.parse u.text).isSome) :
    splitUrl crate u.text = .ok (u.endpoint, u.bucket) ↔
      u.trailing = 0 ∧ ¬ minioHost <:+: u.text ∧ ¬ u.bucket <:+: u.endpoint := by
  have hendpoint : u.endpoint.rdropWhile (· = '/') = u.endpoint :=
    rdropWhile_site u.isAuthority.1 u.isAuthority.slash_not_mem
  constructor
  · intro h
    cases hresolved : crate.parse u.resolve.text with
    | none =>
      simp only [splitUrl, replaceAll_of_contains] at h
      simp only [text_resolve, hresolved, reduceCtorEq] at h
    | some url =>
      rw [u.splitUrl_eq hresolved] at h
      injection h with h
      injection h with htrimmed hbucket
      have hzero : u.trailing = 0 := by simpa [slashes] using hbucket
      rw [u.trimmed_eq hzero, trimmed_eq_iff u.isSegment.1 hendpoint] at htrimmed
      rw [minioHost_infix_text]
      exact ⟨hzero, htrimmed⟩
  · rintro ⟨hzero, hminio, hbucket⟩
    have hresolve : u.resolve.text = u.text := by
      rw [← text_resolve, replaceAll_eq_self hminio]
    obtain ⟨url, hurl⟩ := Option.isSome_iff_exists.mp hparse
    rw [minioHost_infix_text] at hminio
    rw [u.splitUrl_eq (hresolve ▸ hurl), u.trimmed_eq hzero,
      (trimmed_eq_iff u.isSegment.1 hendpoint).mpr ⟨hminio, hbucket⟩]
    simp [slashes, hzero]

end PathStyle

/-! ## Virtual-hosted style -/

/-- The first of at least two parts. -/
theorem exists_splitOn (c : Char) (s t : Text) :
    ∃ second more, (s ++ c :: t).splitOn c = s.takeWhile (· ≠ c) :: second :: more := by
  induction s with
  | nil =>
    obtain ⟨second, more, h⟩ := List.exists_cons_of_ne_nil (List.splitOnP_ne_nil (· == c) t)
    refine ⟨second, more, ?_⟩
    rw [List.nil_append, List.splitOn_eq_splitOnP, List.splitOnP_cons_eq_if_modifyHead, h]
    simp
  | cons a s ih =>
    obtain ⟨second, more, h⟩ := ih
    rw [List.splitOn_eq_splitOnP] at h
    rw [List.cons_append, List.splitOn_eq_splitOnP, List.splitOnP_cons_eq_if_modifyHead, h]
    by_cases hac : a = c
    · exact ⟨s.takeWhile (· ≠ c), second :: more, by simp [hac]⟩
    · exact ⟨second, more, by simp [hac]⟩

namespace VirtualHosted

variable (u : VirtualHosted) {crate : UrlCrate}

theorem isAuthority : IsAuthority (u.bucket ++ '.' :: u.rest) := by
  refine ⟨by simp, fun c hc => ?_⟩
  rw [List.mem_append, List.mem_cons] at hc
  obtain hbucket | rfl | hrest := hc
  · have hchar := u.bucketChar c hbucket
    simp only [IsHostChar, Char.isAlphanum, Char.isAlpha, Bool.or_eq_true]
    grind
  · exact .inl (by decide)
  · exact (u.restChar c hrest).imp_right fun h => by simp [h]

theorem slash_not_mem_rest : '/' ∉ u.rest :=
  fun hmem => absurd (u.restChar '/' hmem) (by decide)

theorem bracket_not_mem : '[' ∉ u.bucket ++ '.' :: u.rest := by
  intro hmem
  rw [List.mem_append, List.mem_cons] at hmem
  obtain hbucket | hdot | hrest := hmem
  · exact u.not_mem_bucket (by decide) hbucket
  · exact absurd hdot (by decide)
  · exact absurd (u.restChar '[' hrest) (by decide)

/-- The URL with another host in place of that of minio. -/
def resolve : VirtualHosted :=
  { u with
    rest := replaceAll minioHost dockerHost u.rest
    rest_ne := replaceAll_ne_nil (by decide) (by decide) u.rest_ne
    restChar := fun _ hc => (mem_or_mem_of_mem_replaceAll (by decide) hc).elim (u.restChar _)
      isHostChar_or_of_mem_dockerHost }

theorem endpoint_resolve : replaceAll minioHost dockerHost u.endpoint = u.resolve.endpoint :=
  replaceAll_minioHost_site u.isScheme

theorem minioHost_not_infix_bucket : ¬ minioHost <:+: u.bucket :=
  not_infix_of_not_mem (by decide : ':' ∈ minioHost) (u.not_mem_bucket (by decide))

theorem slashes_disjoint {p : Text} (h : '/' ∉ p) (n : ℕ) : ∀ c ∈ slashes n, c ∉ p :=
  fun _ hc => mem_slashes hc ▸ h

theorem text_resolve : replaceAll minioHost dockerHost u.text = u.resolve.text := by
  rw [text, replaceAll_append_of_disjoint (by decide) (slashes_disjoint (by decide) _),
    replaceAll_minioHost_site u.isScheme, replaceAll_append_cons (by decide) (by decide),
    replaceAll_eq_self u.minioHost_not_infix_bucket]
  rfl

theorem minioHost_infix_text : minioHost <:+: u.text ↔ minioHost <:+: u.endpoint := by
  rw [text, endpoint, infix_append_of_disjoint (by decide) (slashes_disjoint (by decide) _),
    minioHost_infix_site u.isScheme, minioHost_infix_site u.isScheme,
    infix_append_cons (by decide), or_iff_right u.minioHost_not_infix_bucket]

theorem bucket_map_toLower : u.bucket.map Char.toLower = u.bucket := by
  have hsame : ∀ c ∈ u.bucket, c.toLower = c := by
    intro c hc
    apply Char.toLower_eq_of_not_isUpper
    obtain hlower | hdigit | hother := u.bucketChar c hc
    · exact Char.not_isUpper_of_isLower hlower
    · simp only [Char.isDigit, Char.isUpper, Bool.and_eq_true, decide_eq_true_eq] at hdigit ⊢
      have hlt : c.val < 'A'.val := UInt32.lt_of_le_of_lt hdigit.2 (by decide)
      exact fun hupper => absurd hupper.1 (UInt32.not_le.mpr hlt)
    · simp only [List.mem_cons, List.not_mem_nil, or_false] at hother
      obtain rfl | rfl | rfl := hother <;> decide
  rw [List.map_congr_left hsame, List.map_id']

/-- The bucket that is read off the domain ends at the first dot. -/
theorem bucketFromDomain_eq {url : Url} {domain : Text} (hparse : crate.parse u.text = some url)
    (hdomain : url.domain = some domain) :
    bucketFromDomain url = .ok (u.bucket.takeWhile (· ≠ '.')) := by
  have hcolon : ':' ∉ u.bucket := u.not_mem_bucket (by decide)
  have hhost : (u.bucket ++ '.' :: u.rest).takeWhile (· ≠ ':') =
      u.bucket ++ '.' :: u.rest.takeWhile (· ≠ ':') := by
    rw [List.takeWhile_append_of_pos fun c hc => by simpa using ne_of_mem_of_not_mem hc hcolon,
      List.takeWhile_cons_of_pos (by decide)]
  obtain ⟨rest, hrest⟩ : ∃ rest, domain = u.bucket ++ '.' :: rest := by
    obtain hplain | hlower := crate.domain_eq u.isScheme u.isAuthority u.bracket_not_mem hparse
      hdomain
    · exact ⟨_, hplain.trans hhost⟩
    · rw [hhost, List.map_append, u.bucket_map_toLower] at hlower
      exact ⟨_, hlower⟩
  obtain ⟨second, more, hsplit⟩ := exists_splitOn '.' u.bucket rest
  simp only [bucketFromDomain, hdomain, hrest, hsplit]

theorem splitUrl_eq_bind {url : Url} (hparse : crate.parse u.resolve.text = some url) :
    splitUrl crate u.text = bucketFromDomain url >>= fun bucket =>
      .ok ((replaceAll (bucket ++ ['.']) [] u.resolve.text).rdropWhile (· = '/'), bucket) := by
  obtain ⟨k, hpath⟩ := crate.path_slashes u.isScheme u.resolve.isAuthority hparse
  have hempty : url.path.dropWhile (· = '/') = [] := by
    rw [hpath, List.dropWhile_eq_nil_iff]
    exact fun c hc => decide_eq_true (mem_slashes hc)
  simp only [splitUrl, replaceAll_of_contains]
  simp only [text_resolve, hparse, hempty, if_true]

/-- The bucket at the start of the domain is deleted. -/
theorem trimmed_eq :
    (replaceAll (u.bucket ++ ['.']) [] u.resolve.text).rdropWhile (· = '/') =
      (replaceAll (u.bucket ++ ['.']) []
        (replaceAll minioHost dockerHost u.endpoint)).rdropWhile (· = '/') := by
  have hne : u.bucket ++ ['.'] ≠ [] := by simp
  have hslash : '/' ∉ u.bucket ++ ['.'] := by
    simpa using u.not_mem_bucket (c := '/') (by decide)
  -- the bucket and its dot stand at the start of the authority
  have hdeleted : replaceAll (u.bucket ++ ['.']) [] (u.bucket ++ '.' :: u.resolve.rest) =
      replaceAll (u.bucket ++ ['.']) [] u.resolve.rest := by
    simpa using replaceAll_append hne (q := []) (t := u.resolve.rest)
  have hbucket : u.resolve.bucket = u.bucket := rfl
  rw [endpoint_resolve, text, replaceAll_append_of_disjoint hne (slashes_disjoint hslash _),
    rdropWhile_append_slashes, replaceAll_site hne hslash, hbucket, hdeleted,
    ← replaceAll_site hne hslash]
  rfl

theorem splitUrl_eq_ok_iff
    (hparse : ∃ url, crate.parse u.text = some url ∧ url.domain.isSome = true) :
    splitUrl crate u.text = .ok (u.endpoint, u.bucket) ↔
      '.' ∉ u.bucket ∧ ¬ minioHost <:+: u.text ∧ ¬ u.bucket ++ ['.'] <:+: u.endpoint := by
  have hendpoint : u.endpoint.rdropWhile (· = '/') = u.endpoint :=
    rdropWhile_site u.rest_ne u.slash_not_mem_rest
  have hne : u.bucket ++ ['.'] ≠ [] := by simp
  have hfirst : u.bucket.takeWhile (· ≠ '.') = u.bucket ↔ '.' ∉ u.bucket := by
    rw [List.takeWhile_eq_self_iff]
    exact ⟨fun h hdot => by simpa using h '.' hdot,
      fun h c hc => decide_eq_true (ne_of_mem_of_not_mem hc h)⟩
  constructor
  · intro h
    cases hresolved : crate.parse u.resolve.text with
    | none =>
      simp only [splitUrl, replaceAll_of_contains] at h
      simp only [text_resolve, hresolved, reduceCtorEq] at h
    | some url =>
      rw [u.splitUrl_eq_bind hresolved] at h
      cases hdomain : url.domain with
      | none => simp [bucketFromDomain, hdomain, Bind.bind, Except.bind] at h
      | some domain =>
        rw [u.resolve.bucketFromDomain_eq hresolved hdomain] at h
        injection h with h
        injection h with htrimmed hbucket
        rw [hbucket, u.trimmed_eq, trimmed_eq_iff hne hendpoint] at htrimmed
        rw [minioHost_infix_text]
        exact ⟨hfirst.mp hbucket, htrimmed⟩
  · rintro ⟨hdot, hminio, hbucket⟩
    have hresolve : u.resolve.text = u.text := by
      rw [← text_resolve, replaceAll_eq_self hminio]
    obtain ⟨url, hurl, hsome⟩ := hparse
    obtain ⟨domain, hdomain⟩ := Option.isSome_iff_exists.mp hsome
    rw [minioHost_infix_text] at hminio
    rw [u.splitUrl_eq_bind (hresolve ▸ hurl), u.bucketFromDomain_eq hurl hdomain, hfirst.mpr hdot,
      ← (trimmed_eq_iff hne hendpoint).mpr ⟨hminio, hbucket⟩, ← u.trimmed_eq]
    rfl

end VirtualHosted

/-! ## Both styles -/

/-- The URLs that are split into the endpoint and the bucket. -/
theorem splitUrl_iff (crate : UrlCrate) :
    (∀ u : PathStyle, (crate.parse u.text).isSome = true →
      (splitUrl crate u.text = .ok (u.endpoint, u.bucket) ↔
        u.trailing = 0 ∧ ¬ minioHost <:+: u.text ∧ ¬ u.bucket <:+: u.endpoint)) ∧
    ∀ u : VirtualHosted, (∃ url, crate.parse u.text = some url ∧ url.domain.isSome = true) →
      (splitUrl crate u.text = .ok (u.endpoint, u.bucket) ↔
        '.' ∉ u.bucket ∧ ¬ minioHost <:+: u.text ∧ ¬ u.bucket ++ ['.'] <:+: u.endpoint) :=
  ⟨fun u => u.splitUrl_eq_ok_iff, fun u => u.splitUrl_eq_ok_iff⟩

/-- A parser for URLs of hosts, in which addresses have digits and dots only. -/
def plainParse (t : Text) : Option Url :=
  match t.dropWhile (· ≠ ':') with
  | ':' :: '/' :: '/' :: rest =>
    let host := (rest.takeWhile (· ≠ '/')).takeWhile (· ≠ ':')
    let path := rest.dropWhile (· ≠ '/')
    some {
      path := if path = [] then ['/'] else path
      domain :=
        if host.all fun c => c.isDigit || c = '.' then none else some (host.map Char.toLower) }
  | _ => none

theorem plainParse_site {scheme authority tail : Text} {url : Url} (hscheme : IsScheme scheme)
    (hauthority : IsAuthority authority) (htail : ∀ c ∈ tail.head?, c = '/')
    (h : plainParse (site scheme authority ++ tail) = some url) :
    url.path = (if tail = [] then ['/'] else tail) ∧
      ∀ domain, url.domain = some domain →
        domain = (authority.takeWhile (· ≠ ':')).map Char.toLower := by
  have hcolon : ∀ c ∈ scheme, decide (c ≠ ':') = true := fun c hc =>
    decide_eq_true (ne_of_mem_of_not_mem hc hscheme.colon_not_mem)
  have hslash : ∀ c ∈ authority, decide (c ≠ '/') = true := fun c hc =>
    decide_eq_true (ne_of_mem_of_not_mem hc hauthority.slash_not_mem)
  have hdrop : (site scheme authority ++ tail).dropWhile (· ≠ ':') =
      ':' :: '/' :: '/' :: (authority ++ tail) := by
    rw [site, List.append_assoc, List.dropWhile_append_of_pos hcolon, List.cons_append,
      List.dropWhile_cons_of_neg (by decide)]
    rfl
  have htake : (authority ++ tail).takeWhile (· ≠ '/') = authority := by
    cases tail with
    | nil => rw [List.append_nil, List.takeWhile_eq_self_iff.mpr hslash]
    | cons c tail =>
      have hc : c = '/' := htail c rfl
      rw [List.takeWhile_append_of_pos hslash, List.takeWhile_cons_of_neg (by simp [hc]),
        List.append_nil]
  have hrest : (authority ++ tail).dropWhile (· ≠ '/') = tail := by
    rw [List.dropWhile_append_of_pos hslash]
    cases tail with
    | nil => rfl
    | cons c tail =>
      have hc : c = '/' := htail c rfl
      simp [hc]
  simp only [plainParse, hdrop, htake, hrest, Option.some.injEq] at h
  subst h
  refine ⟨rfl, fun domain hdomain => ?_⟩
  dsimp only at hdomain
  rw [Option.ite_none_left_eq_some] at hdomain
  exact (Option.some.inj hdomain.2).symm

theorem head?_slashes (n : ℕ) : ∀ c ∈ (slashes n).head?, c = '/' :=
  fun _ hc => mem_slashes (List.mem_of_mem_head? hc)

def plainCrate : UrlCrate where
  parse := plainParse
  path_segment := by
    intro scheme authority segment n url hscheme hauthority hsegment h
    rw [List.append_assoc] at h
    exact (plainParse_site hscheme hauthority (by simp) h).1
  path_slashes := by
    intro scheme authority n url hscheme hauthority h
    have hpath := (plainParse_site hscheme hauthority (head?_slashes n) h).1
    cases n with
    | zero => exact ⟨1, hpath⟩
    | succ n => exact ⟨n + 1, hpath⟩
  domain_eq := by
    intro scheme authority n url domain hscheme hauthority _ h hdomain
    exact .inr ((plainParse_site hscheme hauthority (head?_slashes n) h).2 domain hdomain)

/-- `http://localhost:9000/kms-public` -/
def localBucket : PathStyle where
  scheme := ['h', 't', 't', 'p']
  authority := ['l', 'o', 'c', 'a', 'l', 'h', 'o', 's', 't', ':', '9', '0', '0', '0']
  bucket := ['k', 'm', 's', '-', 'p', 'u', 'b', 'l', 'i', 'c']
  trailing := 0
  isScheme := ⟨by decide, by simp, by decide⟩
  isAuthority := ⟨by decide, by simp [IsHostChar]⟩
  isSegment := ⟨by decide, by decide, by decide, by simp⟩

/-- `https://zama-zws-dev-tkms-b6q87.s3.eu-west-1.amazonaws.com/` -/
def devnetBucket : VirtualHosted where
  scheme := ['h', 't', 't', 'p', 's']
  bucket :=
    ['z', 'a', 'm', 'a', '-', 'z', 'w', 's', '-', 'd', 'e', 'v', '-', 't', 'k', 'm', 's', '-', 'b',
     '6', 'q', '8', '7']
  rest :=
    ['s', '3', '.', 'e', 'u', '-', 'w', 'e', 's', 't', '-', '1', '.', 'a', 'm', 'a', 'z', 'o', 'n',
     'a', 'w', 's', '.', 'c', 'o', 'm']
  trailing := 1
  isScheme := ⟨by decide, by simp, by decide⟩
  bucket_ne := by decide
  bucketChar := by simp
  rest_ne := by decide
  restChar := by simp [IsHostChar]

theorem localBucket_devnetBucket_split :
    splitUrl plainCrate localBucket.text = .ok (localBucket.endpoint, localBucket.bucket) ∧
      splitUrl plainCrate devnetBucket.text = .ok (devnetBucket.endpoint, devnetBucket.bucket) :=
  ⟨((splitUrl_iff plainCrate).1 localBucket (by decide)).mpr ⟨by decide, by decide, by decide⟩,
    ((splitUrl_iff plainCrate).2 devnetBucket ⟨_, rfl, by decide⟩).mpr
      ⟨by decide, by decide, by decide⟩⟩

/-- `https://kms.example.com/kms` -/
def sharedName : PathStyle where
  scheme := ['h', 't', 't', 'p', 's']
  authority := ['k', 'm', 's', '.', 'e', 'x', 'a', 'm', 'p', 'l', 'e', '.', 'c', 'o', 'm']
  bucket := ['k', 'm', 's']
  trailing := 0
  isScheme := ⟨by decide, by simp, by decide⟩
  isAuthority := ⟨by decide, by simp [IsHostChar]⟩
  isSegment := ⟨by decide, by decide, by decide, by simp⟩

/-- The bucket is also deleted from the host. -/
theorem sharedName_not_split : (plainCrate.parse sharedName.text).isSome = true ∧
    splitUrl plainCrate sharedName.text =
      .ok (site ['h', 't', 't', 'p', 's']
        ['.', 'e', 'x', 'a', 'm', 'p', 'l', 'e', '.', 'c', 'o', 'm'], ['k', 'm', 's']) ∧
    splitUrl plainCrate sharedName.text ≠ .ok (sharedName.endpoint, sharedName.bucket) := by
  decide

end Fhevm.GwListener

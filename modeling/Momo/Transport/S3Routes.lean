import Momo.Common.PathClean
import Momo.Transport.Metadata
import Momo.Transport.S3Delete

/-! @momo src/transport/s3_communicator.go | scheme:one name from many parsers

    Which object a request is about. `HandshakeServer` derives the name in three places. -/

namespace Momo.S3

/-! ### Text functions of Go's library -/

def slashTrim (p : Bytes) : Bytes :=
  if p.head? = some slash then p.tail else p

def before (sub : Bytes) : Bytes → Option Bytes
  | [] => if sub = [] then some [] else none
  | c :: s => if sub <+: c :: s then some [] else (before sub s).map (c :: ·)

def splitHostPort (hostport : Bytes) : Option Bytes :=
  if (58 : UInt8) ∉ hostport then none
  else
    let i := hostport.length - 1 - hostport.reverse.idxOf 58
    if hostport.head? = some 91 then
      let bracket := hostport.idxOf 93
      if bracket + 1 = i ∧ (91 : UInt8) ∉ hostport.drop 1 ∧ (93 : UInt8) ∉ hostport.drop (bracket + 1)
      then some ((hostport.take bracket).drop 1) else none
    else if (58 : UInt8) ∈ hostport.take i ∨ (91 : UInt8) ∈ hostport ∨ (93 : UInt8) ∈ hostport then none
    else some (hostport.take i)

/-! ### Bucket and key -/

def localhost : Bytes := [108, 111, 99, 97, 108, 104, 111, 115, 116]

def bucketFromVirtualHost (host : Bytes) : Bytes :=
  if (46 : UInt8) ∉ host then []
  else if localhost <:+ host then host.takeWhile (· ≠ 46)
  else (before [46, 115, 51] host).getD []

def hostBucket (host : Bytes) : Bytes := bucketFromVirtualHost ((splitHostPort host).getD host)

def firstSegment (p : Bytes) : Bytes := p.takeWhile (· ≠ slash)

def afterSlash (p : Bytes) : Bytes := (p.dropWhile (· ≠ slash)).tail

def splitPathBucketKey (cleanPath : Bytes) : Bytes × Bytes :=
  if cleanPath = [] ∨ cleanPath = dot then ([], [])
  else if slash ∈ cleanPath then (firstSegment cleanPath, afterSlash cleanPath)
  else (cleanPath, [])

def extractS3BucketAndKey (host path : Bytes) : Bytes × Bytes :=
  let cleanPath := slashTrim (pathClean path)
  let (bucket, key) :=
    if hostBucket host = [] then splitPathBucketKey cleanPath else (hostBucket host, cleanPath)
  (bucket, if key = dot then [] else key)

/-! ### Routes -/

inductive Method
  | GET
  | HEAD
  | PUT
  | DELETE

inductive Route
  | s3Error (status : ℕ) (code message : String)
  | listBuckets
  | listObjects
  | headBucket
  | createBucket
  | deleteBucket
  | getObject (name : Bytes)
  | headObject (name : Bytes)
  | deleteObject (name : Bytes)
  | putObject (name : Bytes)
  | copyObject (source name : Bytes)
  deriving DecidableEq

def noSuchBucket : Route := .s3Error 404 "NoSuchBucket" "The specified bucket does not exist."

def routeGet (g : Gateway) (bucket key : Bytes) : Route :=
  if bucket = [] then .listBuckets
  else if validBucket g bucket = false then noSuchBucket
  else if key = [] then .listObjects
  else .getObject key

def routeHead (g : Gateway) (bucket key : Bytes) : Route :=
  if key = [] then if bucket ≠ [] ∧ validBucket g bucket = false then noSuchBucket else .headBucket
  else if validBucket g bucket = false then noSuchBucket
  else .headObject key

def routeDelete (g : Gateway) (bucket key : Bytes) : Route :=
  if key = [] then
    if g.configuredBucket = [] then .s3Error 400 "InvalidArgument" "Missing key in DELETE request."
    else if validBucket g bucket = false then noSuchBucket
    else .deleteBucket
  else if validBucket g bucket = false then noSuchBucket
  else .deleteObject key

def routePut (g : Gateway) (bucket key path : Bytes) : Route :=
  if g.configuredBucket ≠ [] ∧ key = [] then
    if validBucket g bucket = false then noSuchBucket else .createBucket
  else if validBucket g bucket = false then noSuchBucket
  else
    let cleanPath := pathClean path
    if cleanPath = dot ∨ cleanPath = dotDot ∨ (dotDot ++ [slash]) <+: cleanPath ∨
        cleanPath = [slash] then
      .s3Error 400 "InvalidArgument" "Invalid S3 path."
    else .putObject (if g.configuredBucket ≠ [] then key else slashTrim cleanPath)

/-- `HandshakeServer`, from the path check on. -/
def route (g : Gateway) (method : Method) (host path : Bytes) : Route :=
  if dotDot <:+: path ∨ path.contains 92 then .s3Error 400 "InvalidArgument" "Invalid key path."
  else
    let (bucket, key) := extractS3BucketAndKey host path
    match method with
    | .GET => routeGet g bucket key
    | .HEAD => routeHead g bucket key
    | .DELETE => routeDelete g bucket key
    | .PUT => routePut g bucket key path

def decodeSource (copySource : Bytes) : Bytes := (Metadata.pathUnescape copySource).getD copySource

def handleCopyObject (g : Gateway) (bucket key copySource : Bytes) : Route :=
  if validBucket g bucket = false then noSuchBucket
  else if key = [] then
    .s3Error 400 "InvalidArgument" "Copy source must have a destination object key."
  else
    let srcPath := slashTrim (decodeSource copySource)
    if srcPath = [] ∨ dotDot <:+: srcPath ∨ srcPath.contains 92 then
      .s3Error 400 "InvalidArgument" "Invalid copy source."
    else
      let srcKey :=
        if slash ∈ srcPath then afterSlash srcPath
        else if g.configuredBucket = [] then srcPath else []
      if g.configuredBucket ≠ [] ∧ validBucket g (firstSegment srcPath) = false then noSuchBucket
      else if srcKey = [] then .s3Error 400 "InvalidArgument" "Invalid copy source."
      else .copyObject srcKey key

def sourcePath (host path : Bytes) : Bytes :=
  if hostBucket host = [] then path else slash :: (hostBucket host ++ slash :: slashTrim path)

/-! ### Facts about the text functions -/

theorem slashTrim_cons_slash (p : Bytes) : slashTrim (slash :: p) = p := by
  simp [slashTrim]

variable {p : Bytes}

theorem slashTrim_of_head (h : p.head? ≠ some slash) : slashTrim p = p := by
  rw [slashTrim, if_neg h]

theorem slashTrim_infix (p : Bytes) : slashTrim p <:+: p := by
  unfold slashTrim
  split_ifs
  · exact (List.tail_suffix p).isInfix
  · exact List.infix_rfl

variable {a : Bytes}

theorem firstSegment_append (ha : slash ∉ a) (b : Bytes) : firstSegment (a ++ slash :: b) = a := by
  unfold firstSegment
  rw [List.takeWhile_append_of_pos (fun c hc => by simpa using fun h : c = slash => ha (h ▸ hc))]
  simp

theorem afterSlash_append (ha : slash ∉ a) (b : Bytes) : afterSlash (a ++ slash :: b) = b := by
  unfold afterSlash
  rw [List.dropWhile_append_of_pos (fun c hc => by simpa using fun h : c = slash => ha (h ▸ hc))]
  simp

theorem firstSegment_afterSlash (h : slash ∈ p) :
    slash ∉ firstSegment p ∧ p = firstSegment p ++ slash :: afterSlash p := by
  obtain ⟨a, b, rfl, ha⟩ := List.eq_append_cons_of_mem h
  rw [firstSegment_append ha, afterSlash_append ha]
  exact ⟨ha, rfl⟩

theorem isPrefix_of_append_sep {pat b : Bytes} {c : UInt8} (hc : c ∉ pat) (h : pat <+: a ++ c :: b)
     :
    pat <+: a := by
  induction a generalizing pat with
  | nil =>
    cases pat with
    | nil => exact List.nil_prefix
    | cons x pat =>
      obtain ⟨rfl, -⟩ := List.cons_prefix_cons.mp h
      exact absurd List.mem_cons_self hc
  | cons y a ih =>
    cases pat with
    | nil => exact List.nil_prefix
    | cons x pat =>
      obtain ⟨rfl, hrest⟩ := List.cons_prefix_cons.mp h
      exact List.cons_prefix_cons.mpr ⟨rfl, ih (fun hmem => hc (List.mem_cons_of_mem x hmem)) hrest⟩

theorem infix_append_sep_iff {pat : Bytes} {c : UInt8} (hc : c ∉ pat) (a b : Bytes) :
    pat <:+: a ++ c :: b ↔ pat <:+: a ∨ pat <:+: b := by
  constructor
  · intro h
    induction a with
    | nil =>
      rcases List.infix_cons_iff.mp h with hpre | hin
      · exact .inl (isPrefix_of_append_sep (a := []) hc hpre).isInfix
      · exact .inr hin
    | cons y a ih =>
      rcases List.infix_cons_iff.mp h with hpre | hin
      · exact .inl (isPrefix_of_append_sep (a := y :: a) hc hpre).isInfix
      · exact (ih hin).imp_left (fun h => List.infix_cons h)
  · rintro (h | h)
    · exact h.trans (List.prefix_append _ _).isInfix
    · exact h.trans ((List.suffix_cons c b).trans (List.suffix_append a _)).isInfix

/-! ### The cleaned path of an upload -/

theorem slashTrim_pathClean (hdots : ¬ dotDot <:+: p) (hkept : keptSegments p ≠ []) :
    slashTrim (pathClean p) = joinSegments (keptSegments p) := by
  have hhead : (joinSegments (keptSegments p)).head? ≠ some slash :=
    head_joinSegments_ne_slash (fun s hs => (mem_keptSegments.mp hs).2.1)
      (fun s hs => slash_notMem_of_mem_segments (mem_keptSegments.mp hs).1)
  rw [pathClean_eq (fun h => hdots (infix_of_mem_segments h))]
  split_ifs
  · exact slashTrim_cons_slash _
  · exact slashTrim_of_head hhead

theorem length_joinSegments_kept_le (p : Bytes) :
    (joinSegments (keptSegments p)).length ≤ (slashTrim p).length := by
  by_cases hroot : p.head? = some slash
  · obtain ⟨q, rfl⟩ : ∃ q, p = slash :: q := ⟨p.tail, (List.cons_head?_tail hroot).symm⟩
    rw [slashTrim_cons_slash, keptSegments, segments_cons_slash, List.filter_cons, if_neg (by simp)]
    calc (joinSegments ((segments q).filter _)).length
        ≤ (joinSegments (segments q)).length := length_joinSegments_le List.filter_sublist
      _ = q.length := by rw [joinSegments_segments]
  · rw [slashTrim_of_head hroot]
    calc (joinSegments (keptSegments p)).length
        ≤ (joinSegments (segments p)).length := length_joinSegments_le List.filter_sublist
      _ = p.length := by rw [joinSegments_segments]

structure Stored (g : Gateway) (host path n : Bytes) : Prop where
  noDots : ¬ dotDot <:+: path
  noBackslash : path.contains 92 = false
  bucketOk : validBucket g (extractS3BucketAndKey host path).1 = true
  kept : keptSegments path ≠ []
  name : n = if g.configuredBucket ≠ [] then (extractS3BucketAndKey host path).2
    else joinSegments (keptSegments path)
  keyed : g.configuredBucket ≠ [] → (extractS3BucketAndKey host path).2 ≠ []

variable {g : Gateway} {host path n : Bytes}

theorem stored_of_route (h : route g .PUT host path = .putObject n) : Stored g host path n := by
  unfold route at h
  by_cases hgate : dotDot <:+: path ∨ path.contains 92 = true
  · rw [if_pos hgate] at h
    cases h
  · obtain ⟨hdots, hback⟩ := not_or.mp hgate
    rw [if_neg hgate] at h
    simp only [routePut] at h
    generalize hname : (if g.configuredBucket ≠ [] then (extractS3BucketAndKey host path).2
      else slashTrim (pathClean path)) = name at h
    split_ifs at h with hcreate hvalid hvalid' hpath <;> cases h
    have hkept : keptSegments path ≠ [] := by
      intro hnone
      have hclean := pathClean_eq (fun hmem => hdots (infix_of_mem_segments hmem))
      rw [hnone, if_pos rfl, joinSegments_nil] at hclean
      split_ifs at hclean
      · exact hpath (.inr (.inr (.inr hclean)))
      · exact hpath (.inl hclean)
    refine ⟨hdots, by simpa using hback, by simpa using hvalid', hkept, ?_, ?_⟩
    · rw [← hname, slashTrim_pathClean hdots hkept]
    · exact fun hconf hkey => hcreate ⟨hconf, hkey⟩

theorem Stored.gate (h : Stored g host path n) :
    ¬ (dotDot <:+: path ∨ path.contains 92 = true) := by
  rintro (hdots | hback)
  · exact h.noDots hdots
  · rw [h.noBackslash] at hback
    cases hback

/-! ### The other methods -/

theorem Stored.extract_pathStyle (h : Stored g host path n) (hhost : hostBucket host = []) :
    extractS3BucketAndKey host path =
      ((splitPathBucketKey (joinSegments (keptSegments path))).1,
        if (splitPathBucketKey (joinSegments (keptSegments path))).2 = dot then []
        else (splitPathBucketKey (joinSegments (keptSegments path))).2) := by
  simp only [extractS3BucketAndKey, slashTrim_pathClean h.noDots h.kept, if_pos hhost]

theorem Stored.extract_virtualHost (h : Stored g host path n) (hhost : hostBucket host ≠ []) :
    extractS3BucketAndKey host path = (hostBucket host, joinSegments (keptSegments path)) := by
  have hslash : ∀ s ∈ keptSegments path, slash ∉ s :=
    fun s hs => slash_notMem_of_mem_segments (mem_keptSegments.mp hs).1
  have hdot : joinSegments (keptSegments path) ≠ dot := by
    intro he
    have hsegs := joinSegments_eq_segment h.kept hslash (by decide) he
    have hmem : dot ∈ keptSegments path := by rw [hsegs]; exact List.mem_singleton_self dot
    exact (mem_keptSegments.mp hmem).2.2 rfl
  simp only [extractS3BucketAndKey, slashTrim_pathClean h.noDots h.kept, if_neg hhost, if_neg hdot]

theorem splitPathBucketKey_keyed {cleanPath : Bytes} (h : (splitPathBucketKey cleanPath).2 ≠ []) :
    slash ∉ (splitPathBucketKey cleanPath).1 ∧
      cleanPath = (splitPathBucketKey cleanPath).1 ++ slash :: (splitPathBucketKey cleanPath).2 := by
  unfold splitPathBucketKey at h ⊢
  split_ifs at h ⊢ with hempty hslash
  · exact absurd rfl h
  · exact firstSegment_afterSlash hslash
  · exact absurd rfl h

theorem validBucket_iff (hconf : g.configuredBucket ≠ []) (bucket : Bytes) :
    validBucket g bucket = true ↔ bucket = g.configuredBucket := by
  simp [validBucket, hconf]

theorem Stored.extract_path (h : Stored g host path n) (hhost : hostBucket host = [])
    (hconf : g.configuredBucket ≠ []) :
    slash ∉ g.configuredBucket ∧ n ≠ [] ∧
      extractS3BucketAndKey host path = (g.configuredBucket, n) ∧
      joinSegments (keptSegments path) = g.configuredBucket ++ slash :: n := by
  set split := splitPathBucketKey (joinSegments (keptSegments path)) with hsplit
  have hextract := h.extract_pathStyle hhost
  rw [← hsplit] at hextract
  have hname := h.name
  have hkey := h.keyed hconf
  have hvalid := h.bucketOk
  rw [if_pos hconf] at hname
  rw [hextract] at hname hkey hvalid ⊢
  have hdot : split.2 ≠ dot := fun he => hkey (if_pos he)
  simp only [if_neg hdot] at hname hkey
  obtain ⟨hslash, hjoin⟩ := splitPathBucketKey_keyed hkey
  have hbucket : split.1 = g.configuredBucket := (validBucket_iff hconf _).mp hvalid
  rw [← hsplit, hbucket, ← hname] at hjoin
  refine ⟨?_, ?_, ?_, hjoin⟩
  · rw [← hbucket]
    exact hslash
  · rw [hname]
    exact hkey
  · rw [hbucket, if_neg hdot, hname]

variable {bucket key : Bytes}

theorem route_key (h : Stored g host path n)
    (hextract : extractS3BucketAndKey host path = (bucket, key)) (hb : bucket ≠ []) (hk : key ≠ [])
     :
    route g .GET host path = .getObject key ∧ route g .HEAD host path = .headObject key ∧
      route g .DELETE host path = .deleteObject key := by
  have hvalid := h.bucketOk
  rw [hextract] at hvalid
  simp only [route, if_neg h.gate, hextract, routeGet, routeHead, routeDelete, if_neg hb, if_neg hk,
    hvalid, Bool.true_eq_false, if_false, and_self]

theorem route_get_flat (h : Stored g host path n) (hhost : hostBucket host = [])
    (hconf : g.configuredBucket = []) : route g .GET host path ≠ .getObject n := by
  have hname : n = joinSegments (keptSegments path) := by
    have hn := h.name
    rwa [if_neg (not_not.mpr hconf)] at hn
  set split := splitPathBucketKey (joinSegments (keptSegments path)) with hsplit
  have hextract := h.extract_pathStyle hhost
  rw [← hsplit] at hextract
  intro hget
  simp only [route, if_neg h.gate, hextract, routeGet] at hget
  generalize hkey : (if split.2 = dot then [] else split.2) = key at hget
  split_ifs at hget with hb hvalid hk
  · cases hget
  -- the key is what stands behind a slash of the path
  obtain rfl := Route.getObject.inj hget
  have hraw : split.2 = key := by
    split_ifs at hkey with hdot
    · exact absurd hkey.symm hk
    · exact hkey
  have hsome : (splitPathBucketKey (joinSegments (keptSegments path))).2 ≠ [] := by
    rw [← hsplit, hraw]
    exact hk
  obtain ⟨-, hjoin⟩ := splitPathBucketKey_keyed hsome
  have hlen := congrArg List.length hjoin
  rw [← hsplit, hraw, ← hname] at hlen
  simp only [List.length_append, List.length_cons] at hlen
  omega

/-! ### CopyObject -/

variable {copySource : Bytes}

theorem copyObject_iff (hb : validBucket g bucket = true) (hkey : key ≠ []) :
    handleCopyObject g bucket key copySource = .copyObject n key ↔
      n ≠ [] ∧ (¬ dotDot <:+: slashTrim (decodeSource copySource)) ∧
      (slashTrim (decodeSource copySource)).contains 92 = false ∧
      ((∃ b, slash ∉ b ∧ (g.configuredBucket ≠ [] → b = g.configuredBucket) ∧
          slashTrim (decodeSource copySource) = b ++ slash :: n) ∨
        (g.configuredBucket = [] ∧ slash ∉ n ∧ slashTrim (decodeSource copySource) = n)) := by
  generalize hx : slashTrim (decodeSource copySource) = x
  simp only [handleCopyObject, hb, Bool.true_eq_false, if_false, if_neg hkey, hx]
  by_cases hbad : x = [] ∨ dotDot <:+: x ∨ x.contains 92 = true
  · rw [if_pos hbad]
    refine iff_of_false (by simp) ?_
    rintro ⟨hn, hdots, hback, hsplit⟩
    rcases hbad with h | h | h
    · rcases hsplit with ⟨b, -, -, he⟩ | ⟨-, -, he⟩
      · rw [h] at he
        simp at he
      · exact hn (he.symm.trans h)
    · exact hdots h
    · rw [hback] at h
      cases h
  · obtain ⟨hne, hdots, hback⟩ : x ≠ [] ∧ ¬ dotDot <:+: x ∧ x.contains 92 = false := by
      simpa [not_or] using hbad
    rw [if_neg hbad]
    by_cases hslash : slash ∈ x
    · obtain ⟨hfirst, hjoin⟩ := firstSegment_afterSlash hslash
      rw [if_pos hslash]
      constructor
      · intro h
        split_ifs at h with hvalid hempty
        · cases h
        · obtain ⟨rfl, -⟩ := Route.copyObject.inj h
          refine ⟨hempty, hdots, hback, .inl ⟨firstSegment x, hfirst, fun hconf => ?_, hjoin⟩⟩
          have hok : validBucket g (firstSegment x) = true := by
            simpa [hconf] using hvalid
          exact (validBucket_iff hconf _).mp hok
      · rintro ⟨hn, -, -, ⟨b, hbs, hbucket, rfl⟩ | ⟨-, hno, rfl⟩⟩
        · rw [firstSegment_append hbs, afterSlash_append hbs, if_neg, if_neg hn]
          rintro ⟨hconf, hvalid⟩
          rw [(validBucket_iff hconf b).mpr (hbucket hconf)] at hvalid
          cases hvalid
        · exact absurd hslash hno
    · rw [if_neg hslash]
      constructor
      · intro h
        generalize hsrc : (if g.configuredBucket = [] then x else []) = src at h
        split_ifs at h with hvalid hempty
        · cases h
        · obtain ⟨rfl, -⟩ := Route.copyObject.inj h
          by_cases hconf : g.configuredBucket = []
          · rw [if_pos hconf] at hsrc
            subst hsrc
            exact ⟨hne, hdots, hback, .inr ⟨hconf, hslash, rfl⟩⟩
          · rw [if_neg hconf] at hsrc
            exact absurd hsrc.symm hempty
      · rintro ⟨hn, -, -, ⟨b, -, -, rfl⟩ | ⟨hconf, -, rfl⟩⟩
        · exact absurd (List.mem_append_right b List.mem_cons_self) hslash
        · simp [hconf, hne]

/-! ### One name -/

/-- The condition: the bucket is configured or named by the host, the path is clean, and the bucket
    of the host can stand in a copy source. -/
def NameOk (g : Gateway) (host path : Bytes) : Prop :=
  (g.configuredBucket ≠ [] ∨ hostBucket host ≠ []) ∧
    slashTrim path = slashTrim (pathClean path) ∧
    slash ∉ hostBucket host ∧ ¬ dotDot <:+: hostBucket host ∧ (92 : UInt8) ∉ hostBucket host

instance (g : Gateway) (host path : Bytes) : Decidable (NameOk g host path) :=
  inferInstanceAs (Decidable (_ ∧ _ ∧ _ ∧ _ ∧ _))

/-- GET, HEAD, DELETE and a copy from the URL are about the object `n`. -/
def OwnURL (g : Gateway) (host path n bucket key copySource : Bytes) : Prop :=
  route g .GET host path = .getObject n ∧ route g .HEAD host path = .headObject n ∧
    route g .DELETE host path = .deleteObject n ∧
    handleCopyObject g bucket key copySource = .copyObject n key

instance (g : Gateway) (host path n bucket key copySource : Bytes) :
    Decidable (OwnURL g host path n bucket key copySource) :=
  inferInstanceAs (Decidable (_ ∧ _ ∧ _ ∧ _))

theorem copy_virtualHost_iff (h : Stored g host path n) (hhost : hostBucket host ≠ [])
    (hsrc : decodeSource copySource = sourcePath host path) (hb : validBucket g bucket = true)
    (hkey : key ≠ []) (hn : n = joinSegments (keptSegments path)) :
    handleCopyObject g bucket key copySource = .copyObject n key ↔
      slashTrim path = n ∧ slash ∉ hostBucket host ∧ ¬ dotDot <:+: hostBucket host ∧
        (92 : UInt8) ∉ hostBucket host := by
  have hx : slashTrim (decodeSource copySource) = hostBucket host ++ slash :: slashTrim path := by
    rw [hsrc, sourcePath, if_neg hhost, slashTrim_cons_slash]
  have hne : n ≠ [] := by
    rw [hn]
    exact joinSegments_ne_nil h.kept (fun s hs => (mem_keptSegments.mp hs).2.1)
  have hlen : n.length ≤ (slashTrim path).length := by
    rw [hn]
    exact length_joinSegments_kept_le path
  rw [copyObject_iff hb hkey, hx, infix_append_sep_iff (by decide)]
  constructor
  · rintro ⟨-, hdots, hback, ⟨b, hbs, -, he⟩ | ⟨-, -, he⟩⟩
    · have hhead : slash ∉ hostBucket host := by
        -- otherwise the copy would take more than the path for its key
        intro hmem
        obtain ⟨hfirst, hjoin⟩ := firstSegment_afterSlash hmem
        have hafter := congrArg afterSlash he
        rw [afterSlash_append hbs, hjoin, List.append_assoc, List.cons_append,
          afterSlash_append hfirst] at hafter
        have hlong := congrArg List.length hafter
        simp only [List.length_append, List.length_cons] at hlong
        omega
      have hafter := congrArg afterSlash he
      rw [afterSlash_append hbs, afterSlash_append hhead] at hafter
      refine ⟨hafter, hhead, fun hd => hdots (.inl hd), fun hmem => ?_⟩
      simp [hmem] at hback
    · have hlong := congrArg List.length he
      simp only [List.length_append, List.length_cons] at hlong
      omega
  · rintro ⟨htrim, hhead, hd, hmem⟩
    have hpart : slashTrim path <:+: path := slashTrim_infix path
    have hvalid := h.bucketOk
    rw [h.extract_virtualHost hhost] at hvalid
    refine ⟨hne, ?_, ?_, .inl ⟨hostBucket host, hhead, fun hconf => ?_, by rw [htrim]⟩⟩
    · rintro (hbad | hbad)
      · exact hd hbad
      · exact h.noDots (hbad.trans hpart)
    · have hpath : (92 : UInt8) ∉ slashTrim path := by
        intro hin
        have hback := h.noBackslash
        simp [hpart.subset hin] at hback
      simp [hmem, hpath]
      decide
    · exact (validBucket_iff hconf _).mp hvalid

theorem copy_path_iff (h : Stored g host path n) (hhost : hostBucket host = [])
    (hconf : g.configuredBucket ≠ []) (hsrc : decodeSource copySource = sourcePath host path)
    (hb : validBucket g bucket = true) (hkey : key ≠ []) :
    handleCopyObject g bucket key copySource = .copyObject n key ↔
      slashTrim path = joinSegments (keptSegments path) := by
  obtain ⟨hslash, hn, -, hjoin⟩ := h.extract_path hhost hconf
  have hx : slashTrim (decodeSource copySource) = slashTrim path := by
    rw [hsrc, sourcePath, if_pos hhost]
  rw [copyObject_iff hb hkey, hx, hjoin]
  constructor
  · rintro ⟨-, -, -, ⟨b, -, hbucket, he⟩ | ⟨hflat, -, -⟩⟩
    · rw [he, hbucket hconf]
    · exact absurd hflat hconf
  · intro he
    have hpart : slashTrim path <:+: path := slashTrim_infix path
    refine ⟨hn, fun hbad => h.noDots (hbad.trans hpart), ?_,
      .inl ⟨g.configuredBucket, hslash, fun _ => rfl, he⟩⟩
    have hback := h.noBackslash
    simp only [List.contains_eq_mem, decide_eq_false_iff_not] at hback ⊢
    exact fun hin => hback (hpart.subset hin)

/-- CORRECT: an upload that is stored is found again at its own URL exactly under the condition. -/
theorem ownURL_iff (g : Gateway) (host path n bucket key copySource : Bytes)
    (hput : route g .PUT host path = .putObject n)
    (hsrc : decodeSource copySource = sourcePath host path)
    (hb : validBucket g bucket = true) (hkey : key ≠ []) :
    OwnURL g host path n bucket key copySource ↔ NameOk g host path := by
  have h := stored_of_route hput
  have hclean := slashTrim_pathClean h.noDots h.kept
  unfold OwnURL NameOk
  by_cases hhost : hostBucket host = []
  · by_cases hconf : g.configuredBucket = []
    · -- flat mode and path style: the key is only a part of the name
      refine iff_of_false (fun hown => route_get_flat h hhost hconf hown.1) ?_
      rintro ⟨hsome | hsome, -⟩
      · exact hsome hconf
      · exact hsome hhost
    · obtain ⟨-, hn, hextract, -⟩ := h.extract_path hhost hconf
      obtain ⟨hget, hhead, hdelete⟩ := route_key h hextract hconf hn
      rw [copy_path_iff h hhost hconf hsrc hb hkey, hclean, hhost]
      constructor
      · rintro ⟨-, -, -, hcopy⟩
        exact ⟨.inl hconf, hcopy, by simp, by decide, by simp⟩
      · rintro ⟨-, hcopy, -⟩
        exact ⟨hget, hhead, hdelete, hcopy⟩
  · have hn : n = joinSegments (keptSegments path) := by
      have hname := h.name
      rw [h.extract_virtualHost hhost, ite_self] at hname
      exact hname
    have hne : n ≠ [] := by
      rw [hn]
      exact joinSegments_ne_nil h.kept (fun s hs => (mem_keptSegments.mp hs).2.1)
    have hextract := h.extract_virtualHost hhost
    rw [← hn] at hextract
    obtain ⟨hget, hhead, hdelete⟩ := route_key h hextract hhost hne
    rw [copy_virtualHost_iff h hhost hsrc hb hkey hn, hclean, ← hn]
    constructor
    · rintro ⟨-, -, -, hcopy⟩
      exact ⟨.inr hhost, hcopy⟩
    · rintro ⟨-, hcopy⟩
      exact ⟨hget, hhead, hdelete, hcopy⟩

section Runs

def bucketMode : Gateway where
  configuredBucket := [98]

def flatMode : Gateway := {}

/-- `b.localhost:9000`. -/
def virtualHost : Bytes := [98, 46] ++ localhost ++ [58, 57, 48, 48, 48]

theorem ownURL_bucket_and_virtualHost :
    OwnURL bucketMode localhost [47, 98, 47, 100, 47, 107] [100, 47, 107] [98] [108]
      [47, 98, 47, 100, 47, 107] ∧
    OwnURL flatMode virtualHost [47, 100, 47, 107] [100, 47, 107] [98] [108]
      [47, 98, 47, 100, 47, 107] := by
  refine ⟨(ownURL_iff bucketMode localhost [47, 98, 47, 100, 47, 107] [100, 47, 107] [98] [108]
    [47, 98, 47, 100, 47, 107] ?_ ?_ ?_ ?_).mpr ?_, (ownURL_iff flatMode virtualHost
    [47, 100, 47, 107] [100, 47, 107] [98] [108] [47, 98, 47, 100, 47, 107] ?_ ?_ ?_ ?_).mpr ?_⟩ <;>
    decide +kernel

/-- In flat mode `/a/k` is stored as `a/k`, read, deleted and copied as `k`; `/k` is stored as `k`
    and its GET lists the store. In bucket mode `/b//k` is stored as `k` and copied as `/k`. -/
theorem upload_not_at_ownURL :
    route flatMode .PUT localhost [47, 97, 47, 107] = .putObject [97, 47, 107] ∧
    route flatMode .GET localhost [47, 97, 47, 107] = .getObject [107] ∧
    route flatMode .DELETE localhost [47, 97, 47, 107] = .deleteObject [107] ∧
    handleCopyObject flatMode [97] [108] [47, 97, 47, 107] = .copyObject [107] [108] ∧
    route flatMode .PUT localhost [47, 107] = .putObject [107] ∧
    route flatMode .GET localhost [47, 107] = .listObjects ∧
    route bucketMode .PUT localhost [47, 98, 47, 47, 107] = .putObject [107] ∧
    handleCopyObject bucketMode [98] [108] [47, 98, 47, 47, 107] = .copyObject [47, 107] [108] ∧
    ¬ OwnURL flatMode localhost [47, 97, 47, 107] [97, 47, 107] [97] [108] [47, 97, 47, 107] ∧
    ¬ OwnURL flatMode localhost [47, 107] [107] [97] [108] [47, 107] ∧
    ¬ OwnURL bucketMode localhost [47, 98, 47, 47, 107] [107] [98] [108] [47, 98, 47, 47, 107] := by
  decide +kernel

end Runs

end Momo.S3

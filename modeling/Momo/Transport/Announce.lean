import Momo.Transport.S3Routes

/-! @momo src/transport/momo_tcp.go, src/transport/s3_communicator.go
    scheme:two ends of one message

    The announcement of an upload, from `SendMetadata` to `ReceiveMetadata`, on both transports. The
    native frame pads its fields with NUL bytes and cuts them at the first NUL; the S3 transport
    puts the name into a request line, from where it comes back through URL parsing and `path.Clean`. -/

namespace Momo.Metadata

open S3

/-! ### The request of the S3 transport -/

/-- What `ReceiveMetadata` looks at of the PUT request that `SendMetadata` writes; `others` are the
    values of the other headers. -/
structure PutRequest where
  target : Bytes
  hash : Bytes
  contentLength : Int
  others : List Bytes

/-- The name `validatedWireName` joins: without a remote path it ends at its first NUL. -/
def s3WireName (m : FileMetadata) : Except Err Bytes :=
  if m.remotePath = [] then .ok (trimNull m.name)
  else (normalizeVirtualPath m.remotePath).map (fun norm => norm ++ slash :: m.name)

def s3SendMetadata (token host : Bytes) (m : FileMetadata) : Except Err PutRequest := do
  let wire ← (s3WireName m).mapError (.wrap "invalid path: %w" [])
  if wire.length > fileInfoLength then
    .error (.wrap "joined remote path exceeds maximum length of %d: %w" [.num fileInfoLength]
      (.sys .enametoolong))
  else if containsCRLF wire then .error (.wrap "invalid characters in path: %w" [] (.sys .ebadmsg))
  else match pathUnescape wire with
    | none => .error (.wrap "invalid wireName encoding: %w" [] (.sys .ebadmsg))
    | some decoded =>
      if (segments decoded).any hasPathTraversalChars then
        .error (.wrap "path traversal in wireName: %w" [] (.sys .ebadmsg))
      else if containsCRLF m.hash then .error (.wrap "invalid characters in hash: %w" [] (.sys .ebadmsg))
      else if containsCRLF token then
        .error (.wrap "invalid characters in auth token: %w" [] (.sys .ebadmsg))
      else if containsCRLF host then .error (.wrap "invalid characters in host: %w" [] (.sys .ebadmsg))
      else .ok ⟨slash :: wire, trimNull m.hash, m.size, [token, host]⟩

/-- A byte that `net/textproto` takes in a header value. -/
def headerByte (c : UInt8) : Bool := c = 9 || (32 ≤ c && c ≠ 127)

def trimBlanks (v : Bytes) : Bytes :=
  ((v.dropWhile fun c => c = 32 || c = 9).reverse.dropWhile fun c => c = 32 || c = 9).reverse

/-- The path of the URL. A blank ends the target and spoils the version behind it, a control byte or
    a negative length is refused, and the query is cut off. -/
def readRequest (r : PutRequest) : Option Bytes :=
  if r.target.any (fun c => c ≤ 32 || c = 127) || r.contentLength < 0 ||
      !(r.hash :: r.others).all (·.all headerByte) then none
  else pathUnescape (r.target.takeWhile (· ≠ 63))

def isStreamingLiteral (hash : Bytes) : Bool := (lit "STREAMING-").isPrefixOf hash

def s3Refused (rawPath hash : Bytes) : Option Err :=
  let cleanPath := pathClean rawPath
  if cleanPath = dot ∨ cleanPath = dotDot ∨ (dotDot ++ [slash]) <+: cleanPath ∨ cleanPath = [slash] then
    some (.wrap "invalid S3 path: %s: %w" [.str rawPath] (.sys .ebadmsg))
  else if hash ≠ [] ∧ hasPathTraversalChars hash then
    some (.wrap "invalid hash: %s: %w" [.str hash] (.sys .ebadmsg))
  else if isStreamingLiteral hash then
    some (.wrap "streaming upload on handshake path is unsupported: %w" [] (.sys .ebadmsg))
  else none

def s3ReceiveMetadata (r : PutRequest) : Except Err FileMetadata :=
  match readRequest r with
  | none => .error (.wrap "ReceiveMetadata ReadRequest failed: %v: %w" [] (.sys .ebadmsg))
  | some rawPath =>
    match s3Refused rawPath (trimBlanks r.hash) with
    | some e => .error e
    | none => .ok ⟨slashTrim (pathClean rawPath), trimBlanks r.hash, r.contentLength, [], 0⟩

/-! ### What arrives -/

/-- The peer gets an error, or the hash, the size and the wire name. -/
def Faithful (m : FileMetadata) (wire : Bytes) (received : Except Err FileMetadata) : Prop :=
  ∀ m', received = .ok m' → m'.hash = m.hash ∧ m'.size = m.size ∧ m'.name = wire

def TcpTaken (hash name : Bytes) : Prop :=
  ¬ containsCRLF hash ∧ ¬ (hash = [] ∨ hasPathTraversalChars hash) ∧ ¬ containsCRLF name ∧
    (validatePath name).isOk

def S3Taken (r : PutRequest) : Prop :=
  ∃ path, readRequest r = some path ∧ s3Refused path (trimBlanks r.hash) = none

theorem trimNull_eq_self {s : Bytes} : trimNull s = s ↔ 0 ∉ s := by
  rw [trimNull, List.takeWhile_eq_self_iff]
  exact ⟨fun h hz => by simpa using h 0 hz, fun h c hc => by simpa using fun he : c = 0 => h (he ▸ hc)⟩

theorem tcp_faithful_iff {m : FileMetadata} {frame : Bytes} (hmin : -2 ^ 63 ≤ m.size)
    (hmax : m.size < 2 ^ 63) (hsend : sendMetadata m = .ok frame) :
    ∃ wire, wireName m = .ok wire ∧ (Faithful m wire (receiveMetadata frame) ↔
      (TcpTaken (trimNull (m.hash.take hashLength)) (trimNull wire) →
        sanitizeLog (trimNull (m.hash.take hashLength)) = m.hash ∧ 0 ∉ wire)) := by
  obtain ⟨wire, hwire, hlen, rfl⟩ := sendMetadata_eq_ok hsend
  refine ⟨wire, hwire, ?_⟩
  have hhash : trimNull (field hashLength m.hash) = trimNull (m.hash.take hashLength) := by
    rw [field, trimNull_append_zeros]
  have hparse : safeParseInt (field fileInfoLength (appendInt (Int64.ofInt m.size))) =
      .ok (Int64.ofInt m.size) := by
    rw [field, List.take_of_length_le (length_appendInt_le _), safeParseInt_appendInt]
  have hsize : (Int64.ofInt m.size).toInt = m.size := Int64.toInt_ofInt_of_le hmin hmax
  rw [← trimNull_eq_self (s := wire)]
  set h := trimNull (m.hash.take hashLength)
  -- the frame is read field by field, and the size always parses
  have hrecv : ∀ m', receiveMetadata (field hashLength m.hash ++ (field fileInfoLength wire ++
      field fileInfoLength (appendInt (Int64.ofInt m.size)))) = .ok m' ↔
      TcpTaken h (trimNull wire) ∧ m' = ⟨trimNull wire, sanitizeLog h, m.size, [], 0⟩ := by
    intro m'
    rw [receiveMetadata, if_neg (by simp [length_field, Nat.add_assoc])]
    simp only [List.take_left' (length_field ..), List.drop_left' (length_field ..), hhash,
      trimNull_field hlen, List.take_of_length_le (length_field ..).le, hparse, TcpTaken]
    split_ifs with hcrlf hbad hname
    · simp [hcrlf]
    · simp [hbad]
    · simp [hname]
    · cases hv : validatePath (trimNull wire) with
      | error e => simp [Except.mapError, Except.bind, bind, Except.isOk, Except.toBool]
      | ok u =>
        simp only [Except.mapError, bind, Except.bind, hsize, pure, Except.pure, Except.ok.injEq]
        exact ⟨fun he => ⟨⟨hcrlf, hbad, hname, rfl⟩, he.symm⟩, fun he => he.2.symm⟩
  simp only [Faithful, hrecv]
  constructor
  · exact fun hf ht => ⟨(hf _ ⟨ht, rfl⟩).1, (hf _ ⟨ht, rfl⟩).2.2⟩
  · rintro himp m' ⟨ht, rfl⟩
    exact ⟨(himp ht).1, rfl, (himp ht).2⟩

/-! ### Names in a URL -/

theorem pathUnescape_cons {c : UInt8} (hc : c ≠ 37) (s : Bytes) :
    pathUnescape (c :: s) = (pathUnescape s).map (c :: ·) := by
  rw [pathUnescape.eq_def]
  simp only [if_neg hc]

theorem pathUnescape_plain {s : Bytes} (h : 37 ∉ s) : pathUnescape s = some s := by
  induction s with
  | nil => rfl
  | cons c s ih =>
    rw [List.mem_cons, not_or] at h
    rw [pathUnescape_cons (Ne.symm h.1), ih h.2]
    rfl

/-- Decoding shortens every text that has an escape. -/
theorem pathUnescape_length {s d : Bytes} (h : pathUnescape s = some d) :
    d.length ≤ s.length ∧ (s.length ≤ d.length → 37 ∉ s) := by
  fun_induction pathUnescape s generalizing d with
  | case1 => simp_all
  | case2 a b rest ih =>
    obtain ⟨hi, -, h⟩ := Option.bind_eq_some_iff.mp h
    obtain ⟨lo, -, h⟩ := Option.bind_eq_some_iff.mp h
    obtain ⟨tail, htail, h⟩ := Option.bind_eq_some_iff.mp h
    cases h
    have := (ih htail).1
    simp only [List.length_cons]
    omega
  | case3 => cases h
  | case4 c rest hc ih =>
    obtain ⟨tail, htail, rfl⟩ := Option.map_eq_some_iff.mp h
    simp only [List.length_cons, Nat.add_le_add_iff_right, List.mem_cons, not_or]
    exact ⟨(ih htail).1, fun hle => ⟨Ne.symm hc, (ih htail).2 hle⟩⟩

theorem received_name_iff {wire decoded path : Bytes} (hdecoded : pathUnescape wire = some decoded)
    (hsafe : ¬ (segments decoded).any hasPathTraversalChars)
    (hpath : pathUnescape ((slash :: wire).takeWhile (· ≠ 63)) = some path) :
    slashTrim (pathClean path) = wire ↔
      37 ∉ wire ∧ 63 ∉ wire ∧ joinSegments (keptSegments wire) = wire := by
  -- a name without escapes and query comes back cleaned
  have hplain : 37 ∉ wire → wire.takeWhile (· ≠ 63) = wire →
      path = slash :: wire ∧ slashTrim (pathClean path) = joinSegments (keptSegments wire) := by
    intro hesc hquery
    rw [pathUnescape_plain hesc, Option.some.injEq] at hdecoded
    subst hdecoded
    have hdots : dotDot ∉ segments (slash :: wire) := by
      rw [segments_cons_slash]
      intro hmem
      rcases List.mem_cons.mp hmem with h | h
      · cases h
      · exact hsafe (List.any_eq_true.mpr ⟨dotDot, h, by decide⟩)
    have hpath' : path = slash :: wire := by
      rw [List.takeWhile_cons_of_pos (by decide), hquery, pathUnescape_plain (by
        simpa using ⟨by decide, hesc⟩)] at hpath
      exact (Option.some.inj hpath).symm
    refine ⟨hpath', ?_⟩
    rw [hpath', pathClean_eq hdots, if_pos (by rfl), slashTrim_cons_slash, keptSegments,
      segments_cons_slash]
    rfl
  constructor
  · intro hname
    obtain ⟨d, hd, rfl⟩ : ∃ d, pathUnescape (wire.takeWhile (· ≠ 63)) = some d ∧ slash :: d = path := by
      rw [List.takeWhile_cons_of_pos (by decide), pathUnescape_cons (by decide)] at hpath
      exact Option.map_eq_some_iff.mp hpath
    obtain ⟨X, hX⟩ : ∃ X, pathClean (slash :: d) = slash :: X := ⟨_, by simp only [pathClean]; rfl⟩
    have hclean := length_pathClean_le (p := slash :: d) rfl
    rw [hX, slashTrim_cons_slash] at hname
    rw [hX, hname] at hclean
    have hcut := (List.takeWhile_prefix (· ≠ 63) (l := wire)).length_le
    obtain ⟨hle, hesc⟩ := pathUnescape_length hd
    simp only [List.length_cons] at hclean
    have hquery : wire.takeWhile (· ≠ 63) = wire :=
      (List.takeWhile_prefix _).eq_of_length (by omega)
    have hno : 37 ∉ wire := by
      rw [hquery] at hesc
      exact hesc (by omega)
    refine ⟨hno, fun hmem => ?_, ?_⟩
    · simpa using List.takeWhile_eq_self_iff.mp hquery 63 hmem
    · rw [← (hplain hno hquery).2, hX, slashTrim_cons_slash, hname]
  · rintro ⟨hesc, hq, hclean⟩
    have hquery : wire.takeWhile (· ≠ 63) = wire :=
      List.takeWhile_eq_self_iff.mpr fun c hc => by simpa using fun he : c = 63 => hq (he ▸ hc)
    rw [(hplain hesc hquery).2, hclean]

theorem s3ReceiveMetadata_eq_ok {r : PutRequest} {m : FileMetadata} :
    s3ReceiveMetadata r = .ok m ↔ ∃ path, readRequest r = some path ∧
      s3Refused path (trimBlanks r.hash) = none ∧
      m = ⟨slashTrim (pathClean path), trimBlanks r.hash, r.contentLength, [], 0⟩ := by
  unfold s3ReceiveMetadata
  cases readRequest r with
  | none => simp
  | some path =>
    cases hrefused : s3Refused path (trimBlanks r.hash) with
    | none => simp [hrefused, eq_comm]
    | some e => simp [hrefused]

theorem s3_faithful_iff {token host : Bytes} {m : FileMetadata} {r : PutRequest}
    (hsend : s3SendMetadata token host m = .ok r) :
    ∃ wire, s3WireName m = .ok wire ∧ (Faithful m wire (s3ReceiveMetadata r) ↔
      (S3Taken r → trimBlanks (trimNull m.hash) = m.hash ∧ 37 ∉ wire ∧ 63 ∉ wire ∧
        joinSegments (keptSegments wire) = wire)) := by
  obtain ⟨wire, hwire, h⟩ := CASStore.bind_eq_ok.mp hsend
  refine ⟨wire, CASStore.mapError_eq_ok.mp hwire, ?_⟩
  cases hdecoded : pathUnescape wire with
  | none =>
    simp only [hdecoded] at h
    split_ifs at h
  | some decoded =>
    simp only [hdecoded] at h
    split_ifs at h with _ _ hsafe
    cases h
    set r : PutRequest := ⟨slash :: wire, trimNull m.hash, m.size, [token, host]⟩
    have hname : ∀ path, readRequest r = some path → (slashTrim (pathClean path) = wire ↔
        37 ∉ wire ∧ 63 ∉ wire ∧ joinSegments (keptSegments wire) = wire) := by
      intro path hpath
      unfold readRequest at hpath
      split_ifs at hpath
      exact received_name_iff hdecoded hsafe hpath
    constructor
    · rintro hf ⟨path, hpath, htaken⟩
      obtain ⟨hh, -, hn⟩ := hf _ (s3ReceiveMetadata_eq_ok.mpr ⟨path, hpath, htaken, rfl⟩)
      exact ⟨hh, (hname path hpath).mp hn⟩
    · intro himp m' hm'
      obtain ⟨path, hpath, htaken, rfl⟩ := s3ReceiveMetadata_eq_ok.mp hm'
      obtain ⟨hh, hn⟩ := himp ⟨path, hpath, htaken⟩
      exact ⟨hh, rfl, (hname path hpath).mpr hn⟩

/-- What either sender takes arrives as it was, or is refused, exactly when a hash that the receiver takes
    is not cut or rewritten, and a wire name neither has a NUL (native) nor an escape, a question mark
    or a segment that `path.Clean` drops (S3). -/
theorem announcement_faithful_iff (token host : Bytes) {m : FileMetadata} (hmin : -2 ^ 63 ≤ m.size)
    (hmax : m.size < 2 ^ 63) :
    (∀ frame, sendMetadata m = .ok frame → ∃ wire, wireName m = .ok wire ∧
      (Faithful m wire (receiveMetadata frame) ↔
        (TcpTaken (trimNull (m.hash.take hashLength)) (trimNull wire) →
          sanitizeLog (trimNull (m.hash.take hashLength)) = m.hash ∧ 0 ∉ wire))) ∧
    ∀ r, s3SendMetadata token host m = .ok r → ∃ wire, s3WireName m = .ok wire ∧
      (Faithful m wire (s3ReceiveMetadata r) ↔
        (S3Taken r → trimBlanks (trimNull m.hash) = m.hash ∧ 37 ∉ wire ∧ 63 ∉ wire ∧
          joinSegments (keptSegments wire) = wire)) :=
  ⟨fun _ h => tcp_faithful_iff hmin hmax h, fun _ h => s3_faithful_iff h⟩

theorem plain_announcement_arrives : ∃ frame r,
    sendMetadata ⟨lit "a", lit "ab", 7, lit "d", 0⟩ = .ok frame ∧
    s3SendMetadata [] [] ⟨lit "a", lit "ab", 7, lit "d", 0⟩ = .ok r ∧
    Faithful ⟨lit "a", lit "ab", 7, lit "d", 0⟩ (lit "d/a") (receiveMetadata frame) ∧
    Faithful ⟨lit "a", lit "ab", 7, lit "d", 0⟩ (lit "d/a") (s3ReceiveMetadata r) := by
  have h := announcement_faithful_iff [] [] (m := ⟨lit "a", lit "ab", 7, lit "d", 0⟩)
    (by decide) (by decide)
  refine ⟨_, _, rfl, rfl, ?_, ?_⟩
  · obtain ⟨wire, hwire, hiff⟩ := h.1 _ rfl
    cases hwire
    exact hiff.mpr fun _ => by decide
  · obtain ⟨wire, hwire, hiff⟩ := h.2 _ rfl
    cases hwire
    exact hiff.mpr fun _ => by decide

/-- The native transport ends a name at its NUL byte, and the S3 transport decodes the escape that the
    sender put on the request line as it was. -/
theorem names_arrive_changed :
    ((sendMetadata ⟨[97, 0, 98], lit "ab", 7, [], 0⟩).bind receiveMetadata).map (·.name) = .ok (lit "a") ∧
    ((s3SendMetadata [] [] ⟨lit "a%41", lit "ab", 7, [], 0⟩).bind s3ReceiveMetadata).map (·.name) =
      .ok (lit "aA") := by
  constructor <;> decide +kernel

end Momo.Metadata

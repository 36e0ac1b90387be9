import Momo.Common.Wire
import Momo.Storage.CASSpec

/-! @momo src/transport/momo_tcp.go, src/common/string.go, src/common/log.go
    scheme:one fixed frame

    The announcement of an upload on a native connection, three NUL-padded fields of 64 bytes:

        hash   |   remote path / name   |   decimal size -/

namespace Momo.Metadata

def hashLength : ℕ := 64

/-- `strings.ContainsAny(s, "\r\n")`. -/
def containsCRLF (s : Bytes) : Bool := s.any (fun c => c = 13 || c = 10)

/-- `url.PathUnescape`; `none` is its `EscapeError`. -/
def pathUnescape : Bytes → Option Bytes
  | [] => some []
  | c :: rest =>
    if c = 37 then
      match rest with
      | a :: b :: rest => do
        let hi ← unhexDigit a
        let lo ← unhexDigit b
        let tail ← pathUnescape rest
        some (UInt8.ofNat (16 * hi + lo) :: tail)
      | _ => none
    else (pathUnescape rest).map (c :: ·)

def field (width : ℕ) (text : Bytes) : Bytes :=
  text.take width ++ List.replicate (width - text.length) 0

def trimNull (b : Bytes) : Bytes := b.takeWhile (· ≠ 0)

def sanitizeLog (input : Bytes) : Bytes := input.map (fun b => if b < 32 ∧ b ≠ 9 then 95 else b)

def wireName (m : FileMetadata) : Except Err Bytes :=
  if m.remotePath = [] then .ok m.name
  else (normalizeVirtualPath m.remotePath).map (fun normalized => normalized ++ slash :: m.name)

/-- The frame of `MomoTCPCommunicator.SendMetadata`. -/
def sendMetadata (m : FileMetadata) : Except Err Bytes := do
  let wire ← (wireName m).mapError (.wrap "invalid remote path: %w" [])
  if wire.length > fileInfoLength then
    .error (.wrap "metadata name exceeds limit: %w" [] (.sys .enametoolong))
  else if containsCRLF wire then
    .error (.wrap "invalid characters in wireName: %w" [] (.sys .ebadmsg))
  else match pathUnescape wire with
    | none => .error (.wrap "invalid wireName encoding: %w" [] (.sys .ebadmsg))
    | some decoded =>
      if (segments decoded).any hasPathTraversalChars then
        .error (.wrap "path traversal in wireName: %w" [] (.sys .ebadmsg))
      else .ok (field hashLength m.hash ++ (field fileInfoLength wire ++
        field fileInfoLength (appendInt (Int64.ofInt m.size))))

def receiveMetadata (stream : Bytes) : Except Err FileMetadata := do
  if stream.length < hashLength + fileInfoLength + fileInfoLength then
    .error (.text (if stream = [] then "EOF" else "unexpected EOF"))
  else
    let rawHash := trimNull (stream.take hashLength)
    let name := trimNull ((stream.drop hashLength).take fileInfoLength)
    if containsCRLF rawHash then
      .error (.wrap "invalid hash: contains CRLF: %w" [] (.sys .ebadmsg))
    else if rawHash = [] ∨ hasPathTraversalChars rawHash then
      .error (.wrap "invalid hash: %s: %w" [.str rawHash] (.sys .ebadmsg))
    else if containsCRLF name then
      .error (.wrap "invalid name: contains CRLF: %w" [] (.sys .ebadmsg))
    else do
      (validatePath name).mapError (.wrap "invalid name: %w" [])
      let size ← safeParseInt
        (((stream.drop hashLength).drop fileInfoLength).take fileInfoLength)
      return ⟨name, sanitizeLog rawHash, size.toInt, [], 0⟩

/-! ### From one end to the other -/

theorem length_field (width : ℕ) (text : Bytes) : (field width text).length = width := by
  simp only [field, List.length_append, List.length_take, List.length_replicate]
  omega

theorem trimNull_append_zeros (k : ℕ) : ∀ text : Bytes,
    trimNull (text ++ List.replicate k 0) = trimNull text
  | [] => by cases k <;> simp [trimNull, List.replicate_succ]
  | c :: text => by
      have ih := trimNull_append_zeros k text
      simp only [trimNull] at ih
      simp only [trimNull, List.cons_append, List.takeWhile_cons, ih]

theorem trimNull_field {width : ℕ} {text : Bytes} (h : text.length ≤ width) :
    trimNull (field width text) = trimNull text := by
  rw [field, List.take_of_length_le h, trimNull_append_zeros]

theorem trimNull_hashBytes [Sha256] (x : Bytes) : trimNull (hashBytes x) = hashBytes x := by
  have hdigit : ∀ n : Fin 16, decide (hexDigit n ≠ 0) = true := by decide
  refine List.takeWhile_eq_self_iff.mpr fun c hc => ?_
  obtain ⟨n, rfl⟩ := mem_hexEncode hc
  exact hdigit n

theorem sanitizeLog_hashBytes [Sha256] (x : Bytes) : sanitizeLog (hashBytes x) = hashBytes x := by
  have hdigit : ∀ n : Fin 16, (if hexDigit n < 32 ∧ hexDigit n ≠ 9 then 95 else hexDigit n) =
      hexDigit n := by decide
  refine (List.map_congr_left fun c hc => ?_).trans (List.map_id _)
  obtain ⟨n, rfl⟩ := mem_hexEncode hc
  exact hdigit n

theorem sendMetadata_eq_ok {m : FileMetadata} {frame : Bytes} (h : sendMetadata m = .ok frame) :
    ∃ wire, wireName m = .ok wire ∧ wire.length ≤ fileInfoLength ∧
      frame = field hashLength m.hash ++ (field fileInfoLength wire ++
        field fileInfoLength (appendInt (Int64.ofInt m.size))) := by
  obtain ⟨wire, hwire, h⟩ := CASStore.bind_eq_ok.mp h
  refine ⟨wire, CASStore.mapError_eq_ok.mp hwire, ?_⟩
  split_ifs at h with hlen hcrlf
  split at h
  · cases h
  · split_ifs at h
    cases h
    exact ⟨not_lt.mp hlen, rfl⟩

theorem receiveMetadata_eq_ok {a b c : Bytes} {m : FileMetadata} (ha : a.length = hashLength)
    (hb : b.length = fileInfoLength) (hc : c.length = fileInfoLength)
    (h : receiveMetadata (a ++ (b ++ c)) = .ok m) :
    m.hash = sanitizeLog (trimNull a) ∧ m.name = trimNull b ∧
      ∃ size, safeParseInt c = .ok size ∧ m.size = size.toInt := by
  simp only [receiveMetadata, List.take_left' ha, List.drop_left' ha, List.take_left' hb,
    List.drop_left' hb, List.take_of_length_le hc.le] at h
  split_ifs at h
  obtain ⟨-, -, h⟩ := CASStore.bind_eq_ok.mp h
  obtain ⟨size, hsize, h⟩ := CASStore.bind_eq_ok.mp h
  cases h
  exact ⟨rfl, rfl, size, hsize, rfl⟩

theorem receiveMetadata_sent [Sha256] {m m' : FileMetadata} {x frame : Bytes}
    (hhash : m.hash = hashBytes x) (hmin : -2 ^ 63 ≤ m.size) (hmax : m.size < 2 ^ 63)
    (hsend : sendMetadata m = .ok frame) (hrecv : receiveMetadata frame = .ok m') :
    m'.hash = m.hash ∧ m'.size = m.size ∧
      ∃ wire, wireName m = .ok wire ∧ wire.length ≤ fileInfoLength ∧ m'.name = trimNull wire := by
  obtain ⟨wire, hwire, hlen, rfl⟩ := sendMetadata_eq_ok hsend
  obtain ⟨hh, hn, size, hparse, hsize⟩ := receiveMetadata_eq_ok (length_field _ _) (length_field _ _)
    (length_field _ _) hrecv
  have hfits : (hashBytes x).length ≤ hashLength := (length_hashBytes x).le
  refine ⟨?_, ?_, wire, hwire, hlen, ?_⟩
  · rw [hh, hhash, trimNull_field hfits, trimNull_hashBytes, sanitizeLog_hashBytes]
  · rw [field, List.take_of_length_le (length_appendInt_le _), safeParseInt_appendInt] at hparse
    rw [hsize, ← Except.ok.inj hparse, Int64.toInt_ofInt_of_le hmin hmax]
  · rw [hn, trimNull_field hlen]

end Momo.Metadata

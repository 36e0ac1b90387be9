import Momo.Storage.Meta
import Momo.Schemes.ByteFile

/-! @momo src/storage/volume_needle.go, src/storage/volume_blobstore.go
    scheme:frame codec

    A needle is one blob inside a volume file:

      magic(4) length(4) hash(32) flags(2) payload padding-to-8 crc32c(4) -/

namespace Momo

def needleMagic : Nat := 0x4D4F4D4F

def needleHeaderSize : Nat := 42

def needleOverhead : Nat := 46

/-- The next multiple of 8. -/
def alignTo8 (n : Nat) : Nat := (n + 7) / 8 * 8

/-! ### CRC-32C -/

def crcBit (c : BitVec 32) : BitVec 32 :=
  if c.getLsbD 0 then (c >>> 1) ^^^ 0x82F63B78#32 else c >>> 1

def crcByte (c : BitVec 32) (b : UInt8) : BitVec 32 :=
  crcBit^[8] (c ^^^ b.toBitVec.setWidth 32)

def crc32c (data : Bytes) : BitVec 32 := ~~~(data.foldl crcByte (BitVec.allOnes 32))

-- the check value of the polynomial, for "123456789"
example : crc32c [49, 50, 51, 52, 53, 54, 55, 56, 57] = 0xE3069283#32 := by decide +kernel

/-! ### Frames -/

/-- The 42 header bytes; lengths beyond 32 bits are truncated by the conversion to `uint32`. -/
def needleHeader (hash : Bytes) (payloadLen flags : Nat) : Bytes :=
  bePut 4 needleMagic ++ bePut 4 payloadLen ++ hash ++ bePut 2 flags

/-- The flags word enters as zero whatever is written. -/
def needleCRC (hash payload : Bytes) : BitVec 32 :=
  crc32c (needleHeader hash payload.length 0 ++ payload)

/-- Everything `writeNeedle` writes, in order. -/
def needleFrame (hash payload : Bytes) (flags : Nat) : Bytes :=
  needleHeader hash payload.length flags ++
    (payload ++ (List.replicate (alignTo8 payload.length - payload.length) 0 ++
      bePut 4 (needleCRC hash payload).toNat))

/-- `writeNeedle` at the file position `pos`: the file and its position afterwards. -/
def writeNeedle (file : Bytes) (pos : Nat) (hash payload : Bytes) (flags : Nat) : Bytes × Nat :=
  (writeAt 0 file pos (needleFrame hash payload flags),
    pos + (needleFrame hash payload flags).length)

structure Needle where
  hash : Bytes
  flags : Nat
  payload : Bytes
  crc : Nat
  deriving DecidableEq

def errInvalidNeedleMagic : Err := .text "invalid needle magic"

def errCRC32Mismatch : Err := .text "CRC32 mismatch"

def fileReadAt (file : Bytes) (offset n : Nat) : Except Err Bytes :=
  match readAt file offset n with
  | some b => .ok b
  | none => .error (.text "EOF")

def readNeedle (file : Bytes) (offset : Nat) : Except Err Needle := do
  let buf ← fileReadAt file offset needleHeaderSize
  let payloadLen := beGet ((buf.drop 4).take 4)
  let hash := (buf.drop 8).take 32
  let flags := beGet ((buf.drop 40).take 2)
  if beGet (buf.take 4) ≠ needleMagic then .error errInvalidNeedleMagic
  else do
    let payload ← fileReadAt file (offset + needleHeaderSize) payloadLen
    let crcBuf ← fileReadAt file (offset + needleHeaderSize + alignTo8 payloadLen) 4
    if beGet crcBuf ≠ (needleCRC hash payload).toNat then .error errCRC32Mismatch
    else .ok ⟨hash, flags, payload, beGet crcBuf⟩

theorem le_alignTo8 (n : Nat) : n ≤ alignTo8 n := by unfold alignTo8; omega

theorem length_needleHeader {hash : Bytes} (hh : hash.length = 32) (n flags : Nat) :
    (needleHeader hash n flags).length = needleHeaderSize := by
  simp only [needleHeader, List.length_append, length_bePut, hh, needleHeaderSize]

theorem length_needleFrame {hash : Bytes} (hh : hash.length = 32) (payload : Bytes) (flags : Nat) :
    (needleFrame hash payload flags).length = needleOverhead + alignTo8 payload.length := by
  have := le_alignTo8 payload.length
  simp only [needleFrame, List.length_append, length_needleHeader hh, List.length_replicate,
    length_bePut, needleHeaderSize, needleOverhead]
  omega

theorem fileReadAt_of_hasAt {f d : Bytes} {off : Nat} (h : HasAt f off d) :
    fileReadAt f off d.length = .ok d := by
  rw [fileReadAt, h.readAt]

theorem needleHeader_fields {hash : Bytes} (hh : hash.length = 32) (n flags : Nat) :
    (needleHeader hash n flags).take 4 = bePut 4 needleMagic ∧
    ((needleHeader hash n flags).drop 4).take 4 = bePut 4 n ∧
    ((needleHeader hash n flags).drop 8).take 32 = hash ∧
    ((needleHeader hash n flags).drop 40).take 2 = bePut 2 flags := by
  have h4 : ∀ m, (bePut 4 m).length = 4 := length_bePut 4
  have h2 : (bePut 2 flags).length = 2 := length_bePut 2 flags
  refine ⟨?_, ?_, ?_, ?_⟩
  · rw [needleHeader, List.append_assoc, List.append_assoc, List.take_left' (h4 _)]
  · rw [needleHeader, List.append_assoc, List.append_assoc, List.drop_left' (h4 _),
      List.take_left' (h4 _)]
  · rw [needleHeader, List.append_assoc, List.drop_left' (by simp), List.take_left' hh]
  · rw [needleHeader, List.drop_left' (by simp [hh]), List.take_of_length_le (by omega)]

theorem readNeedle_frame {file hash payload : Bytes} {offset flags : Nat} (hh : hash.length = 32)
    (hlen : payload.length < 2 ^ 32) (h : HasAt file offset (needleFrame hash payload flags)) :
    readNeedle file offset =
      .ok ⟨hash, flags % 256 ^ 2, payload, (needleCRC hash payload).toNat⟩ := by
  have hpad := le_alignTo8 payload.length
  -- the four parts of the frame, each at its place
  obtain ⟨hhead, hrest⟩ := HasAt.append.mp h
  rw [length_needleHeader hh] at hrest
  obtain ⟨hpay, hrest⟩ := HasAt.append.mp hrest
  have hcrc := (HasAt.append.mp hrest).2
  rw [List.length_replicate, Nat.add_assoc, Nat.add_sub_cancel' hpad] at hcrc
  have hread1 := fileReadAt_of_hasAt hhead
  have hread2 := fileReadAt_of_hasAt hpay
  have hread3 := fileReadAt_of_hasAt hcrc
  rw [length_needleHeader hh] at hread1
  rw [length_bePut] at hread3
  obtain ⟨f1, f2, f3, f4⟩ := needleHeader_fields hh payload.length flags
  have hn : payload.length % 256 ^ 4 = payload.length := Nat.mod_eq_of_lt (by omega)
  have hmagic : needleMagic % 256 ^ 4 = needleMagic := by decide
  have hc : (needleCRC hash payload).toNat % 256 ^ 4 = (needleCRC hash payload).toNat :=
    Nat.mod_eq_of_lt (needleCRC hash payload).isLt
  simp only [readNeedle, hread1, f1, f2, f3, f4, beGet_bePut, hn, hmagic, hread2, hread3, hc,
    bind, Except.bind, ne_eq, not_true_eq_false, if_false]

theorem fileReadAt_eq_ok {f d : Bytes} {off n : Nat} (h : fileReadAt f off n = .ok d) :
    d.length = n ∧ (n ≠ 0 → off + n ≤ f.length) := by
  rw [fileReadAt] at h
  cases hr : readAt f off n with
  | none => rw [hr] at h; cases h
  | some b =>
    rw [hr] at h
    cases h
    exact readAt_some hr

theorem readNeedle_eq_ok {file : Bytes} {offset : Nat} {needle : Needle}
    (h : readNeedle file offset = .ok needle) :
    needle.payload.length < 2 ^ 32 ∧
      offset + (needleOverhead + alignTo8 needle.payload.length) ≤ file.length := by
  unfold readNeedle at h
  simp only [bind, Except.bind] at h
  split at h
  · cases h
  rename_i buf hbuf
  split_ifs at h
  split at h
  · cases h
  rename_i payload hpayload
  split at h
  · cases h
  rename_i crcBuf hcrc
  split_ifs at h
  cases h
  have hfield : ((buf.drop 4).take 4).length = 4 := by
    have := (fileReadAt_eq_ok hbuf).1
    rw [List.length_take, List.length_drop, this]
    decide
  have hlt := beGet_lt ((buf.drop 4).take 4)
  have hcrcEnd := (fileReadAt_eq_ok hcrc).2 (by decide)
  rw [hfield] at hlt
  rw [← (fileReadAt_eq_ok hpayload).1] at hlt hcrcEnd
  refine ⟨by omega, ?_⟩
  simp only [needleHeaderSize, needleOverhead] at hcrcEnd ⊢
  omega

end Momo

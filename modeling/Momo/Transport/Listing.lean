import Momo.Transport.Metadata

/-! @momo src/transport/momo_tcp.go, src/common/string.go | scheme:counted packets

    The LIST response on a native connection: a count of four bytes and packets of 192 bytes, each
    laid out as an announcement. The count is that of the list; entries with a hash or a name too
    long for its field are left out behind it. -/

namespace Momo.Listing

open Metadata (field hashLength trimNull)

def wireName (f : FileMetadata) : Bytes :=
  if f.remotePath ≠ [] then f.remotePath ++ slash :: f.name else f.name

def Fits (f : FileMetadata) : Prop :=
  f.hash.length ≤ hashLength ∧ (wireName f).length ≤ fileInfoLength

instance (f : FileMetadata) : Decidable (Fits f) := inferInstanceAs (Decidable (_ ∧ _))

/-- One round of the loop over the files: the bytes it writes, none for an entry it skips. -/
def listPacket (f : FileMetadata) : Except Err Bytes :=
  if f.hash.length > hashLength then .ok []
  else if (wireName f).length > fileInfoLength then .ok []
  else do
    let size ← (writePaddedInt (Int64.ofInt f.size) fileInfoLength).mapError fun _ =>
      .wrap "failed to format file size: %v: %w" [] (.sys .einval)
    return field hashLength f.hash ++ (field fileInfoLength (wireName f) ++ size)

/-- The LIST branch of `HandshakeServer` for a peer: what it writes. -/
def listResponse (files : List FileMetadata) : Except Err Bytes := do
  let packets ← files.mapM listPacket
  return bePut 4 files.length ++ packets.flatten

def decodePacket (packet : Bytes) : Except Err (Bytes × Bytes × Int64) := do
  let size ← safeParseInt ((packet.drop hashLength).drop fileInfoLength)
  return (trimNull (packet.take hashLength), trimNull ((packet.drop hashLength).take fileInfoLength), size)

def readPackets : ℕ → Bytes → Except Err (List (Bytes × Bytes × Int64) × Bytes)
  | 0, stream => .ok ([], stream)
  | n + 1, stream =>
    if stream.length < 192 then .error (.text "unexpected EOF")
    else do
      let entry ← decodePacket (stream.take 192)
      let (entries, rest) ← readPackets n (stream.drop 192)
      return (entry :: entries, rest)

/-- The count is followed by exactly that many packets, and they decode to the entries. -/
def Consistent (response : Bytes) (entries : List (Bytes × Bytes × Int64)) : Prop :=
  readPackets (beGet (response.take 4)) (response.drop 4) = .ok (entries, [])

def entryOf (f : FileMetadata) : Bytes × Bytes × Int64 := (f.hash, wireName f, Int64.ofInt f.size)

def packetOf (f : FileMetadata) : Bytes :=
  field hashLength f.hash ++ (field fileInfoLength (wireName f) ++
    field fileInfoLength (appendInt (Int64.ofInt f.size)))

theorem length_packetOf (f : FileMetadata) : (packetOf f).length = 192 := by
  simp only [packetOf, List.length_append, Metadata.length_field]
  rfl

theorem listPacket_eq (f : FileMetadata) :
    listPacket f = .ok (if Fits f then packetOf f else []) := by
  have hsize : writePaddedInt (Int64.ofInt f.size) fileInfoLength =
      .ok (field fileInfoLength (appendInt (Int64.ofInt f.size))) := by
    have hlen := length_appendInt_le (Int64.ofInt f.size)
    rw [writePaddedInt, if_neg (not_lt.mpr hlen), field, List.take_of_length_le hlen]
  rw [listPacket]
  by_cases hfit : Fits f
  · rw [if_neg (not_lt.mpr hfit.1), if_neg (not_lt.mpr hfit.2), hsize, if_pos hfit]
    rfl
  · rw [if_neg hfit]
    split_ifs with hhash hname
    · rfl
    · rfl
    · exact absurd ⟨not_lt.mp hhash, not_lt.mp hname⟩ hfit

theorem listResponse_eq (files : List FileMetadata) :
    listResponse files = .ok (bePut 4 files.length ++ (files.filter Fits).flatMap packetOf) := by
  have hpackets : ∀ l : List FileMetadata,
      l.mapM listPacket = .ok (l.map fun f => if Fits f then packetOf f else []) := by
    intro l
    induction l with
    | nil => rfl
    | cons f l ih =>
      rw [List.mapM_cons, listPacket_eq, ih]
      rfl
  have hflat : ∀ l : List FileMetadata,
      (l.map fun f => if Fits f then packetOf f else []).flatten = (l.filter Fits).flatMap packetOf := by
    intro l
    induction l with
    | nil => rfl
    | cons f l ih => by_cases hf : Fits f <;> simp [hf, ih]
  rw [listResponse, hpackets, ← hflat]
  rfl

theorem decodePacket_packetOf {f : FileMetadata} (hf : Fits f) :
    decodePacket (packetOf f) = .ok (trimNull f.hash, trimNull (wireName f), Int64.ofInt f.size) := by
  have hlen := length_appendInt_le (Int64.ofInt f.size)
  have hparse : safeParseInt (field fileInfoLength (appendInt (Int64.ofInt f.size))) =
      .ok (Int64.ofInt f.size) := by
    rw [field, List.take_of_length_le hlen, safeParseInt_appendInt]
  simp only [decodePacket, packetOf, List.drop_left' (Metadata.length_field ..),
    List.take_left' (Metadata.length_field ..), hparse, Metadata.trimNull_field hf.1,
    Metadata.trimNull_field hf.2]
  rfl

theorem readPackets_eq {files : List FileMetadata} (hfits : ∀ f ∈ files, Fits f) {n : ℕ}
    {entries : List (Bytes × Bytes × Int64)} :
    readPackets n (files.flatMap packetOf) = .ok (entries, []) ↔ n = files.length ∧
      entries = files.map fun f => (trimNull f.hash, trimNull (wireName f), Int64.ofInt f.size) := by
  induction files generalizing n entries with
  | nil => cases n <;> simp [readPackets, eq_comm]
  | cons f files ih =>
    have hlen := length_packetOf f
    rw [List.flatMap_cons]
    cases n with
    | zero =>
      have hne : packetOf f ++ files.flatMap packetOf ≠ [] := fun h => by
        have := congrArg List.length h
        rw [List.length_append, hlen, List.length_nil] at this
        omega
      simp [readPackets, hne]
    | succ n =>
      have hshort : ¬ (packetOf f ++ files.flatMap packetOf).length < 192 := by
        rw [List.length_append, hlen]
        omega
      rw [readPackets, if_neg hshort, List.take_left' hlen, List.drop_left' hlen,
        decodePacket_packetOf (hfits f List.mem_cons_self)]
      have ih := fun es => @ih (fun g hg => hfits g (List.mem_cons_of_mem _ hg)) n es
      rcases hrest : readPackets n (files.flatMap packetOf) with e | ⟨es, rest⟩
      · simp only [bind, Except.bind, reduceCtorEq, List.length_cons, Nat.add_right_cancel_iff,
          List.map_cons, false_iff, not_and]
        rintro rfl -
        have := (ih _).mpr ⟨rfl, rfl⟩
        rw [hrest] at this
        cases this
      · rw [hrest] at ih
        simp only [Except.ok.injEq, Prod.mk.injEq] at ih
        simp only [bind, Except.bind, pure, Except.pure, Except.ok.injEq, Prod.mk.injEq,
          List.length_cons, Nat.add_right_cancel_iff, List.map_cons]
        constructor
        · rintro ⟨rfl, rfl⟩
          obtain ⟨hn, hes⟩ := (ih es).mp ⟨rfl, rfl⟩
          exact ⟨hn, by rw [hes]⟩
        · rintro ⟨rfl, rfl⟩
          obtain ⟨hes, hnil⟩ := (ih _).mpr ⟨rfl, rfl⟩
          exact ⟨by rw [hes], hnil⟩

/-- CORRECT: the response is one count and that many packets of the entries that fit, in order,
    exactly when as many entries fit as the 32 bits of the count say, and no text that goes into a
    field holds a NUL byte. -/
theorem listResponse_consistent_iff (files : List FileMetadata) :
    ∃ response, listResponse files = .ok response ∧
      (Consistent response ((files.filter Fits).map entryOf) ↔
        files.length % 2 ^ 32 = (files.filter Fits).length ∧
          ∀ f ∈ files, Fits f → 0 ∉ f.hash ∧ 0 ∉ wireName f) := by
  have hfits : ∀ f ∈ files.filter Fits, Fits f := fun f hf => of_decide_eq_true (List.mem_filter.mp hf).2
  have hcount : (bePut 4 files.length).length = 4 := length_bePut ..
  have htrim : ∀ t : Bytes, t = trimNull t ↔ 0 ∉ t := fun t => by
    rw [eq_comm, trimNull, List.takeWhile_eq_self_iff]
    exact ⟨fun h hmem => by simpa using h 0 hmem, fun h x hx => by
      simpa using fun heq : x = 0 => h (heq ▸ hx)⟩
  refine ⟨_, listResponse_eq files, ?_⟩
  rw [Consistent, List.take_left' hcount, List.drop_left' hcount, beGet_bePut, readPackets_eq hfits]
  refine and_congr Iff.rfl ?_
  rw [List.map_inj_left]
  simp only [entryOf, Prod.mk.injEq, htrim, and_true, List.mem_filter, decide_eq_true_eq, and_imp]

theorem longName_counted :
    listResponse [⟨List.replicate 65 97, [49], 1, [], 0⟩] = .ok [0, 0, 0, 1] ∧
      ¬ Consistent [0, 0, 0, 1] [] := by
  constructor
  · decide +kernel
  · rw [Consistent]
    decide +kernel

end Momo.Listing

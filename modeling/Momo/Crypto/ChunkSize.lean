import Momo.Crypto.TamperEvidence

/-! @momo src/crypto/streaming.go, src/crypto/crypto.go | scheme:chunked stream codec

    `SetStreamChunkSize` lets a cipher cut its plaintext into chunks of another size. The plaintext
    comes from a reader that may hand it over in any pieces; `io.ReadFull` puts them together, so
    the chunks depend on the bytes alone. -/

namespace Momo.Crypto

/-! ### The plaintext reader -/

/-- What a reader does in one `Read`: how many bytes it returns at most, and whether it reports the
    end of the data together with the last of them. -/
structure ReadCall where
  limit : ℕ
  eager : Bool
  deriving DecidableEq

/-- A plaintext reader: the bytes left, and what its next calls do. After these it returns all it
    has room for, and the end of the data in a call of its own. -/
structure PlainReader where
  data : Bytes
  calls : List ReadCall := []
  deriving DecidableEq

/-- The loop of `io.ReadFull` with room for `room` more bytes: the bytes read and the reader after
    them. It ends when the room is full or the end of the data is reported. -/
def PlainReader.fill : (calls : List ReadCall) → (data : Bytes) → (room : ℕ) → Bytes × PlainReader
  | calls, data, 0 => ([], ⟨data, calls⟩)
  | [], data, room + 1 => (data.take (room + 1), ⟨data.drop (room + 1), []⟩)
  | call :: calls, data, room + 1 =>
    let n := min call.limit (room + 1)
    if data.drop n = [] ∧ call.eager then (data.take n, ⟨[], calls⟩)
    else
      let (more, r) := fill calls (data.drop n) (room + 1 - n)
      (data.take n ++ more, r)

/-- `io.ReadFull` of a plaintext reader. -/
inductive Filled
  | full | unexpectedEOF | eof
  deriving DecidableEq

def PlainReader.readFull (r : PlainReader) (room : ℕ) : Bytes × Filled × PlainReader :=
  let (got, r) := fill r.calls r.data room
  (got, if room ≤ got.length then .full else if got = [] then .eof else .unexpectedEOF, r)

theorem PlainReader.fill_eq (calls : List ReadCall) (data : Bytes) (room : ℕ) :
    (fill calls data room).1 = data.take room ∧ (fill calls data room).2.data = data.drop room := by
  induction calls generalizing data room with
  | nil => cases room <;> simp [fill]
  | cons call calls ih =>
    cases room with
    | zero => simp [fill]
    | succ room =>
      set n := min call.limit (room + 1) with hn
      have hle : n ≤ room + 1 := by omega
      rw [fill]
      simp only [← hn]
      split_ifs with hend
      · have hlen : data.length ≤ n := List.drop_eq_nil_iff.mp hend.1
        simp [List.take_of_length_le hlen, List.take_of_length_le (hlen.trans hle),
          List.drop_of_length_le (hlen.trans hle)]
      · obtain ⟨htake, hdrop⟩ := ih (data.drop n) (room + 1 - n)
        constructor
        · simp only [htake, ← List.take_add, Nat.add_sub_cancel' hle]
        · simp only [hdrop, List.drop_drop, Nat.add_sub_cancel' hle]

/-! ### Encrypting with a chunk size -/

def tagSize : ℕ := 16

structure Cipher where
  key : Bytes
  chunkSize : ℤ
  deriving DecidableEq

def Cipher.newCipher (key : Bytes) : Cipher := ⟨key, Crypto.chunkSize⟩

def Cipher.setStreamChunkSize (c : Cipher) (n : ℤ) : Option Err × Cipher :=
  if n < minChunkSize ∨ n > maxChunkSize then
    (some (.wrap "crypto: invalid stream chunk size %d (must be within [%d, %d]): %w"
      [.num n, .num minChunkSize, .num maxChunkSize] (.sys .einval)), c)
  else (none, { c with chunkSize := n })

theorem Cipher.streamChunk_of_accepted {c : Cipher} {n : ℤ}
    (hset : (c.setStreamChunkSize n).1 = none) :
    streamChunk n = n.toNat ∧ (c.setStreamChunkSize n).2 = ⟨c.key, n⟩ ∧ (minChunkSize : ℤ) ≤ n := by
  by_cases hbad : n < minChunkSize ∨ n > maxChunkSize
  · rw [setStreamChunkSize, if_pos hbad] at hset
    cases hset
  · rw [setStreamChunkSize, if_neg hbad]
    exact ⟨if_neg hbad, rfl, not_lt.mp fun h => hbad (.inl h)⟩

variable [Aead]

/-- The chunk loop of `EncryptStream` from chunk `index` on. A round that goes on has read a whole
    chunk, so one more than the length of the plaintext is enough fuel. -/
def encryptReads (key seed : Bytes) (chunk : ℕ) : (fuel index : ℕ) → PlainReader → Bytes × ℕ
  | 0, index, _ => ([], index)
  | fuel + 1, index, plaintext =>
    let (buf, err, plaintext) := plaintext.readFull chunk
    if err = .eof then ([], index)
    else
      let box := Aead.aeadSeal key (chunkNonce seed index) buf []
      if err = .unexpectedEOF then (chunkFrame box, index + 1)
      else
        let (frames, count) := encryptReads key seed chunk fuel (index + 1) plaintext
        (chunkFrame box ++ frames, count)

def Cipher.encryptStream (c : Cipher) (seed : Bytes) (plaintext : PlainReader) : Bytes :=
  let chunk := streamChunk c.chunkSize
  let (frames, count) := encryptReads c.key seed chunk (plaintext.data.length + 1) 0 plaintext
  4 :: bePut 2 chunk ++ (seed ++ (frames ++ streamFooter c.key seed count))

theorem encryptLoopOf_nil (key seed : Bytes) (chunk fuel index : ℕ) :
    encryptLoopOf chunk key seed fuel index [] = ([], index) := by
  cases fuel <;> rfl

variable {chunk : ℕ}

theorem encryptReads_eq (key seed : Bytes) (hchunk : 0 < chunk) :
    ∀ (fuel index : ℕ) (plaintext : PlainReader), plaintext.data.length < fuel →
      encryptReads key seed chunk fuel index plaintext =
        encryptLoopOf chunk key seed fuel index plaintext.data
  | 0, _, _, h => absurd h (Nat.not_lt_zero _)
  | fuel + 1, index, ⟨data, calls⟩, h => by
      obtain ⟨hgot, hleft⟩ := PlainReader.fill_eq calls data chunk
      have hlen : data.length < fuel + 1 := h
      rw [encryptReads, encryptLoopOf]
      simp only [PlainReader.readFull, hgot, List.length_take]
      rcases Nat.eq_zero_or_pos data.length with hzero | hpos
      · obtain rfl : data = [] := List.length_eq_zero_iff.mp hzero
        simp [Nat.not_le.mpr hchunk]
      have hne : data ≠ [] := List.length_pos_iff.mp hpos
      rcases le_or_gt chunk data.length with hfull | hshort
      · have ih := encryptReads_eq key seed hchunk fuel (index + 1) (PlainReader.fill calls data chunk).2
          (by rw [hleft, List.length_drop]; omega)
        simp only [le_min_iff, le_refl, hfull, and_self, if_true, reduceCtorEq, if_false, hne, ih,
          hleft]
      · -- the last chunk is short: the loop ends here, and so does the one over the bytes
        have htake : data.take chunk ≠ [] := by simp [hne, hchunk.ne']
        rw [List.drop_of_length_le hshort.le, encryptLoopOf_nil]
        simp [Nat.not_le.mpr hshort, hne, htake]

theorem encryptLoopOf_fuel (key seed : Bytes) (hchunk : 0 < chunk) :
    ∀ (fuel index : ℕ) (rest : Bytes), rest.length ≤ fuel →
      encryptLoopOf chunk key seed (fuel + 1) index rest =
        encryptLoopOf chunk key seed fuel index rest
  | 0, index, rest, h => by
      obtain rfl : rest = [] := List.length_eq_zero_iff.mp (by omega)
      rfl
  | fuel + 1, index, rest, h => by
      rw [encryptLoopOf, encryptLoopOf_fuel key seed hchunk fuel (index + 1) (rest.drop chunk)
        (by rw [List.length_drop]; omega)]
      rfl

theorem Cipher.encryptStream_eq (c : Cipher) (seed : Bytes) (plaintext : PlainReader) :
    c.encryptStream seed plaintext = encryptBytesOf c.chunkSize c.key seed plaintext.data := by
  have hpos : 0 < streamChunk c.chunkSize := lt_of_lt_of_le (by decide) (streamChunk_bounds _).1
  rw [encryptStream, encryptReads_eq _ _ hpos _ _ _ (Nat.lt_succ_self _),
    encryptLoopOf_fuel _ _ hpos _ _ _ le_rfl]
  rfl

/-! ### Reading the chunks back -/

variable {key seed : Bytes}

theorem decryptLoop_oversized {box rest : Bytes} {footer : Bool} {fuel index : ℕ}
    (hmax : maxChunkSize < box.length) (hlen : box.length < 2 ^ 32) :
    decryptLoop key seed footer (fuel + 1) index ⟨chunkFrame box ++ rest, none⟩ =
      ([], some (errStreamFormat "invalid chunk size %d" [.num box.length])) := by
  have hne : ¬ ((chunkFrame box ++ rest) = [] ∧ (none : Option Err) = none) := by
    rintro ⟨h, -⟩
    have := congrArg List.length h
    rw [List.length_append, length_chunkFrame, List.length_nil] at this
    omega
  obtain ⟨hread, hnum⟩ := @readFull_chunkFrame box rest hlen
  have hzero : box.length ≠ 0 := by omega
  rw [decryptLoop, if_neg hne]
  simp only [hread, hnum, hmax, hzero, true_or, if_true, and_false, if_false]

theorem decryptStream_header {body : Bytes} (hmin : minChunkSize ≤ chunk)
    (hmax : chunk ≤ maxChunkSize) (hseed : seed.length = streamSeedSize) :
    decryptStream key ⟨(4 :: bePut 2 chunk) ++ (seed ++ body), none⟩ =
      decryptChunks key seed true ⟨body, none⟩ := by
  have hversion : Reader.readFull ⟨(4 :: bePut 2 chunk) ++ (seed ++ body), none⟩ 1 =
      .ok ([4], ⟨bePut 2 chunk ++ (seed ++ body), none⟩) :=
    @Reader.readFull_append [4] _ none 1 rfl
  have hhead := @Reader.readFull_append (bePut 2 chunk ++ seed) body none (2 + streamSeedSize)
    (by rw [List.length_append, length_bePut, hseed])
  rw [List.append_assoc] at hhead
  have hsize : (bePut 2 chunk ++ seed).take 2 = bePut 2 chunk := List.take_left' (length_bePut 2 _)
  have hrest : (bePut 2 chunk ++ seed).drop 2 = seed := List.drop_left' (length_bePut 2 _)
  have hsmall : chunk < 256 ^ 2 := by
    have : maxChunkSize < 256 ^ 2 := by decide
    omega
  have hdeclared : ¬ (beGet (bePut 2 chunk) < minChunkSize ∨ maxChunkSize < beGet (bePut 2 chunk)) := by
    rw [beGet_bePut, Nat.mod_eq_of_lt hsmall]
    omega
  simp only [decryptStream, hversion, if_true, decryptStreamV4, hhead, hsize, hrest,
    if_neg hdeclared]

omit [Aead] in
theorem length_of_mem_chunksOf : ∀ {fuel : ℕ} {rest p : Bytes},
    p ∈ chunksOf chunk fuel rest → p.length ≤ min chunk rest.length
  | 0, _, _, h => by cases h
  | fuel + 1, rest, p, h => by
      rw [chunksOf] at h
      split_ifs at h with hrest
      · cases h
      · rcases List.mem_cons.mp h with rfl | h
        · rw [List.length_take]
        · have := length_of_mem_chunksOf h
          rw [List.length_drop] at this
          omega

variable {size : ℤ} {plaintext : Bytes}

omit [Aead] in
theorem fits_of_first (h : min (streamChunk size) plaintext.length + tagSize ≤ maxChunkSize) :
    Fits (streamChunks size plaintext) 0 (List.range (streamChunks size plaintext).length) := by
  have hall : ∀ (start count : ℕ), start + count ≤ (streamChunks size plaintext).length →
      Fits (streamChunks size plaintext) start (List.range' start count) := by
    intro start count
    induction count generalizing start with
    | zero => exact fun _ => trivial
    | succ count ih =>
      intro hle
      refine ⟨⟨by omega, rfl, ?_⟩, ih (start + 1) (by omega)⟩
      rw [chunkAt, List.getD_eq_getElem _ _ (by omega)]
      have := length_of_mem_chunksOf (List.getElem_mem (l := streamChunks size plaintext)
        (n := start) (by omega))
      rw [tagSize] at h
      omega
  rw [List.range_eq_range']
  exact hall 0 _ (Nat.zero_add _).le

theorem decryptStream_encryptBytesOf (plaintext : Bytes) (hseed : seed.length = streamSeedSize) :
    decryptStream key ⟨encryptBytesOf size key seed plaintext, none⟩ =
      let stream := encryptLoopOf (streamChunk size) key seed plaintext.length 0 plaintext
      decryptChunks key seed true ⟨stream.1 ++ streamFooter key seed stream.2, none⟩ :=
  decryptStream_header (streamChunk_bounds size).1 (streamChunk_bounds size).2 hseed

theorem decryptStream_of_fits (hseed : seed.length = streamSeedSize)
    (hfits : min (streamChunk size) plaintext.length + tagSize ≤ maxChunkSize) :
    decryptStream key ⟨encryptBytesOf size key seed plaintext, none⟩ = ⟨plaintext, none⟩ := by
  have hsealed := decryptChunks_sealed key seed [] (fits_of_first hfits) (by rw [List.length_range])
  rw [spelled_range, flatten_streamChunks, List.append_nil] at hsealed
  rw [encryptBytesOf_eq, decryptStream_header (streamChunk_bounds size).1 (streamChunk_bounds size).2
    hseed, hsealed]

theorem decryptStream_of_oversized (hseed : seed.length = streamSeedSize)
    (hover : maxChunkSize < min (streamChunk size) plaintext.length + tagSize) :
    decryptStream key ⟨encryptBytesOf size key seed plaintext, none⟩ =
      ⟨[], some (errStreamFormat "invalid chunk size %d"
        [.num ((min (streamChunk size) plaintext.length + tagSize : ℕ) : ℤ)])⟩ := by
  obtain ⟨b, rest, rfl⟩ : ∃ b rest, plaintext = b :: rest := by
    refine List.exists_cons_of_ne_nil fun hnil => ?_
    rw [hnil, List.length_nil, Nat.min_zero, Nat.zero_add] at hover
    exact absurd hover (by decide)
  have hlen (nonce : Bytes) :
      (Aead.aeadSeal key nonce ((b :: rest).take (streamChunk size)) []).length =
        min (streamChunk size) (b :: rest).length + tagSize := by
    rw [Aead.length_aeadSeal, List.length_take, tagSize]
  have hsmall : min (streamChunk size) (b :: rest).length + tagSize < 2 ^ 32 := by
    have hmax := (streamChunk_bounds size).2
    have : maxChunkSize + tagSize < 2 ^ 32 := by decide
    omega
  rw [decryptStream_encryptBytesOf _ hseed, List.length_cons, encryptLoopOf,
    if_neg (List.cons_ne_nil b rest)]
  simp only [decryptChunks, List.append_assoc]
  rw [decryptLoop_oversized (by rw [hlen]; exact hover) (by rw [hlen]; exact hsmall), hlen,
    List.length_cons]

/-- CORRECT: with an accepted chunk size, whatever the reads, the stream reads back exactly when its
    first chunk leaves room for the tag. -/
theorem Cipher.decryptStream_encryptStream_iff (c : Cipher) (n : ℤ) (seed : Bytes)
    (plaintext : PlainReader) (hset : (c.setStreamChunkSize n).1 = none)
    (hseed : seed.length = streamSeedSize) :
    decryptStream c.key ⟨(c.setStreamChunkSize n).2.encryptStream seed plaintext, none⟩ =
        ⟨plaintext.data, none⟩ ↔
      min n plaintext.data.length ≤ (maxChunkSize : ℤ) - tagSize := by
  obtain ⟨hchunk, hcipher, hmin⟩ := streamChunk_of_accepted hset
  have hroom : min n (plaintext.data.length : ℤ) ≤ (maxChunkSize : ℤ) - tagSize ↔
      min (streamChunk n) plaintext.data.length + tagSize ≤ maxChunkSize := by omega
  rw [hroom, encryptStream_eq, hcipher]
  refine ⟨fun h => ?_, decryptStream_of_fits hseed⟩
  by_contra hover
  rw [decryptStream_of_oversized hseed (Nat.not_le.mp hover)] at h
  cases congrArg Reader.fault h

end Momo.Crypto

namespace Momo.Crypto

section Sizes

local instance sizeAead : Aead := tagAead

/-- The least size, and a plaintext that arrives a byte and then the rest of it at a time. -/
theorem Cipher.smallest_chunks_read_back :
    decryptStream [7] ⟨((newCipher [7]).setStreamChunkSize 512).2.encryptStream [1, 2, 3, 4, 5, 6, 7, 8]
        ⟨List.replicate 600 9, [⟨1, false⟩, ⟨0, false⟩, ⟨599, true⟩]⟩, none⟩ =
      ⟨List.replicate 600 9, none⟩ := by
  refine ((newCipher [7]).decryptStream_encryptStream_iff 512 [1, 2, 3, 4, 5, 6, 7, 8]
    ⟨List.replicate 600 9, [⟨1, false⟩, ⟨0, false⟩, ⟨599, true⟩]⟩ (by decide) (by decide)).mpr ?_
  rw [List.length_replicate]
  decide

theorem Cipher.largest_chunk_refused :
    ((newCipher [7]).setStreamChunkSize 4128).1 = none ∧
      decryptStream [7] ⟨((newCipher [7]).setStreamChunkSize 4128).2.encryptStream
          [1, 2, 3, 4, 5, 6, 7, 8] ⟨List.replicate 4128 0, []⟩, none⟩ ≠
        ⟨List.replicate 4128 0, none⟩ := by
  refine ⟨by decide, fun h => ?_⟩
  have hrefused : decryptStream [7] ⟨encryptBytesOf 4128 [7] [1, 2, 3, 4, 5, 6, 7, 8]
      (List.replicate 4128 0), none⟩ = _ :=
    decryptStream_of_oversized (by decide) (by rw [List.length_replicate]; decide)
  rw [encryptStream_eq] at h
  cases congrArg Reader.fault (hrefused.symm.trans h)

end Sizes

end Momo.Crypto

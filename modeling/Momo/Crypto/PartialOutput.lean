import Momo.Crypto.TamperEvidence

/-! @momo src/crypto/streaming.go | scheme:what a decoder has written at any exit

    The decoders write each chunk as soon as its box has opened, long before they see a footer, so a
    string that is refused in the end has had some of it written out. Here `dst` is explicit: each
    chunk is one `Write`, any of which may fail, and the calls that succeeded are what was written. -/

namespace Momo.Crypto

/-! ### The decoders with their destination -/

/-- What the decoders read before the chunks: the seed, and whether the format has a footer. -/
def streamStart (r : Reader) : Except Err (Bytes × Bool × Reader) :=
  match r.readFull 1 with
  | .error e => .error (.wrap "crypto: failed to read stream header: %w" [] e)
  | .ok (version, r) =>
    if version = [4] then
      match r.readFull (2 + streamSeedSize) with
      | .error e => .error (.wrap "crypto: failed to read stream chunk-size header/seed: %w" [] e)
      | .ok (head, r) =>
        let declared := beGet (head.take 2)
        if declared < minChunkSize ∨ maxChunkSize < declared then
          .error (errStreamFormat "invalid v4 stream chunk size %d (must be within [%d, %d])"
            [.num declared, .num minChunkSize, .num maxChunkSize])
        else .ok (head.drop 2, true, r)
    else if version = [3] ∨ version = [2] then
      match r.readFull streamSeedSize with
      | .error e => .error (.wrap "crypto: failed to read stream seed: %w" [] e)
      | .ok (seed, r) => .ok (seed, version = [3], r)
    else .error (errStreamFormat "unsupported version %d" (version.map (.num ·.toNat)))

/-- A round of the decoders up to the box it reads; otherwise what they return without one. -/
def nextBox (footer : Bool) (index : ℕ) (r : Reader) : Except (Option Err) (Bytes × Reader) :=
  if r.data = [] ∧ r.fault = none then
    .error (if footer then some (errStreamTruncated index) else none)
  else match r.readFull 4 with
    | .error e =>
      .error (some (if footer then e else .wrap "crypto: failed to read chunk length: %w" [] e))
    | .ok (lenBuf, r) =>
      let boxLen := beGet lenBuf
      if maxChunkSize < boxLen ∨ boxLen = 0 then
        .error (some (if footer ∧ boxLen = 0 then errStreamFormat "invalid zero-length chunk" []
          else errStreamFormat "invalid chunk size %d" [.num boxLen]))
      else match r.readFull boxLen with
        | .error e => .error (some (.wrap "crypto: failed to read chunk ciphertext: %w" [] e))
        | .ok found => .ok found

section Decoders

variable [Aead]

def lastBox (key seed : Bytes) (footer : Bool) (index : ℕ) (box : Bytes) : Option Err :=
  if footer then
    match Aead.aeadOpen key (chunkNonce seed footerNonceIndex) box streamFooterAAD with
    | none => some errTampered
    | some count =>
      if count.length ≠ 4 then some (errStreamFormat "malformed stream footer" [])
      else if beGet count ≠ index % 2 ^ 32 then
        some (errStreamFormat "footer chunk count %d != %d chunks decoded"
          [.num (beGet count), .num index])
      else none
  else some errTampered

/-- The chunk loop of the three decoders. `dst` tells for each `Write` by its number the error it
    returns; the calls without one are listed. -/
def decryptLoopTo (dst : ℕ → Option Err) (key seed : Bytes) (footer : Bool) :
    (fuel index : ℕ) → Reader → List Bytes × Option Err
  | 0, index, _ => ([], some (errStreamTruncated index))
  | fuel + 1, index, r =>
    match nextBox footer index r with
    | .error out => ([], out)
    | .ok (box, r) =>
      match Aead.aeadOpen key (chunkNonce seed index) box [] with
      | none => ([], lastBox key seed footer index box)
      | some plaintext =>
        match dst index with
        | some e => ([], some (.wrap "crypto: failed to write decrypted chunk: %w" [] e))
        | none =>
          let (more, err) := decryptLoopTo dst key seed footer fuel (index + 1) r
          (plaintext :: more, err)

/-- `DecryptStream` into a destination: what was written, and the error returned. -/
def decryptStreamTo (dst : ℕ → Option Err) (key : Bytes) (ciphertext : Reader) :
    List Bytes × Option Err :=
  match streamStart ciphertext with
  | .error e => ([], some e)
  | .ok (seed, footer, r) => decryptLoopTo dst key seed footer (r.data.length + 1) 0 r

theorem decryptLoop_succ (key seed : Bytes) (footer : Bool) (fuel index : ℕ) (r : Reader) :
    decryptLoop key seed footer (fuel + 1) index r =
      match nextBox footer index r with
      | .error out => ([], out)
      | .ok (box, r) =>
        match Aead.aeadOpen key (chunkNonce seed index) box [] with
        | none => ([], lastBox key seed footer index box)
        | some plaintext =>
          (plaintext ++ (decryptLoop key seed footer fuel (index + 1) r).1,
            (decryptLoop key seed footer fuel (index + 1) r).2) := by
  rw [decryptLoop, nextBox]
  by_cases hend : r.data = [] ∧ r.fault = none
  · rw [if_pos hend, if_pos hend]
  rw [if_neg hend, if_neg hend]
  cases r.readFull 4 with
  | error e => rfl
  | ok found =>
    obtain ⟨lenBuf, r⟩ := found
    dsimp only
    by_cases hsize : maxChunkSize < beGet lenBuf ∨ beGet lenBuf = 0
    · rw [if_pos hsize, if_pos hsize]
    rw [if_neg hsize, if_neg hsize]
    cases r.readFull (beGet lenBuf) with
    | error e => rfl
    | ok found =>
      obtain ⟨box, r⟩ := found
      dsimp only
      cases Aead.aeadOpen key (chunkNonce seed index) box [] with
      | some p => rfl
      | none =>
        dsimp only [lastBox]
        split_ifs
        · cases Aead.aeadOpen key (chunkNonce seed footerNonceIndex) box streamFooterAAD with
          | none => rfl
          | some count =>
            dsimp only
            split_ifs <;> rfl
        · rfl

theorem decryptLoopTo_ok (key seed : Bytes) (footer : Bool) : ∀ (fuel index : ℕ) (r : Reader),
    decryptLoop key seed footer fuel index r =
      ((decryptLoopTo (fun _ => none) key seed footer fuel index r).1.flatten,
        (decryptLoopTo (fun _ => none) key seed footer fuel index r).2) := by
  intro fuel
  induction fuel with
  | zero => exact fun _ _ => rfl
  | succ fuel ih =>
    intro index r
    rw [decryptLoop_succ, decryptLoopTo]
    cases nextBox footer index r with
    | error out => rfl
    | ok found =>
      obtain ⟨box, r⟩ := found
      dsimp only
      cases Aead.aeadOpen key (chunkNonce seed index) box [] with
      | none => rfl
      | some p => simp only [ih, List.flatten_cons]

theorem decryptStreamTo_ok (key : Bytes) (r : Reader) :
    decryptStream key r =
      ⟨(decryptStreamTo (fun _ => none) key r).1.flatten, (decryptStreamTo (fun _ => none) key r).2⟩ := by
  rw [decryptStream, decryptStreamTo, streamStart]
  cases r.readFull 1 with
  | error e => rfl
  | ok found =>
    obtain ⟨version, r⟩ := found
    dsimp only
    by_cases h4 : version = [4]
    · rw [if_pos h4, if_pos h4, decryptStreamV4]
      cases r.readFull (2 + streamSeedSize) with
      | error e => rfl
      | ok found =>
        obtain ⟨head, r⟩ := found
        dsimp only
        by_cases hsize : beGet (head.take 2) < minChunkSize ∨ maxChunkSize < beGet (head.take 2)
        · rw [if_pos hsize, if_pos hsize]
          rfl
        · rw [if_neg hsize, if_neg hsize, decryptChunks, decryptLoopTo_ok]
    rw [if_neg h4, if_neg h4]
    have hseed : ∀ footer, decryptStreamV3 key footer r =
        match r.readFull streamSeedSize with
        | .error e => ⟨[], some (.wrap "crypto: failed to read stream seed: %w" [] e)⟩
        | .ok (seed, r) =>
          ⟨(decryptLoopTo (fun _ => none) key seed footer (r.data.length + 1) 0 r).1.flatten,
            (decryptLoopTo (fun _ => none) key seed footer (r.data.length + 1) 0 r).2⟩ := by
      intro footer
      rw [decryptStreamV3]
      cases r.readFull streamSeedSize with
      | error e => rfl
      | ok found =>
        dsimp only
        rw [decryptChunks, decryptLoopTo_ok]
    by_cases h3 : version = [3]
    · rw [if_pos h3, if_pos (Or.inl h3), hseed]
      cases r.readFull streamSeedSize with
      | error e => rfl
      | ok found => simp only [h3, decide_true]
    by_cases h2 : version = [2]
    · rw [if_neg h3, if_pos h2, if_pos (Or.inr h2), hseed]
      cases r.readFull streamSeedSize with
      | error e => rfl
      | ok found => simp only [h3, decide_false]
    · rw [if_neg h3, if_neg h2, if_neg (by simp [h3, h2])]
      rfl

end Decoders

/-! ### Streams under one key -/

/-- A plaintext encrypted by `EncryptStream`: the configured chunk size and the seed it drew; fewer
    chunks than there are indices beside the footer's. -/
structure Encrypted where
  size : Int
  seed : Bytes
  plaintext : Bytes
  seedSize : seed.length = streamSeedSize
  few : (streamChunks size plaintext).length < 2 ^ 32 - 1

def Encrypted.chunks (s : Encrypted) : List Bytes := streamChunks s.size s.plaintext

def Encrypted.seals (s : Encrypted) : List (Bytes × Bytes × Bytes) := streamSeals s.seed s.chunks

theorem Encrypted.chunk_of_seal {s : Encrypted} {nonce p : Bytes} (h : (nonce, p, []) ∈ s.seals) :
    ∃ j, j < s.chunks.length ∧ nonce = chunkNonce s.seed j ∧ p = chunkAt s.chunks j := by
  rw [seals, streamSeals, List.mem_append, List.mem_map, List.mem_singleton] at h
  rcases h with ⟨j, hj, heq⟩ | heq
  · obtain ⟨hn, heq⟩ := Prod.mk.inj heq
    exact ⟨j, List.mem_range.mp hj, hn.symm, (Prod.mk.inj heq).1.symm⟩
  · exact absurd (Prod.mk.inj (Prod.mk.inj heq).2).2 (by decide)

def seedIn (t : Bytes) : Option Bytes := (streamStart ⟨t, none⟩).toOption.map Prod.fst

theorem streamStart_eq_ok {t seed : Bytes} {footer : Bool} {r : Reader}
    (h : streamStart ⟨t, none⟩ = .ok (seed, footer, r)) :
    seed.length = streamSeedSize ∧ r = ⟨r.data, none⟩ ∧ r.data <:+ t := by
  unfold streamStart at h
  cases hversion : Reader.readFull ⟨t, none⟩ 1 with
  | error e => rw [hversion] at h; cases h
  | ok found =>
    obtain ⟨version, r₁⟩ := found
    obtain ⟨-, rfl, hr₁⟩ := readFull_eq_ok hversion
    simp only [hversion] at h
    rw [hr₁] at h
    split_ifs at h with h4 h32
    · cases hhead : Reader.readFull ⟨r₁.data, none⟩ (2 + streamSeedSize) with
      | error e => rw [hhead] at h; cases h
      | ok found =>
        obtain ⟨head, r₂⟩ := found
        obtain ⟨hlen, hdata, hr₂⟩ := readFull_eq_ok hhead
        simp only [hhead] at h
        split_ifs at h
        cases h
        refine ⟨by rw [List.length_drop, hlen]; rfl, hr₂, version ++ head, ?_⟩
        rw [hdata, List.append_assoc]
    · cases hhead : Reader.readFull ⟨r₁.data, none⟩ streamSeedSize with
      | error e => rw [hhead] at h; cases h
      | ok found =>
        obtain ⟨seed', r₂⟩ := found
        obtain ⟨hlen, hdata, hr₂⟩ := readFull_eq_ok hhead
        simp only [hhead] at h
        cases h
        refine ⟨hlen, hr₂, version ++ seed, ?_⟩
        rw [hdata, List.append_assoc]

theorem nextBox_eq_ok {footer : Bool} {index : ℕ} {d box : Bytes} {r : Reader}
    (h : nextBox footer index ⟨d, none⟩ = .ok (box, r)) :
    r = ⟨r.data, none⟩ ∧ d = chunkFrame box ++ r.data := by
  unfold nextBox at h
  by_cases hend : (⟨d, none⟩ : Reader).data = [] ∧ (⟨d, none⟩ : Reader).fault = none
  · rw [if_pos hend] at h
    cases h
  rw [if_neg hend] at h
  cases hlen : Reader.readFull ⟨d, none⟩ 4 with
  | error e => rw [hlen] at h; cases h
  | ok found =>
    obtain ⟨lenBuf, r'⟩ := found
    simp only [hlen] at h
    by_cases hsize : maxChunkSize < beGet lenBuf ∨ beGet lenBuf = 0
    · rw [if_pos hsize] at h
      cases h
    rw [if_neg hsize] at h
    cases hbox : r'.readFull (beGet lenBuf) with
    | error e => rw [hbox] at h; cases h
    | ok found =>
      rw [hbox] at h
      obtain rfl := Except.ok.inj h
      exact (readFull_frame hlen hbox).2

section Written

variable [Aead]

theorem decryptLoopTo_cases (dst : ℕ → Option Err) (key seed : Bytes) (footer : Bool)
    (fuel index : ℕ) (d : Bytes) :
    (decryptLoopTo dst key seed footer (fuel + 1) index ⟨d, none⟩).1 = [] ∨
      ∃ box rest p, d = chunkFrame box ++ rest ∧
        Aead.aeadOpen key (chunkNonce seed index) box [] = some p ∧
        (decryptLoopTo dst key seed footer (fuel + 1) index ⟨d, none⟩).1 =
          p :: (decryptLoopTo dst key seed footer fuel (index + 1) ⟨rest, none⟩).1 := by
  rw [decryptLoopTo]
  cases hbox : nextBox footer index ⟨d, none⟩ with
  | error out => exact Or.inl rfl
  | ok found =>
    obtain ⟨box, r⟩ := found
    obtain ⟨hr, hd⟩ := nextBox_eq_ok hbox
    cases hopen : Aead.aeadOpen key (chunkNonce seed index) box [] with
    | none => exact Or.inl (by simp only [hopen])
    | some p =>
      cases hdst : dst index with
      | some e => exact Or.inl (by simp only [hopen])
      | none =>
        refine Or.inr ⟨box, r.data, p, hd, hopen, ?_⟩
        simp only [hopen, ← hr]

theorem stream_of_open {key seed : Bytes} {streams : List Encrypted} {t box p : Bytes} {index : ℕ}
    (hseed : seed.length = streamSeedSize)
    (ht : Unforged key (streams.flatMap Encrypted.seals) t) (hbox : box <:+: t)
    (hopen : Aead.aeadOpen key (chunkNonce seed index) box [] = some p) :
    ∃ s ∈ streams, s.seed = seed ∧ ∃ j, j < s.chunks.length ∧ j % 2 ^ 32 = index % 2 ^ 32 ∧
      p = chunkAt s.chunks j := by
  have hnonce : (chunkNonce seed index).length = 12 := by
    rw [chunkNonce, List.length_append, length_bePut, hseed]
    rfl
  obtain ⟨hmem, -⟩ := ht box _ [] p hbox hnonce hopen
  obtain ⟨s, hs, hseal⟩ := List.mem_flatMap.mp hmem
  obtain ⟨j, hj, hn, hp⟩ := s.chunk_of_seal hseal
  obtain ⟨hsame, hmod⟩ := (chunkNonce_eq_iff (hseed.trans s.seedSize.symm)).mp hn
  exact ⟨s, hs, hsame.symm, j, hj, hmod.symm, hp⟩

theorem decryptLoopTo_written {key : Bytes} {streams : List Encrypted} {s : Encrypted}
    (hone : ∀ s' ∈ streams, s'.seed = s.seed → s' = s) (dst : ℕ → Option Err) (footer : Bool) :
    ∀ (fuel index : ℕ) (d : Bytes), index ≤ s.chunks.length →
      Unforged key (streams.flatMap Encrypted.seals) d →
      (decryptLoopTo dst key s.seed footer fuel index ⟨d, none⟩).1 <+: s.chunks.drop index := by
  intro fuel
  induction fuel with
  | zero => exact fun _ _ _ _ => List.nil_prefix
  | succ fuel ih =>
    intro index d hindex hd
    rcases decryptLoopTo_cases dst key s.seed footer fuel index d with hnil | ⟨box, rest, p, rfl, hopen, hw⟩
    · rw [hnil]
      exact List.nil_prefix
    · have hbox : box <:+: chunkFrame box ++ rest := ⟨bePut 4 box.length, rest, rfl⟩
      obtain ⟨s', hs', hseed, j, hj, hmod, rfl⟩ := stream_of_open s.seedSize hd hbox hopen
      obtain rfl := hone s' hs' hseed
      -- the index has not wrapped, so it is the chunk's own
      have hfew : s'.chunks.length < 2 ^ 32 - 1 := s'.few
      obtain rfl : j = index := by
        rwa [Nat.mod_eq_of_lt (by omega), Nat.mod_eq_of_lt (by omega)] at hmod
      have hchunk : s'.chunks.drop j = chunkAt s'.chunks j :: s'.chunks.drop (j + 1) := by
        rw [List.drop_eq_getElem_cons hj, chunkAt, List.getD_eq_getElem _ _ hj]
      rw [hw, hchunk, List.prefix_cons_inj]
      exact ih (j + 1) rest hj (hd.of_infix (List.suffix_append _ _).isInfix)

end Written

section Runs

local instance partialAead : Aead := tamperAead

def sampleStream : Encrypted := ⟨4096, sampleSeed, [97], by decide, by decide +kernel⟩

def otherStream : Encrypted := ⟨512, [1, 2, 3, 4, 5, 6, 7, 8], [98, 99], by decide, by decide +kernel⟩

def footless : Bytes := (encryptBytesOf 4096 [] sampleSeed [97]).take 32

end Runs

end Momo.Crypto

import Momo.Crypto.Streaming

/-! @momo src/crypto/streaming.go, src/crypto/crypto.go | scheme:what the decoders accept

    Which byte strings `DecryptStream` takes for good, when all an adversary can present is boxes of
    one encrypted stream. The boxes name their place only by an index of four bytes, and the three
    decoders share boxes and nonces. -/

namespace Momo.Crypto

/-! ### Encrypting with a configured chunk size -/

/-- The chunk length `EncryptStream` uses for a configured one. -/
def streamChunk (size : Int) : ℕ :=
  if size < minChunkSize ∨ (maxChunkSize : Int) < size then chunkSize else size.toNat

theorem streamChunk_bounds (size : Int) :
    minChunkSize ≤ streamChunk size ∧ streamChunk size ≤ maxChunkSize := by
  unfold streamChunk
  split_ifs with h
  · decide
  · omega

section Encrypt

variable [Aead]

def encryptLoopOf (chunk : ℕ) (key seed : Bytes) : (fuel index : ℕ) → (rest : Bytes) → Bytes × ℕ
  | 0, index, _ => ([], index)
  | fuel + 1, index, rest =>
    if rest = [] then ([], index)
    else
      let box := Aead.aeadSeal key (chunkNonce seed index) (rest.take chunk) []
      let (frames, count) := encryptLoopOf chunk key seed fuel (index + 1) (rest.drop chunk)
      (chunkFrame box ++ frames, count)

/-- `EncryptStream` of a whole plaintext, by a cipher with a configured chunk size. -/
def encryptBytesOf (size : Int) (key seed plaintext : Bytes) : Bytes :=
  let (frames, count) := encryptLoopOf (streamChunk size) key seed plaintext.length 0 plaintext
  4 :: bePut 2 (streamChunk size) ++ (seed ++ (frames ++ streamFooter key seed count))

theorem encryptBytesOf_default (key seed plaintext : Bytes) :
    encryptBytesOf chunkSize key seed plaintext = encryptBytes key seed plaintext := by
  have hloop : ∀ (fuel index : ℕ) (rest : Bytes),
      encryptLoopOf chunkSize key seed fuel index rest = encryptLoop key seed fuel index rest := by
    intro fuel
    induction fuel with
    | zero => exact fun _ _ => rfl
    | succ fuel ih =>
      intro index rest
      rw [encryptLoopOf, encryptLoop, ih]
  have hsize : streamChunk chunkSize = chunkSize := by decide
  rw [encryptBytesOf, encryptBytes, hsize, hloop]
  rfl

end Encrypt

def chunksOf (chunk : ℕ) : (fuel : ℕ) → Bytes → List Bytes
  | 0, _ => []
  | fuel + 1, rest =>
    if rest = [] then [] else rest.take chunk :: chunksOf chunk fuel (rest.drop chunk)

def streamChunks (size : Int) (plaintext : Bytes) : List Bytes :=
  chunksOf (streamChunk size) plaintext.length plaintext

theorem flatten_chunksOf {chunk : ℕ} (hchunk : 0 < chunk) : ∀ (fuel : ℕ) (rest : Bytes),
    rest.length ≤ fuel → (chunksOf chunk fuel rest).flatten = rest
  | 0, rest, h => by
    obtain rfl : rest = [] := List.length_eq_zero_iff.mp (by omega)
    rfl
  | fuel + 1, rest, h => by
    rw [chunksOf]
    split_ifs with hrest
    · rw [hrest, List.flatten_nil]
    · have hpos : 0 < rest.length := List.length_pos_iff.mpr hrest
      rw [List.flatten_cons, flatten_chunksOf hchunk fuel (rest.drop chunk)
        (by rw [List.length_drop]; omega), List.take_append_drop]

theorem flatten_streamChunks (size : Int) (plaintext : Bytes) :
    (streamChunks size plaintext).flatten = plaintext :=
  flatten_chunksOf (lt_of_lt_of_le (by decide) (streamChunk_bounds size).1) _ plaintext le_rfl

/-! ### Boxes of a stream -/

def chunkAt (chunks : List Bytes) (j : ℕ) : Bytes := chunks.getD j []

def spelled (chunks : List Bytes) (js : List ℕ) : Bytes := js.flatMap (chunkAt chunks)

def streamSeals (seed : Bytes) (chunks : List Bytes) : List (Bytes × Bytes × Bytes) :=
  (List.range chunks.length).map (fun j => (chunkNonce seed j, chunkAt chunks j, [])) ++
    [(chunkNonce seed footerNonceIndex, bePut 4 chunks.length, streamFooterAAD)]

section Boxes

variable [Aead]

def framesOf (key seed : Bytes) (chunks : List Bytes) (js : List ℕ) : Bytes :=
  js.flatMap fun j => chunkFrame (Aead.aeadSeal key (chunkNonce seed j) (chunkAt chunks j) [])

/-- The string holds no box but those of the stream: whatever opens in it under the key was sealed for
    the stream. This is what an adversary without the key is held to by an ideal AEAD. -/
def Unforged (key : Bytes) (seals : List (Bytes × Bytes × Bytes)) (t : Bytes) : Prop :=
  ∀ box nonce aad p, box <:+: t → nonce.length = 12 → Aead.aeadOpen key nonce box aad = some p →
    (nonce, p, aad) ∈ seals ∧ box = Aead.aeadSeal key nonce p aad

variable {key t : Bytes}

theorem Unforged.of_infix {seals : List (Bytes × Bytes × Bytes)} {u : Bytes}
    (h : Unforged key seals t) (hu : u <:+: t) : Unforged key seals u :=
  fun box nonce aad p hbox => h box nonce aad p (hbox.trans hu)

theorem encryptBytesOf_eq (size : Int) (key seed plaintext : Bytes) :
    encryptBytesOf size key seed plaintext =
      4 :: bePut 2 (streamChunk size) ++ (seed ++
        (framesOf key seed (streamChunks size plaintext)
            (List.range (streamChunks size plaintext).length) ++
          streamFooter key seed (streamChunks size plaintext).length)) := by
  have hloop : ∀ (fuel index : ℕ) (rest : Bytes),
      encryptLoopOf (streamChunk size) key seed fuel index rest =
        (((chunksOf (streamChunk size) fuel rest).zipIdx index).flatMap (fun x =>
            chunkFrame (Aead.aeadSeal key (chunkNonce seed x.2) x.1 [])),
          index + (chunksOf (streamChunk size) fuel rest).length) := by
    intro fuel
    induction fuel with
    | zero => exact fun _ _ => rfl
    | succ fuel ih =>
      intro index rest
      rw [encryptLoopOf, chunksOf]
      split_ifs
      · rfl
      · simp only [ih, List.zipIdx_cons, List.flatMap_cons, List.length_cons]
        rw [Nat.add_assoc, Nat.add_comm 1]
  have hframes : ∀ chunks : List Bytes,
      chunks.zipIdx.flatMap (fun x => chunkFrame (Aead.aeadSeal key (chunkNonce seed x.2) x.1 [])) =
        framesOf key seed chunks (List.range chunks.length) := by
    intro chunks
    have hzip : chunks.zipIdx = (List.range chunks.length).map fun j => (chunkAt chunks j, j) := by
      apply List.ext_getElem
      · simp
      · intro i h1 h2
        simp only [List.length_zipIdx] at h1
        simp [chunkAt, List.getD_eq_getElem?_getD, List.getElem?_eq_getElem h1]
    rw [hzip, framesOf, List.flatMap_map]
  rw [encryptBytesOf, hloop, hframes, Nat.zero_add]
  rfl

/-! ### What the decoders accept -/

/-- Chunks whose indices the decoder takes for the positions from `start` on, and whose boxes it
    has room for. -/
def Fits (chunks : List Bytes) : (start : ℕ) → List ℕ → Prop
  | _, [] => True
  | start, j :: js =>
    (j < chunks.length ∧ j % 2 ^ 32 = start % 2 ^ 32 ∧
      (chunkAt chunks j).length + 16 ≤ maxChunkSize) ∧ Fits chunks (start + 1) js

variable {seed seed' : Bytes}

omit [Aead] in
theorem chunkNonce_eq_iff (hseed : seed.length = seed'.length) {i j : ℕ} :
    chunkNonce seed i = chunkNonce seed' j ↔ seed = seed' ∧ i % 2 ^ 32 = j % 2 ^ 32 := by
  have hpow : (256 : ℕ) ^ 4 = 2 ^ 32 := by norm_num
  rw [← hpow, ← bePut_eq_iff]
  constructor
  · exact fun h => List.append_inj h hseed
  · rintro ⟨rfl, h⟩
    rw [chunkNonce, chunkNonce, h]

variable {d : Bytes}

omit [Aead] in
theorem readFull_eq_ok {a : Bytes} {r : Reader} {n : ℕ}
    (h : Reader.readFull ⟨d, none⟩ n = .ok (a, r)) :
    a.length = n ∧ d = a ++ r.data ∧ r = ⟨r.data, none⟩ := by
  unfold Reader.readFull at h
  split_ifs at h with hshort
  obtain ⟨rfl, rfl⟩ := Prod.mk.inj (Except.ok.inj h)
  simp only at hshort ⊢
  exact ⟨by rw [List.length_take]; omega, (List.take_append_drop n d).symm, trivial⟩

variable {box : Bytes}

omit [Aead] in
theorem readFull_frame {lenBuf : Bytes} {r r' : Reader}
    (hlen : Reader.readFull ⟨d, none⟩ 4 = .ok (lenBuf, r))
    (hbox : r.readFull (beGet lenBuf) = .ok (box, r')) :
    box.length = beGet lenBuf ∧ r' = ⟨r'.data, none⟩ ∧ d = chunkFrame box ++ r'.data := by
  obtain ⟨hfour, rfl, hr⟩ := readFull_eq_ok hlen
  rw [hr] at hbox
  obtain ⟨hlength, hdata, hr'⟩ := readFull_eq_ok hbox
  have hprefix := bePut_beGet lenBuf
  rw [hfour] at hprefix
  refine ⟨hlength, hr', ?_⟩
  rw [chunkFrame, hlength, hprefix, List.append_assoc, ← hdata]

theorem decryptLoop_round {footer : Bool} {fuel index : ℕ} {w : Bytes}
    (h : decryptLoop key seed footer (fuel + 1) index ⟨d, none⟩ = (w, none)) :
    (footer = false ∧ d = [] ∧ w = []) ∨
    ∃ box rest, d = chunkFrame box ++ rest ∧ box.length ≤ maxChunkSize ∧
      ((∃ p w', Aead.aeadOpen key (chunkNonce seed index) box [] = some p ∧ w = p ++ w' ∧
          decryptLoop key seed footer fuel (index + 1) ⟨rest, none⟩ = (w', none)) ∨
        (footer = true ∧ w = [] ∧ ∃ count,
          Aead.aeadOpen key (chunkNonce seed footerNonceIndex) box streamFooterAAD = some count ∧
          beGet count = index % 2 ^ 32)) := by
  rw [decryptLoop] at h
  by_cases hd : d = []
  · rw [if_pos ⟨hd, rfl⟩] at h
    obtain ⟨rfl, herr⟩ := Prod.mk.inj h
    cases footer with
    | true => cases herr
    | false => exact Or.inl ⟨rfl, hd, rfl⟩
  · rw [if_neg (fun hc => hd hc.1)] at h
    cases hlen : Reader.readFull ⟨d, none⟩ 4 with
    | error e => rw [hlen] at h; cases (Prod.mk.inj h).2
    | ok found =>
      obtain ⟨lenBuf, r⟩ := found
      simp only [hlen] at h
      by_cases hsize : maxChunkSize < beGet lenBuf ∨ beGet lenBuf = 0
      · rw [if_pos hsize] at h
        cases (Prod.mk.inj h).2
      rw [if_neg hsize] at h
      cases hbox : r.readFull (beGet lenBuf) with
      | error e => rw [hbox] at h; cases (Prod.mk.inj h).2
      | ok found =>
        obtain ⟨box, r'⟩ := found
        simp only [hbox] at h
        obtain ⟨hboxLen, hr', rfl⟩ := readFull_frame hlen hbox
        refine Or.inr ⟨box, r'.data, rfl, by omega, ?_⟩
        cases hopen : Aead.aeadOpen key (chunkNonce seed index) box [] with
        | some p =>
          simp only [hopen] at h
          obtain ⟨rfl, herr⟩ := Prod.mk.inj h
          refine Or.inl ⟨p, _, rfl, rfl, ?_⟩
          rw [← hr']
          exact Prod.ext rfl herr
        | none =>
          simp only [hopen] at h
          cases footer with
          | false => cases (Prod.mk.inj h).2
          | true =>
            simp only [if_true] at h
            cases hfooter :
                Aead.aeadOpen key (chunkNonce seed footerNonceIndex) box streamFooterAAD with
            | none => rw [hfooter] at h; cases (Prod.mk.inj h).2
            | some count =>
              simp only [hfooter] at h
              split_ifs at h with hfour hcount
              · cases (Prod.mk.inj h).2
              · cases (Prod.mk.inj h).2
              · exact Or.inr ⟨rfl, (Prod.mk.inj h).1.symm, count, rfl, not_not.mp hcount⟩

/-! ### Sound: what is accepted is made of the stream's boxes -/

variable {chunks : List Bytes}

theorem chunk_of_open {p : Bytes} {index : ℕ} (hseed : seed.length = streamSeedSize)
    (hseed' : seed'.length = streamSeedSize) (ht : Unforged key (streamSeals seed chunks) t)
    (hbox : box <:+: t) (hopen : Aead.aeadOpen key (chunkNonce seed' index) box [] = some p) :
    ∃ j, j < chunks.length ∧ j % 2 ^ 32 = index % 2 ^ 32 ∧ p = chunkAt chunks j ∧ seed' = seed ∧
      box = Aead.aeadSeal key (chunkNonce seed j) (chunkAt chunks j) [] := by
  have hnonce : (chunkNonce seed' index).length = 12 := by
    rw [chunkNonce, List.length_append, length_bePut, hseed']
    rfl
  obtain ⟨hmem, hsealed⟩ := ht box _ [] p hbox hnonce hopen
  rw [streamSeals, List.mem_append, List.mem_map, List.mem_singleton] at hmem
  rcases hmem with ⟨j, hj, heq⟩ | heq
  · obtain ⟨hn, heq⟩ := Prod.mk.inj heq
    obtain ⟨rfl, -⟩ := Prod.mk.inj heq
    obtain ⟨rfl, hmod⟩ := (chunkNonce_eq_iff (hseed.trans hseed'.symm)).mp hn
    rw [← hn] at hsealed
    exact ⟨j, List.mem_range.mp hj, hmod, rfl, rfl, hsealed⟩
  · exact absurd (Prod.mk.inj (Prod.mk.inj heq).2).2 (by decide)

theorem footer_of_open {count : Bytes} (hseed : seed.length = streamSeedSize)
    (hseed' : seed'.length = streamSeedSize) (ht : Unforged key (streamSeals seed chunks) t)
    (hbox : box <:+: t)
    (hopen : Aead.aeadOpen key (chunkNonce seed' footerNonceIndex) box streamFooterAAD = some count)
     :
    seed' = seed ∧ count = bePut 4 chunks.length ∧
      chunkFrame box = streamFooter key seed chunks.length := by
  have hnonce : (chunkNonce seed' footerNonceIndex).length = 12 := by
    rw [chunkNonce, List.length_append, length_bePut, hseed']
    rfl
  obtain ⟨hmem, hsealed⟩ := ht box _ streamFooterAAD count hbox hnonce hopen
  rw [streamSeals, List.mem_append, List.mem_map, List.mem_singleton] at hmem
  rcases hmem with ⟨j, -, heq⟩ | heq
  · exact absurd (Prod.mk.inj (Prod.mk.inj heq).2).2 (by decide)
  · obtain ⟨hn, heq⟩ := Prod.mk.inj heq
    obtain ⟨rfl, -⟩ := Prod.mk.inj heq
    obtain ⟨rfl, -⟩ := (chunkNonce_eq_iff (hseed'.trans hseed.symm)).mp hn
    exact ⟨rfl, rfl, by rw [hsealed, streamFooter]⟩

structure Accepted (key seed seed' : Bytes) (chunks : List Bytes) (footer : Bool) (start : ℕ)
    (d w : Bytes) (js : List ℕ) : Prop where
  fits : Fits chunks start js
  written : w = spelled chunks js
  ownSeed : js ≠ [] ∨ footer = true → seed' = seed
  plain : footer = false → d = framesOf key seed chunks js
  sealed : footer = true → (start + js.length) % 2 ^ 32 = chunks.length % 2 ^ 32 ∧
    ∃ rest, d = framesOf key seed chunks js ++ (streamFooter key seed chunks.length ++ rest)

theorem decryptLoop_sound {footer : Bool} (hseed : seed.length = streamSeedSize)
    (hseed' : seed'.length = streamSeedSize) :
    ∀ {fuel index : ℕ} {d w : Bytes}, Unforged key (streamSeals seed chunks) d →
      decryptLoop key seed' footer fuel index ⟨d, none⟩ = (w, none) →
      ∃ js, Accepted key seed seed' chunks footer index d w js := by
  intro fuel
  induction fuel with
  | zero =>
    intro index d w _ h
    cases (Prod.mk.inj h).2
  | succ fuel ih =>
    intro index d w hd h
    rcases decryptLoop_round h with ⟨rfl, rfl, rfl⟩ | ⟨box, rest, rfl, hmax, hround⟩
    · exact ⟨[], trivial, rfl, by simp, fun _ => rfl, by simp⟩
    · have hbox : box <:+: chunkFrame box ++ rest := ⟨bePut 4 box.length, rest, rfl⟩
      rcases hround with ⟨p, w', hopen, rfl, hrest⟩ | ⟨rfl, rfl, count, hopen, hcount⟩
      · obtain ⟨j, hj, hmod, rfl, rfl, rfl⟩ := chunk_of_open hseed hseed' hd hbox hopen
        obtain ⟨js, hjs⟩ := ih (hd.of_infix (List.suffix_append _ _).isInfix) hrest
        refine ⟨j :: js, ⟨⟨hj, hmod, ?_⟩, hjs.fits⟩, ?_, fun _ => rfl, ?_, ?_⟩
        · rwa [Aead.length_aeadSeal] at hmax
        · rw [hjs.written]
          rfl
        · intro hf
          rw [hjs.plain hf]
          rfl
        · intro hf
          obtain ⟨hlen, tail, htail⟩ := hjs.sealed hf
          refine ⟨by rw [← hlen, List.length_cons]; congr 1; omega, tail, ?_⟩
          rw [htail, ← List.append_assoc]
          rfl
      · obtain ⟨rfl, rfl, hframe⟩ := footer_of_open hseed hseed' hd hbox hopen
        refine ⟨[], trivial, rfl, fun _ => rfl, by simp, fun _ => ⟨?_, rest, ?_⟩⟩
        · rw [beGet_bePut] at hcount
          have hpow : (256 : ℕ) ^ 4 = 2 ^ 32 := by norm_num
          rw [List.length_nil, Nat.add_zero, ← hcount, hpow]
        · rw [hframe]
          rfl

/-! ### Complete: such strings are accepted -/

variable {js : List ℕ}

omit [Aead] in
theorem chunkNonce_of_fits {start j : ℕ} (seed : Bytes) (h : Fits chunks start (j :: js)) :
    chunkNonce seed start = chunkNonce seed j :=
  (chunkNonce_eq_iff rfl).mpr ⟨rfl, h.1.2.1.symm⟩

theorem decryptLoop_frames (key seed : Bytes) (footer : Bool) (tail : Bytes) :
    ∀ {js : List ℕ} {fuel index : ℕ}, Fits chunks index js → js.length ≤ fuel →
      decryptLoop key seed footer fuel index ⟨framesOf key seed chunks js ++ tail, none⟩ =
        (spelled chunks js ++
            (decryptLoop key seed footer (fuel - js.length) (index + js.length) ⟨tail, none⟩).1,
          (decryptLoop key seed footer (fuel - js.length) (index + js.length) ⟨tail, none⟩).2) := by
  intro js
  induction js with
  | nil =>
    intro fuel index _ _
    rfl
  | cons j js ih =>
    intro fuel index hfits hfuel
    obtain ⟨fuel, rfl⟩ : ∃ k, fuel = k + 1 := ⟨fuel - 1, by rw [List.length_cons] at hfuel; omega⟩
    rw [List.length_cons, Nat.add_le_add_iff_right] at hfuel
    have hframes : framesOf key seed chunks (j :: js) ++ tail =
        chunkFrame (Aead.aeadSeal key (chunkNonce seed j) (chunkAt chunks j) []) ++
          (framesOf key seed chunks js ++ tail) := by
      rw [framesOf, List.flatMap_cons, List.append_assoc]
      rfl
    rw [hframes, decryptLoop_chunkFrame (by rw [Aead.length_aeadSeal]; omega)
      (by rw [Aead.length_aeadSeal]; exact hfits.1.2.2), chunkNonce_of_fits seed hfits,
      Aead.aeadOpen_aeadSeal]
    simp only [ih hfits.2 hfuel, List.length_cons, Nat.add_sub_add_right]
    rw [spelled, spelled, List.flatMap_cons, List.append_assoc, Nat.add_assoc, Nat.add_comm 1]

theorem length_framesOf_ge (key seed : Bytes) (chunks : List Bytes) (js : List ℕ) :
    js.length ≤ (framesOf key seed chunks js).length := by
  induction js with
  | nil => exact Nat.le_refl _
  | cons j js ih =>
    rw [framesOf, List.flatMap_cons, List.length_append, length_chunkFrame, List.length_cons]
    rw [framesOf] at ih
    omega

theorem decryptChunks_sealed (key seed : Bytes) (rest : Bytes) (hfits : Fits chunks 0 js)
    (hlen : js.length % 2 ^ 32 = chunks.length % 2 ^ 32) :
    decryptChunks key seed true
        ⟨framesOf key seed chunks js ++ (streamFooter key seed chunks.length ++ rest), none⟩ =
      ⟨spelled chunks js, none⟩ := by
  have hge := length_framesOf_ge key seed chunks js
  obtain ⟨k, hk⟩ : ∃ k, (framesOf key seed chunks js ++
      (streamFooter key seed chunks.length ++ rest)).length + 1 - js.length = k + 1 :=
    ⟨_, (Nat.sub_add_cancel (by rw [List.length_append]; omega)).symm⟩
  rw [decryptChunks, decryptLoop_frames key seed true _ hfits (by rw [List.length_append]; omega), hk,
    decryptLoop_footer_append key seed k rest (by rw [Nat.zero_add]; exact hlen.symm), List.append_nil]

theorem decryptChunks_plain (key seed : Bytes) (hfits : Fits chunks 0 js) :
    decryptChunks key seed false ⟨framesOf key seed chunks js, none⟩ = ⟨spelled chunks js, none⟩ := by
  have hge := length_framesOf_ge key seed chunks js
  obtain ⟨k, hk⟩ : ∃ k, (framesOf key seed chunks js).length + 1 - js.length = k + 1 :=
    ⟨_, (Nat.sub_add_cancel (by omega)).symm⟩
  have hloop := decryptLoop_frames key seed false [] hfits
    (show js.length ≤ (framesOf key seed chunks js).length + 1 by omega)
  have hend : decryptLoop key seed false (k + 1) (0 + js.length) ⟨[], none⟩ = ([], none) := by
    rw [decryptLoop, if_pos ⟨rfl, rfl⟩]
    rfl
  rw [List.append_nil, hk, hend, List.append_nil] at hloop
  rw [decryptChunks, hloop]

/-! ### The strings that mislead -/

def SealedHeader (head : Bytes) : Prop :=
  head = [3] ∨
    ∃ sz, sz.length = 2 ∧ minChunkSize ≤ beGet sz ∧ beGet sz ≤ maxChunkSize ∧ head = 4 :: sz

def Presents (key seed : Bytes) (chunks : List Bytes) (t : Bytes) (js : List ℕ) : Prop :=
  Fits chunks 0 js ∧
    ((∃ seed', seed'.length = streamSeedSize ∧ (js ≠ [] → seed' = seed) ∧
        t = 2 :: (seed' ++ framesOf key seed chunks js)) ∨
      (js.length % 2 ^ 32 = chunks.length % 2 ^ 32 ∧ ∃ head rest, SealedHeader head ∧
        t = head ++ (seed ++ (framesOf key seed chunks js ++
          (streamFooter key seed chunks.length ++ rest)))))

def Misleading (key seed : Bytes) (chunks : List Bytes) (t : Bytes) : Prop :=
  ∃ js, Presents key seed chunks t js ∧ spelled chunks js ≠ chunks.flatten

theorem decryptStream_iff {w : Bytes} (hseed : seed.length = streamSeedSize)
    (ht : Unforged key (streamSeals seed chunks) t) :
    decryptStream key ⟨t, none⟩ = ⟨w, none⟩ ↔
      ∃ js, Presents key seed chunks t js ∧ w = spelled chunks js := by
  constructor
  · intro h
    -- a decoder behind its header
    have hsound : ∀ {head seed' d : Bytes} {footer : Bool}, t = head ++ (seed' ++ d) →
        seed'.length = streamSeedSize → decryptChunks key seed' footer ⟨d, none⟩ = ⟨w, none⟩ →
        ∃ js, Accepted key seed seed' chunks footer 0 d w js := by
      intro head seed' d footer hd hseed' hw
      have hinfix : d <:+: t := ⟨head ++ seed', [], by rw [hd]; simp⟩
      obtain ⟨hdata, hfault⟩ := Reader.mk.inj hw
      have hloop : decryptLoop key seed' footer (d.length + 1) 0 ⟨d, none⟩ = (w, none) :=
        Prod.ext hdata hfault
      exact decryptLoop_sound hseed hseed' (ht.of_infix hinfix) hloop
    unfold decryptStream at h
    cases hversion : Reader.readFull ⟨t, none⟩ 1 with
    | error e => rw [hversion] at h; cases (Reader.mk.inj h).2
    | ok found =>
      obtain ⟨version, r⟩ := found
      obtain ⟨-, hd, hr⟩ := readFull_eq_ok hversion
      simp only [hversion] at h
      rw [hr] at h
      split_ifs at h with h4 h3 h2
      · unfold decryptStreamV4 at h
        cases hhead : Reader.readFull ⟨r.data, none⟩ (2 + streamSeedSize) with
        | error e => rw [hhead] at h; cases (Reader.mk.inj h).2
        | ok found =>
          obtain ⟨head, r'⟩ := found
          obtain ⟨hlen, hdata, hr'⟩ := readFull_eq_ok hhead
          simp only [hhead] at h
          by_cases hsize : beGet (head.take 2) < minChunkSize ∨ maxChunkSize < beGet (head.take 2)
          · rw [if_pos hsize] at h
            cases (Reader.mk.inj h).2
          rw [if_neg hsize, hr'] at h
          have hsplit : t = (4 :: head.take 2) ++ (head.drop 2 ++ r'.data) := by
            rw [hd, h4, hdata]
            change 4 :: (head ++ r'.data) = 4 :: (head.take 2 ++ (head.drop 2 ++ r'.data))
            rw [← List.append_assoc, List.take_append_drop]
          obtain ⟨js, hjs⟩ := hsound hsplit (by rw [List.length_drop, hlen]; rfl) h
          obtain ⟨hcount, rest, hrest⟩ := hjs.sealed rfl
          rw [Nat.zero_add] at hcount
          refine ⟨js, ⟨hjs.fits, Or.inr ⟨hcount, 4 :: head.take 2, rest, Or.inr ⟨_, ?_, ?_, ?_, rfl⟩,
            ?_⟩⟩, hjs.written⟩
          · rw [List.length_take, hlen]
            rfl
          · omega
          · omega
          · rw [hsplit, hjs.ownSeed (Or.inr rfl), hrest]
      · unfold decryptStreamV3 at h
        cases hhead : Reader.readFull ⟨r.data, none⟩ streamSeedSize with
        | error e => rw [hhead] at h; cases (Reader.mk.inj h).2
        | ok found =>
          obtain ⟨seed', r'⟩ := found
          obtain ⟨hlen, hdata, hr'⟩ := readFull_eq_ok hhead
          simp only [hhead] at h
          rw [hr'] at h
          have hsplit : t = [3] ++ (seed' ++ r'.data) := by rw [hd, h3, hdata]
          obtain ⟨js, hjs⟩ := hsound hsplit hlen h
          obtain ⟨hcount, rest, hrest⟩ := hjs.sealed rfl
          rw [Nat.zero_add] at hcount
          refine ⟨js, ⟨hjs.fits, Or.inr ⟨hcount, [3], rest, Or.inl rfl, ?_⟩⟩, hjs.written⟩
          rw [hsplit, hjs.ownSeed (Or.inr rfl), hrest]
      · unfold decryptStreamV3 at h
        cases hhead : Reader.readFull ⟨r.data, none⟩ streamSeedSize with
        | error e => rw [hhead] at h; cases (Reader.mk.inj h).2
        | ok found =>
          obtain ⟨seed', r'⟩ := found
          obtain ⟨hlen, hdata, hr'⟩ := readFull_eq_ok hhead
          simp only [hhead] at h
          rw [hr'] at h
          have hsplit : t = [2] ++ (seed' ++ r'.data) := by rw [hd, h2, hdata]
          obtain ⟨js, hjs⟩ := hsound hsplit hlen h
          refine ⟨js, ⟨hjs.fits, Or.inl ⟨seed', hlen, fun hne => hjs.ownSeed (Or.inl hne), ?_⟩⟩,
            hjs.written⟩
          rw [hsplit, hjs.plain rfl]
          rfl
      · cases (Reader.mk.inj h).2
  · rintro ⟨js, ⟨hfits, hpresents⟩, rfl⟩
    have hone : ∀ (v : UInt8) (d : Bytes), Reader.readFull ⟨v :: d, none⟩ 1 = .ok ([v], ⟨d, none⟩) :=
      fun v d => @Reader.readFull_append [v] d none 1 rfl
    rcases hpresents with ⟨seed', hlen, hown, rfl⟩ | ⟨hcount, head, rest, hhead, rfl⟩
    · have hread := @Reader.readFull_append seed' (framesOf key seed chunks js) none _ hlen
      simp only [decryptStream, hone, decryptStreamV3, hread]
      by_cases hjs : js = []
      · subst hjs
        exact decryptChunks_plain key seed' hfits
      · rw [hown hjs]
        exact decryptChunks_plain key seed hfits
    · rcases hhead with rfl | ⟨sz, hsz, hmin, hmax, rfl⟩
      · have hread := @Reader.readFull_append seed (framesOf key seed chunks js ++
          (streamFooter key seed chunks.length ++ rest)) none _ hseed
        simp only [decryptStream, List.singleton_append, hone, decryptStreamV3, hread]
        exact decryptChunks_sealed key seed rest hfits hcount
      · have hread := @Reader.readFull_append (sz ++ seed) (framesOf key seed chunks js ++
          (streamFooter key seed chunks.length ++ rest)) none (2 + streamSeedSize)
          (by rw [List.length_append, hsz, hseed])
        rw [List.append_assoc] at hread
        have htake : (sz ++ seed).take 2 = sz := List.take_left' hsz
        have hdrop : (sz ++ seed).drop 2 = seed := List.drop_left' hsz
        simp only [decryptStream, List.cons_append, hone, decryptStreamV4, hread, htake, hdrop, if_true]
        rw [if_neg (by omega)]
        exact decryptChunks_sealed key seed rest hfits hcount

/-- CORRECT: under an ideal AEAD, a string is read as nothing but the original plaintext exactly when
    it does not present chunks that spell another. -/
theorem tamper_evident_iff (size : Int) (key seed plaintext t : Bytes)
    (hseed : seed.length = streamSeedSize)
    (ht : Unforged key (streamSeals seed (streamChunks size plaintext)) t) :
    (∀ w, decryptStream key ⟨t, none⟩ = ⟨w, none⟩ → w = plaintext) ↔
      ¬ Misleading key seed (streamChunks size plaintext) t := by
  rw [Misleading, flatten_streamChunks]
  constructor
  · rintro h ⟨js, hjs, hne⟩
    exact hne (h _ ((decryptStream_iff hseed ht).mpr ⟨js, hjs, rfl⟩))
  · intro h w hw
    obtain ⟨js, hjs, rfl⟩ := (decryptStream_iff hseed ht).mp hw
    by_contra hne
    exact h ⟨js, hjs, hne⟩

omit [Aead] in
theorem spelled_range (chunks : List Bytes) :
    spelled chunks (List.range chunks.length) = chunks.flatten := by
  have hmap : (List.range chunks.length).map (chunkAt chunks) = chunks := by
    apply List.ext_getElem
    · simp
    · intro i h1 h2
      simp [chunkAt, List.getD_eq_getElem?_getD, List.getElem?_eq_getElem h2]
  rw [spelled, List.flatMap_def, hmap]

omit [Aead] in
theorem fits_range (hfew : chunks.length < 2 ^ 32) :
    ∀ {js : List ℕ} {start : ℕ}, start ≤ chunks.length → Fits chunks start js →
      js = List.range' start js.length ∧ start + js.length ≤ chunks.length := by
  intro js
  induction js with
  | nil => exact fun hstart _ => ⟨rfl, hstart⟩
  | cons j js ih =>
    rintro start hstart ⟨⟨hj, hmod, -⟩, hrest⟩
    rw [Nat.mod_eq_of_lt (by omega), Nat.mod_eq_of_lt (by omega)] at hmod
    subst hmod
    obtain ⟨hjs, hle⟩ := ih hj hrest
    refine ⟨?_, by rw [List.length_cons]; omega⟩
    rw [List.length_cons, List.range'_succ, ← hjs]

theorem not_misleading (hfew : chunks.length < 2 ^ 32) (ht : t.head? ≠ some 2) :
    ¬ Misleading key seed chunks t := by
  rintro ⟨js, ⟨hfits, ⟨seed', -, -, rfl⟩ | ⟨hcount, -⟩⟩, hne⟩
  · exact ht rfl
  · obtain ⟨hjs, hle⟩ := fits_range hfew (Nat.zero_le _) hfits
    rw [Nat.mod_eq_of_lt (by omega), Nat.mod_eq_of_lt hfew] at hcount
    rw [hcount, ← List.range_eq_range'] at hjs
    exact hne (by rw [hjs, spelled_range])

end Boxes

/-! ### A stream of one chunk -/

def aadCode (aad : Bytes) : UInt8 := if aad = [] then 0 else if aad = streamFooterAAD then 1 else 2

def namingTag (nonce p aad : Bytes) : Bytes :=
  (nonce ++ List.replicate 12 0).take 12 ++ [201, aadCode aad] ++ bePut 2 p.length

theorem length_namingTag (nonce p aad : Bytes) : (namingTag nonce p aad).length = 16 := by
  simp [namingTag]

@[reducible] def namingAead : Aead where
  aeadSeal _ nonce p aad := p ++ namingTag nonce p aad
  aeadOpen _ nonce box aad :=
    let p := box.take (box.length - 16)
    if box = p ++ namingTag nonce p aad then some p else none
  length_aeadSeal _ nonce p aad := by rw [List.length_append, length_namingTag]
  aeadOpen_aeadSeal _ nonce p aad := by
    have htake : (p ++ namingTag nonce p aad).take ((p ++ namingTag nonce p aad).length - 16) = p := by
      rw [List.length_append, length_namingTag, Nat.add_sub_cancel, List.take_left]
    simp only [htake, if_true]
  aeadOpen_foreign _ nonce nonce' p aad h := by
    have htake : (p ++ namingTag nonce' p aad).take ((p ++ namingTag nonce' p aad).length - 16) = p := by
      rw [List.length_append, length_namingTag, Nat.add_sub_cancel, List.take_left]
    simp only [htake]
    rw [if_neg]
    intro heq
    have htag := List.append_cancel_left heq
    have hcode : aadCode aad = aadCode [] := by
      have := congrArg (fun l : Bytes => l.getD 13 0) htag
      simpa [namingTag, List.getD_eq_getElem?_getD, List.getElem?_append] using this
    unfold aadCode at hcode
    rw [if_neg h, if_pos rfl] at hcode
    split_ifs at hcode <;> exact absurd hcode (by decide)

section Runs

local instance tamperAead : Aead := namingAead

theorem open_naming {key nonce box aad p : Bytes} (h : Aead.aeadOpen key nonce box aad = some p) :
    box = p ++ namingTag nonce p aad := by
  simp only [Aead.aeadOpen] at h
  split_ifs at h with hbox
  obtain rfl := Option.some.inj h
  exact hbox

def infixes (t : Bytes) : List Bytes := t.tails.flatMap List.inits

def Known (seals : List (Bytes × Bytes × Bytes)) (box : Bytes) : Prop :=
  let p := box.take (box.length - 16)
  let nonce := (box.drop (box.length - 16)).take 12
  ∀ x ∈ [([], (0 : UInt8)), (streamFooterAAD, 1), ([0], 2)],
    box = p ++ (nonce ++ [201, x.2] ++ bePut 2 p.length) → x.2 ≠ 2 ∧ (nonce, p, x.1) ∈ seals

instance (seals : List (Bytes × Bytes × Bytes)) (box : Bytes) : Decidable (Known seals box) :=
  inferInstanceAs (Decidable (∀ x ∈ _, _ → _))

theorem unforged_of_known {key : Bytes} {seals : List (Bytes × Bytes × Bytes)} {t : Bytes}
    (h : ∀ box ∈ infixes t, Known seals box) : Unforged key seals t := by
  intro box nonce aad p hbox hnonce hopen
  have hshape := open_naming hopen
  have htag : namingTag nonce p aad = nonce ++ [201, aadCode aad] ++ bePut 2 p.length := by
    rw [namingTag, List.take_append_of_le_length hnonce.ge, List.take_of_length_le hnonce.le]
  have hlen : box.length - 16 = p.length := by
    rw [hshape, List.length_append, length_namingTag, Nat.add_sub_cancel]
  have hp : box.take (box.length - 16) = p := by rw [hlen, hshape, List.take_left]
  have hn : (box.drop (box.length - 16)).take 12 = nonce := by
    rw [hlen]
    conv_lhs => rw [hshape, List.drop_left, htag, List.append_assoc]
    exact List.take_left' hnonce
  have hmem : box ∈ infixes t := by
    obtain ⟨u, hu, hsuffix⟩ := List.infix_iff_prefix_suffix.mp hbox
    exact List.mem_flatMap.mpr ⟨u, (List.mem_tails _ _).mpr hsuffix, (List.mem_inits _ _).mpr hu⟩
  have hknown := h box hmem
  unfold Known at hknown
  simp only [hp, hn] at hknown
  refine ⟨?_, hshape⟩
  rw [htag] at hshape
  unfold aadCode at hshape
  split_ifs at hshape with h0 h1
  · rw [h0]
    exact (hknown ([], 0) (by simp) hshape).2
  · rw [h1]
    exact (hknown (streamFooterAAD, 1) (by simp) hshape).2
  · exact absurd rfl (hknown ([0], 2) (by simp) hshape).1

theorem unforged_of_short {key : Bytes} {seals : List (Bytes × Bytes × Bytes)} {t : Bytes}
    (h : t.length < 16) : Unforged key seals t := by
  intro box nonce aad p hbox _ hopen
  have hlen := congrArg List.length (open_naming hopen)
  rw [List.length_append, length_namingTag] at hlen
  have := hbox.length_le
  omega

def sampleSeed : Bytes := [11, 12, 13, 14, 15, 16, 17, 18]

/-- A stream of one chunk, presented in the format before the current one with bytes behind it. -/
def relabelled : Bytes :=
  3 :: (encryptBytesOf 4096 [] sampleSeed [97]).drop 3 ++ [5, 5]

theorem relabelled_read_as_plaintext :
    decryptStream [] ⟨relabelled, none⟩ = ⟨[97], none⟩ ∧
      ∀ w, decryptStream [] ⟨relabelled, none⟩ = ⟨w, none⟩ → w = [97] :=
  ⟨by decide +kernel,
    (tamper_evident_iff 4096 [] sampleSeed [97] relabelled (by decide)
      (unforged_of_known (by decide +kernel))).mpr (not_misleading (by decide +kernel) (by decide +kernel))⟩

def beheaded : Bytes := 2 :: (encryptBytesOf 4096 [] sampleSeed [97]).drop 3 |>.take 9

theorem beheaded_read_as_empty :
    Unforged [] (streamSeals sampleSeed (streamChunks 4096 [97])) beheaded ∧
      decryptStream [] ⟨beheaded, none⟩ = ⟨[], none⟩ ∧
      ¬ ∀ w, decryptStream [] ⟨beheaded, none⟩ = ⟨w, none⟩ → w = [97] :=
  have hread : decryptStream [] ⟨beheaded, none⟩ = ⟨[], none⟩ := by decide +kernel
  ⟨unforged_of_short (by decide +kernel), hread, fun h => absurd (h [] hread) (by decide)⟩

end Runs

end Momo.Crypto

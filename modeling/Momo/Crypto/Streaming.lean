import Momo.Common.Base
import Momo.Schemes.ByteOrder

/-! @momo src/crypto/streaming.go, src/crypto/crypto.go | scheme:chunked stream codec

    The at-rest format. `EncryptStream` cuts the plaintext into chunks of 4096 bytes and seals each
    one under the nonce `seed · index`; a footer, sealed under its own nonce and associated data,
    binds the number of chunks. -/

namespace Momo

/-- AES-256-GCM with a 32-byte key. -/
class Aead where
  aeadSeal : (key nonce plaintext aad : Bytes) → Bytes
  aeadOpen : (key nonce box aad : Bytes) → Option Bytes
  length_aeadSeal : ∀ key nonce p aad, (aeadSeal key nonce p aad).length = p.length + 16
  aeadOpen_aeadSeal : ∀ key nonce p aad, aeadOpen key nonce (aeadSeal key nonce p aad) aad = some p
  /-- What was sealed with associated data does not open without it. -/
  aeadOpen_foreign : ∀ key nonce nonce' p aad, aad ≠ [] →
    aeadOpen key nonce (aeadSeal key nonce' p aad) [] = none

/-- A box with a tag of zeros, or of ones when there is associated data, for concrete runs. -/
@[reducible] def tagAead : Aead where
  aeadSeal _ _ p aad := p ++ List.replicate 16 (if aad = [] then 0 else 1)
  aeadOpen _ _ box aad :=
    if box.drop (box.length - 16) = List.replicate 16 (if aad = [] then 0 else 1) then
      some (box.take (box.length - 16)) else none
  length_aeadSeal _ _ p aad := by simp
  aeadOpen_aeadSeal _ _ p aad := by simp
  aeadOpen_foreign _ _ _ p aad h := by simp [h]

/-- Exactly `n` bytes and the reader after them, or the error it ends in. -/
def Reader.readFull (r : Reader) (n : ℕ) : Except Err (Bytes × Reader) :=
  if r.data.length < n then
    .error (r.fault.getD (.text (if r.data = [] then "EOF" else "unexpected EOF")))
  else .ok (r.data.take n, ⟨r.data.drop n, r.fault⟩)

theorem Reader.readFull_append {a b : Bytes} {fault : Option Err} {n : ℕ} (h : a.length = n) :
    Reader.readFull ⟨a ++ b, fault⟩ n = .ok (a, ⟨b, fault⟩) := by
  subst h
  rw [Reader.readFull, if_neg (by simp), List.take_left, List.drop_left]

namespace Crypto

def chunkSize : ℕ := 4096

def minChunkSize : ℕ := 512

def maxChunkSize : ℕ := chunkSize + 4 + 12 + 16

def streamSeedSize : ℕ := 8

def footerNonceIndex : ℕ := 2 ^ 32 - 1

/-- The text `momo:stream-footer:v1`. -/
def streamFooterAAD : Bytes :=
  [109, 111, 109, 111, 58, 115, 116, 114, 101, 97, 109, 45, 102, 111, 111, 116, 101, 114, 58, 118,
    49]

def chunkNonce (seed : Bytes) (index : ℕ) : Bytes := seed ++ bePut 4 index

def chunkFrame (box : Bytes) : Bytes := bePut 4 box.length ++ box

theorem length_chunkFrame (box : Bytes) : (chunkFrame box).length = box.length + 4 := by
  rw [chunkFrame, List.length_append, length_bePut, Nat.add_comm]

theorem readFull_chunkFrame {box rest : Bytes} (hlen : box.length < 2 ^ 32) :
    Reader.readFull ⟨chunkFrame box ++ rest, none⟩ 4 =
      .ok (bePut 4 box.length, ⟨box ++ rest, none⟩) ∧
    beGet (bePut 4 box.length) = box.length := by
  constructor
  · rw [chunkFrame, List.append_assoc]
    exact Reader.readFull_append (length_bePut 4 _)
  · rw [beGet_bePut]
    exact Nat.mod_eq_of_lt hlen

variable [Aead]

/-! ### Encrypting -/

/-- The chunk loop of `EncryptStream` from chunk `index` on: the frames, and the number of chunks
    in the end. A round takes at least one byte, so the length of the plaintext is enough fuel. -/
def encryptLoop (key seed : Bytes) : (fuel index : ℕ) → (rest : Bytes) → Bytes × ℕ
  | 0, index, _ => ([], index)
  | fuel + 1, index, rest =>
    if rest = [] then ([], index)
    else
      let box := Aead.aeadSeal key (chunkNonce seed index) (rest.take chunkSize) []
      let (frames, count) := encryptLoop key seed fuel (index + 1) (rest.drop chunkSize)
      (chunkFrame box ++ frames, count)

def streamFooter (key seed : Bytes) (chunkCount : ℕ) : Bytes :=
  chunkFrame
    (Aead.aeadSeal key (chunkNonce seed footerNonceIndex) (bePut 4 chunkCount) streamFooterAAD)

def streamHeader : Bytes := 4 :: bePut 2 chunkSize

def encryptBytes (key seed plaintext : Bytes) : Bytes :=
  let (frames, count) := encryptLoop key seed plaintext.length 0 plaintext
  streamHeader ++ (seed ++ (frames ++ streamFooter key seed count))

def encryptStream (key seed : Bytes) (plaintext : Reader) : Reader :=
  match plaintext.fault with
  | none => ⟨encryptBytes key seed plaintext.data, none⟩
  | some e =>
    let whole := plaintext.data.take (plaintext.data.length / chunkSize * chunkSize)
    ⟨streamHeader ++ (seed ++ (encryptLoop key seed whole.length 0 whole).1),
      some (.wrap "crypto: failed to read plaintext chunk: %w" [] e)⟩

/-! ### Decrypting -/

def errTampered : Err := .text "crypto: authentication failed (tampered data)"

def errStreamFormat (format : String) (args : List Arg) : Err :=
  .wrap (format ++ ": crypto: invalid stream format") args (.sys .ebadmsg)

def errStreamTruncated (chunks : ℕ) : Err :=
  .wrap "expected integrity footer after %d chunk(s): crypto: stream truncated" [.num chunks]
    (.sys .eio)

/-- The chunk loop of the three decoders: the plaintext written, and the error in place of a clean
    end. Without a footer the end of the data is a clean end. -/
def decryptLoop (key seed : Bytes) (footer : Bool) : (fuel index : ℕ) → Reader → Bytes × Option Err
  | 0, index, _ => ([], some (errStreamTruncated index))
  | fuel + 1, index, r =>
    if r.data = [] ∧ r.fault = none then
      ([], if footer then some (errStreamTruncated index) else none)
    else match r.readFull 4 with
      | .error e =>
        ([], some (if footer then e else .wrap "crypto: failed to read chunk length: %w" [] e))
      | .ok (lenBuf, r) =>
        let boxLen := beGet lenBuf
        if maxChunkSize < boxLen ∨ boxLen = 0 then
          ([], some (if footer ∧ boxLen = 0 then errStreamFormat "invalid zero-length chunk" []
            else errStreamFormat "invalid chunk size %d" [.num boxLen]))
        else match r.readFull boxLen with
          | .error e => ([], some (.wrap "crypto: failed to read chunk ciphertext: %w" [] e))
          | .ok (box, r) =>
            match Aead.aeadOpen key (chunkNonce seed index) box [] with
            | some plaintext =>
              let (more, err) := decryptLoop key seed footer fuel (index + 1) r
              (plaintext ++ more, err)
            | none =>
              if footer then
                match Aead.aeadOpen key (chunkNonce seed footerNonceIndex) box streamFooterAAD with
                | none => ([], some errTampered)
                | some count =>
                  if count.length ≠ 4 then ([], some (errStreamFormat "malformed stream footer" []))
                  else if beGet count ≠ index % 2 ^ 32 then
                    ([], some (errStreamFormat "footer chunk count %d != %d chunks decoded"
                      [.num (beGet count), .num index]))
                  else ([], none)
              else ([], some errTampered)

def decryptChunks (key seed : Bytes) (footer : Bool) (r : Reader) : Reader :=
  let (plaintext, err) := decryptLoop key seed footer (r.data.length + 1) 0 r
  ⟨plaintext, err⟩

def decryptStreamV3 (key : Bytes) (footer : Bool) (r : Reader) : Reader :=
  match r.readFull streamSeedSize with
  | .error e => ⟨[], some (.wrap "crypto: failed to read stream seed: %w" [] e)⟩
  | .ok (seed, r) => decryptChunks key seed footer r

/-- Chunk size and seed are read together; the size is only checked. -/
def decryptStreamV4 (key : Bytes) (r : Reader) : Reader :=
  match r.readFull (2 + streamSeedSize) with
  | .error e => ⟨[], some (.wrap "crypto: failed to read stream chunk-size header/seed: %w" [] e)⟩
  | .ok (head, r) =>
    let declared := beGet (head.take 2)
    if declared < minChunkSize ∨ maxChunkSize < declared then
      ⟨[], some (errStreamFormat "invalid v4 stream chunk size %d (must be within [%d, %d])"
        [.num declared, .num minChunkSize, .num maxChunkSize])⟩
    else decryptChunks key (head.drop 2) true r

/-- The plaintext that comes out of it, and the error it ends in. -/
def decryptStream (key : Bytes) (ciphertext : Reader) : Reader :=
  match ciphertext.readFull 1 with
  | .error e => ⟨[], some (.wrap "crypto: failed to read stream header: %w" [] e)⟩
  | .ok (version, r) =>
    if version = [4] then decryptStreamV4 key r
    else if version = [3] then decryptStreamV3 key true r
    else if version = [2] then decryptStreamV3 key false r
    else ⟨[], some (errStreamFormat "unsupported version %d" (version.map (.num ·.toNat)))⟩

/-! ### Lengths -/

theorem length_encryptLoop (key seed : Bytes) : ∀ (fuel index : ℕ) (rest : Bytes),
    rest.length ≤ fuel → (encryptLoop key seed fuel index rest).1.length =
      rest.length + 20 * ((rest.length + (chunkSize - 1)) / chunkSize)
  | 0, index, rest, h => by
      obtain rfl : rest = [] := List.length_eq_zero_iff.mp (by omega)
      rfl
  | fuel + 1, index, rest, h => by
      rw [encryptLoop]
      split_ifs with hrest
      · subst hrest; rfl
      · have hpos : 0 < rest.length := List.length_pos_iff.mpr hrest
        have ih := length_encryptLoop key seed fuel (index + 1) (rest.drop chunkSize)
          (by rw [List.length_drop, chunkSize]; omega)
        simp only [List.length_append, length_chunkFrame, Aead.length_aeadSeal, List.length_take]
        rw [ih, List.length_drop]
        simp only [chunkSize]
        omega

def encryptedLength (n : ℕ) : ℕ := n + 20 * ((n + (chunkSize - 1)) / chunkSize) + 35

variable {key seed : Bytes}

theorem length_encryptBytes (hseed : seed.length = streamSeedSize) (plaintext : Bytes) :
    (encryptBytes key seed plaintext).length = encryptedLength plaintext.length := by
  simp only [encryptBytes, streamHeader, streamFooter, List.length_append, List.length_cons,
    length_bePut, hseed, length_encryptLoop key seed _ _ plaintext le_rfl, length_chunkFrame,
    Aead.length_aeadSeal, encryptedLength, streamSeedSize]
  omega

/-! ### Round trip -/

theorem decryptLoop_chunkFrame {footer : Bool} {fuel index : ℕ} {box rest : Bytes}
    (hpos : 0 < box.length) (hmax : box.length ≤ maxChunkSize) :
    decryptLoop key seed footer (fuel + 1) index ⟨chunkFrame box ++ rest, none⟩ =
      match Aead.aeadOpen key (chunkNonce seed index) box [] with
      | some plaintext =>
        (plaintext ++ (decryptLoop key seed footer fuel (index + 1) ⟨rest, none⟩).1,
          (decryptLoop key seed footer fuel (index + 1) ⟨rest, none⟩).2)
      | none =>
        if footer then
          match Aead.aeadOpen key (chunkNonce seed footerNonceIndex) box streamFooterAAD with
          | none => ([], some errTampered)
          | some count =>
            if count.length ≠ 4 then ([], some (errStreamFormat "malformed stream footer" []))
            else if beGet count ≠ index % 2 ^ 32 then
              ([], some (errStreamFormat "footer chunk count %d != %d chunks decoded"
                [.num (beGet count), .num index]))
            else ([], none)
        else ([], some errTampered) := by
  have hsmall : box.length < 2 ^ 32 := by
    have : maxChunkSize < 2 ^ 32 := by decide
    omega
  have hne : ¬ ((chunkFrame box ++ rest) = [] ∧ (none : Option Err) = none) := by
    rintro ⟨h, -⟩
    have := congrArg List.length h
    rw [List.length_append, length_chunkFrame, List.length_nil] at this
    omega
  obtain ⟨hlen, hnum⟩ := @readFull_chunkFrame box rest hsmall
  have hbox : Reader.readFull ⟨box ++ rest, none⟩ box.length = .ok (box, ⟨rest, none⟩) :=
    Reader.readFull_append rfl
  have hvalid : ¬ (maxChunkSize < box.length ∨ box.length = 0) := by omega
  rw [decryptLoop, if_neg hne]
  simp only [hlen, hnum, if_neg hvalid, hbox]

/-- Base: at the footer the count is the number of chunks read, modulo its width; what follows it is
    not read. -/
theorem decryptLoop_footer_append (key seed : Bytes) (fuel : ℕ) {index count : ℕ} (rest : Bytes)
    (hcount : count % 2 ^ 32 = index % 2 ^ 32) :
    decryptLoop key seed true (fuel + 1) index ⟨streamFooter key seed count ++ rest, none⟩ =
      ([], none) := by
  have hpow : (256 : ℕ) ^ 4 = 2 ^ 32 := by norm_num
  rw [streamFooter, decryptLoop_chunkFrame (by rw [Aead.length_aeadSeal]; omega)
      (by rw [Aead.length_aeadSeal, length_bePut, maxChunkSize]; omega),
    Aead.aeadOpen_foreign _ _ _ _ _ (by decide), Aead.aeadOpen_aeadSeal]
  simp only [length_bePut, ne_eq, not_true_eq_false, if_false, beGet_bePut, hpow, hcount, if_true]

theorem decryptLoop_streamFooter (key seed : Bytes) (fuel index : ℕ) :
    decryptLoop key seed true (fuel + 1) index ⟨streamFooter key seed index, none⟩ = ([], none) := by
  have h := decryptLoop_footer_append key seed fuel [] (rfl : index % 2 ^ 32 = _)
  rwa [List.append_nil] at h

/-- Run: from any chunk on, the decoder returns what the encoder was given and stops at the
    footer. -/
theorem decryptLoop_encryptLoop (key seed : Bytes) : ∀ (fuel fuel' index : ℕ) (rest : Bytes),
    rest.length ≤ fuel → rest.length < fuel' →
    decryptLoop key seed true fuel' index ⟨(encryptLoop key seed fuel index rest).1 ++
      streamFooter key seed (encryptLoop key seed fuel index rest).2, none⟩ = (rest, none)
  | fuel, 0, _, _, _, h => by omega
  | 0, fuel' + 1, index, rest, h, _ => by
      obtain rfl : rest = [] := List.length_eq_zero_iff.mp (by omega)
      exact decryptLoop_streamFooter key seed fuel' index
  | fuel + 1, fuel' + 1, index, rest, h, h' => by
      by_cases hrest : rest = []
      · subst hrest
        rw [encryptLoop, if_pos rfl]
        exact decryptLoop_streamFooter key seed fuel' index
      · have hpos : 0 < rest.length := List.length_pos_iff.mpr hrest
        have ih := decryptLoop_encryptLoop key seed fuel fuel' (index + 1) (rest.drop chunkSize)
          (by rw [List.length_drop, chunkSize]; omega) (by rw [List.length_drop, chunkSize]; omega)
        rw [encryptLoop, if_neg hrest]
        simp only [List.append_assoc]
        rw [decryptLoop_chunkFrame (by rw [Aead.length_aeadSeal]; omega)
          (by rw [Aead.length_aeadSeal, List.length_take, maxChunkSize]; omega),
          Aead.aeadOpen_aeadSeal]
        simp only [ih, List.take_append_drop]

theorem decryptStream_encryptBytes (hseed : seed.length = streamSeedSize) (plaintext : Bytes) :
    decryptStream key ⟨encryptBytes key seed plaintext, none⟩ = ⟨plaintext, none⟩ := by
  have hversion : Reader.readFull ⟨encryptBytes key seed plaintext, none⟩ 1 =
      .ok ([4], ⟨bePut 2 chunkSize ++ (seed ++ ((encryptLoop key seed plaintext.length 0 plaintext).1
        ++ streamFooter key seed (encryptLoop key seed plaintext.length 0 plaintext).2)), none⟩) :=
    @Reader.readFull_append [4] _ none 1 rfl
  have hhead := @Reader.readFull_append (bePut 2 chunkSize ++ seed)
    ((encryptLoop key seed plaintext.length 0 plaintext).1
      ++ streamFooter key seed (encryptLoop key seed plaintext.length 0 plaintext).2) none
    (2 + streamSeedSize) (by rw [List.length_append, length_bePut, hseed])
  rw [List.append_assoc] at hhead
  have hsize : (bePut 2 chunkSize ++ seed).take 2 = bePut 2 chunkSize :=
    List.take_left' (length_bePut 2 _)
  have hrest : (bePut 2 chunkSize ++ seed).drop 2 = seed := List.drop_left' (length_bePut 2 _)
  have hdeclared : ¬ (beGet (bePut 2 chunkSize) < minChunkSize ∨
      maxChunkSize < beGet (bePut 2 chunkSize)) := by decide
  simp only [decryptStream, hversion, if_true, decryptStreamV4, hhead, hsize, hrest,
    if_neg hdeclared, decryptChunks]
  rw [decryptLoop_encryptLoop key seed _ _ 0 plaintext le_rfl]
  rw [List.length_append, length_encryptLoop key seed _ _ plaintext le_rfl]
  omega

end Crypto

end Momo

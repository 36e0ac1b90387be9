import Momo.Crypto.Streaming

/-! @momo src/crypto/crypto.go, src/crypto/envelope.go | scheme:key derivation and wrapping

    Keys of the client: one per tenant and purpose, derived from a master key (`DeriveKey`), and one
    per object, wrapped under the master key and carried in front of the object's ciphertext:

        MOMOENV1 · version(1) · algorithm(1) · lengths(2+2) · key id · wrapped key · stream -/

namespace Momo

/-- HKDF-SHA-256 without salt, for keys of 32 bytes. -/
class Hkdf where
  hkdfKey : (masterKey info : Bytes) → Bytes
  length_hkdfKey : ∀ masterKey info, (hkdfKey masterKey info).length = 32

namespace Crypto

def keySize : ℕ := 32

def nonceSize : ℕ := 12

def errInvalidKeySize : Err := .text "crypto: key must be 32 bytes"

/-- The text `momo/content`. -/
def domainContent : Bytes := [109, 111, 109, 111, 47, 99, 111, 110, 116, 101, 110, 116]

def deriveKey [Hkdf] (masterKey tenant context : Bytes) : Except Err Bytes :=
  if masterKey.length ≠ keySize then .error errInvalidKeySize
  else .ok (Hkdf.hkdfKey masterKey
    (bePut 4 tenant.length ++ tenant ++ (bePut 4 context.length ++ context)))

def newCipher (key : Bytes) : Except Err Bytes :=
  if key.length ≠ keySize then .error errInvalidKeySize else .ok key

/-- The text `MOMOENV1`. -/
def envelopeMagic : Bytes := [77, 79, 77, 79, 69, 78, 86, 49]

def envelopeMaxKeyIDLen : ℕ := 256

def encrypt [Aead] (key nonce plaintext : Bytes) : Bytes :=
  nonce ++ Aead.aeadSeal key nonce plaintext []

def envelopeHeader (keyID wrappedKey : Bytes) : Bytes :=
  envelopeMagic ++ (1 :: 1 :: (bePut 2 keyID.length ++ (bePut 2 wrappedKey.length ++
    (keyID ++ wrappedKey))))

/-- `EncryptEnvelope` with the data key, the nonce and the stream seed it drew. -/
def encryptEnvelope [Aead] (masterKey keyID dataKey nonce seed plaintext : Bytes) :
    Except Err Bytes := do
  if masterKey.length ≠ keySize then .error errInvalidKeySize
  else if keyID.length > envelopeMaxKeyIDLen then
    .error (.wrap "crypto: key-id %d bytes exceeds maximum %d: %w"
      [.num keyID.length, .num envelopeMaxKeyIDLen] (.sys .einval))
  else
    let wrapCipher ← newCipher masterKey
    let dataCipher ← newCipher dataKey
    return envelopeHeader keyID (encrypt wrapCipher nonce dataKey) ++
      encryptBytes dataCipher seed plaintext

end Crypto

end Momo

import Momo.Schemes.OrderedMap

/-! @momo src/common/string.go, src/common/hash.go | scheme:values, errors, paths

    The vocabulary every other module speaks: Go strings and byte slices are lists of bytes, Go
    errors are chains ending in an errno, a content hash is the lower-case hex text of a SHA-256
    digest, and an `io.Reader` is the bytes it will deliver followed by EOF or a fault. -/

namespace Momo

abbrev Bytes := List UInt8

instance linearOrderByte : LinearOrder UInt8 where
  le_refl := UInt8.le_refl
  le_trans _ _ _ := UInt8.le_trans
  lt_iff_le_not_ge a b := by simp only [UInt8.le_iff_toNat_le, UInt8.lt_iff_toNat_lt]; omega
  le_antisymm _ _ := UInt8.le_antisymm
  le_total := UInt8.le_total
  toDecidableLE := inferInstance
  toDecidableLT := inferInstance
  toDecidableEq := inferInstance

/-! Instances the definitions of several modules share. -/

instance lawfulByte : LawfulBEq UInt8 := inferInstance

instance lawfulBytes : LawfulBEq Bytes := inferInstance

instance lawfulFin {n : ℕ} : LawfulBEq (Fin n) := inferInstance

instance neZeroTwo : NeZero 2 := ⟨by decide⟩

instance neZeroThree : NeZero 3 := ⟨by decide⟩

/-! ### Errors -/

/-- The `syscall.Errno` values the modelled code returns or tests for. -/
inductive Errno
  | einval | eio | enoent | ebadmsg | enametoolong | enospc | eacces | eperm | efbig
  | eexist | enotdir | eisdir | enotempty | ebusy | eoverflow | etimedout
  deriving DecidableEq

inductive Arg
  | str (s : Bytes)
  | num (n : Int)
  deriving DecidableEq

/-- A Go error: a bare errno, an `*os.PathError` around an errno, a formatted text, or a
    `fmt.Errorf` that wraps a cause with `%w`. -/
inductive Err
  | sys (no : Errno)
  | path (no : Errno)
  | text (format : String) (args : List Arg := [])
  | wrap (format : String) (args : List Arg) (cause : Err)
  deriving DecidableEq

namespace Err

/-- `errors.Is(err, no)`: follow the chain of causes. -/
def is : Err → Errno → Bool
  | sys n, no => n = no
  | path n, no => n = no
  | text _ _, _ => false
  | wrap _ _ c, no => c.is no

/-- Looks at the error itself and at a path error's errno, but does not follow `fmt.Errorf` chains.
    -/
def isNotExist : Err → Bool
  | sys n => n = .enoent
  | path n => n = .enoent
  | text _ _ => false
  | wrap _ _ _ => false

end Err

/-! ### Digests -/

class Sha256 where
  sum256 : Bytes → Bytes
  length_sum256 : ∀ b, (sum256 b).length = 32

/-- A digest function given by a finite table of known digests; every other input gets zeros.
    Concrete runs use it with the real digests of the contents they touch. -/
@[reducible] def Sha256.ofTable (table : List (Bytes × {d : Bytes // d.length = 32})) : Sha256 where
  sum256 b := ((table.lookup b).map Subtype.val).getD (List.replicate 32 0)
  length_sum256 b := by
    cases h : table.lookup b with
    | none => simp
    | some d => simpa using d.property

@[reducible] def digestA : {d : Bytes // d.length = 32} :=
  ⟨[202, 151, 129, 18, 202, 27, 189, 202, 250, 194, 49, 179, 154, 35, 220, 77,
    167, 134, 239, 248, 20, 124, 78, 114, 185, 128, 119, 133, 175, 238, 72, 187], rfl⟩

/-- The SHA-256 digests of the empty string, of `a` and of `b`, for concrete runs. -/
@[reducible] def sampleSha : Sha256 := Sha256.ofTable [
  ([], ⟨[227, 176, 196, 66, 152, 252, 28, 20, 154, 251, 244, 200, 153, 111, 185, 36,
    39, 174, 65, 228, 100, 155, 147, 76, 164, 149, 153, 27, 120, 82, 184, 85], rfl⟩),
  ([97], digestA),
  ([98], ⟨[62, 35, 232, 22, 0, 57, 89, 74, 51, 137, 79, 101, 100, 225, 177, 52,
    139, 189, 122, 0, 136, 212, 44, 74, 203, 115, 238, 174, 213, 156, 0, 157], rfl⟩)]

/-- A digest with no table: the input as a polynomial, for concrete runs on many contents. -/
@[reducible] def polySha : Sha256 where
  sum256 b :=
    let h := b.foldl (fun acc x => (acc * 257 + x.toNat + 1) % 2 ^ 256) 7
    (List.range 32).map fun i => UInt8.ofNat (h / 256 ^ i % 256)
  length_sum256 b := by simp

def hexDigit (n : Nat) : UInt8 := UInt8.ofNat (if n < 10 then 48 + n else 87 + n)

def hexEncode : Bytes → Bytes
  | [] => []
  | b :: bs => hexDigit (b.toNat / 16) :: hexDigit (b.toNat % 16) :: hexEncode bs

def unhexDigit (c : UInt8) : Option Nat :=
  let n := c.toNat
  if 48 ≤ n ∧ n ≤ 57 then some (n - 48)
  else if 97 ≤ n ∧ n ≤ 102 then some (n - 87)
  else if 65 ≤ n ∧ n ≤ 70 then some (n - 55)
  else none

/-- `hex.DecodeString`: an odd length or a foreign character is refused. -/
def hexDecode : Bytes → Option Bytes
  | [] => some []
  | [_] => none
  | a :: b :: bs => do
    let hi ← unhexDigit a
    let lo ← unhexDigit b
    let rest ← hexDecode bs
    some (UInt8.ofNat (16 * hi + lo) :: rest)

def hashBytes [Sha256] (content : Bytes) : Bytes := hexEncode (Sha256.sum256 content)

theorem length_hexEncode : ∀ b : Bytes, (hexEncode b).length = 2 * b.length
  | [] => rfl
  | b :: bs => by simp only [hexEncode, List.length_cons, length_hexEncode bs]; omega

theorem length_hashBytes [Sha256] (c : Bytes) : (hashBytes c).length = 64 := by
  rw [hashBytes, length_hexEncode, Sha256.length_sum256]

theorem unhexDigit_hexDigit : ∀ n : Fin 16, unhexDigit (hexDigit n) = some n.val := by decide

theorem hexDecode_hexEncode : ∀ b : Bytes, hexDecode (hexEncode b) = some b
  | [] => rfl
  | b :: bs => by
      have hhi := unhexDigit_hexDigit ⟨b.toNat / 16, by have := b.toNat_lt; omega⟩
      have hlo := unhexDigit_hexDigit ⟨b.toNat % 16, by omega⟩
      simp only at hhi hlo
      have hb : UInt8.ofNat (16 * (b.toNat / 16) + b.toNat % 16) = b := by
        rw [Nat.div_add_mod, UInt8.ofNat_toNat]
      simp only [hexEncode, hexDecode, hhi, hlo, hexDecode_hexEncode bs, Option.bind_eq_bind,
        Option.bind_some, hb]

theorem hexEncode_injective : Function.Injective hexEncode := fun a b h => by
  have := congrArg hexDecode h
  simpa [hexDecode_hexEncode] using this

theorem mem_hexEncode : ∀ {b : Bytes} {c : UInt8}, c ∈ hexEncode b → ∃ n : Fin 16, c = hexDigit n
  | b :: bs, c, h => by
      rw [hexEncode, List.mem_cons, List.mem_cons] at h
      rcases h with rfl | rfl | h
      · exact ⟨⟨b.toNat / 16, by have := b.toNat_lt; omega⟩, rfl⟩
      · exact ⟨⟨b.toNat % 16, by omega⟩, rfl⟩
      · exact mem_hexEncode h

/-! ### Texts -/

def lit (s : String) : Bytes := s.toUTF8.data.toList

def ValidUTF8 (b : Bytes) : Prop := (ByteArray.mk b.toArray).IsValidUTF8

instance (b : Bytes) : Decidable (ValidUTF8 b) :=
  inferInstanceAs (Decidable (ByteArray.mk b.toArray).IsValidUTF8)

theorem replaceInvalid_of_valid (b : Bytes) (h : ValidUTF8 b) :
    (if ValidUTF8 b then b else [239, 191, 189]) = b := if_pos h

theorem utf8EncodeChar_ascii : ∀ n : Fin 128,
    String.utf8EncodeChar (Char.ofNat n) = [UInt8.ofNat n] := by decide

theorem validUTF8_of_ascii {b : Bytes} (h : ∀ c ∈ b, c.toNat < 128) : ValidUTF8 b := by
  have hchars : (b.map fun c => Char.ofNat c.toNat).flatMap String.utf8EncodeChar = b := by
    induction b with
    | nil => rfl
    | cons c b ih =>
      have hc := utf8EncodeChar_ascii ⟨c.toNat, h c (List.mem_cons_self ..)⟩
      simp only [UInt8.ofNat_toNat] at hc
      rw [List.map_cons, List.flatMap_cons, hc, ih (fun c hc => h c (List.mem_cons_of_mem _ hc)),
        List.singleton_append]
  refine ⟨b.map fun c => Char.ofNat c.toNat, ?_⟩
  rw [List.utf8Encode, hchars]
  apply ByteArray.ext
  simp

/-! ### Readers -/

/-- An `io.Reader` that is read to its end: the bytes it delivers, then EOF or a fault. -/
structure Reader where
  data : Bytes
  fault : Option Err := none
  deriving DecidableEq

/-- `io.LimitReader(r, n)`: at most `n` bytes; a limit that is reached hides a later fault. -/
def Reader.limit (r : Reader) (n : Int) : Reader :=
  ⟨r.data.take n.toNat, if (r.data.length : Int) < n then r.fault else none⟩

def fileInfoLength : Nat := 64

/-- 1 GiB. -/
def maxFileSize : Nat := 1024 * 1024 * 1024

end Momo

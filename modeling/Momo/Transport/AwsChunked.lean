import Momo.Schemes.Delimited
import Momo.Schemes.Prog
import Momo.Common.Path
import Momo.Transport.Handshake

/-! @momo src/transport/aws_chunked.go | scheme:resumable parser

    The de-framer of aws-chunked uploads. The body of a request is a sequence of chunks, each with a
    text line that gives its size and, in the signed modes, its signature. -/

namespace Momo

/-! ### The buffered source -/

/-- A `bufio.Reader`: what it still delivers, and the size of its buffer, at least sixteen bytes. -/
structure BufReader extends Reader where
  size : ℕ
  size_ge : 16 ≤ size

/-- What `ReadSlice('\n')` returns: a line with its newline, a full buffer without one
    (`bufio.ErrBufferFull`), or the rest of a stream that ended; the fault `none` is `io.EOF`. -/
inductive Slice
  | line (frag : Bytes)
  | full (frag : Bytes)
  | ended (frag : Bytes) (fault : Option Err)

namespace BufReader

/-- The source after `n` more bytes. -/
def skip (b : BufReader) (n : ℕ) : BufReader := { b with data := b.data.drop n }

/-- `ReadSlice('\n')`. The buffer is filled until it holds a newline or is full. -/
def readSlice (b : BufReader) : Slice × BufReader :=
  let window := b.data.take b.size
  if (10 : UInt8) ∈ window then
    let n := b.data.idxOf 10 + 1
    (.line (b.data.take n), b.skip n)
  else if b.size ≤ b.data.length then (.full window, b.skip b.size)
  else (.ended b.data b.fault, b.skip b.data.length)

/-- `io.ReadFull` on the source; the error `none` is `io.EOF` or `io.ErrUnexpectedEOF`. -/
def readFull (b : BufReader) (n : ℕ) : Except (Option Err) Bytes × BufReader :=
  if b.data.length < n then (.error b.fault, b.skip b.data.length)
  else (.ok (b.data.take n), b.skip n)

theorem readSlice_cases (b : BufReader) :
    (∃ line rest, 10 ∉ line ∧ b.data = line ++ 10 :: rest ∧
      b.readSlice = (.line (line ++ [10]), b.skip (line.length + 1))) ∨
    (10 ∉ b.data.take b.size ∧ b.size ≤ b.data.length ∧
      b.readSlice = (.full (b.data.take b.size), b.skip b.size)) ∨
    (10 ∉ b.data ∧ b.readSlice = (.ended b.data b.fault, b.skip b.data.length)) := by
  unfold readSlice
  by_cases hmem : (10 : UInt8) ∈ b.data.take b.size
  · left
    obtain ⟨line, rest, hdata, hline⟩ := List.eq_append_cons_of_mem (List.mem_of_mem_take hmem)
    have hidx : b.data.idxOf 10 = line.length := by
      rw [hdata, List.idxOf_append_of_notMem hline, List.idxOf_cons_self, Nat.add_zero]
    have htake : b.data.take (line.length + 1) = line ++ [10] := by
      rw [hdata, List.append_cons, List.take_left' (by simp)]
    exact ⟨line, rest, hline, hdata, by simp only [if_pos hmem, hidx, htake]⟩
  · right
    by_cases hsize : b.size ≤ b.data.length
    · exact .inl ⟨hmem, hsize, by simp only [if_neg hmem, if_pos hsize]⟩
    · rw [List.take_of_length_le (by omega)] at hmem ⊢
      exact .inr ⟨hmem, by simp only [if_neg hmem, if_neg hsize]⟩

theorem readFull_eq_ok {b src : BufReader} {n : ℕ} {p : Bytes} :
    b.readFull n = (.ok p, src) ↔ n ≤ b.data.length ∧ p = b.data.take n ∧ src = b.skip n := by
  unfold readFull
  split_ifs with hlen
  · simp only [Prod.mk.injEq, reduceCtorEq, false_and, false_iff]
    omega
  · simp only [Prod.mk.injEq, Except.ok.injEq, Nat.not_lt.mp hlen, true_and, eq_comm]

end BufReader

namespace AwsChunked

/-- 8 MiB. -/
def maxAWSChunkSize : ℕ := 8 * 1024 * 1024

def maxAWSChunkHeaderLine : ℕ := 1024

def maxAWSChunkTrailers : ℕ := 64 * 1024

def awsChunkSigField : Bytes := lit "chunk-signature="

def awsChunkEmptySHA256 : Bytes :=
  lit "e3b0c44298fc1c149afbf4c8996fb92427ae41e4649b934ca495991b7852b855"

def awsChunkStringToSignPayload : Bytes := lit "AWS4-HMAC-SHA256-PAYLOAD"

structure StreamingSigningCtx where
  signingKey : Bytes
  amzDate : Bytes
  scope : Bytes
  seedSig : Bytes

/-- `awsChunkedReader`. A hasher is the bytes written to it since its last reset; no key is the
    unsigned mode. -/
structure AwsChunkedReader where
  source : BufReader
  signingKey : Option Bytes := none
  amzDate : Bytes := []
  scope : Bytes := []
  prevSig : Bytes := []
  trailers : Bool
  maxTotal : Int
  chunkHasher : Bytes := []
  contentHash : Bytes := []
  chunkSig : Bytes := []
  remaining : ℕ := 0
  needHeader : Bool := true
  decoded : ℕ := 0
  done : Bool := false
  err : Option Err := none

def newAWSChunkedReader (src : BufReader) (ctx : Option StreamingSigningCtx) (trailers : Bool)
    (maxTotal : Int) : AwsChunkedReader :=
  match ctx with
  | none => { source := src, trailers := trailers, maxTotal := maxTotal }
  | some ctx =>
    { source := src, trailers := trailers, maxTotal := maxTotal, signingKey := some ctx.signingKey
      amzDate := ctx.amzDate, scope := ctx.scope, prevSig := ctx.seedSig }

def AwsChunkedReader.setSource (r : AwsChunkedReader) (src : BufReader) : AwsChunkedReader :=
  { r with source := src }

/-- The reader with `n` more bytes taken off its source. -/
def AwsChunkedReader.skip (r : AwsChunkedReader) (n : ℕ) : AwsChunkedReader :=
  r.setSource (r.source.skip n)

@[simp] theorem skip_data (r : AwsChunkedReader) (n : ℕ) :
    (r.skip n).source.data = r.source.data.drop n := rfl

theorem skip_skip (r : AwsChunkedReader) (m n : ℕ) : (r.skip m).skip n = r.skip (m + n) := by
  simp only [AwsChunkedReader.skip, AwsChunkedReader.setSource, BufReader.skip, List.drop_drop]

/-! ### Lines -/

/-- The text of a line whose newline is gone: a carriage return at its end is not part of it. -/
def stripCR (buf : Bytes) : Bytes := if buf.getLast? = some 13 then buf.dropLast else buf

def lineTooLong : Err :=
  .wrap "aws-chunked header line exceeds %d bytes: %w" [.num maxAWSChunkHeaderLine] (.sys .ebadmsg)

/-- The loop of `readHeaderLine`; a turn that does not end it takes a full buffer off the source. -/
def readHeaderLoop : ℕ → Bytes → Prog AwsChunkedReader Err Bytes
  | 0, _ => Prog.fail lineTooLong
  | fuel + 1, buf => fun r =>
    match r.source.readSlice with
    | (.full frag, src) =>
      let buf := buf ++ frag
      let r := r.setSource src
      if buf.length > maxAWSChunkHeaderLine then (.error lineTooLong, r)
      else readHeaderLoop fuel buf r
    | (.ended frag fault, src) =>
      let e : Err := match fault with
        | some e => e
        | none =>
          if frag = [] then .wrap "unexpected EOF in aws-chunked header: %w" [] (.sys .ebadmsg)
          else .wrap "truncated aws-chunked header line: %w" [] (.sys .ebadmsg)
      (.error e, r.setSource src)
    | (.line frag, src) =>
      let buf := buf ++ frag
      let r := r.setSource src
      if buf.length > maxAWSChunkHeaderLine then (.error lineTooLong, r)
      else (.ok (stripCR buf.dropLast), r)

def readHeaderLine : Prog AwsChunkedReader Err Bytes :=
  fun r => readHeaderLoop (r.source.data.length + 1) [] r

variable {fuel : ℕ} {text : Bytes} {r r' : AwsChunkedReader}

/-- CORRECT: a line is read whatever the size of the buffer, if it is within the limit, and then
    without its ending. -/
theorem readHeaderLoop_eq_ok {buf : Bytes} (hfuel : r.source.data.length < fuel) :
    readHeaderLoop fuel buf r = (.ok text, r') ↔
      ∃ line rest, 10 ∉ line ∧ r.source.data = line ++ 10 :: rest ∧
        buf.length + line.length < maxAWSChunkHeaderLine ∧ text = stripCR (buf ++ line) ∧
        r' = r.skip (line.length + 1) := by
  induction fuel generalizing buf r with
  | zero => omega
  | succ fuel ih =>
    simp only [readHeaderLoop]
    rcases r.source.readSlice_cases with ⟨line, rest, hline, hdata, hslice⟩ |
        ⟨hwindow, hsize, hslice⟩ | ⟨hnone, hslice⟩
    · rw [hslice]
      simp only [← List.append_assoc, List.dropLast_concat, List.length_append, List.length_singleton]
      constructor
      · intro h
        split_ifs at h with hlen
        · cases h
        cases h
        exact ⟨line, rest, hline, hdata, by omega, rfl, rfl⟩
      · rintro ⟨line', rest', hline', hdata', hlen, rfl, rfl⟩
        obtain ⟨rfl, -⟩ := Delimited.cut_first hline hline' (hdata.symm.trans hdata')
        rw [if_neg (by omega)]
        rfl
    · -- the line goes on beyond the buffer
      have hcut : r.source.data.take r.source.size ++ r.source.data.drop r.source.size =
        r.source.data := List.take_append_drop ..
      have hge := r.source.size_ge
      have hwlen : (r.source.data.take r.source.size).length = r.source.size :=
        List.length_take_of_le hsize
      have hrest : (r.source.skip r.source.size).data = r.source.data.drop r.source.size := rfl
      rw [hslice]
      simp only [List.length_append, hwlen]
      have ih' := @ih (r.skip r.source.size) (buf ++ r.source.data.take r.source.size) (by
        simp only [skip_data, List.length_drop]
        omega)
      simp only [skip_data, List.length_append, hwlen] at ih'
      constructor
      · intro h
        split_ifs at h with hlen
        · cases h
        obtain ⟨line, rest, hline, hdata, hlt, rfl, rfl⟩ := ih'.mp h
        refine ⟨r.source.data.take r.source.size ++ line, rest, by simp [hwindow, hline], ?_, ?_, ?_, ?_⟩
        · rw [List.append_assoc, ← hdata, hcut]
        · rw [List.length_append, hwlen]
          omega
        · rw [List.append_assoc]
        · rw [skip_skip, List.length_append, hwlen, Nat.add_assoc]
      · rintro ⟨line, rest, hline, hdata, hlt, rfl, rfl⟩
        have hle : r.source.size ≤ line.length := by
          by_contra hlt'
          refine hwindow ?_
          rw [hdata, List.take_append, List.mem_append]
          refine .inr ?_
          rw [show r.source.size - line.length = (r.source.size - line.length - 1) + 1 by omega,
            List.take_succ_cons]
          exact List.mem_cons_self
        have htake : r.source.data.take r.source.size = line.take r.source.size := by
          rw [hdata, List.take_append_of_le_length hle]
        have hsplit := List.take_append_drop r.source.size line
        have hlen : (line.drop r.source.size).length = line.length - r.source.size := List.length_drop
        rw [if_neg (by omega)]
        refine ih'.mpr ⟨line.drop r.source.size, rest,
          fun hmem => hline (List.mem_of_mem_drop hmem), ?_, by omega, ?_, ?_⟩
        · rw [hdata, List.drop_append_of_le_length hle]
        · rw [htake, List.append_assoc, hsplit]
        · rw [skip_skip, hlen]
          congr 1
          omega
    · rw [hslice]
      simp only [Prod.mk.injEq, reduceCtorEq, false_and, false_iff]
      rintro ⟨line, rest, -, hdata, -⟩
      exact hnone (by simp [hdata])

theorem readHeaderLine_eq_ok :
    readHeaderLine r = (.ok text, r') ↔
      ∃ line rest, 10 ∉ line ∧ r.source.data = line ++ 10 :: rest ∧
        line.length < maxAWSChunkHeaderLine ∧ text = stripCR line ∧ r' = r.skip (line.length + 1) := by
  have h := @readHeaderLoop_eq_ok (r.source.data.length + 1) text r r' [] (Nat.lt_succ_self _)
  simp only [List.length_nil, Nat.zero_add, List.nil_append] at h
  exact h

def expectCRLF : Prog AwsChunkedReader Err Unit := fun r =>
  match r.source.readFull 2 with
  | (.error _, src) =>
    (.error (.wrap "unexpected EOF reading aws-chunked terminator: %w" [] (.sys .ebadmsg)),
      r.setSource src)
  | (.ok two, src) =>
    let r := r.setSource src
    if two = [13, 10] then (.ok (), r)
    else (.error (.wrap "malformed aws-chunked terminator: %w" [] (.sys .ebadmsg)), r)

theorem expectCRLF_eq_ok :
    expectCRLF r = (.ok (), r') ↔ ∃ rest, r.source.data = 13 :: 10 :: rest ∧ r' = r.skip 2 := by
  unfold expectCRLF
  rcases hread : r.source.readFull 2 with ⟨_ | two, src⟩
  · simp only [Prod.mk.injEq, reduceCtorEq, false_and, false_iff]
    rintro ⟨rest, hdata, -⟩
    have hok := (@BufReader.readFull_eq_ok r.source _ 2 _).mpr ⟨by simp [hdata], rfl, rfl⟩
    rw [hok] at hread
    cases hread
  · obtain ⟨hlen, rfl, rfl⟩ := BufReader.readFull_eq_ok.mp hread
    have htwo : r.source.data.take 2 = [13, 10] ↔ ∃ rest, r.source.data = 13 :: 10 :: rest := by
      constructor
      · intro h
        exact ⟨r.source.data.drop 2, by rw [← List.take_append_drop 2 r.source.data, h]; rfl⟩
      · rintro ⟨rest, h⟩
        rw [h]
        rfl
    rw [exists_and_right, ← htwo]
    simp only
    split_ifs with hcrlf
    · constructor
      · intro h
        cases h
        exact ⟨hcrlf, rfl⟩
      · rintro ⟨-, rfl⟩
        rfl
    · exact ⟨fun h => (by cases h), fun h => absurd h.1 hcrlf⟩

/-- The loop of `consumeTrailers`; a turn takes at least a newline off the source. -/
def consumeTrailersLoop : ℕ → ℕ → Prog AwsChunkedReader Err Unit
  | 0, _ => Prog.fail lineTooLong
  | fuel + 1, total => do
    let line ← readHeaderLine
    let total := total + (line.length + 2)
    if total > maxAWSChunkTrailers then
      Prog.fail (.wrap "aws-chunked trailer block exceeds %d bytes: %w" [.num maxAWSChunkTrailers]
        (.sys .ebadmsg))
    else if line = [] then pure ()
    else consumeTrailersLoop fuel total

def consumeTrailers : Prog AwsChunkedReader Err Unit :=
  fun r => consumeTrailersLoop (r.source.data.length + 1) 0 r

def trailerBlock (lines : List Bytes) : Bytes := lines.flatMap (· ++ [13, 10]) ++ [13, 10]

def TrailerLine (line : Bytes) : Prop :=
  line ≠ [] ∧ 10 ∉ line ∧ line.length + 2 ≤ maxAWSChunkHeaderLine

/-- The bytes a mode expects after the terminating chunk: in the trailer modes a block within the
    limits, otherwise none. -/
def Trailers (trailers : Bool) (block : Bytes) : Prop :=
  if trailers then ∃ lines, (∀ l ∈ lines, TrailerLine l) ∧ block = trailerBlock lines ∧
    block.length ≤ maxAWSChunkTrailers
  else block = []

theorem stripCR_concat (text : Bytes) : stripCR (text ++ [13]) = text := by
  rw [stripCR, if_pos (by simp), List.dropLast_concat]

variable {rest : Bytes}

theorem readHeaderLine_crlf (htext : 10 ∉ text) (hlen : text.length + 2 ≤ maxAWSChunkHeaderLine)
    (hdata : r.source.data = text ++ 13 :: 10 :: rest) :
    readHeaderLine r = (.ok text, r.skip (text.length + 2)) := by
  refine readHeaderLine_eq_ok.mpr ⟨text ++ [13], rest, ?_, ?_, ?_, (stripCR_concat text).symm, ?_⟩
  · simp [htext]
  · simp [hdata]
  · rw [List.length_append]
    exact hlen
  · rw [List.length_append]
    rfl

theorem consumeTrailersLoop_block {lines : List Bytes} (hlines : ∀ l ∈ lines, TrailerLine l)
    {total : ℕ} (hfuel : r.source.data.length < fuel)
    (htotal : total + (trailerBlock lines).length ≤ maxAWSChunkTrailers)
    (hdata : r.source.data = trailerBlock lines ++ rest) :
    consumeTrailersLoop fuel total r = (.ok (), r.skip (trailerBlock lines).length) := by
  induction lines generalizing fuel total r with
  | nil =>
    obtain ⟨fuel, rfl⟩ : ∃ k, fuel = k + 1 := ⟨fuel - 1, by omega⟩
    have hline := @readHeaderLine_crlf [] r rest (by simp) (by decide) hdata
    rw [consumeTrailersLoop, Prog.bind_of_ok hline]
    simp only [trailerBlock, List.flatMap_nil, List.nil_append, List.length_cons, List.length_nil]
      at htotal ⊢
    rw [if_neg (by omega)]
    rfl
  | cons l lines ih =>
    obtain ⟨fuel, rfl⟩ : ∃ k, fuel = k + 1 := ⟨fuel - 1, by omega⟩
    obtain ⟨hne, hnl, hlen⟩ := hlines l List.mem_cons_self
    have hblock : trailerBlock (l :: lines) = l ++ 13 :: 10 :: trailerBlock lines := by
      simp [trailerBlock]
    have hlength : (trailerBlock (l :: lines)).length = l.length + 2 + (trailerBlock lines).length := by
      simp only [hblock, List.length_append, List.length_cons]
      omega
    rw [hblock, List.append_assoc, List.cons_append, List.cons_append] at hdata
    have hline := readHeaderLine_crlf hnl hlen hdata
    have hrest : (r.skip (l.length + 2)).source.data = trailerBlock lines ++ rest := by
      rw [skip_data, hdata, ← List.drop_drop, List.drop_left]
      rfl
    have hshort : (r.skip (l.length + 2)).source.data.length < fuel := by
      rw [skip_data, List.length_drop]
      have : 0 < r.source.data.length := by simp [hdata]
      omega
    rw [consumeTrailersLoop, Prog.bind_of_ok hline, if_neg (by omega), if_neg hne,
      ih (fun l' h => hlines l' (List.mem_cons_of_mem _ h)) hshort (by omega) hrest, skip_skip, hlength]

theorem consumeTrailersLoop_ok {total : ℕ} (h : consumeTrailersLoop fuel total r = (.ok (), r')) :
    ∃ n, r' = r.skip n := by
  induction fuel generalizing total r with
  | zero => cases h
  | succ fuel ih =>
    obtain ⟨line, r1, hline, hrest⟩ := Prog.bind_eq_ok.mp h
    obtain ⟨text, -, -, -, -, -, rfl⟩ := readHeaderLine_eq_ok.mp hline
    split_ifs at hrest with hlong hempty
    · cases hrest
    · cases hrest
      exact ⟨_, rfl⟩
    · obtain ⟨n, rfl⟩ := ih hrest
      exact ⟨_, skip_skip ..⟩

/-! ### Chunk headers -/

/-- The last `chunk-signature=` among the fields after the size. -/
def chunkSignatureOf (rest : Bytes) : Except Err Bytes :=
  (rest.splitOn 59).foldlM (fun sig part =>
    if awsChunkSigField <+: part then
      let sig := part.drop awsChunkSigField.length
      if sig.length > 64 then
        .error (.wrap "malformed aws-chunked signature length: %w" [] (.sys .ebadmsg))
      else .ok sig
    else .ok sig) []

def parseAWSChunkHeader (line : Bytes) : Except Err (ℕ × Bytes) :=
  let sizeStr := line.takeWhile (· ≠ 59)
  let rest := (line.dropWhile (· ≠ 59)).drop 1
  match parseInt unhexDigit 16 64 (trimSpace sizeStr) with
  | none => .error (.wrap "malformed aws-chunked chunk size %q: %w" [.str line] (.sys .ebadmsg))
  | some size =>
    if size < 0 then
      .error (.wrap "malformed aws-chunked chunk size %q: %w" [.str line] (.sys .ebadmsg))
    else if size > maxAWSChunkSize then
      .error (.wrap "aws-chunked chunk size %d exceeds maximum %d: %w"
        [.num size, .num maxAWSChunkSize] (.sys .ebadmsg))
    else do
      let sig ← chunkSignatureOf rest
      return (size.toNat, sig)

variable [HmacSha256]

def chunkStringToSign (amzDate scope prevSig chunkHashHex : Bytes) : Bytes :=
  awsChunkStringToSignPayload ++ 10 :: amzDate ++ 10 :: scope ++ 10 :: prevSig ++
    10 :: awsChunkEmptySHA256 ++ 10 :: chunkHashHex

def chunkSignature (key amzDate scope prevSig chunkHashHex : Bytes) : Bytes :=
  hexEncode (HmacSha256.mac key (chunkStringToSign amzDate scope prevSig chunkHashHex))

def verifyChunkHash (chunkHashHex : Bytes) : Prog AwsChunkedReader Err Unit := fun r =>
  match r.signingKey with
  | none => (.ok (), r)
  | some key =>
    let expected := chunkSignature key r.amzDate r.scope r.prevSig chunkHashHex
    if expected = r.chunkSig then (.ok (), { r with prevSig := expected })
    else (.error (.wrap "%w: aws-chunked chunk signature mismatch" [] (.sys .eacces)), r)

def AwsChunkedReader.chained (r : AwsChunkedReader) : AwsChunkedReader :=
  { r with prevSig := if r.signingKey.isSome then r.chunkSig else r.prevSig }

omit [HmacSha256] in
theorem chained_unsigned (h : r.signingKey = none) : r.chained = r := by
  simp only [AwsChunkedReader.chained, h, Option.isSome_none, Bool.false_eq_true, if_false]
  rw [← h]

omit [HmacSha256] in
theorem chained_signed {key : Bytes} (h : r.signingKey = some key) :
    r.chained = { r with prevSig := r.chunkSig } := by
  simp only [AwsChunkedReader.chained, h, Option.isSome_some, if_true]

/-- In the signed mode, `sig` is the signature of a hash after the signature before it. -/
def AwsChunkedReader.Signs (r : AwsChunkedReader) (sig chunkHashHex : Bytes) : Prop :=
  ∀ key, r.signingKey = some key →
    sig = chunkSignature key r.amzDate r.scope r.prevSig chunkHashHex

theorem verifyChunkHash_eq_ok {h : Bytes} :
    verifyChunkHash h r = (.ok (), r') ↔ r.Signs r.chunkSig h ∧ r' = r.chained := by
  unfold verifyChunkHash
  rcases hkey : r.signingKey with _ | key
  · have hsigns : r.Signs r.chunkSig h := fun key hsome => by cases hkey.symm.trans hsome
    simp only [Prod.mk.injEq, true_and, hsigns, chained_unsigned hkey, eq_comm]
  · have hsigns : r.Signs r.chunkSig h ↔
        chunkSignature key r.amzDate r.scope r.prevSig h = r.chunkSig := by
      simp only [AwsChunkedReader.Signs, hkey, Option.some.injEq, forall_eq', eq_comm]
    simp only [hsigns, chained_signed hkey]
    by_cases hsig : chunkSignature key r.amzDate r.scope r.prevSig h = r.chunkSig
    · simp only [hsig, if_true, Prod.mk.injEq, true_and, eq_comm, hkey]
    · simp only [hsig, if_false, Prod.mk.injEq, reduceCtorEq, false_and]

def AwsChunkedReader.finish (r : AwsChunkedReader) : AwsChunkedReader := { r with done := true }

/-- What `readChunkHeader` does after the line of the terminating chunk. -/
def endStream : Prog AwsChunkedReader Err Unit := do
  verifyChunkHash awsChunkEmptySHA256
  Prog.mapError (.wrap "malformed aws-chunked terminating chunk: %w" []) expectCRLF
  fun r => if r.trailers then consumeTrailers r else (.ok (), r)
  Prog.modify AwsChunkedReader.finish

theorem endStream_ok (h : endStream r = (.ok (), r')) :
    r.Signs r.chunkSig awsChunkEmptySHA256 ∧ (∃ rest, r.source.data = 13 :: 10 :: rest) ∧
      ∃ n, r' = (r.chained.skip n).finish := by
  obtain ⟨⟨⟩, r1, hverify, h⟩ := Prog.bind_eq_ok.mp h
  obtain ⟨hsigns, rfl⟩ := verifyChunkHash_eq_ok.mp hverify
  obtain ⟨⟨⟩, r2, hcrlf, h⟩ := Prog.bind_eq_ok.mp h
  obtain ⟨rest, hdata, rfl⟩ := expectCRLF_eq_ok.mp (Prog.mapError_eq_ok.mp hcrlf)
  obtain ⟨⟨⟩, r3, htrailers, h⟩ := Prog.bind_eq_ok.mp h
  cases h
  refine ⟨hsigns, ⟨rest, hdata⟩, ?_⟩
  split_ifs at htrailers with hflag
  · obtain ⟨n, rfl⟩ := consumeTrailersLoop_ok htrailers
    exact ⟨_, by rw [skip_skip]⟩
  · cases htrailers
    exact ⟨2, rfl⟩

/-- Step: a terminating chunk that is well signed, with the trailers its mode announces, ends the
    stream right after them. -/
theorem endStream_block {block : Bytes} (hsigns : r.Signs r.chunkSig awsChunkEmptySHA256)
    (hblock : Trailers r.trailers block) (hdata : r.source.data = 13 :: 10 :: (block ++ rest)) :
    endStream r = (.ok (), (r.chained.skip (2 + block.length)).finish) := by
  have hcrlf : expectCRLF r.chained = (.ok (), r.chained.skip 2) :=
    expectCRLF_eq_ok.mpr ⟨_, hdata, rfl⟩
  have htrailers : (if (r.chained.skip 2).trailers then consumeTrailers (r.chained.skip 2)
      else (.ok (), r.chained.skip 2)) = (.ok (), r.chained.skip (2 + block.length)) := by
    rw [← skip_skip]
    unfold Trailers at hblock
    by_cases hflag : r.trailers
    · rw [if_pos hflag] at hblock
      obtain ⟨lines, hlines, rfl, hlen⟩ := hblock
      rw [if_pos (show (r.chained.skip 2).trailers from hflag)]
      have hrest : (r.chained.skip 2).source.data = trailerBlock lines ++ rest := by
        change r.source.data.drop 2 = _
        rw [hdata]
        rfl
      exact consumeTrailersLoop_block hlines (Nat.lt_succ_self _) (by omega) hrest
    · rw [if_neg hflag] at hblock
      subst hblock
      rw [if_neg (show ¬ (r.chained.skip 2).trailers from hflag)]
      rfl
  rw [endStream, Prog.bind_of_ok (verifyChunkHash_eq_ok.mpr ⟨hsigns, rfl⟩),
    Prog.bind_of_ok (Prog.mapError_eq_ok.mpr hcrlf), Prog.bind_of_ok htrailers]
  rfl

def AwsChunkedReader.opened (r : AwsChunkedReader) (size : ℕ) (sig : Bytes) : AwsChunkedReader :=
  { r with remaining := size, chunkSig := sig, chunkHasher := [] }

def readChunkHeader : Prog AwsChunkedReader Err Unit := do
  let line ← readHeaderLine
  let (size, sig) ← Prog.ofExcept (parseAWSChunkHeader line)
  Prog.modify fun r => r.opened size sig
  if size = 0 then endStream else pure ()

theorem readChunkHeader_eq_ok :
    readChunkHeader r = (.ok (), r') ↔
      ∃ line rest size sig, 10 ∉ line ∧ r.source.data = line ++ 10 :: rest ∧
        line.length < maxAWSChunkHeaderLine ∧ parseAWSChunkHeader (stripCR line) = .ok (size, sig) ∧
        (if size = 0 then endStream else pure ()) ((r.skip (line.length + 1)).opened size sig) =
          (.ok (), r') := by
  simp only [readChunkHeader, Prog.bind_eq_ok, readHeaderLine_eq_ok, Prog.ofExcept_eq_ok]
  constructor
  · rintro ⟨text, r1, ⟨line, rest, hline, hdata, hlen, rfl, rfl⟩, ⟨size, sig⟩, r2, ⟨hparse, rfl⟩,
      ⟨⟩, r3, hopen, hend⟩
    cases hopen
    exact ⟨line, rest, size, sig, hline, hdata, hlen, hparse, hend⟩
  · rintro ⟨line, rest, size, sig, hline, hdata, hlen, hparse, hend⟩
    exact ⟨_, _, ⟨line, rest, hline, hdata, hlen, rfl, rfl⟩, (size, sig), _, ⟨hparse, rfl⟩, (), _,
      rfl, hend⟩

/-! ### Reading -/

/-- The bookkeeping of `readChunkData` for bytes that arrived. -/
def AwsChunkedReader.received (r : AwsChunkedReader) (p : Bytes) : AwsChunkedReader :=
  { r with
    remaining := r.remaining - p.length
    chunkHasher := r.chunkHasher ++ p
    contentHash := r.contentHash ++ p
    decoded := r.decoded + p.length }

variable [Sha256]

def endChunk : Prog AwsChunkedReader Err Unit := do
  Prog.mapError (.wrap "malformed aws-chunked chunk terminator: %w" []) expectCRLF
  fun r => verifyChunkHash (hashBytes r.chunkHasher) r
  Prog.modify fun r => { r with chunkHasher := [] }

theorem endChunk_eq_ok :
    endChunk r = (.ok (), r') ↔ (∃ rest, r.source.data = 13 :: 10 :: rest) ∧
      r.Signs r.chunkSig (hashBytes r.chunkHasher) ∧
      r' = { (r.skip 2).chained with chunkHasher := [] } := by
  simp only [endChunk, Prog.bind_eq_ok, Prog.mapError_eq_ok]
  constructor
  · rintro ⟨⟨⟩, r1, hcrlf, ⟨⟩, r2, hverify, h⟩
    obtain ⟨rest, hdata, rfl⟩ := expectCRLF_eq_ok.mp hcrlf
    obtain ⟨hsigns, rfl⟩ := verifyChunkHash_eq_ok.mp hverify
    cases h
    exact ⟨⟨rest, hdata⟩, hsigns, rfl⟩
  · rintro ⟨⟨rest, hdata⟩, hsigns, rfl⟩
    exact ⟨(), _, expectCRLF_eq_ok.mpr ⟨rest, hdata, rfl⟩, (), _,
      verifyChunkHash_eq_ok.mpr ⟨hsigns, rfl⟩, rfl⟩

def readChunkData (len : ℕ) : Prog AwsChunkedReader Err Bytes := fun r =>
  match r.source.readFull (min len r.remaining) with
  | (.error fault, src) =>
    (.error (fault.getD (.wrap "unexpected EOF in aws-chunked chunk data: %w" [] (.sys .ebadmsg))),
      r.setSource src)
  | (.ok p, src) =>
    let r := (r.setSource src).received p
    if (r.decoded : Int) > r.maxTotal then
      (.error (.wrap "aws-chunked decoded payload exceeds maximum size: %w" [] (.sys .eoverflow)), r)
    else if r.remaining = 0 then (do endChunk; return p : Prog AwsChunkedReader Err Bytes) r
    else (.ok p, r)

variable {len : ℕ} {p : Bytes}

theorem readChunkData_eq_ok :
    readChunkData len r = (.ok p, r') ↔
      min len r.remaining ≤ r.source.data.length ∧ p = r.source.data.take (min len r.remaining) ∧
      ((r.decoded + min len r.remaining : ℕ) : Int) ≤ r.maxTotal ∧
      (if r.remaining ≤ len then
          endChunk ((r.skip (min len r.remaining)).received p) = (.ok (), r')
        else r' = (r.skip (min len r.remaining)).received p) := by
  unfold readChunkData
  rcases hread : r.source.readFull (min len r.remaining) with ⟨_ | q, src⟩
  · simp only [Prod.mk.injEq, reduceCtorEq, false_and, false_iff]
    rintro ⟨hle, -⟩
    have hok := (@BufReader.readFull_eq_ok r.source _ (min len r.remaining) _).mpr ⟨hle, rfl, rfl⟩
    rw [hok] at hread
    cases hread
  · obtain ⟨hle, rfl, rfl⟩ := BufReader.readFull_eq_ok.mp hread
    have hlen : (r.source.data.take (min len r.remaining)).length = min len r.remaining :=
      List.length_take_of_le hle
    have hdecoded : ((r.setSource (r.source.skip (min len r.remaining))).received
        (r.source.data.take (min len r.remaining))).decoded = r.decoded + min len r.remaining :=
      congrArg (r.decoded + ·) hlen
    have hremaining : ((r.setSource (r.source.skip (min len r.remaining))).received
        (r.source.data.take (min len r.remaining))).remaining = 0 ↔ r.remaining ≤ len := by
      simp only [AwsChunkedReader.received, AwsChunkedReader.setSource, hlen]
      omega
    have hmax : ((r.setSource (r.source.skip (min len r.remaining))).received
        (r.source.data.take (min len r.remaining))).maxTotal = r.maxTotal := rfl
    simp only [hdecoded, hremaining, hmax]
    by_cases hover : ((r.decoded + min len r.remaining : ℕ) : Int) > r.maxTotal
    · rw [if_pos hover]
      exact ⟨fun h => (by cases h), fun h => absurd h.2.2.1 (not_le.mpr hover)⟩
    · rw [if_neg hover]
      by_cases hend : r.remaining ≤ len
      · rw [if_pos hend, Prog.bind_eq_ok]
        constructor
        · rintro ⟨⟨⟩, r1, hchunk, h⟩
          cases h
          exact ⟨hle, rfl, not_lt.mp hover, by rw [if_pos hend]; exact hchunk⟩
        · rintro ⟨-, rfl, -, hchunk⟩
          rw [if_pos hend] at hchunk
          exact ⟨(), r', hchunk, rfl⟩
      · rw [if_neg hend]
        constructor
        · intro h
          cases h
          exact ⟨hle, rfl, not_lt.mp hover, by rw [if_neg hend]; rfl⟩
        · rintro ⟨-, rfl, -, h⟩
          rw [if_neg hend] at h
          rw [h]
          rfl

/-- How a `Read` ends when its error is not nil. -/
inductive Stop
  | eof
  | fail (e : Err)
  deriving DecidableEq

def AwsChunkedReader.setNeedHeader (r : AwsChunkedReader) (b : Bool) : AwsChunkedReader :=
  { r with needHeader := b }

def AwsChunkedReader.setErr (r : AwsChunkedReader) (e : Err) : AwsChunkedReader :=
  { r with err := some e }

/-- The header part of a turn of the loop of `Read`: a failure is remembered. -/
def nextHeader : Prog AwsChunkedReader Err Unit := fun r =>
  if r.needHeader then
    match readChunkHeader r with
    | (.error e, r) => (.error e, r.setErr e)
    | (.ok (), r) => (.ok (), r.setNeedHeader false)
  else (.ok (), r)

def deliver (len : ℕ) (r : AwsChunkedReader) : (Bytes × Option Stop) × AwsChunkedReader :=
  match readChunkData len r with
  | (.error e, r) => (([], some (.fail e)), r.setErr e)
  | (.ok p, r) => ((p, none), r)

/-- One turn of the loop of `Read`: the bytes and error it returns, or `none` for another turn. -/
def readTurn (len : ℕ) (r : AwsChunkedReader) : Option (Bytes × Option Stop) × AwsChunkedReader :=
  match r.err with
  | some e => (some ([], some (.fail e)), r)
  | none =>
    match nextHeader r with
    | (.error e, r) => (some ([], some (.fail e)), r)
    | (.ok (), r) =>
      if r.done then (some ([], some .eof), r)
      else if 0 < r.remaining then (some (deliver len r).1, (deliver len r).2)
      else (none, r.setNeedHeader true)

def readLoop : ℕ → ℕ → AwsChunkedReader → (Bytes × Option Stop) × AwsChunkedReader
  | 0, _, r => (([], none), r)
  | turns + 1, len, r =>
    match readTurn len r with
    | (some res, r) => (res, r)
    | (none, r) => readLoop turns len r

def read (len : ℕ) (r : AwsChunkedReader) : (Bytes × Option Stop) × AwsChunkedReader :=
  if r.done then (([], some .eof), r) else readLoop 2 len r

omit [Sha256] in
theorem readChunkHeader_done (h : readChunkHeader r = (.ok (), r')) :
    r'.done = true ∨ 0 < r'.remaining := by
  obtain ⟨line, rest, size, sig, -, -, -, -, hend⟩ := readChunkHeader_eq_ok.mp h
  split_ifs at hend with hsize
  · obtain ⟨-, -, n, rfl⟩ := endStream_ok hend
    exact .inl rfl
  · cases hend
    exact .inr (Nat.pos_of_ne_zero hsize)

def readFromHeader (len : ℕ) (r : AwsChunkedReader) : (Bytes × Option Stop) × AwsChunkedReader :=
  match readChunkHeader (r.setNeedHeader true) with
  | (.error e, r) => (([], some (.fail e)), r.setErr e)
  | (.ok (), r) =>
    if r.done then (([], some .eof), r.setNeedHeader false) else deliver len (r.setNeedHeader false)

theorem readTurn_header (herr : r.err = none) (hheader : r.needHeader = true) :
    readTurn len r = (some (readFromHeader len r).1, (readFromHeader len r).2) := by
  have hr : r.setNeedHeader true = r := by
    simp only [AwsChunkedReader.setNeedHeader, ← hheader]
  simp only [readTurn, herr, nextHeader, hheader, if_true, readFromHeader, hr]
  rcases h : readChunkHeader r with ⟨e | _, r'⟩
  · rfl
  · rcases readChunkHeader_done h with hdone | hpos
    · simp only [hdone, if_true, AwsChunkedReader.setNeedHeader]
    · by_cases hdone : r'.done
      · simp only [hdone, if_true, AwsChunkedReader.setNeedHeader]
      · simp only [hdone, hpos, if_true, Bool.false_eq_true, if_false, AwsChunkedReader.setNeedHeader]

theorem readTurn_data (hdone : r.done = false) (herr : r.err = none)
    (hheader : r.needHeader = false) :
    readTurn len r = if 0 < r.remaining then (some (deliver len r).1, (deliver len r).2)
      else (none, r.setNeedHeader true) := by
  simp only [readTurn, herr, nextHeader, hheader, hdone, Bool.false_eq_true, if_false]

theorem read_between (hdone : r.done = false) (herr : r.err = none)
    (hheader : r.needHeader = true ∨ r.remaining = 0) : read len r = readFromHeader len r := by
  rw [read, if_neg (by simp [hdone]), readLoop]
  by_cases hneed : r.needHeader = true
  · simp only [readTurn_header herr hneed]
  · have hzero : r.remaining = 0 := hheader.resolve_left hneed
    have hturn := @readTurn_data r _ _ len hdone herr (Bool.eq_false_iff.mpr hneed)
    rw [if_neg (by omega)] at hturn
    have hnext := @readTurn_header (r.setNeedHeader true) _ _ len herr rfl
    simp only [hturn, readLoop, hnext]
    rfl

theorem read_within (hdone : r.done = false) (herr : r.err = none) (hheader : r.needHeader = false)
    (hpos : 0 < r.remaining) : read len r = deliver len r := by
  rw [read, if_neg (by simp [hdone]), readLoop, readTurn_data hdone herr hheader, if_pos hpos]

def reads : AwsChunkedReader → List ℕ → (Bytes × Option Stop) × AwsChunkedReader
  | r, [] => (([], none), r)
  | r, len :: lens =>
    match read len r with
    | ((p, some stop), r) => ((p, some stop), r)
    | ((p, none), r) => let ((q, stop), r) := reads r lens; ((p ++ q, stop), r)

theorem reads_cons_none (h : read len r = ((p, none), r')) (lens : List ℕ) :
    reads r (len :: lens) =
      ((p ++ (reads r' lens).1.1, (reads r' lens).1.2), (reads r' lens).2) := by
  rw [reads, h]

theorem reads_cons_some {stop : Stop} (h : read len r = ((p, some stop), r')) (lens : List ℕ) :
    reads r (len :: lens) = ((p, some stop), r') := by
  rw [reads, h]

def AwsChunkedReader.contentHashHex (r : AwsChunkedReader) : Bytes := hashBytes r.contentHash

def AwsChunkedReader.decodedSize (r : AwsChunkedReader) : ℕ := r.decoded

end AwsChunked

end Momo

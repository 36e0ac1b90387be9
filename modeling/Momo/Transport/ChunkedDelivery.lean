import Momo.Schemes.HashChain
import Momo.Transport.AwsChunked

/-! @momo src/transport/aws_chunked.go | scheme:invariant over reads

    What a caller of the de-framer gets, whatever the sizes of its buffers. A stream is looked at as
    a list of pieces, each a header line with its newline, data and the ending after it; the
    terminating chunk is the piece without data. -/

namespace Momo.AwsChunked

/-! ### Pieces of a stream -/

/-- A chunk as it stands in a stream: its header line without the newline, the signature that line
    declares, and its data. -/
structure Piece where
  line : Bytes
  sig : Bytes
  data : Bytes

def Piece.frame (p : Piece) : Bytes := p.line ++ 10 :: (p.data ++ [13, 10])

structure Piece.Sound (p : Piece) : Prop where
  one_line : 10 ∉ p.line
  short : p.line.length < maxAWSChunkHeaderLine
  parsed : parseAWSChunkHeader (stripCR p.line) = .ok (p.data.length, p.sig)

def Piece.hash [Sha256] (p : Piece) : Bytes :=
  if p.data = [] then awsChunkEmptySHA256 else hashBytes p.data

def SignatureChain [Sha256] (sign : Bytes → Bytes → Bytes) : Bytes → List Piece → Prop
  | _, [] => True
  | prev, p :: ps => p.sig = sign prev p.hash ∧ SignatureChain sign p.sig ps

theorem signatureChain_concat [Sha256] {sign : Bytes → Bytes → Bytes} {prev : Bytes}
    {ps : List Piece} {p : Piece} :
    SignatureChain sign prev (ps ++ [p]) ↔ SignatureChain sign prev ps ∧
      p.sig = sign (HashChain.lastHash Piece.sig prev ps) p.hash := by
  induction ps generalizing prev with
  | nil => simp [SignatureChain, HashChain.lastHash]
  | cons q ps ih => simp only [List.cons_append, SignatureChain, ih, HashChain.lastHash, and_assoc]

section Reader

variable [HmacSha256] [Sha256]

/-! ### Delivering a stream that follows the grammar -/

/-- What is `left` to deliver of `whole`: the rest has been hashed and counted. -/
structure Owes (whole left : Bytes) (r : AwsChunkedReader) : Prop where
  not_done : r.done = false
  no_err : r.err = none
  hashed : r.contentHash ++ left = whole
  counted : r.decoded = r.contentHash.length
  fits : (whole.length : Int) ≤ r.maxTotal

structure Between (whole : Bytes) (last : Piece) (block rest : Bytes) (ps : List Piece)
    (r : AwsChunkedReader) : Prop extends Owes whole (ps.flatMap Piece.data) r where
  position : r.needHeader = true ∨ r.remaining = 0
  stream : r.source.data = ps.flatMap Piece.frame ++ (last.frame ++ (block ++ rest))
  signed : ∀ key, r.signingKey = some key →
    SignatureChain (chunkSignature key r.amzDate r.scope) r.prevSig (ps ++ [last])
  trailers : Trailers r.trailers block

/-- Inside a piece: a `tail` of its data is left, the data before it is hashed, and its declared
    signature will be the right one. -/
structure Within (whole : Bytes) (last : Piece) (block rest tail : Bytes) (ps : List Piece)
    (r : AwsChunkedReader) : Prop extends Owes whole (tail ++ ps.flatMap Piece.data) r where
  tail_ne : tail ≠ []
  position : r.needHeader = false
  remaining : r.remaining = tail.length
  stream : r.source.data =
    tail ++ 13 :: 10 :: (ps.flatMap Piece.frame ++ (last.frame ++ (block ++ rest)))
  signed : ∀ key, r.signingKey = some key →
    r.chunkSig = chunkSignature key r.amzDate r.scope r.prevSig (hashBytes (r.chunkHasher ++ tail)) ∧
      SignatureChain (chunkSignature key r.amzDate r.scope) r.chunkSig (ps ++ [last])
  trailers : Trailers r.trailers block

structure Delivered (whole rest : Bytes) (r : AwsChunkedReader) : Prop where
  done : r.done = true
  hashed : r.contentHashHex = hashBytes whole
  counted : r.decodedSize = whole.length
  source : r.source.data = rest

section Grammar

variable {whole : Bytes} {last : Piece} {block rest : Bytes}

variable {ps : List Piece} {r : AwsChunkedReader}

theorem Between.header {p : Piece} (h : Between whole last block rest (p :: ps) r) (hp : p.Sound)
    (hne : p.data ≠ []) :
    ∃ r', readChunkHeader (r.setNeedHeader true) = (.ok (), r') ∧ r'.done = false ∧
      Within whole last block rest p.data ps (r'.setNeedHeader false) := by
  have hstream : r.source.data = p.line ++ 10 :: (p.data ++ 13 :: 10 :: (ps.flatMap Piece.frame ++
      (last.frame ++ (block ++ rest)))) := by
    rw [h.stream]
    simp [Piece.frame]
  have hsize : p.data.length ≠ 0 := List.length_eq_zero_iff.not.mpr hne
  refine ⟨((r.setNeedHeader true).skip (p.line.length + 1)).opened p.data.length p.sig, ?_,
    h.not_done, ?_⟩
  · refine readChunkHeader_eq_ok.mpr ⟨p.line, _, _, _, hp.one_line, hstream, hp.short, hp.parsed, ?_⟩
    rw [if_neg hsize]
    rfl
  · exact { h with
      tail_ne := hne
      position := rfl
      remaining := rfl
      stream := by
        change r.source.data.drop (p.line.length + 1) = _
        rw [hstream, ← List.drop_drop, List.drop_left]
        rfl
      signed := fun key hkey => by
        have hchain := h.signed key hkey
        rw [List.cons_append, SignatureChain, Piece.hash, if_neg hne] at hchain
        exact hchain }

/-- Step: after the last piece the header read is that of the terminating chunk, and with what
    follows it the stream is at its end. -/
theorem Between.finish (h : Between whole last block rest [] r) (hlast : last.Sound)
    (hempty : last.data = []) :
    ∃ r', readChunkHeader (r.setNeedHeader true) = (.ok (), r') ∧ r'.done = true ∧
      Delivered whole rest (r'.setNeedHeader false) := by
  have hstream : r.source.data = last.line ++ 10 :: (13 :: 10 :: (block ++ rest)) := by
    rw [h.stream, Piece.frame, hempty]
    simp
  have hparsed : parseAWSChunkHeader (stripCR last.line) = .ok (0, last.sig) := by
    rw [hlast.parsed, hempty]
    rfl
  let r1 := ((r.setNeedHeader true).skip (last.line.length + 1)).opened 0 last.sig
  have hdata : r1.source.data = 13 :: 10 :: (block ++ rest) := by
    change r.source.data.drop (last.line.length + 1) = _
    rw [hstream, ← List.drop_drop, List.drop_left]
    rfl
  have hsigns : r1.Signs r1.chunkSig awsChunkEmptySHA256 := by
    intro key hkey
    obtain ⟨hsig, -⟩ := h.signed key hkey
    rw [Piece.hash, if_pos hempty] at hsig
    exact hsig
  refine ⟨(r1.chained.skip (2 + block.length)).finish, ?_, rfl, ?_⟩
  · exact readChunkHeader_eq_ok.mpr ⟨last.line, _, 0, last.sig, hlast.one_line, hstream, hlast.short,
      hparsed, endStream_block hsigns h.trailers hdata⟩
  · have hwhole : r.contentHash = whole := by simpa using h.hashed
    exact {
      done := rfl
      hashed := by
        rw [← hwhole]
        rfl
      counted := by
        rw [← hwhole]
        exact h.counted
      source := by
        change r1.source.data.drop (2 + block.length) = _
        rw [hdata, ← List.drop_drop]
        exact List.drop_left }

/-- Step: a buffer of any size but zero gets the start of the tail. -/
theorem Within.data {tail : Bytes} (len : ℕ) (h : Within whole last block rest tail ps r) :
    ∃ r', readChunkData len r = (.ok (tail.take len), r') ∧
      if tail.length ≤ len then Between whole last block rest ps r'
      else Within whole last block rest (tail.drop len) ps r' := by
  have hmin : r.source.data.take (min len r.remaining) = tail.take len := by
    rw [h.stream, h.remaining, List.take_append_of_le_length (Nat.min_le_right ..)]
    exact List.take_eq_take_min.symm
  have hcount : (tail.take len).length = min len r.remaining := by
    rw [List.length_take, h.remaining]
  have henough : min len r.remaining ≤ r.source.data.length := by
    rw [h.stream, List.length_append, h.remaining]
    omega
  have hwhole : r.contentHash.length + (tail.length + (ps.flatMap Piece.data).length) = whole.length := by
    rw [← h.hashed, List.length_append, List.length_append]
  have hfits : ((r.decoded + min len r.remaining : ℕ) : Int) ≤ r.maxTotal := by
    have := h.fits
    have := h.counted
    have := h.remaining
    omega
  by_cases hend : tail.length ≤ len
  · have hall : tail.take len = tail := List.take_of_length_le hend
    have hskip : min len r.remaining = tail.length := by rw [h.remaining]; omega
    let r1 := (r.skip tail.length).received tail
    have hdata : r1.source.data =
        13 :: 10 :: (ps.flatMap Piece.frame ++ (last.frame ++ (block ++ rest))) := by
      change r.source.data.drop tail.length = _
      rw [h.stream, List.drop_left]
    have hsigns : r1.Signs r1.chunkSig (hashBytes r1.chunkHasher) := fun key hkey => (h.signed key hkey).1
    refine ⟨{ (r1.skip 2).chained with chunkHasher := [] }, ?_, ?_⟩
    · refine readChunkData_eq_ok.mpr ⟨henough, hmin.symm, hfits, ?_⟩
      rw [if_pos (h.remaining ▸ hend), hskip, hall]
      exact endChunk_eq_ok.mpr ⟨⟨_, hdata⟩, hsigns, rfl⟩
    · rw [if_pos hend]
      exact { h with
        hashed := by
          change r.contentHash ++ tail ++ _ = _
          rw [List.append_assoc]
          exact h.hashed
        counted := by
          change r.decoded + tail.length = (r.contentHash ++ tail).length
          rw [h.counted, List.length_append]
        position := .inr (by
          change r.remaining - tail.length = 0
          rw [h.remaining, Nat.sub_self])
        stream := by
          change r1.source.data.drop 2 = _
          rw [hdata]
          rfl
        signed := fun key hkey => by
          have hprev : (r1.skip 2).chained.prevSig = r.chunkSig := by
            rw [chained_signed (show (r1.skip 2).signingKey = some key from hkey)]
            rfl
          change SignatureChain _ (r1.skip 2).chained.prevSig _
          rw [hprev]
          exact (h.signed key hkey).2 }
  · have hskip : min len r.remaining = len := by rw [h.remaining]; omega
    refine ⟨(r.skip len).received (tail.take len), ?_, ?_⟩
    · refine readChunkData_eq_ok.mpr ⟨henough, hmin.symm, hfits, ?_⟩
      rw [if_neg (h.remaining ▸ hend), hskip]
    · rw [if_neg hend]
      have hcut : tail.take len ++ tail.drop len = tail := List.take_append_drop ..
      exact { h with
        hashed := by
          change r.contentHash ++ tail.take len ++ _ = _
          rw [List.append_assoc, ← List.append_assoc (tail.take len), hcut]
          exact h.hashed
        counted := by
          change r.decoded + (tail.take len).length = (r.contentHash ++ tail.take len).length
          rw [h.counted, List.length_append]
        tail_ne := by
          rw [Ne, List.drop_eq_nil_iff]
          exact hend
        remaining := by
          change r.remaining - (tail.take len).length = _
          rw [h.remaining, List.length_take, List.length_drop]
          omega
        stream := by
          change r.source.data.drop len = _
          rw [h.stream, List.drop_append_of_le_length (by omega)]
        signed := fun key hkey => by
          change r.chunkSig = chunkSignature key r.amzDate r.scope r.prevSig
            (hashBytes (r.chunkHasher ++ tail.take len ++ tail.drop len)) ∧ _
          rw [List.append_assoc, hcut]
          exact h.signed key hkey }

def AllSound (ps : List Piece) : Prop := ∀ p ∈ ps, p.Sound ∧ p.data ≠ []

def Pending (whole : Bytes) (last : Piece) (block rest left : Bytes) (r : AwsChunkedReader) : Prop :=
  (∃ ps, AllSound ps ∧ left = ps.flatMap Piece.data ∧ Between whole last block rest ps r) ∨
  (∃ tail ps, AllSound ps ∧ left = tail ++ ps.flatMap Piece.data ∧
    Within whole last block rest tail ps r)

theorem Within.deliver {tail : Bytes} {len : ℕ} (hps : AllSound ps)
    (h : Within whole last block rest tail ps r) (hlen : 0 < len) :
    ∃ p left r', deliver len r = ((p, none), r') ∧ p ≠ [] ∧
      tail ++ ps.flatMap Piece.data = p ++ left ∧ Pending whole last block rest left r' := by
  obtain ⟨r', hread, hnext⟩ := h.data len
  have hne : tail.take len ≠ [] := by
    rw [Ne, List.take_eq_nil_iff, not_or]
    exact ⟨by omega, h.tail_ne⟩
  have hdeliver : AwsChunked.deliver len r = ((tail.take len, none), r') := by
    rw [AwsChunked.deliver, hread]
  split_ifs at hnext with hend
  · refine ⟨_, ps.flatMap Piece.data, r', hdeliver, hne, ?_, .inl ⟨ps, hps, rfl, hnext⟩⟩
    rw [List.take_of_length_le hend]
  · refine ⟨_, tail.drop len ++ ps.flatMap Piece.data, r', hdeliver, hne, ?_,
      .inr ⟨tail.drop len, ps, hps, rfl, hnext⟩⟩
    rw [← List.append_assoc, List.take_append_drop]

/-- Step: a call with a buffer returns bytes that are next, or the message is at its end. -/
theorem Pending.read {left : Bytes} {len : ℕ} (hlast : last.Sound) (hempty : last.data = [])
    (h : Pending whole last block rest left r) (hlen : 0 < len) :
    (∃ p left' r', read len r = ((p, none), r') ∧ p ≠ [] ∧ left = p ++ left' ∧
      Pending whole last block rest left' r') ∨
    (left = [] ∧ ∃ r', read len r = (([], some .eof), r') ∧ Delivered whole rest r') := by
  rcases h with ⟨ps, hps, rfl, hb⟩ | ⟨tail, ps, hps, rfl, hw⟩
  · rw [read_between hb.not_done hb.no_err hb.position, readFromHeader]
    cases ps with
    | nil =>
      obtain ⟨r', hheader, hdone, hdel⟩ := hb.finish hlast hempty
      refine .inr ⟨rfl, r'.setNeedHeader false, ?_, hdel⟩
      simp only [hheader, hdone, if_true]
    | cons p ps =>
      obtain ⟨hp, hne⟩ := hps p List.mem_cons_self
      obtain ⟨r', hheader, hdone, hw⟩ := hb.header hp hne
      refine .inl ?_
      simp only [hheader, hdone, Bool.false_eq_true, if_false]
      exact hw.deliver (fun q hq => hps q (List.mem_cons_of_mem _ hq)) hlen
  · have hpos : 0 < r.remaining := by
      rw [hw.remaining]
      exact List.length_pos_iff.mpr hw.tail_ne
    rw [read_within hw.not_done hw.no_err hw.position hpos]
    exact .inl (hw.deliver hps hlen)

/-- What calls with buffers of the given sizes return: either bytes that are next, at least one for
    each call, or the rest of the message and the end of the file. -/
def Delivers (whole rest left : Bytes) (r : AwsChunkedReader) (lens : List ℕ) : Prop :=
  ∀ out stop r', reads r lens = ((out, stop), r') →
    (stop = none ∧ out <+: left ∧ lens.length ≤ out.length) ∨
    (stop = some .eof ∧ out = left ∧ Delivered whole rest r')

/-- Run: any sequence of calls. -/
theorem Pending.reads {left : Bytes} {lens : List ℕ} (hlast : last.Sound) (hempty : last.data = [])
    (h : Pending whole last block rest left r) (hlens : ∀ len ∈ lens, 0 < len) :
    Delivers whole rest left r lens := by
  induction lens generalizing left r with
  | nil =>
    intro out stop r' hreads
    cases hreads
    exact .inl ⟨rfl, List.nil_prefix, Nat.le_refl _⟩
  | cons len lens ih =>
    intro out stop r' hreads
    rcases h.read hlast hempty (hlens len List.mem_cons_self) with
      ⟨p, left', r1, hread, hne, rfl, hnext⟩ | ⟨rfl, r1, hread, hdel⟩
    · rw [reads_cons_none hread] at hreads
      cases hreads
      have hpos := List.length_pos_iff.mpr hne
      rcases ih hnext (fun l hl => hlens l (List.mem_cons_of_mem _ hl)) _ _ _ rfl with
        ⟨hstop, hpre, hle⟩ | ⟨hstop, hout, hdel⟩
      · refine .inl ⟨hstop, (List.prefix_append_right_inj p).mpr hpre, ?_⟩
        rw [List.length_append, List.length_cons, Nat.add_comm]
        exact Nat.add_le_add hpos hle
      · exact .inr ⟨hstop, by rw [hout], hdel⟩
    · rw [reads_cons_some hread] at hreads
      cases hreads
      exact .inr ⟨rfl, rfl, hdel⟩

end Grammar

/-! ### The end of a signed stream -/

section Signed

variable {key amzDate scope seed : Bytes}

/-- A stream that begins with pieces whose declared signatures form the chain from the seed, the
    terminating chunk included; `out` is their data. -/
def Verified (sign : Bytes → Bytes → Bytes) (seed stream out : Bytes) : Prop :=
  ∃ ps last tail, AllSound ps ∧ last.Sound ∧ last.data = [] ∧
    stream = (ps ++ [last]).flatMap Piece.frame ++ tail ∧
    SignatureChain sign seed (ps ++ [last]) ∧ out = ps.flatMap Piece.data

structure Taken (key amzDate scope seed : Bytes) (got : List Piece) (r : AwsChunkedReader) : Prop where
  has_key : r.signingKey = some key
  has_date : r.amzDate = amzDate
  has_scope : r.scope = scope
  not_done : r.done = false
  no_err : r.err = none
  sound : AllSound got
  chain : SignatureChain (chunkSignature key amzDate scope) seed got
  prev : r.prevSig = HashChain.lastHash Piece.sig seed got

structure TakenBetween (key amzDate scope seed stream out : Bytes) (got : List Piece)
    (r : AwsChunkedReader) : Prop extends Taken key amzDate scope seed got r where
  position : r.needHeader = true ∨ r.remaining = 0
  stream_eq : stream = got.flatMap Piece.frame ++ r.source.data
  out_eq : out = got.flatMap Piece.data

structure TakenWithin (key amzDate scope seed stream out : Bytes) (got : List Piece) (line : Bytes)
    (r : AwsChunkedReader) : Prop extends Taken key amzDate scope seed got r where
  position : r.needHeader = false
  remaining : 0 < r.remaining
  one_line : 10 ∉ line
  short : line.length < maxAWSChunkHeaderLine
  parsed : parseAWSChunkHeader (stripCR line) = .ok (r.chunkHasher.length + r.remaining, r.chunkSig)
  stream_eq : stream = got.flatMap Piece.frame ++ (line ++ 10 :: (r.chunkHasher ++ r.source.data))
  out_eq : out = got.flatMap Piece.data ++ r.chunkHasher

def Traced (key amzDate scope seed stream out : Bytes) (r : AwsChunkedReader) : Prop :=
  (∃ got, TakenBetween key amzDate scope seed stream out got r) ∨
  (∃ got line, TakenWithin key amzDate scope seed stream out got line r)

variable {got : List Piece} {r : AwsChunkedReader}

theorem Taken.signs {p : Piece} (h : Taken key amzDate scope seed got r)
    (hsigns : r.Signs p.sig p.hash) :
    SignatureChain (chunkSignature key amzDate scope) seed (got ++ [p]) := by
  have hsig := hsigns key h.has_key
  rw [h.has_date, h.has_scope, h.prev] at hsig
  exact signatureChain_concat.mpr ⟨h.chain, hsig⟩

variable {stream out : Bytes} {r' : AwsChunkedReader}

theorem TakenBetween.header (h : TakenBetween key amzDate scope seed stream out got r)
    (hheader : readChunkHeader (r.setNeedHeader true) = (.ok (), r')) :
    (r'.done = true ∧ Verified (chunkSignature key amzDate scope) seed stream out) ∨
    (r'.done = false ∧
      ∃ line, TakenWithin key amzDate scope seed stream out got line (r'.setNeedHeader false)) := by
  obtain ⟨line, rest, size, sig, hline, hdata, hshort, hparsed, hend⟩ :=
    readChunkHeader_eq_ok.mp hheader
  have hdata : r.source.data = line ++ 10 :: rest := hdata
  have hrest : r.source.data.drop (line.length + 1) = rest := by
    rw [hdata, ← List.drop_drop, List.drop_left]
    rfl
  split_ifs at hend with hsize
  · -- the terminating chunk is a piece without data
    subst hsize
    obtain ⟨hsigns, ⟨tail, hcrlf⟩, n, rfl⟩ := endStream_ok hend
    have hcrlf : r.source.data.drop (line.length + 1) = 13 :: 10 :: tail := hcrlf
    let last : Piece := ⟨line, sig, []⟩
    refine .inl ⟨rfl, got, last, tail, h.sound, ⟨hline, hshort, hparsed⟩, rfl, ?_, ?_, h.out_eq⟩
    · rw [h.stream_eq, hdata, List.flatMap_append, List.append_assoc, ← hrest, hcrlf]
      simp [last, Piece.frame]
    · exact h.signs (p := last) (by rw [Piece.hash, if_pos rfl]; exact hsigns)
  · cases hend
    refine .inr ⟨h.not_done, line, ?_⟩
    exact { h with
      position := rfl
      remaining := Nat.pos_of_ne_zero hsize
      one_line := hline
      short := hshort
      parsed := by
        rw [hparsed]
        exact congrArg (fun n => Except.ok (n, sig)) (Nat.zero_add size).symm
      stream_eq := by
        change _ = _ ++ (line ++ 10 :: ([] ++ r.source.data.drop (line.length + 1)))
        rw [hrest, List.nil_append, h.stream_eq, hdata]
      out_eq := by
        change _ = _ ++ []
        rw [List.append_nil]
        exact h.out_eq }

/-- Step: data that is accepted stays inside the piece, or completes it and verified it. -/
theorem TakenWithin.data {line p : Bytes} {len : ℕ}
    (h : TakenWithin key amzDate scope seed stream out got line r)
    (hdata : readChunkData len r = (.ok p, r')) :
    Traced key amzDate scope seed stream (out ++ p) r' := by
  obtain ⟨henough, hp, -, hend⟩ := readChunkData_eq_ok.mp hdata
  have hlen : p.length = min len r.remaining := by rw [hp, List.length_take_of_le henough]
  have hsplit : r.source.data = p ++ r.source.data.drop (min len r.remaining) := by
    rw [hp, List.take_append_drop]
  split_ifs at hend with hall
  · obtain ⟨⟨tail, hcrlf⟩, hsigns, rfl⟩ := endChunk_eq_ok.mp hend
    have hcrlf : r.source.data.drop (min len r.remaining) = 13 :: 10 :: tail := hcrlf
    let q : Piece := ⟨line, r.chunkSig, r.chunkHasher ++ p⟩
    have hq : q.data.length = r.chunkHasher.length + r.remaining := by
      change (r.chunkHasher ++ p).length = _
      rw [List.length_append, hlen, Nat.min_eq_right hall]
    have hne : q.data ≠ [] := by
      intro hnil
      have := h.remaining
      rw [hnil, List.length_nil] at hq
      omega
    have hhash : q.hash = hashBytes (r.chunkHasher ++ p) := if_neg hne
    have hchain := h.signs (p := q) (by rw [hhash]; exact hsigns)
    refine .inl ⟨got ++ [q], ?_⟩
    exact { h with
      sound := by
        intro p' hp'
        rcases List.mem_append.mp hp' with hp' | hp'
        · exact h.sound p' hp'
        · rw [List.mem_singleton.mp hp']
          exact ⟨⟨h.one_line, h.short, by rw [hq]; exact h.parsed⟩, hne⟩
      chain := hchain
      prev := by
        rw [HashChain.lastHash_concat]
        change (if r.signingKey.isSome then r.chunkSig else r.prevSig) = r.chunkSig
        rw [h.has_key]
        rfl
      position := .inr (by
        change r.remaining - p.length = 0
        omega)
      stream_eq := by
        change _ = _ ++ (r.source.data.drop (min len r.remaining)).drop 2
        have hsource : r.source.data = p ++ 13 :: 10 :: tail := hsplit.trans (by rw [hcrlf])
        rw [hcrlf, h.stream_eq, hsource]
        simp [q, Piece.frame]
      out_eq := by
        rw [h.out_eq]
        simp [q] }
  · subst hend
    refine .inr ⟨got, line, ?_⟩
    exact { h with
      remaining := by
        change 0 < r.remaining - p.length
        omega
      parsed := by
        rw [h.parsed]
        change _ = Except.ok ((r.chunkHasher ++ p).length + (r.remaining - p.length), r.chunkSig)
        rw [List.length_append]
        congr 2
        omega
      stream_eq := by
        change _ = _ ++ (line ++ 10 :: (r.chunkHasher ++ p ++ r.source.data.drop (min len r.remaining)))
        rw [List.append_assoc r.chunkHasher, ← hsplit]
        exact h.stream_eq
      out_eq := by
        change _ = _ ++ (r.chunkHasher ++ p)
        rw [← List.append_assoc, h.out_eq] }

theorem Traced.read {p : Bytes} {stop : Option Stop} {len : ℕ}
    (h : Traced key amzDate scope seed stream out r) (hread : read len r = ((p, stop), r')) :
    (stop = none → Traced key amzDate scope seed stream (out ++ p) r') ∧
    (stop = some .eof → Verified (chunkSignature key amzDate scope) seed stream (out ++ p)) := by
  have hdeliver : ∀ {got line r0}, TakenWithin key amzDate scope seed stream out got line r0 →
      deliver len r0 = ((p, stop), r') →
      (stop = none → Traced key amzDate scope seed stream (out ++ p) r') ∧
      (stop = some .eof → Verified (chunkSignature key amzDate scope) seed stream (out ++ p)) := by
    intro got line r0 hw hd
    unfold deliver at hd
    rcases hdata : readChunkData len r0 with ⟨e | q, r1⟩
    · rw [hdata] at hd
      cases hd
      exact ⟨fun h => (by cases h), fun h => (by cases h)⟩
    · rw [hdata] at hd
      cases hd
      exact ⟨fun _ => hw.data hdata, fun h => (by cases h)⟩
  rcases h with ⟨got, hb⟩ | ⟨got, line, hw⟩
  · rw [read_between hb.not_done hb.no_err hb.position] at hread
    unfold readFromHeader at hread
    rcases hheader : readChunkHeader (r.setNeedHeader true) with ⟨e | _, r1⟩
    · rw [hheader] at hread
      cases hread
      exact ⟨fun h => (by cases h), fun h => (by cases h)⟩
    · rw [hheader] at hread
      rcases hb.header hheader with ⟨hdone, hver⟩ | ⟨hdone, line, hw⟩
      · simp only [hdone, if_true] at hread
        cases hread
        exact ⟨fun h => (by cases h), fun _ => by rw [List.append_nil]; exact hver⟩
      · simp only [hdone, Bool.false_eq_true, if_false] at hread
        exact hdeliver hw hread
  · rw [read_within hw.not_done hw.no_err hw.position hw.remaining] at hread
    exact hdeliver hw hread

/-- Run: whatever the sizes of the buffers, an end of file is earned. -/
theorem Traced.reads {q : Bytes} {lens : List ℕ} (h : Traced key amzDate scope seed stream out r)
    (hreads : reads r lens = ((q, some .eof), r')) :
    Verified (chunkSignature key amzDate scope) seed stream (out ++ q) := by
  induction lens generalizing out q r with
  | nil => cases hreads
  | cons len lens ih =>
    rcases hread : AwsChunked.read len r with ⟨⟨p, _ | stop⟩, r1⟩
    · have hnext := (h.read hread).1 rfl
      rw [reads_cons_none hread] at hreads
      rcases hrest : AwsChunked.reads r1 lens with ⟨⟨q', stop'⟩, r2⟩
      rw [hrest] at hreads
      cases hreads
      have hver := ih hnext hrest
      rwa [List.append_assoc] at hver
    · rw [reads_cons_some hread] at hreads
      cases hreads
      exact (h.read hread).2 rfl

end Signed

/-! ### The documented grammar -/

/-- A chunk of the grammar: the hex digits of its size, its signature if it has one, its data. -/
structure Chunk where
  size : Bytes
  sig : Option Bytes
  data : Bytes

def Chunk.header (c : Chunk) : Bytes :=
  match c.sig with
  | none => c.size
  | some sig => c.size ++ 59 :: (awsChunkSigField ++ sig)

def Chunk.frame (c : Chunk) : Bytes := c.header ++ [13, 10] ++ (c.data ++ [13, 10])

/-- What the grammar says of a chunk; the size digits may be of either case and have leading zeros,
    as far as the header line stays within its limit. -/
structure Chunk.Grammar (c : Chunk) : Prop where
  size_ne : c.size ≠ []
  size_eq : digitsValue unhexDigit 16 0 c.size = some c.data.length
  bounded : c.data.length ≤ maxAWSChunkSize
  sig_length : ∀ sig ∈ c.sig, sig.length = 64
  sig_hex : ∀ sig ∈ c.sig, ∀ b ∈ sig, (unhexDigit b).isSome
  short : c.header.length + 2 ≤ maxAWSChunkHeaderLine

def Chunk.piece (c : Chunk) : Piece := ⟨c.header ++ [13], c.sig.getD [], c.data⟩

def message (chunks : List Chunk) (last : Chunk) (block : Bytes) : Bytes :=
  chunks.flatMap Chunk.frame ++ (last.frame ++ block)

/-- A message follows the grammar; with a signing context its signatures are the chain from the
    seed. -/
structure Framed (ctx : Option StreamingSigningCtx) (trailers : Bool) (chunks : List Chunk)
    (last : Chunk) (block : Bytes) : Prop where
  chunk : ∀ c ∈ chunks, c.Grammar ∧ c.data ≠ []
  last_ok : last.Grammar ∧ last.data = []
  trailer : Trailers trailers block
  signed : ∀ k, ctx = some k → SignatureChain (chunkSignature k.signingKey k.amzDate k.scope)
    k.seedSig ((chunks ++ [last]).map Chunk.piece)

omit [HmacSha256] [Sha256] in
theorem frame_piece (c : Chunk) : c.piece.frame = c.frame := by
  simp [Piece.frame, Chunk.piece, Chunk.frame]

omit [HmacSha256] [Sha256] in
theorem unhexDigit_range {c : UInt8} (h : (unhexDigit c).isSome) :
    (48 ≤ c.toNat ∧ c.toNat ≤ 57) ∨ (65 ≤ c.toNat ∧ c.toNat ≤ 70) ∨ (97 ≤ c.toNat ∧ c.toNat ≤ 102) := by
  unfold unhexDigit at h
  simp only at h
  split_ifs at h with h1 h2 h3
  · exact .inl h1
  · exact .inr (.inr h2)
  · exact .inr (.inl h3)
  · cases h

omit [HmacSha256] [Sha256] in
theorem chunkSignatureOf_field {sig : Bytes} (hlen : sig.length ≤ 64) (hsep : 59 ∉ sig) :
    chunkSignatureOf (awsChunkSigField ++ sig) = .ok sig := by
  have hfield : (59 : UInt8) ∉ awsChunkSigField := by decide +kernel
  have hsplit : (awsChunkSigField ++ sig).splitOn 59 = [awsChunkSigField ++ sig] :=
    List.splitOn_eq_singleton (by simp [hfield, hsep])
  rw [chunkSignatureOf, hsplit]
  simp only [List.foldlM_cons, List.foldlM_nil, List.prefix_append, if_true, List.drop_left]
  rw [if_neg (by omega)]
  rfl

omit [HmacSha256] [Sha256] in
theorem Chunk.Grammar.parsed {c : Chunk} (h : c.Grammar) :
    parseAWSChunkHeader c.header = .ok (c.data.length, c.sig.getD []) := by
  have hdigits := digitsValue_digit h.size_eq
  have hsep : ∀ b ∈ c.size, (decide (b ≠ 59)) = true := by
    intro b hb
    have := notMem_of_digit hdigits (b := 59) (by decide)
    exact decide_eq_true fun heq => this (heq ▸ hb)
  have htrim : trimSpace c.size = c.size := trimSpace_visible fun b hb => by
    have := unhexDigit_range (hdigits b hb)
    omega
  have hbound := h.bounded
  have hmax : maxAWSChunkSize = 8388608 := rfl
  have hparse : parseInt unhexDigit 16 64 (trimSpace c.size) = some (c.data.length : Int) := by
    rw [htrim, parseInt_digits (by decide) (by decide) h.size_ne h.size_eq, if_pos (by omega)]
  have hcut : c.header.takeWhile (· ≠ 59) = c.size ∧
      chunkSignatureOf ((c.header.dropWhile (· ≠ 59)).drop 1) = .ok (c.sig.getD []) := by
    unfold Chunk.header
    rcases hsig : c.sig with _ | sig
    · constructor
      · exact List.takeWhile_eq_self_iff.mpr hsep
      · rw [List.dropWhile_eq_nil_iff.mpr hsep]
        rfl
    · have hsome : sig ∈ c.sig := hsig
      have hnosep := notMem_of_digit (h.sig_hex sig hsome) (b := 59) (by decide)
      constructor
      · rw [List.takeWhile_append_of_pos hsep, List.takeWhile_cons_of_neg (by decide), List.append_nil]
      · rw [List.dropWhile_append_of_pos hsep, List.dropWhile_cons_of_neg (by decide)]
        exact chunkSignatureOf_field (h.sig_length sig hsome).le hnosep
  simp only [parseAWSChunkHeader, hcut.1, hparse]
  rw [if_neg (by omega), if_neg (by omega), hcut.2]
  rfl

omit [HmacSha256] [Sha256] in
theorem Chunk.Grammar.sound {c : Chunk} (h : c.Grammar) : c.piece.Sound := by
  have hdigits := digitsValue_digit h.size_eq
  have hsize : 10 ∉ c.size := notMem_of_digit hdigits (by decide)
  have hfield : (10 : UInt8) ∉ awsChunkSigField := by decide +kernel
  have hheader : 10 ∉ c.header := by
    unfold Chunk.header
    rcases hsig : c.sig with _ | sig
    · exact hsize
    · have := notMem_of_digit (h.sig_hex sig hsig) (b := 10) (by decide)
      simp [hsize, hfield, this]
  exact {
    one_line := by
      change 10 ∉ c.header ++ [13]
      simp [hheader]
    short := by
      change (c.header ++ [13]).length < _
      rw [List.length_append]
      exact h.short
    parsed := by
      change parseAWSChunkHeader (stripCR (c.header ++ [13])) = _
      rw [stripCR_concat]
      exact h.parsed }

theorem Framed.pending {src : BufReader} {ctx : Option StreamingSigningCtx} {trailers : Bool}
    {maxTotal : Int} {chunks : List Chunk} {last : Chunk} {block rest : Bytes}
    (h : Framed ctx trailers chunks last block)
    (hfits : ((chunks.flatMap Chunk.data).length : Int) ≤ maxTotal)
    (hsrc : src.data = message chunks last block ++ rest) :
    Pending (chunks.flatMap Chunk.data) last.piece block rest (chunks.flatMap Chunk.data)
      (newAWSChunkedReader src ctx trailers maxTotal) := by
  have hdata : (chunks.map Chunk.piece).flatMap Piece.data = chunks.flatMap Chunk.data :=
    List.flatMap_map ..
  have hframe : (chunks.map Chunk.piece).flatMap Piece.frame = chunks.flatMap Chunk.frame := by
    rw [List.flatMap_map]
    exact List.flatMap_congr fun c _ => frame_piece c
  refine .inl ⟨chunks.map Chunk.piece, ?_, hdata.symm, ?_⟩
  · intro p hp
    obtain ⟨c, hc, rfl⟩ := List.mem_map.mp hp
    exact ⟨(h.chunk c hc).1.sound, (h.chunk c hc).2⟩
  · have hstream : src.data = (chunks.map Chunk.piece).flatMap Piece.frame ++
        (last.piece.frame ++ (block ++ rest)) := by
      rw [hsrc, message, hframe, frame_piece, List.append_assoc, List.append_assoc]
    rcases ctx with _ | k <;> exact {
      not_done := rfl, no_err := rfl, hashed := hdata, counted := rfl, fits := hfits
      position := .inl rfl, stream := hstream, trailers := h.trailer
      signed := fun key hkey => by
        cases hkey <;> (have hchain := h.signed _ rfl; rwa [List.map_append] at hchain) }

/-- CORRECT: a message that follows the grammar, signed or not, with or without trailers, is
    delivered whole over any sequence of buffers, and then the end of the file with its hash and
    size and the source right after it; and in the signed mode an end of file means, for every
    stream, that the delivered bytes are those of pieces whose declared signatures form the chain
    from the seed, the terminating chunk included. -/
theorem awsChunkedReader_exact (src : BufReader) (ctx : Option StreamingSigningCtx)
    (trailers : Bool) (maxTotal : Int) :
    (∀ chunks last block rest, Framed ctx trailers chunks last block →
      ((chunks.flatMap Chunk.data).length : Int) ≤ maxTotal →
      src.data = message chunks last block ++ rest → ∀ lens : List ℕ, (∀ len ∈ lens, 0 < len) →
        Delivers (chunks.flatMap Chunk.data) rest (chunks.flatMap Chunk.data)
          (newAWSChunkedReader src ctx trailers maxTotal) lens ∧
        ((chunks.flatMap Chunk.data).length < lens.length →
          (reads (newAWSChunkedReader src ctx trailers maxTotal) lens).1.2 = some .eof)) ∧
    (∀ k, ctx = some k → ∀ lens out r',
      reads (newAWSChunkedReader src ctx trailers maxTotal) lens = ((out, some .eof), r') →
        Verified (chunkSignature k.signingKey k.amzDate k.scope) k.seedSig src.data out) := by
  constructor
  · intro chunks last block rest hframed hfits hsrc lens hlens
    have hdel := (hframed.pending hfits hsrc).reads hframed.last_ok.1.sound hframed.last_ok.2 hlens
    refine ⟨hdel, fun hlong => ?_⟩
    rcases hdel _ _ _ rfl with ⟨-, hpre, hle⟩ | ⟨hstop, -⟩
    · exact absurd (hle.trans hpre.length_le) (not_le.mpr hlong)
    · exact hstop
  · rintro k rfl lens out r' hreads
    have htraced : Traced k.signingKey k.amzDate k.scope k.seedSig src.data []
        (newAWSChunkedReader src (some k) trailers maxTotal) := by
      refine .inl ⟨[], ?_⟩
      exact {
        has_key := rfl, has_date := rfl, has_scope := rfl, not_done := rfl, no_err := rfl
        sound := fun p hp => by cases hp
        chain := trivial, prev := rfl, position := .inl rfl, stream_eq := rfl, out_eq := rfl }
    exact htraced.reads hreads

end Reader

section Runs

local instance chunkSha : Sha256 := sampleSha

local instance tailMac : HmacSha256 where
  mac _ message := (message.reverse ++ List.replicate 32 0).take 32
  length_mac := length_tailOf

def sampleCtx : StreamingSigningCtx := ⟨[1], lit "20130524T000000Z", lit "scope", lit "seed"⟩

def sampleSign (prev hash : Bytes) : Bytes :=
  chunkSignature sampleCtx.signingKey sampleCtx.amzDate sampleCtx.scope prev hash

/-- One chunk with the text `a`, and the terminating one. -/
def sampleChunks : Chunk × Chunk :=
  let sig := sampleSign sampleCtx.seedSig (hashBytes [97])
  (⟨[49], some sig, [97]⟩, ⟨[48], some (sampleSign sig awsChunkEmptySHA256), []⟩)

def sampleSource : BufReader :=
  ⟨⟨message [sampleChunks.1] sampleChunks.2 [] ++ [71], none⟩, 4096, by decide⟩

theorem sampleChunks_framed : Framed (some sampleCtx) false [sampleChunks.1] sampleChunks.2 [] where
  chunk := by
    intro c hc
    rw [List.mem_singleton] at hc
    subst hc
    refine ⟨?_, by decide⟩
    exact {
      size_ne := by decide
      size_eq := by decide
      bounded := by decide
      sig_length := fun sig h => by cases h; decide +kernel
      sig_hex := fun sig h => by cases h; decide +kernel
      short := by decide +kernel }
  last_ok := by
    refine ⟨?_, rfl⟩
    exact {
      size_ne := by decide
      size_eq := by decide
      bounded := by decide
      sig_length := fun sig h => by cases h; decide +kernel
      sig_hex := fun sig h => by cases h; decide +kernel
      short := by decide +kernel }
  trailer := rfl
  signed := by
    rintro k hk
    cases hk
    exact ⟨rfl, rfl, trivial⟩

/-- Two calls with a buffer of one byte: the text, then an end of file that the chain has earned. -/
theorem sampleSource_delivered :
    (reads (newAWSChunkedReader sampleSource (some sampleCtx) false 1) [1, 1]).1 = ([97], some .eof) ∧
    Verified sampleSign sampleCtx.seedSig sampleSource.data [97] := by
  obtain ⟨hgrammar, hsigned⟩ := awsChunkedReader_exact sampleSource (some sampleCtx) false 1
  obtain ⟨hdel, heof⟩ := hgrammar [sampleChunks.1] sampleChunks.2 [] [71] sampleChunks_framed
    (by decide) rfl [1, 1] (by decide)
  have heof := heof (by decide)
  rcases hreads : reads (newAWSChunkedReader sampleSource (some sampleCtx) false 1) [1, 1] with
    ⟨⟨out, stop⟩, r'⟩
  rw [hreads] at heof
  subst heof
  rcases hdel _ _ _ hreads with ⟨hstop, -⟩ | ⟨-, rfl, -⟩
  · cases hstop
  · exact ⟨rfl, hsigned sampleCtx rfl [1, 1] _ r' hreads⟩

end Runs

end Momo.AwsChunked

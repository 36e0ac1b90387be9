import Momo.Common.Wire

/-! @momo src/common/auth.go, src/transport/momo_tcp.go, src/transport/communicator.go,
    src/server/server.go, src/client/client.go, src/server/rebuild_source.go |
    scheme:handshake

    The two ends of a Momo-TCP connection, up to the point where the acceptor knows the role of the
    dialer, its timestamp and the mode it asks for. -/

namespace Momo

class HmacSha256 where
  mac : Bytes → Bytes → Bytes
  length_mac : ∀ key message, (mac key message).length = 32

theorem length_headOf (key _ : Bytes) : ((key ++ List.replicate 32 0).take 32).length = 32 := by simp

theorem length_tailOf (_ message : Bytes) :
    ((message.reverse ++ List.replicate 32 0).take 32).length = 32 := by simp

/-- `mac` tells the given keys apart on a message. -/
def HmacSha256.CollisionFree [HmacSha256] (keys : List Bytes) (message : Bytes) : Prop :=
  ∀ k ∈ keys, ∀ k' ∈ keys, mac k message = mac k' message → k = k'

instance [HmacSha256] (keys : List Bytes) (message : Bytes) :
    Decidable (HmacSha256.CollisionFree keys message) :=
  inferInstanceAs (Decidable (∀ k ∈ keys, ∀ k' ∈ keys, _ → k = k'))

namespace Handshake

def authTokenLength : ℕ := 64

/-- The text `:momo-peer:`. -/
def peerTokenSuffix : Bytes := [58, 109, 111, 109, 111, 45, 112, 101, 101, 114, 58]

/-- `common.DerivePeerToken`; `none` is the panic of the padding, which a digest never causes. -/
def derivePeerToken [Sha256] (authToken : Bytes) : Option Bytes :=
  padString (hashBytes (authToken ++ peerTokenSuffix)) authTokenLength

def padAuthToken (token : Bytes) : Option Bytes :=
  if token.length ≥ authTokenLength then some token else padString token authTokenLength

theorem derivePeerToken_eq [Sha256] (t : Bytes) :
    derivePeerToken t = some (hashBytes (t ++ peerTokenSuffix)) :=
  padString_full (length_hashBytes _)

theorem padAuthToken_full {t : Bytes} (h : t.length = authTokenLength) : padAuthToken t = some t :=
  if_pos h.ge

/-! ### The mode byte -/

/-- The letters `L`, `D`, `G`, `O` as they are, a number as its digit. -/
def encodeRequestedModeByte (requestedMode : Int) : Except Err UInt8 :=
  if requestedMode = 76 ∨ requestedMode = 68 ∨ requestedMode = 71 ∨ requestedMode = 79 then
    .ok (UInt8.ofNat requestedMode.toNat)
  else if requestedMode < 0 ∨ requestedMode > 9 then
    .error (.wrap "invalid requested mode %d: %w" [.num requestedMode] (.sys .ebadmsg))
  else .ok (UInt8.ofNat (requestedMode.toNat + 48))

/-- The acceptor's reading of the mode byte; `b - 48` wraps as a Go byte does. -/
def decodeRequestedMode (b : UInt8) : Except Err Int :=
  if b = 76 ∨ b = 68 ∨ b = 71 ∨ b = 79 then .ok b.toNat
  else
    let requestedMode : Int := (b - 48).toNat
    if requestedMode > 9 then
      .error (.wrap "invalid requested mode: %d: %w" [.num requestedMode] (.sys .ebadmsg))
    else .ok requestedMode

def KnownMode (m : Int) : Prop := m = 76 ∨ m = 68 ∨ m = 71 ∨ m = 79 ∨ (0 ≤ m ∧ m ≤ 9)

theorem encodeRequestedModeByte_isOk (m : Int) :
    (∃ b, encodeRequestedModeByte m = .ok b) ↔ KnownMode m := by
  rw [encodeRequestedModeByte, KnownMode]
  split_ifs with hletter hrange
  · simp only [Except.ok.injEq, exists_eq', true_iff]; omega
  · simp only [exists_false, false_iff]; omega
  · simp only [Except.ok.injEq, exists_eq', true_iff]; omega

theorem decode_encodeRequestedMode {m : Int} {b : UInt8}
    (h : encodeRequestedModeByte m = .ok b) : decodeRequestedMode b = .ok m := by
  have hmode := (encodeRequestedModeByte_isOk m).mp ⟨b, h⟩
  rcases hmode with rfl | rfl | rfl | rfl | ⟨hlo, hhi⟩
  · cases h; decide
  · cases h; decide
  · cases h; decide
  · cases h; decide
  · -- the ten digits, one by one
    interval_cases m <;> cases h <;> decide

/-! ### The dialer -/

structure Dial where
  opening : Bytes
  answer : Bytes → Bytes

/-- A recovered panic of the padding inside `HandshakeClient`. -/
def padPanic (input : Bytes) : Err :=
  .wrap "panic in HandshakeClient: PadString: input length %d exceeds length %d: %w"
    [.num input.length, .num authTokenLength] (.sys .eio)

/-- `HandshakeClient`, up to the acceptor's reply. -/
def handshakeClient [HmacSha256] (useChallengeResp : Bool) (authToken : Bytes) (timestamp : Int64)
    (requestedMode : Int) : Except Err Dial :=
  let format (e : Err) : Err := .wrap "failed to format handshake timestamp: %w" [] e
  if useChallengeResp then do
    let field ← (writePaddedInt timestamp timestampLength).mapError format
    let modeByte ← encodeRequestedModeByte requestedMode
    match padString authToken authTokenLength with
    | none => .error (padPanic authToken)
    | some paddedToken => .ok ⟨field ++ [modeByte], HmacSha256.mac paddedToken⟩
  else
    match padString authToken authTokenLength with
    | none => .error (padPanic authToken)
    | some paddedToken => do
      let field ← (writePaddedInt timestamp timestampLength).mapError format
      let modeByte ← encodeRequestedModeByte requestedMode
      .ok ⟨paddedToken ++ field ++ [modeByte], fun _ => []⟩

/-! ### The acceptor -/

/-- `io.ReadFull` of `n` bytes: what was read and what is left of the stream. -/
def readFull (stream : Bytes) (n : ℕ) : Except Err (Bytes × Bytes) :=
  if stream.length < n then .error (.text (if stream = [] then "EOF" else "unexpected EOF") [])
  else .ok (stream.take n, stream.drop n)

theorem readFull_append {a b : Bytes} {n : ℕ} (h : a.length = n) :
    readFull (a ++ b) n = .ok (a, b) := by
  subst h
  rw [readFull, if_neg (by simp), List.take_left, List.drop_left]

def momoHandshakeMaxSkew : Int64 := 900000000000

/-- `checkHandshakeTimestampFresh` against the clock `now`; the difference wraps. -/
def checkHandshakeTimestampFresh (now ts : Int64) : Bool :=
  let d := ts - now
  let d := if d < 0 then -d else d
  d ≤ momoHandshakeMaxSkew

/-- `ChallengeResponseServerPeer` with the nonce it drew: the dialer's role from its response. -/
def challengeResponseServerPeer [Sha256] [HmacSha256] (nonce expectedAuthToken stream : Bytes) :
    Except Err Bool :=
  match padAuthToken expectedAuthToken with
  | none => .error (.wrap "panic in HandshakeServer: PadString: %w" [] (.sys .eio))
  | some expectedAuthToken => do
    let (response, _) ← (readFull stream 32).mapError
      fun e => .wrap "failed to read challenge response: %w" [] e
    if response = HmacSha256.mac expectedAuthToken nonce then return false
    match derivePeerToken expectedAuthToken with
    | none => .error (.wrap "panic in HandshakeServer: PadString: %w" [] (.sys .eio))
    | some peerToken =>
      if response = HmacSha256.mac peerToken nonce then return true
      .error (.wrap "authentication failed: HMAC mismatch: %w" [] (.sys .eacces))

def plaintextRole [Sha256] (expectedAuthToken bufferAuthToken : Bytes) : Except Err Bool :=
  if bufferAuthToken = expectedAuthToken then .ok false
  else
    match derivePeerToken expectedAuthToken with
    | none => .error (.wrap "panic in HandshakeServer: PadString: %w" [] (.sys .eio))
    | some peerToken => if bufferAuthToken = peerToken then .ok true else .error (.sys .eacces)

/-- What `HandshakeServer` knows of an accepted dialer. -/
structure Accepted where
  requestedMode : Int
  timestamp : Int64
  isPeer : Bool
  deriving DecidableEq

/-- `HandshakeServer` up to the native requests: the role first, then the timestamp (fresh, in
    plaintext mode), then the mode. -/
def handshakeServer [Sha256] [HmacSha256] (useChallengeResp : Bool) (now : Int64) (nonce : Bytes)
    (expectedAuthToken : Bytes) (dial : Dial) : Except Err Accepted :=
  let short (_ : Err) : Err := .wrap "failed to read handshake: %v: %w" [] (.sys .ebadmsg)
  let parse (_ : Err) : Err := .wrap "failed to parse timestamp: %v: %w" [] (.sys .ebadmsg)
  if useChallengeResp then do
    let (handshakeBuf, rest) ← (readFull dial.opening (timestampLength + 1)).mapError short
    let isPeer ← challengeResponseServerPeer nonce expectedAuthToken (rest ++ dial.answer nonce)
    let timestamp ← (safeParseInt (handshakeBuf.take timestampLength)).mapError parse
    let requestedMode ← decodeRequestedMode (handshakeBuf.getD timestampLength 0)
    return ⟨requestedMode, timestamp, isPeer⟩
  else do
    let (handshakeBuf, _) ←
      (readFull dial.opening (authTokenLength + timestampLength + 1)).mapError short
    let isPeer ← plaintextRole expectedAuthToken (handshakeBuf.take authTokenLength)
    let timestamp ←
      (safeParseInt ((handshakeBuf.drop authTokenLength).take timestampLength)).mapError parse
    if !checkHandshakeTimestampFresh now timestamp then
      .error (.wrap "handshake timestamp is not fresh: %w" [] (.sys .eacces))
    else
      let requestedMode ← decodeRequestedMode (handshakeBuf.getD (authTokenLength + timestampLength) 0)
      return ⟨requestedMode, timestamp, isPeer⟩

/-! ### Two nodes with one configuration -/

/-- The configuration of the handshake: a token of 1 to 64 bytes, and whether the protocol factory
    switches challenge-response on. -/
structure AuthConfig where
  authToken : Bytes
  useChallengeResp : Bool
  token_ne : authToken ≠ []
  token_le : authToken.length ≤ authTokenLength

namespace AuthConfig

/-- The `expectedAuthToken` of `Daemon`: the padded token. -/
def padded (cfg : AuthConfig) : Bytes :=
  cfg.authToken ++ List.replicate (authTokenLength - cfg.authToken.length) 0

theorem padString_token (cfg : AuthConfig) :
    padString cfg.authToken authTokenLength = some cfg.padded := padString_eq cfg.token_le

theorem length_padded (cfg : AuthConfig) : cfg.padded.length = authTokenLength :=
  length_padString cfg.padString_token

end AuthConfig

/-- One connection: `Daemon` of `cfg` accepts what a dialer of the same configuration sends with
    the token `token`. -/
def connect [Sha256] [HmacSha256] (cfg : AuthConfig) (now : Int64) (nonce token : Bytes)
    (timestamp : Int64) (requestedMode : Int) : Except Err Accepted := do
  let dial ← handshakeClient cfg.useChallengeResp token timestamp requestedMode
  match padString cfg.authToken authTokenLength with
  | none => .error (.text "PadString" [])
  | some expectedAuthToken =>
    handshakeServer cfg.useChallengeResp now nonce expectedAuthToken dial

/-- A node dials (`ConnectStream`, `ChangeReplicationModeClient`): the token is the one derived from the
    configured token, as it stands. -/
def connectNode [Sha256] [HmacSha256] (cfg : AuthConfig) (now : Int64) (nonce : Bytes)
    (timestamp : Int64) (requestedMode : Int) : Except Err Accepted :=
  match derivePeerToken cfg.authToken with
  | none => .error (.text "PadString" [])
  | some peerToken => connect cfg now nonce peerToken timestamp requestedMode

def connectClient [Sha256] [HmacSha256] (cfg : AuthConfig) (now : Int64) (nonce : Bytes)
    (timestamp : Int64) (requestedMode : Int) : Except Err Accepted :=
  connect cfg now nonce cfg.authToken timestamp requestedMode

/-! ### What a connection comes to -/

instance (m : Int) : Decidable (KnownMode m) := inferInstanceAs (Decidable (_ ∨ _))

def FrameOk (timestamp : Int64) (requestedMode : Int) : Prop :=
  -10 ^ 18 < timestamp.toInt ∧ KnownMode requestedMode

instance (ts : Int64) (m : Int) : Decidable (FrameOk ts m) := inferInstanceAs (Decidable (_ ∧ _))

def AcceptedAs (isPeer : Bool) (r : Except Err Accepted) : Prop :=
  ∃ a, r = .ok a ∧ a.isPeer = isPeer

section Honest
variable [Sha256] [HmacSha256] {c : Bool} {now ts : Int64} {mode : Int}
  {nonce token paddedToken expected : Bytes}

def roleOf (c : Bool) (nonce expected paddedToken : Bytes) : Except Err Bool :=
  if c then challengeResponseServerPeer nonce expected (HmacSha256.mac paddedToken nonce)
  else plaintextRole expected paddedToken

omit [Sha256] in
theorem handshakeClient_cases (hpad : padString token authTokenLength = some paddedToken) :
    (∃ field b, writePaddedInt ts timestampLength = .ok field ∧
      encodeRequestedModeByte mode = .ok b ∧
      handshakeClient c token ts mode = .ok (if c then ⟨field ++ [b], HmacSha256.mac paddedToken⟩
        else ⟨paddedToken ++ field ++ [b], fun _ => []⟩)) ∨
    (¬ FrameOk ts mode ∧ ∃ e, handshakeClient c token ts mode = .error e) := by
  rw [FrameOk, ← writePaddedInt_timestamp, ← encodeRequestedModeByte_isOk, handshakeClient, hpad]
  cases hfield : writePaddedInt ts timestampLength with
  | error e =>
    refine .inr ⟨by simp, ?_⟩
    cases c <;> exact ⟨_, rfl⟩
  | ok field =>
    cases hmode : encodeRequestedModeByte mode with
    | error e =>
      refine .inr ⟨by simp, ?_⟩
      cases c <;> exact ⟨_, rfl⟩
    | ok b =>
      refine .inl ⟨field, b, rfl, rfl, ?_⟩
      cases c <;> rfl

theorem handshakeServer_honest {field : Bytes} {b : UInt8}
    (hlen : paddedToken.length = authTokenLength)
    (hfield : writePaddedInt ts timestampLength = .ok field)
    (hmode : encodeRequestedModeByte mode = .ok b) :
    handshakeServer c now nonce expected (if c then ⟨field ++ [b], HmacSha256.mac paddedToken⟩
        else ⟨paddedToken ++ field ++ [b], fun _ => []⟩) =
      (roleOf c nonce expected paddedToken).bind fun isPeer =>
        if !c && !checkHandshakeTimestampFresh now ts then
          .error (.wrap "handshake timestamp is not fresh: %w" [] (.sys .eacces))
        else .ok ⟨mode, ts, isPeer⟩ := by
  obtain ⟨hwidth, hparse⟩ := safeParseInt_writePaddedInt hfield
  have hdecode := decode_encodeRequestedMode hmode
  have htext : ∀ rest : Bytes, (field ++ rest).take timestampLength = field :=
    fun rest => List.take_left' hwidth
  have hbyte : (field ++ [b]).getD timestampLength 0 = b := by
    rw [List.getD_append_right _ _ _ _ hwidth.le, hwidth, Nat.sub_self]; rfl
  cases c with
  | true =>
    have hread := @readFull_append (field ++ [b]) [] (timestampLength + 1) (by simp [hwidth])
    rw [List.append_nil] at hread
    simp only [handshakeServer, roleOf, if_true, hread, Except.mapError, bind, Except.bind,
      List.nil_append, htext, hparse, hbyte, hdecode, Bool.not_true, Bool.false_and,
      Bool.false_eq_true, if_false, pure, Except.pure]
  | false =>
    have hread := @readFull_append (paddedToken ++ field ++ [b]) []
      (authTokenLength + timestampLength + 1) (by simp [hwidth, hlen, Nat.add_assoc])
    rw [List.append_nil] at hread
    have htoken : (paddedToken ++ field ++ [b]).take authTokenLength = paddedToken := by
      rw [List.append_assoc]; exact List.take_left' hlen
    have hdrop : (paddedToken ++ field ++ [b]).drop authTokenLength = field ++ [b] := by
      rw [List.append_assoc]; exact List.drop_left' hlen
    have hlast : (paddedToken ++ field ++ [b]).getD (authTokenLength + timestampLength) 0 = b := by
      rw [List.append_assoc, List.getD_append_right _ _ _ _ (by omega), hlen,
        Nat.add_sub_cancel_left, hbyte]
    simp only [handshakeServer, roleOf, Bool.false_eq_true, if_false, hread, Except.mapError, bind,
      Except.bind, htoken, hdrop, htext, hparse, hlast, hdecode, Bool.not_false, Bool.true_and,
      pure, Except.pure]

/-- CORRECT: a dialer is accepted in a role iff its frame can be built, is fresh where that is
    checked, and its token is taken for that role. -/
theorem connect_acceptedAs_iff {cfg : AuthConfig} {isPeer : Bool}
    (hpad : padString token authTokenLength = some paddedToken) :
    AcceptedAs isPeer (connect cfg now nonce token ts mode) ↔
      FrameOk ts mode ∧ (cfg.useChallengeResp = false → checkHandshakeTimestampFresh now ts) ∧
        roleOf cfg.useChallengeResp nonce cfg.padded paddedToken = .ok isPeer := by
  rcases @handshakeClient_cases _ cfg.useChallengeResp ts mode token paddedToken hpad with
    ⟨field, b, hfield, hmode, hclient⟩ | ⟨hframe, e, hclient⟩
  · have hframe : FrameOk ts mode :=
      ⟨(writePaddedInt_timestamp ts).mp ⟨field, hfield⟩,
        (encodeRequestedModeByte_isOk mode).mp ⟨b, hmode⟩⟩
    have hconnect : connect cfg now nonce token ts mode =
        handshakeServer cfg.useChallengeResp now nonce cfg.padded
          (if cfg.useChallengeResp then ⟨field ++ [b], HmacSha256.mac paddedToken⟩
            else ⟨paddedToken ++ field ++ [b], fun _ => []⟩) := by
      rw [connect, hclient, cfg.padString_token]; rfl
    rw [hconnect, handshakeServer_honest (length_padString hpad) hfield hmode, AcceptedAs]
    cases roleOf cfg.useChallengeResp nonce cfg.padded paddedToken with
    | error e => simp [Except.bind]
    | ok r =>
      cases cfg.useChallengeResp <;> cases checkHandshakeTimestampFresh now ts <;>
        simp [Except.bind, hframe]
  · have hconnect : connect cfg now nonce token ts mode = .error e := by
      rw [connect, hclient]; rfl
    simp only [hconnect, AcceptedAs, reduceCtorEq, false_and, exists_false, hframe]

omit [Sha256] [HmacSha256] in
theorem role_of_comparisons {x client peer : Bytes} {e : Err} {r : Except Err Bool}
    (hr : r = if x = client then .ok false else if x = peer then .ok true else .error e) :
    (r = .ok false ↔ x = client) ∧ (r = .ok true ↔ x ≠ client ∧ x = peer) := by
  split_ifs at hr with hclient hpeer <;> simp [hr, hclient] <;> assumption

/-- CORRECT: the acceptor takes exactly its own token for a client's and the token derived from it
    for a node's. -/
theorem roleOf_iff (hexpected : expected.length = authTokenLength)
    (hmac : HmacSha256.CollisionFree
      [expected, paddedToken, hashBytes (expected ++ peerTokenSuffix)] nonce) :
    (roleOf c nonce expected paddedToken = .ok false ↔ paddedToken = expected) ∧
    (roleOf c nonce expected paddedToken = .ok true ↔
      paddedToken ≠ expected ∧ paddedToken = hashBytes (expected ++ peerTokenSuffix)) := by
  cases c with
  | false =>
    apply role_of_comparisons
    rw [roleOf, if_neg Bool.false_ne_true, plaintextRole, derivePeerToken_eq]
  | true =>
    have hread := @readFull_append (HmacSha256.mac paddedToken nonce) [] 32
      (HmacSha256.length_mac _ _)
    rw [List.append_nil] at hread
    -- on these three keys a response gives its key away
    have hkey : ∀ k ∈ [expected, paddedToken, hashBytes (expected ++ peerTokenSuffix)],
        (HmacSha256.mac paddedToken nonce = HmacSha256.mac k nonce ↔ paddedToken = k) :=
      fun k hk => ⟨hmac paddedToken (by simp) k hk, fun h => by rw [h]⟩
    apply role_of_comparisons
    rw [roleOf, if_pos rfl, challengeResponseServerPeer, padAuthToken_full hexpected]
    simp only [hread, Except.mapError, bind, Except.bind, derivePeerToken_eq, pure, Except.pure,
      hkey expected (by simp), hkey (hashBytes (expected ++ peerTokenSuffix)) (by simp)]
    rfl

end Honest

/-! ### The two derivations -/

section Agreement
variable [Sha256] (cfg : AuthConfig)

/-- The texts dialer and acceptor hash have one digest: always so for a token of the full width. -/
def SameDigest : Prop :=
  cfg.authToken.length = authTokenLength ∨
    Sha256.sum256 (cfg.authToken ++ peerTokenSuffix) = Sha256.sum256 (cfg.padded ++ peerTokenSuffix)

theorem sameDigest_iff : SameDigest cfg ↔
    hashBytes (cfg.authToken ++ peerTokenSuffix) = hashBytes (cfg.padded ++ peerTokenSuffix) := by
  constructor
  · rintro (hfull | hdigest)
    · have hpadded : cfg.padded = cfg.authToken := by
        rw [AuthConfig.padded, hfull, Nat.sub_self, List.replicate_zero, List.append_nil]
      rw [hpadded]
    · rw [hashBytes, hdigest, hashBytes]
  · exact fun h => .inr (hexEncode_injective h)

end Agreement

/-- CORRECT: a node is accepted as a peer iff its frame is well formed and fresh where checked, the
    digests of the two derivations agree, and the padded token is not itself the peer token; a
    client is accepted as a non-peer whenever its frame is well formed and fresh where checked. -/
theorem roles_recognised_iff [Sha256] [HmacSha256] (cfg : AuthConfig) (now : Int64) (nonce : Bytes)
    (ts : Int64) (mode : Int)
    (hmac : HmacSha256.CollisionFree [cfg.padded, hashBytes (cfg.authToken ++ peerTokenSuffix),
      hashBytes (cfg.padded ++ peerTokenSuffix)] nonce) :
    (AcceptedAs true (connectNode cfg now nonce ts mode) ↔
      (FrameOk ts mode ∧ (cfg.useChallengeResp = false → checkHandshakeTimestampFresh now ts)) ∧
        SameDigest cfg ∧ cfg.padded ≠ hashBytes (cfg.padded ++ peerTokenSuffix)) ∧
    (AcceptedAs false (connectClient cfg now nonce ts mode) ↔
      FrameOk ts mode ∧ (cfg.useChallengeResp = false → checkHandshakeTimestampFresh now ts)) := by
  constructor
  · have hpad : padString (hashBytes (cfg.authToken ++ peerTokenSuffix)) authTokenLength =
        some (hashBytes (cfg.authToken ++ peerTokenSuffix)) := padString_full (length_hashBytes _)
    rw [connectNode, derivePeerToken_eq]
    simp only
    rw [connect_acceptedAs_iff hpad, (roleOf_iff cfg.length_padded hmac).2,
      sameDigest_iff]
    constructor
    · rintro ⟨hframe, hfresh, hne, heq⟩
      exact ⟨⟨hframe, hfresh⟩, heq, fun h => hne (heq.trans h.symm)⟩
    · rintro ⟨⟨hframe, hfresh⟩, heq, hne⟩
      exact ⟨hframe, hfresh, fun h => hne (h.symm.trans heq), heq⟩
  · have hfree : HmacSha256.CollisionFree [cfg.padded, cfg.padded,
        hashBytes (cfg.padded ++ peerTokenSuffix)] nonce := by
      intro k hk k' hk'
      refine hmac k ?_ k' ?_
      · simp only [List.mem_cons, List.not_mem_nil, or_false] at hk ⊢; tauto
      · simp only [List.mem_cons, List.not_mem_nil, or_false] at hk' ⊢; tauto
    rw [connectClient, connect_acceptedAs_iff cfg.padString_token,
      (roleOf_iff cfg.length_padded hfree).1]
    simp only [and_true]

section Runs

local instance tokenSha : Sha256 := Sha256.ofTable [
  (116 :: peerTokenSuffix, ⟨[64, 25, 3, 180, 107, 191, 150, 184, 27, 98, 74, 95, 39, 123, 135, 67,
    35, 143, 162, 197, 95, 152, 15, 229, 128, 164, 14, 81, 214, 140, 204, 122], rfl⟩),
  (116 :: List.replicate 63 0 ++ peerTokenSuffix, ⟨[135, 8, 30, 43, 126, 222, 85, 189, 16, 123, 181, 182, 109, 233, 76, 12,
    59, 228, 122, 93, 219, 178, 121, 203, 156, 74, 249, 35, 55, 128, 68, 228], rfl⟩),
  (List.replicate 64 116 ++ peerTokenSuffix, ⟨[216, 65, 12, 0, 68, 80, 114, 168, 149, 223, 26, 148, 25, 254, 27, 116,
    57, 94, 68, 116, 43, 25, 23, 197, 91, 229, 209, 25, 88, 56, 244, 153], rfl⟩)]

local instance halfKeyMac : HmacSha256 where
  mac key _ := (key ++ List.replicate 32 0).take 32
  length_mac := length_headOf

def shortToken (useChallengeResp : Bool) : AuthConfig :=
  ⟨[116], useChallengeResp, by decide, by decide⟩

/-- A token of 64 letters `t`. -/
def fullToken (useChallengeResp : Bool) : AuthConfig :=
  ⟨List.replicate 64 116, useChallengeResp, by decide, by decide⟩

theorem node_refused_with_shortToken :
    HmacSha256.CollisionFree [(shortToken true).padded,
      hashBytes ((shortToken true).authToken ++ peerTokenSuffix),
      hashBytes ((shortToken true).padded ++ peerTokenSuffix)] (List.replicate 32 7) ∧
    connectNode (shortToken false) 5 [] 5 1 = .error (.sys .eacces) ∧
    connectNode (shortToken true) 5 (List.replicate 32 7) 5 1 =
      .error (.wrap "authentication failed: HMAC mismatch: %w" [] (.sys .eacces)) ∧
    connectClient (shortToken false) 5 [] 5 1 = .ok ⟨1, 5, false⟩ ∧
    connectClient (shortToken true) 5 (List.replicate 32 7) 5 1 = .ok ⟨1, 5, false⟩ := by
  decide +kernel

theorem roles_recognised_with_fullToken :
    AcceptedAs true (connectNode (fullToken true) 5 (List.replicate 32 7) 5 1) ∧
      AcceptedAs false (connectClient (fullToken true) 5 (List.replicate 32 7) 5 1) := by
  have h := roles_recognised_iff (fullToken true) 5 (List.replicate 32 7) 5 1 (by decide +kernel)
  exact ⟨h.1.mpr ⟨by decide +kernel, .inl rfl, by decide +kernel⟩, h.2.mpr (by decide +kernel)⟩

end Runs

/-! ### The repair's own frame -/

/-- `DaemonRebuildSource.Fetch` writes its frame by hand: plaintext in either mode, with the
    timestamp `0` and the mode `G`. -/
def fetchDial [Sha256] (cfg : AuthConfig) : Dial :=
  ⟨hashBytes (cfg.authToken ++ peerTokenSuffix) ++ (48 :: List.replicate 18 0) ++ [71], fun _ => []⟩

end Handshake

end Momo

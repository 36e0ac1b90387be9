import Momo.Schemes.Run
import Momo.Transport.Handshake

/-! @momo src/server/replication.go, src/metrics/replication.go |
    scheme:last writer by arrival

    The replication mode of a daemon and the connections that change it. The handler reads a
    handshake, then one JSON value, and stores the mode of the JSON with the timestamp of the
    handshake. -/

namespace Momo.ReplicationMode

open Handshake

structure ReplicationData where
  old : Int64
  new : Int64
  timeStamp : Int64
  deriving DecidableEq

def ReplicationData.marshal (d : ReplicationData) : Bytes :=
  lit "\x7b\"old\":" ++ (appendInt d.old ++ (lit ",\"new\":" ++ (appendInt d.new ++
    (lit ",\"timestamp\":" ++ (appendInt d.timeStamp ++ [125])))))

/-- `Decode` of a JSON decoder on a stream: the first value of it. -/
class ReplicationJSON where
  decode : Bytes → Except Err ReplicationData
  decode_marshal : ∀ d rest, decode (d.marshal ++ 10 :: rest) = .ok d

/-! ### The daemon's state -/

structure ModeState where
  currentReplicationMode : Int64
  replicationState : ReplicationData
  deriving DecidableEq

def setReplicationState (s : ModeState) (newMode timestamp : Int64) : ModeState where
  currentReplicationMode := newMode
  replicationState := ⟨s.currentReplicationMode, newMode, timestamp⟩

/-- A connection to the port: whether the limiter lets its source through, the clock and the nonce
    of the acceptor, what the dialer sends for the handshake and what it sends after. -/
structure Connection where
  allowed : Bool
  now : Int64
  nonce : Bytes
  dial : Dial
  body : Bytes

def Connection.unread (cfg : AuthConfig) (c : Connection) : Bytes :=
  if cfg.useChallengeResp then
    (c.dial.opening.drop (timestampLength + 1) ++ c.dial.answer c.nonce).drop 32 ++ c.body
  else c.dial.opening.drop (authTokenLength + timestampLength + 1) ++ c.body

/-- `ModeList`, `ModeDelete`, `ModeGet`, `ModeOPRFEval`: answered inside `HandshakeServer`, which then
    returns `ErrRequestHandled` or an error of its own. -/
def IsNative (mode : Int) : Prop := mode = 76 ∨ mode = 68 ∨ mode = 71 ∨ mode = 79

instance (mode : Int) : Decidable (IsNative mode) := inferInstanceAs (Decidable (_ ∨ _))

def payloadLimit : ℕ := 1024

section Server

variable [Sha256] [HmacSha256] [ReplicationJSON]

/-- The handler of `ChangeReplicationModeServer`: what it stored, or where it returned. -/
def onConnection (cfg : AuthConfig) (s : ModeState) (c : Connection) :
    Except Err ReplicationData × ModeState :=
  if c.allowed = false then (.error (.text "rejected connection from rate-limited source"), s)
  else
    match handshakeServer cfg.useChallengeResp c.now c.nonce cfg.padded c.dial with
    | .error e => (.error e, s)
    | .ok a =>
      if IsNative a.requestedMode then (.error (.text "request handled"), s)
      else
        match ReplicationJSON.decode ((c.unread cfg).take payloadLimit) with
        | .error e => (.error e, s)
        | .ok replicationJson =>
          let newState := setReplicationState s replicationJson.new a.timestamp
          (.ok newState.replicationState, newState)

def receive (cfg : AuthConfig) (s : ModeState) (c : Connection) : ModeState := (onConnection cfg s c).2

/-! ### The dialers -/

omit [Sha256] [HmacSha256] [ReplicationJSON] in
def pushNewReplicationMode (paddedAuthToken : Bytes) (newReplicationMode clock : Int64) : Bytes :=
  paddedAuthToken ++ (ReplicationData.marshal ⟨0, newReplicationMode, clock⟩ ++ [10])

def changeReplicationModeClient (cfg : AuthConfig) (timestamp : Int64) (newState : ReplicationData) :
    Except Err (Dial × Bytes) :=
  match derivePeerToken cfg.authToken with
  | none => .error (.text "PadString" [])
  | some peerToken => do
    let dial ← handshakeClient cfg.useChallengeResp peerToken timestamp 0
    return (dial, newState.marshal ++ [10])

/-! ### Changes -/

structure Change where
  mode : Int64
  timestamp : Int64
  deriving DecidableEq

def change? (cfg : AuthConfig) (c : Connection) : Option Change :=
  if c.allowed = false then none
  else
    match handshakeServer cfg.useChallengeResp c.now c.nonce cfg.padded c.dial with
    | .error _ => none
    | .ok a =>
      if IsNative a.requestedMode then none
      else
        match ReplicationJSON.decode ((c.unread cfg).take payloadLimit) with
        | .error _ => none
        | .ok d => some ⟨d.new, a.timestamp⟩

def delivered (cfg : AuthConfig) (cs : List Connection) : List Change := cs.filterMap (change? cfg)

omit [Sha256] [HmacSha256] [ReplicationJSON] in
def deliver (s : ModeState) (ch : Change) : ModeState := setReplicationState s ch.mode ch.timestamp

theorem receive_eq (cfg : AuthConfig) (s : ModeState) (c : Connection) :
    receive cfg s c = match change? cfg c with
      | some ch => deliver s ch
      | none => s := by
  unfold receive onConnection change?
  by_cases hallowed : c.allowed = false
  · simp only [if_pos hallowed]
  simp only [if_neg hallowed]
  cases handshakeServer cfg.useChallengeResp c.now c.nonce cfg.padded c.dial with
  | error e => rfl
  | ok a =>
    by_cases hnative : IsNative a.requestedMode
    · simp only [if_pos hnative]
    · simp only [if_neg hnative]
      cases ReplicationJSON.decode ((c.unread cfg).take payloadLimit) <;> rfl

theorem run_receive (cfg : AuthConfig) (s : ModeState) (cs : List Connection) :
    run (receive cfg) s cs = run deliver s (delivered cfg cs) := by
  induction cs generalizing s with
  | nil => rfl
  | cons c cs ih =>
    have hcons : delivered cfg (c :: cs) = (change? cfg c).toList ++ delivered cfg cs := by
      rw [delivered, List.filterMap_cons]
      cases change? cfg c <;> rfl
    rw [run_cons, receive_eq, ih, hcons, run_append]
    cases change? cfg c <;> rfl

omit [Sha256] [HmacSha256] [ReplicationJSON] in
theorem current_run (s : ModeState) (chs : List Change) :
    (run deliver s chs).currentReplicationMode =
      (chs.getLast?.map Change.mode).getD s.currentReplicationMode := by
  induction chs using List.reverseRecOn with
  | nil => rfl
  | append_singleton chs ch _ =>
    rw [run_append, List.getLast?_concat]
    rfl

def LastMode (cfg : AuthConfig) (cs : List Connection) (mode : Int64) : Prop :=
  ∀ ch ∈ (delivered cfg cs).getLast?, ch.mode = mode

instance (cfg : AuthConfig) (cs : List Connection) (mode : Int64) :
    Decidable (LastMode cfg cs mode) :=
  inferInstanceAs (Decidable (∀ ch ∈ _, _))

theorem current_eq_iff {cfg : AuthConfig} {cs : List Connection} {ch : Change}
    (hch : ch ∈ delivered cfg cs) (s : ModeState) (mode : Int64) :
    (run (receive cfg) s cs).currentReplicationMode = mode ↔ LastMode cfg cs mode := by
  rw [run_receive, current_run, LastMode]
  cases hlast : (delivered cfg cs).getLast? with
  | none =>
    rw [List.getLast?_eq_none_iff.mp hlast] at hch
    cases hch
  | some last => simp

omit [Sha256] [HmacSha256] [ReplicationJSON] in
def IsNewest (changes : List Change) (newest : Change) : Prop :=
  newest ∈ changes ∧ ∀ ch ∈ changes, ch.timestamp ≤ newest.timestamp

omit [Sha256] [HmacSha256] [ReplicationJSON] in
instance (changes : List Change) (newest : Change) : Decidable (IsNewest changes newest) :=
  inferInstanceAs (Decidable (_ ∧ _))

/-- CORRECT: a daemon that received all of the changes has the mode of the newest one iff that is the
    mode of the change that came last, and two such daemons agree iff their last changes do. -/
theorem newest_mode_iff (cfg : AuthConfig) (changes : List Change) {newest : Change}
    (hnewest : IsNewest changes newest) (s : ModeState) (cs : List Connection)
    (hall : ∀ ch, ch ∈ delivered cfg cs ↔ ch ∈ changes) :
    ((run (receive cfg) s cs).currentReplicationMode = newest.mode ↔ LastMode cfg cs newest.mode) ∧
      ∀ s' cs', (∀ ch, ch ∈ delivered cfg cs' ↔ ch ∈ changes) →
        ((run (receive cfg) s cs).currentReplicationMode =
            (run (receive cfg) s' cs').currentReplicationMode ↔
          ∃ mode, LastMode cfg cs mode ∧ LastMode cfg cs' mode) := by
  have hcs := (hall newest).mpr hnewest.1
  refine ⟨current_eq_iff hcs s newest.mode, fun s' cs' hall' => ?_⟩
  have hcs' := (hall' newest).mpr hnewest.1
  constructor
  · intro h
    exact ⟨_, (current_eq_iff hcs s _).mp h, (current_eq_iff hcs' s' _).mp rfl⟩
  · rintro ⟨mode, hlast, hlast'⟩
    rw [(current_eq_iff hcs s mode).mpr hlast, (current_eq_iff hcs' s' mode).mpr hlast']

end Server

/-! ### The metrics daemon's frame -/

section Push

variable [Sha256] [HmacSha256] [ReplicationJSON]

omit [Sha256] [HmacSha256] [ReplicationJSON] in
theorem safeParseInt_brace (rest : Bytes) : ∃ e, safeParseInt (123 :: rest) = .error e := by
  have htext : (123 :: rest : Bytes).takeWhile (· ≠ 0) = 123 :: rest.takeWhile (· ≠ 0) := by
    simp
  simp only [safeParseInt, htext]
  refine ⟨.wrap "parse int %q: %w: invalid syntax" [.str (123 :: rest.takeWhile (· ≠ 0))]
    (.sys .einval), ?_⟩
  simp [parseDigit, bind, Except.bind]

omit [Sha256] [HmacSha256] [ReplicationJSON] in
theorem marshal_cons (d : ReplicationData) : ∃ rest, d.marshal = 123 :: rest ∧ 20 ≤ rest.length := by
  have hopen : lit "\x7b\"old\":" = 123 :: [34, 111, 108, 100, 34, 58] := by decide +kernel
  have hstamp : (lit ",\"timestamp\":").length = 13 := by decide +kernel
  refine ⟨[34, 111, 108, 100, 34, 58] ++ (appendInt d.old ++ (lit ",\"new\":" ++ (appendInt d.new ++
    (lit ",\"timestamp\":" ++ (appendInt d.timeStamp ++ [125]))))), ?_, ?_⟩
  · rw [ReplicationData.marshal, hopen]
    rfl
  · simp only [List.length_append, hstamp, List.length_cons, List.length_nil]
    omega

/-- CORRECT: no daemon accepts what the metrics daemon writes: where the handshake has its timestamp
    there is the JSON. -/
theorem pushed_bytes_refused (cfg : AuthConfig) (hplain : cfg.useChallengeResp = false)
    (mode clock : Int64) (s : ModeState) (allowed : Bool) (now : Int64) (nonce : Bytes) :
    ∃ e, onConnection cfg s
      ⟨allowed, now, nonce, ⟨pushNewReplicationMode cfg.padded mode clock, fun _ => []⟩, []⟩ =
        (.error e, s) := by
  cases allowed with
  | false => exact ⟨_, if_pos rfl⟩
  | true =>
    obtain ⟨rest, hjson, hlen⟩ := marshal_cons ⟨0, mode, clock⟩
    -- the twenty bytes of the JSON that the handshake takes for a timestamp and a mode
    obtain ⟨head, tail, hhead, hsplit⟩ : ∃ head tail : Bytes, head.length = timestampLength ∧
        rest ++ [10] = head ++ tail :=
      ⟨(rest ++ [10]).take timestampLength, (rest ++ [10]).drop timestampLength,
        by rw [List.length_take, List.length_append, timestampLength]; omega,
        (List.take_append_drop _ _).symm⟩
    have hbytes : pushNewReplicationMode cfg.padded mode clock = (cfg.padded ++ 123 :: head) ++ tail := by
      rw [pushNewReplicationMode, hjson, List.cons_append, hsplit, List.append_assoc, List.cons_append]
    have hread : readFull (pushNewReplicationMode cfg.padded mode clock)
        (authTokenLength + timestampLength + 1) = .ok (cfg.padded ++ 123 :: head, tail) := by
      rw [hbytes]
      refine readFull_append ?_
      rw [List.length_append, List.length_cons, cfg.length_padded, hhead, Nat.add_assoc]
    have htoken : (cfg.padded ++ 123 :: head).take authTokenLength = cfg.padded :=
      List.take_left' cfg.length_padded
    have hfield : ((cfg.padded ++ 123 :: head).drop authTokenLength).take timestampLength =
        123 :: head.take 18 := by
      rw [List.drop_left' cfg.length_padded]
      rfl
    obtain ⟨e, hparse⟩ := safeParseInt_brace (head.take 18)
    have hrole : plaintextRole cfg.padded cfg.padded = .ok false := if_pos rfl
    refine ⟨.wrap "failed to parse timestamp: %v: %w" [] (.sys .ebadmsg), ?_⟩
    simp only [onConnection, hplain, handshakeServer, Bool.false_eq_true, if_false, hread,
      Except.mapError, bind, Except.bind, htoken, hrole, hfield, hparse, Bool.true_eq_false]

end Push

/-! ### The frame of the daemons -/

section Propagate

variable [Sha256] [HmacSha256] [ReplicationJSON]

end Propagate

/-! ### Concrete runs -/

theorem takeWhile_number {v : Int64} {c : UInt8} (hc : c = 44 ∨ c = 125) (rest : Bytes) :
    (appendInt v ++ c :: rest).takeWhile (· ≠ c) = appendInt v := by
  have hother : ∀ x ∈ appendInt v, x ≠ c := by
    intro x hx
    have hdigits : x ∈ decimal 20 v.toInt.natAbs → x ≠ c := by
      intro hx
      obtain ⟨d, hd, rfl⟩ := mem_decimal hx
      have := toNat_digitByte hd
      rintro rfl
      rcases hc with h | h <;> rw [h] at this <;> simp at this <;> omega
    rw [appendInt] at hx
    split_ifs at hx
    · rcases List.mem_cons.mp hx with rfl | hx
      · rcases hc with rfl | rfl <;> decide
      · exact hdigits hx
    · exact hdigits hx
  rw [List.takeWhile_append_of_pos fun x hx => by simpa using hother x hx]
  simp

theorem safeParseInt_number (v : Int64) : safeParseInt (appendInt v) = .ok v := by
  have h := safeParseInt_appendInt v 0
  rwa [List.replicate_zero, List.append_nil] at h

/-- A decoder of the texts `json.Marshal` writes: the three numbers between their separators. -/
def sampleDecode (b : Bytes) : Except Err ReplicationData := do
  let b := b.drop 7
  let old := b.takeWhile (· ≠ 44)
  let b := b.drop (old.length + 7)
  let new := b.takeWhile (· ≠ 44)
  let b := b.drop (new.length + 13)
  let timeStamp := b.takeWhile (· ≠ 125)
  return ⟨← safeParseInt old, ← safeParseInt new, ← safeParseInt timeStamp⟩

@[reducible] def sampleReplicationJSON : ReplicationJSON where
  decode := sampleDecode
  decode_marshal d rest := by
    have hopen : lit "\x7b\"old\":" = [123, 34, 111, 108, 100, 34, 58] := by decide +kernel
    have hnew : lit ",\"new\":" = 44 :: [34, 110, 101, 119, 34, 58] := by decide +kernel
    have hstamp : lit ",\"timestamp\":" =
        44 :: [34, 116, 105, 109, 101, 115, 116, 97, 109, 112, 34, 58] := by decide +kernel
    have hdrop : ∀ (x y z : Bytes), (x ++ (y ++ z)).drop (x.length + y.length) = z := fun x y z => by
      rw [← List.append_assoc, ← List.length_append, List.drop_left]
    have htext : (d.marshal ++ 10 :: rest).drop 7 = appendInt d.old ++ (44 :: [34, 110, 101, 119, 34, 58] ++
        (appendInt d.new ++ (44 :: [34, 116, 105, 109, 101, 115, 116, 97, 109, 112, 34, 58] ++
          (appendInt d.timeStamp ++ 125 :: 10 :: rest)))) := by
      rw [ReplicationData.marshal, hopen, hnew, hstamp]
      simp
    have hold := takeWhile_number (v := d.old) (Or.inl rfl) ([34, 110, 101, 119, 34, 58] ++
      (appendInt d.new ++ (44 :: [34, 116, 105, 109, 101, 115, 116, 97, 109, 112, 34, 58] ++
        (appendInt d.timeStamp ++ 125 :: 10 :: rest))))
    have hnew' := takeWhile_number (v := d.new) (Or.inl rfl)
      ([34, 116, 105, 109, 101, 115, 116, 97, 109, 112, 34, 58] ++
        (appendInt d.timeStamp ++ 125 :: 10 :: rest))
    have hstamp' := takeWhile_number (v := d.timeStamp) (Or.inr rfl) (10 :: rest)
    rw [← List.cons_append] at hold hnew'
    have hskip := hdrop (appendInt d.old) (44 :: [34, 110, 101, 119, 34, 58])
      (appendInt d.new ++ (44 :: [34, 116, 105, 109, 101, 115, 116, 97, 109, 112, 34, 58] ++
        (appendInt d.timeStamp ++ 125 :: 10 :: rest)))
    have hskip' := hdrop (appendInt d.new)
      (44 :: [34, 116, 105, 109, 101, 115, 116, 97, 109, 112, 34, 58])
      (appendInt d.timeStamp ++ 125 :: 10 :: rest)
    simp only [List.length_cons, List.length_nil, Nat.zero_add, Nat.reduceAdd] at hskip hskip'
    simp only [sampleDecode, htext, hold, hskip, hnew', hskip', hstamp', safeParseInt_number, bind,
      Except.bind, pure, Except.pure]

section Runs

local instance modeSha : Sha256 := polySha

local instance modeMac : HmacSha256 where
  mac key _ := (key ++ List.replicate 32 0).take 32
  length_mac := length_headOf

local instance modeJSON : ReplicationJSON := sampleReplicationJSON

/-- The token `t`, plaintext handshakes. -/
def modeConfig : AuthConfig := shortToken false

def changeBy (mode timestamp : Int64) : Connection where
  allowed := true
  now := 5
  nonce := []
  dial := match handshakeClient false [116] timestamp 0 with
    | .ok dial => dial
    | .error _ => ⟨[], fun _ => []⟩
  body := ReplicationData.marshal ⟨0, mode, timestamp⟩ ++ [10]

def modeStart : ModeState := ⟨0, ⟨0, 0, 0⟩⟩

theorem newest_last_stays :
    delivered modeConfig [changeBy 2 4, changeBy 1 3, changeBy 2 4] = [⟨2, 4⟩, ⟨1, 3⟩, ⟨2, 4⟩] ∧
      (run (receive modeConfig) modeStart
        [changeBy 2 4, changeBy 1 3, changeBy 2 4]).currentReplicationMode = 2 := by
  have hdelivered : delivered modeConfig [changeBy 2 4, changeBy 1 3, changeBy 2 4] =
      [⟨2, 4⟩, ⟨1, 3⟩, ⟨2, 4⟩] := by
    decide +kernel
  refine ⟨hdelivered, (newest_mode_iff modeConfig [⟨1, 3⟩, ⟨2, 4⟩]
    (show IsNewest [⟨1, 3⟩, ⟨2, 4⟩] ⟨2, 4⟩ by decide) modeStart _ fun ch => ?_).1.mpr ?_⟩
  · rw [hdelivered]
    simp only [List.mem_cons, List.not_mem_nil, or_false]
    tauto
  · rw [LastMode, hdelivered]
    decide

theorem daemons_disagree :
    delivered modeConfig [changeBy 1 3, changeBy 2 4] = [⟨1, 3⟩, ⟨2, 4⟩] ∧
      delivered modeConfig [changeBy 2 4, changeBy 1 3] = [⟨2, 4⟩, ⟨1, 3⟩] ∧
      (run (receive modeConfig) modeStart [changeBy 1 3, changeBy 2 4]).currentReplicationMode = 2 ∧
      (run (receive modeConfig) modeStart [changeBy 2 4, changeBy 1 3]).currentReplicationMode = 1 := by
  decide +kernel

def pushOfThree : Connection :=
  ⟨true, 5, [], ⟨pushNewReplicationMode modeConfig.padded 3 5, fun _ => []⟩, []⟩

theorem push_of_three_refused : ∃ e, onConnection modeConfig modeStart pushOfThree = (.error e, modeStart) :=
  pushed_bytes_refused modeConfig rfl 3 5 modeStart true 5 []

theorem push_of_three_lost :
    onConnection modeConfig modeStart pushOfThree =
      (.error (.wrap "failed to parse timestamp: %v: %w" [] (.sys .ebadmsg)), modeStart) ∧
      modeStart.currentReplicationMode ≠ 3 := by
  decide +kernel

end Runs

end Momo.ReplicationMode

import Momo.P2P.Gossip
import Momo.P2P.ScatterGather
import Momo.Schemes.Framing

/-! @momo src/p2p/types.go | scheme:length-prefixed frames

    Messages on a connection, one frame after the other, and the payloads of heartbeats, query answers
    and OPRF answers inside them. The frame's limit is five bytes tighter than the payload's, and
    addresses and error texts have lengths of two bytes. -/

namespace Momo.Gossip

structure OPRFEvalResponsePayload where
  requestID : ℕ
  shareIndex : UInt8
  error : Bytes
  eval : Bytes
  deriving DecidableEq

def OPRFEvalResponsePayload.encode (o : OPRFEvalResponsePayload) : Bytes :=
  bePut 8 o.requestID ++ (o.shareIndex :: (bePut 2 o.error.length ++
    (o.error ++ (bePut 4 o.eval.length ++ o.eval))))

def decodeOPRFEvalResponsePayload (data : Bytes) : Except Err OPRFEvalResponsePayload :=
  if maxPayloadSize < data.length then
    .error (.text "oprf response payload too large: %d (errno=%d)" [.num data.length, .num 27])
  else if data.length < 11 then
    .error (.wrap "oprf response payload too short: %w" [] (.sys .ebadmsg))
  else
    let errLen := beGet ((data.drop 9).take 2)
    if data.length < 11 + errLen + 4 then
      .error (.wrap "truncated oprf response error: %w" [] (.sys .ebadmsg))
    else
      let off := 11 + errLen
      let evalLen := beGet ((data.drop off).take 4)
      if data.length < off + 4 + evalLen then
        .error (.wrap "truncated oprf response eval: %w" [] (.sys .ebadmsg))
      else
        .ok { requestID := beGet (data.take 8), shareIndex := (data.drop 8).headD 0
              error := (data.drop 11).take errLen, eval := (data.drop (off + 4)).take evalLen }

inductive Content
  | heartbeat (peers : List PeerInfo)
  | queryResponse (r : QueryResponsePayload)
  | oprfResponse (o : OPRFEvalResponsePayload)
  deriving DecidableEq

namespace Content

def type : Content → MessageType
  | heartbeat _ => .heartbeat
  | queryResponse _ => .queryResponse
  | oprfResponse _ => .oprfEvalResponse

def encode : Content → Bytes
  | heartbeat peers => encodeHeartbeat peers
  | queryResponse r => r.encode
  | oprfResponse o => o.encode

/-- Ids are `int32` values, request numbers `uint64` values. -/
def Words : Content → Prop
  | heartbeat peers => ∀ p ∈ peers, int32 p.id = p.id
  | queryResponse r => r.requestID < 2 ^ 64
  | oprfResponse o => o.requestID < 2 ^ 64

def Short : Content → Prop
  | heartbeat peers => ∀ p ∈ peers, p.addr.length < 2 ^ 16
  | queryResponse r => r.error.length < 2 ^ 16
  | oprfResponse o => o.error.length < 2 ^ 16

instance (c : Content) : Decidable c.Words := by cases c <;> unfold Words <;> infer_instance

instance (c : Content) : Decidable c.Short := by cases c <;> unfold Short <;> infer_instance

theorem type_named (c : Content) : c.type ∈ MessageType.named := by
  cases c <;> simp [type, MessageType.named]

end Content

def decodeContent (r : RPC) : Except Err Content :=
  match r.type with
  | .heartbeat => (decodeHeartbeatPayload r.payload).map .heartbeat
  | .queryResponse => (decodeQueryResponsePayload r.payload).map .queryResponse
  | .oprfEvalResponse => (decodeOPRFEvalResponsePayload r.payload).map .oprfResponse
  | _ => .error (.sys .einval)

def Content.rpc (sender : Int) (c : Content) : RPC := ⟨sender, c.type, c.encode⟩

/-- Read `n` RPCs off a stream, each with its payload. -/
def readMessages : ℕ → Bytes → Except Err (List (RPC × Content))
  | 0, _ => .ok []
  | n + 1, stream =>
    match decodeRPC stream with
    | .error e => .error e
    | .ok (r, rest) =>
      match decodeContent r with
      | .error e => .error e
      | .ok c => (readMessages n rest).map ((r, c) :: ·)

/-! ### Payloads -/

theorem drop_past {a b : Bytes} {n : ℕ} (h : a.length = n) (m : ℕ) : (a ++ b).drop (n + m) = b.drop m := by
  rw [← List.drop_drop, List.drop_left' h]

theorem beGet_short {b : Bytes} {w : ℕ} (h : b.length ≤ w) : beGet b < 256 ^ w :=
  (beGet_lt b).trans_le (Nat.pow_le_pow_right (by decide) h)

def encodePeer (p : PeerInfo) : Bytes :=
  bePut 4 (p.id % 2 ^ 32).toNat ++ (bePut 2 p.addr.length ++ p.addr)

theorem encodeHeartbeat_eq (peers : List PeerInfo) :
    encodeHeartbeat peers = bePut 4 peers.length ++ peers.flatMap encodePeer := rfl

theorem decodePeers_encode {peers : List PeerInfo} (hw : ∀ p ∈ peers, int32 p.id = p.id)
    (hs : ∀ p ∈ peers, p.addr.length < 2 ^ 16) (i : ℕ) :
    decodePeers i peers.length (peers.flatMap encodePeer) = .ok peers := by
  induction peers generalizing i with
  | nil => rfl
  | cons p peers ih =>
    obtain ⟨hid, hids⟩ := List.forall_mem_cons.mp hw
    obtain ⟨haddr, haddrs⟩ := List.forall_mem_cons.mp hs
    have hlen : beGet (bePut 2 p.addr.length) = p.addr.length := by
      rw [beGet_bePut]
      exact Nat.mod_eq_of_lt haddr
    have h4 : ∀ n, (bePut 4 n).length = 4 := length_bePut 4
    have h2 : ∀ n, (bePut 2 n).length = 2 := length_bePut 2
    simp only [List.flatMap_cons, encodePeer, List.append_assoc, List.length_cons, decodePeers,
      List.drop_left' (h4 _), List.take_left' (h4 _), List.take_left' (h2 _), hlen, int32_bePut hid]
    rw [if_neg (by simp; omega), if_neg (by simp; omega), show 6 + p.addr.length = 4 + (2 + p.addr.length) by omega,
      drop_past (h4 _), drop_past (h2 _), List.drop_left' rfl, ih hids haddrs,
      show (6 : ℕ) = 4 + 2 from rfl, drop_past (h4 _), List.drop_left' (h2 _), List.take_left' rfl]
    rfl

theorem decodePeers_short {count i : ℕ} {data : Bytes} {peers : List PeerInfo}
    (h : decodePeers i count data = .ok peers) : ∀ p ∈ peers, p.addr.length < 2 ^ 16 := by
  induction count generalizing i data peers with
  | zero => cases h; exact nofun
  | succ count ih =>
    simp only [decodePeers] at h
    split_ifs at h
    cases hrest : decodePeers (i + 1) count (data.drop (6 + beGet ((data.drop 4).take 2))) with
    | error e => rw [hrest] at h; cases h
    | ok rest =>
      rw [hrest] at h
      cases h
      exact List.forall_mem_cons.mpr
        ⟨(List.length_take_le ..).trans_lt (beGet_short (List.length_take_le ..)), ih hrest⟩

namespace Content

theorem heartbeat_iff {peers : List PeerInfo} (hw : ∀ p ∈ peers, int32 p.id = p.id)
    (hlen : (encodeHeartbeat peers).length ≤ maxPayloadSize) :
    decodeHeartbeatPayload (encodeHeartbeat peers) = .ok peers ↔ ∀ p ∈ peers, p.addr.length < 2 ^ 16 := by
  have hpeers : 6 * peers.length ≤ (peers.flatMap encodePeer).length :=
    Framing.le_length_flatMap (fun p => by simp [encodePeer]; omega) peers
  have h4 : (bePut 4 peers.length).length = 4 := length_bePut 4 _
  have hall : (encodeHeartbeat peers).length = 4 + (peers.flatMap encodePeer).length := by
    rw [encodeHeartbeat_eq, List.length_append, h4]
  have hcount : beGet (bePut 4 peers.length) = peers.length := by
    rw [beGet_bePut]
    exact Nat.mod_eq_of_lt (by rw [maxPayloadSize] at hlen; omega)
  have hbody : decodeHeartbeatPayload (encodeHeartbeat peers) =
      decodePeers 0 peers.length (peers.flatMap encodePeer) := by
    rw [decodeHeartbeatPayload, if_neg (by omega), if_neg (by omega)]
    simp only [encodeHeartbeat_eq, List.take_left' h4, List.drop_left' h4, hcount]
    exact if_neg (by rw [List.length_append, h4]; omega)
  rw [hbody]
  exact ⟨decodePeers_short, fun hs => decodePeers_encode hw hs 0⟩

theorem queryResponse_iff {r : QueryResponsePayload} (hw : r.requestID < 2 ^ 64)
    (hlen : r.encode.length ≤ maxPayloadSize) :
    decodeQueryResponsePayload r.encode = .ok r ↔ r.error.length < 2 ^ 16 := by
  constructor
  · intro h
    have herr := congrArg (fun q => q.error.length) (r.decode_encode hw h)
    simp only [List.length_take] at herr
    omega
  · intro hs
    have hall := r.length_encode
    have h8 : ∀ n, (bePut 8 n).length = 8 := length_bePut 8
    have h4 : ∀ n, (bePut 4 n).length = 4 := length_bePut 4
    have hdata : beGet ((r.encode.drop 8).take 4) = r.data.length := by
      rw [QueryResponsePayload.encode, List.drop_left' (h8 _), List.take_left' (h4 _), beGet_bePut]
      exact Nat.mod_eq_of_lt (by rw [maxPayloadSize] at hlen; omega)
    have herr : beGet ((r.encode.drop (12 + r.data.length)).take 2) = r.error.length := by
      rw [QueryResponsePayload.encode, show 12 + r.data.length = 8 + (4 + r.data.length) by omega,
        drop_past (h8 _), drop_past (h4 _), List.drop_left' rfl, List.take_left' (length_bePut 2 _), beGet_bePut]
      exact Nat.mod_eq_of_lt hs
    cases hdec : decodeQueryResponsePayload r.encode with
    | ok p =>
      rw [r.decode_encode hw hdec, Nat.mod_eq_of_lt (show _ < 65536 from hs), List.take_length]
    | error e =>
      simp only [decodeQueryResponsePayload, hdata, herr] at hdec
      rw [if_neg (by omega), if_neg (by omega), if_neg (by omega), if_neg (by omega)] at hdec
      cases hdec

theorem oprfResponse_iff {o : OPRFEvalResponsePayload} (hw : o.requestID < 2 ^ 64)
    (hlen : o.encode.length ≤ maxPayloadSize) :
    decodeOPRFEvalResponsePayload o.encode = .ok o ↔ o.error.length < 2 ^ 16 := by
  have h8 : (bePut 8 o.requestID).length = 8 := length_bePut 8 _
  have hall : o.encode.length = 15 + o.error.length + o.eval.length := by
    simp [OPRFEvalResponsePayload.encode]
    omega
  have h11 : ∀ m, o.encode.drop (11 + m) = (o.error ++ (bePut 4 o.eval.length ++ o.eval)).drop m := fun m => by
    rw [OPRFEvalResponsePayload.encode, show 11 + m = 8 + (1 + (2 + m)) by omega, drop_past h8, ← List.drop_drop,
      List.drop_one, List.tail_cons, drop_past (length_bePut 2 _)]
  have hlens : beGet ((o.encode.drop 9).take 2) = o.error.length % 2 ^ 16 := by
    rw [OPRFEvalResponsePayload.encode, show 9 = 8 + 1 from rfl, drop_past h8, List.drop_one, List.tail_cons,
      List.take_left' (length_bePut 2 _), beGet_bePut]
    rfl
  constructor
  · intro h
    simp only [decodeOPRFEvalResponsePayload, hlens] at h
    split_ifs at h
    have herr := congrArg (fun q => q.error.length) (Except.ok.inj h)
    simp only [List.length_take] at herr
    omega
  · intro hs
    have hid : beGet (o.encode.take 8) = o.requestID := by
      rw [OPRFEvalResponsePayload.encode, List.take_left' h8, beGet_bePut]
      exact Nat.mod_eq_of_lt (by simpa using hw)
    have hshare : (o.encode.drop 8).headD 0 = o.shareIndex := by
      rw [OPRFEvalResponsePayload.encode, List.drop_left' h8, List.headD_cons]
    have heval : beGet ((o.encode.drop (11 + o.error.length)).take 4) = o.eval.length := by
      rw [h11, List.drop_left' rfl, List.take_left' (length_bePut 4 _), beGet_bePut]
      exact Nat.mod_eq_of_lt (by rw [maxPayloadSize] at hlen; omega)
    have herror := h11 0
    have hrest : o.encode.drop (11 + o.error.length + 4) = o.eval := by
      rw [Nat.add_assoc, h11, drop_past rfl, List.drop_left' (length_bePut 4 _)]
    simp only [decodeOPRFEvalResponsePayload, hlens, Nat.mod_eq_of_lt hs, heval, hid, hshare, hrest]
    rw [if_neg (by omega), if_neg (by omega), if_neg (by omega), if_neg (by omega),
      show (11 : ℕ) = 11 + 0 from rfl, herror, List.drop_zero, List.take_left' rfl, List.take_length]

theorem decodeContent_iff {c : Content} (sender : Int) (hw : c.Words)
    (hlen : c.encode.length ≤ maxPayloadSize) : decodeContent (c.rpc sender) = .ok c ↔ c.Short := by
  have hmap : ∀ {α : Type} (x : Except Err α) (g : α → Content) (a : α), Function.Injective g →
      (x.map g = .ok (g a) ↔ x = .ok a) := by
    intro α x g a hg
    cases x with
    | error e => simp [Except.map]
    | ok y => simp [Except.map, hg.eq_iff]
  cases c with
  | heartbeat peers => exact (hmap _ _ _ fun _ _ h => Content.heartbeat.inj h).trans (heartbeat_iff hw hlen)
  | queryResponse r =>
    exact (hmap _ _ _ fun _ _ h => Content.queryResponse.inj h).trans (queryResponse_iff hw hlen)
  | oprfResponse o =>
    exact (hmap _ _ _ fun _ _ h => Content.oprfResponse.inj h).trans (oprfResponse_iff hw hlen)

end Content

/-! ### Frames -/

theorem decodeRPC_too_long {r : RPC} (hmax : r.payload.length ≤ maxPayloadSize)
    (hlen : 2 ^ 20 < 5 + r.payload.length) (rest : Bytes) : ∃ e, decodeRPC (r.encode ++ rest) = .error e := by
  have h4 : (bePut 4 (5 + r.payload.length)).length = 4 := length_bePut 4 _
  have htotal : beGet ((r.encode ++ rest).take 4) = 5 + r.payload.length := by
    rw [RPC.encode, List.append_assoc, List.take_left' h4, beGet_bePut]
    exact Nat.mod_eq_of_lt (by rw [maxPayloadSize] at hmax; omega)
  refine ⟨.wrap "invalid RPC length %d: %w" [.num (5 + r.payload.length : ℕ)] (.sys .ebadmsg), ?_⟩
  rw [decodeRPC, if_neg (by simp [RPC.encode]), htotal]
  exact if_pos (.inr hlen)

theorem readMessages_too_long {c : Content} (sender : Int) (hmax : c.encode.length ≤ maxPayloadSize)
    (hlen : 2 ^ 20 < 5 + c.encode.length) (n : ℕ) (rest : Bytes) :
    ∃ e, readMessages (n + 1) ((c.rpc sender).encode ++ rest) = .error e := by
  obtain ⟨e, he⟩ := @decodeRPC_too_long (c.rpc sender) hmax hlen rest
  exact ⟨e, by rw [readMessages, he]⟩

/-- CORRECT: a sequence of frames reads back exactly when every payload leaves five bytes of its limit
    free and every address and error text is shorter than 2^16. -/
theorem readMessages_iff {ms : List (Int × Content)} (hw : ∀ m ∈ ms, int32 m.1 = m.1 ∧ m.2.Words ∧
      m.2.encode.length ≤ maxPayloadSize) :
    readMessages ms.length (ms.flatMap fun m => (m.2.rpc m.1).encode) =
        .ok (ms.map fun m => (m.2.rpc m.1, m.2)) ↔
      ∀ m ∈ ms, 5 + m.2.encode.length ≤ 2 ^ 20 ∧ m.2.Short := by
  induction ms with
  | nil => simp [readMessages]
  | cons m ms ih =>
    obtain ⟨⟨hsender, hwords, hmax⟩, hlater⟩ := List.forall_mem_cons.mp hw
    rw [List.flatMap_cons, List.length_cons, List.map_cons, List.forall_mem_cons, ← ih hlater]
    by_cases hlen : 5 + m.2.encode.length ≤ 2 ^ 20
    · have hc := Content.decodeContent_iff m.1 hwords hmax
      have hrpc := @decodeRPC_encode (m.2.rpc m.1) m.2.type_named hsender hlen
      rw [readMessages, hrpc]
      -- a payload that does not read back is an error or another value
      cases hdec : decodeContent (m.2.rpc m.1) with
      | error e =>
        rw [hdec] at hc
        simp only [hdec, ← hc, reduceCtorEq, and_false, false_and]
      | ok c =>
        rw [hdec, Except.ok.injEq] at hc
        simp only [hdec, ← hc]
        cases readMessages ms.length (ms.flatMap fun m => (m.2.rpc m.1).encode) with
        | error e => simp only [Except.map, reduceCtorEq, and_false]
        | ok out =>
          simp only [Except.map, Except.ok.injEq, List.cons.injEq, Prod.mk.injEq, true_and, hlen]
    · obtain ⟨e, he⟩ := readMessages_too_long m.1 hmax (not_le.mp hlen) ms.length
        (ms.flatMap fun m => (m.2.rpc m.1).encode)
      simp only [he, hlen, reduceCtorEq, false_and]

def plainMessages : List (Int × Content) :=
  [(1, .heartbeat [⟨2, [97]⟩, ⟨-3, []⟩]), (2, .queryResponse ⟨7, [1, 2], [101]⟩)]

theorem plain_messages_read : readMessages 2 (plainMessages.flatMap fun m => (m.2.rpc m.1).encode) =
    .ok (plainMessages.map fun m => (m.2.rpc m.1, m.2)) :=
  (@readMessages_iff plainMessages (by decide +kernel)).mpr (by decide +kernel)

def answerOf (data : Bytes) : Content := .queryResponse ⟨7, data, []⟩

theorem answerOf_refused {data : Bytes} (h : data.length = 2 ^ 20 - 14) :
    (answerOf data).encode.length = maxPayloadSize ∧
      ∃ e, readMessages 1 ((answerOf data).rpc 1).encode = .error e := by
  have hlen : (answerOf data).encode.length = maxPayloadSize := by
    rw [answerOf, Content.encode, QueryResponsePayload.length_encode, h]
    rfl
  have hlong := readMessages_too_long 1 hlen.le (by rw [hlen, maxPayloadSize]; decide) 0 []
  rw [List.append_nil] at hlong
  exact ⟨hlen, hlong⟩

theorem full_payload_refused : ∃ data, (answerOf data).encode.length = maxPayloadSize ∧
    ∃ e, readMessages 1 ((answerOf data).rpc 1).encode = .error e :=
  ⟨_, answerOf_refused (List.length_replicate (a := 0))⟩

end Momo.Gossip

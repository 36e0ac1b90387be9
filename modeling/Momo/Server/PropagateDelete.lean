import Momo.P2P.ScatterGather
import Momo.Schemes.Run

/-! @momo src/server/p2p_adapters.go, src/p2p/scatter_gather.go | scheme:gathering over a lossy network

    A delete is told to the other nodes by one `Query`, and counts as done if no answer that came in
    time is an error. The network keeps every message that was sent: a message is delivered whenever
    and as often as an event says so. -/

namespace Momo

variable {ν : Type} [DecidableEq ν]

/-- `PropagateDelete` over what `Query` returned; nothing if there is no scatter-gather. -/
def propagateDelete : Option (List QueryResponsePayload × Nat) → Except Err Unit
  | none => .ok ()
  | some (results, count) =>
    if count = 0 then
      .error (.text "propagate delete: no peers responded (errno=%d)" [.num 113])
    else
      let successes := results.countP fun r => r.error = []
      let firstErr := ((results.find? fun r => r.error ≠ []).map (·.error)).getD []
      if 0 < (count : Int) - successes then
        .error (.text "propagate delete: %d/%d peers failed to delete (error: %s) (errno=%d)"
          [.num (count - successes), .num count, .str firstErr, .num 5])
      else .ok ()

theorem propagateDelete_ok_iff {results : List QueryResponsePayload} :
    propagateDelete (some (results, results.length)) = .ok () ↔
      results ≠ [] ∧ ∀ r ∈ results, r.error = [] := by
  have hle := List.countP_le_length (p := fun r : QueryResponsePayload => r.error = []) (l := results)
  have hall := List.countP_eq_length (p := fun r : QueryResponsePayload => r.error = []) (l := results)
  rw [propagateDelete]
  by_cases hnil : results = []
  · simp [hnil]
  · have hlen : results.length ≠ 0 := by simpa using hnil
    rw [if_neg hlen]
    simp only [decide_eq_true_eq] at hall
    simp only [hnil, ne_eq, not_false_eq_true, true_and, ← hall]
    split_ifs with hfail
    · simp only [false_iff]
      omega
    · simp only [true_iff]
      omega

namespace Propagation

/-- The caller, the network, and what happened: which questions were answered without an error by
    whom, and which answers went into the caller's channel. -/
structure World (ν : Type) where
  node : ScatterGather ν
  wire : List (QueryRPC ν)
  done : List (ν × QueryPayload) := []
  accepted : List (ν × QueryResponsePayload) := []
  outcome : Option (List QueryResponsePayload) := none

inductive Event (ν : Type)
  | handle (rpc : QueryRPC ν) (answer : Answer)
  | deliver (rpc : QueryRPC ν)
  | collect
  | timeout

/-- The question a `PropagateDelete` asks. -/
def question (sg : ScatterGather ν) (key : Bytes) : QueryPayload := ⟨queryDelete, sg.requestID, key⟩

def start (sg : ScatterGather ν) (counted peers : PeerMap ν) (failed : List ν) (key : Bytes)
    (others : List (QueryRPC ν)) : World ν :=
  let begun := sg.beginQuery counted peers failed queryDelete key
  { node := begun.2.1, wire := others ++ begun.2.2, outcome := begun.1 }

def step (id : Nat) (w : World ν) : Event ν → World ν
  | .handle rpc answer =>
    if rpc ∈ w.wire ∧ rpc.type = .query then
      match handleQuery rpc answer with
      | none => w
      | some (q, reply) =>
        { w with
          wire := w.wire ++ [reply]
          done := match answer with
            | some (.ok _) => w.done ++ [(rpc.receiver, q)]
            | _ => w.done }
    else w
  | .deliver rpc =>
    if rpc ∈ w.wire ∧ rpc.type = .queryResponse ∧ rpc.receiver = w.node.localID then
      let handled := w.node.handleQueryResponse rpc
      { w with
        node := handled.1
        accepted := match handled.2 with
          | some payload => if payload.requestID = id then w.accepted ++ [(rpc.sender, payload)]
              else w.accepted
          | none => w.accepted }
    else w
  | .collect =>
    match w.outcome with
    | some _ => w
    | none => { w with node := (w.node.collect id).2, outcome := (w.node.collect id).1 }
  | .timeout =>
    match w.outcome with
    | some _ => w
    | none => { w with node := (w.node.timeoutQuery id).2, outcome := (w.node.timeoutQuery id).1 }

/-! ### When the answers speak for all -/

def Foreign (id : Nat) (rpc : QueryRPC ν) : Prop :=
  (∀ q ∈ (decodeQueryPayload rpc.payload).toOption, rpc.type = .query → q.requestID ≠ id) ∧
    ∀ r ∈ (decodeQueryResponsePayload rpc.payload).toOption,
      rpc.type = .queryResponse → r.requestID ≠ id

def Truthful : Answer → Prop
  | none => False
  | some (.ok _) => True
  | some (.error text) => text.length % 65536 ≠ 0

instance : ∀ a, Decidable (Truthful a)
  | none => instDecidableFalse
  | some (.ok _) => instDecidableTrue
  | some (.error text) => inferInstanceAs (Decidable (text.length % 65536 ≠ 0))

/-- What an event may be: a node has a handler, and the length of an error it answers with is no
    multiple of 65536; the answers delivered are of counted peers, one of each; the timer does not
    fire on answers that are all without an error. -/
def Reliable (id : Nat) (members : List ν) (w : World ν) : Event ν → Prop
  | .handle rpc answer =>
      ∀ q ∈ (decodeQueryPayload rpc.payload).toOption, q.requestID = id → Truthful answer
  | .deliver rpc => ∀ r ∈ (decodeQueryResponsePayload rpc.payload).toOption, r.requestID = id →
      rpc.sender ∈ members ∧ rpc.sender ∉ w.accepted.map Prod.fst
  | .collect => True
  | .timeout => ∀ g ∈ w.node.pending.get id, g.results = [] ∨ ∃ r ∈ g.results, r.error ≠ []

instance (id : Nat) (rpc : QueryRPC ν) : Decidable (Foreign id rpc) :=
  inferInstanceAs (Decidable ((∀ q ∈ (decodeQueryPayload rpc.payload).toOption, _ → _) ∧
    ∀ r ∈ (decodeQueryResponsePayload rpc.payload).toOption, _ → _))

instance (id : Nat) (members : List ν) (w : World ν) : ∀ e, Decidable (Reliable id members w e)
  | .handle rpc _ => inferInstanceAs (Decidable
      (∀ q ∈ (decodeQueryPayload rpc.payload).toOption, _ → _))
  | .deliver rpc => inferInstanceAs (Decidable
      (∀ r ∈ (decodeQueryResponsePayload rpc.payload).toOption, _ → _ ∧ _))
  | .collect => instDecidableTrue
  | .timeout => inferInstanceAs (Decidable (∀ g ∈ w.node.pending.get id, _ ∨ ∃ r ∈ g.results, _))

/-! ### What holds in every state -/

/-- The call is waiting with the answers it took and those in its channel, or it returned a first part
    of what was accepted. -/
def Progress (id : Nat) (members : List ν) (w : World ν) : Prop :=
  match w.outcome with
  | none => ∃ g, w.node.pending.get id = some g ∧ g.peerCount = members.length ∧
      w.accepted.map Prod.snd = g.results ++ g.chan ∧ g.results.length < g.peerCount
  | some results => results <+: w.accepted.map Prod.snd ∧
      (results.length = members.length ∨ results = [] ∨ ∃ r ∈ results, r.error ≠ [])

/-- The invariant: an answer of this request that is empty of error was sent by a node that did what
    it was asked, and the answers accepted are of different members. -/
structure Inv (q₀ : QueryPayload) (members : List ν) (w : World ν) : Prop where
  asked : ∀ rpc ∈ w.wire, rpc.type = .query → ∀ q, decodeQueryPayload rpc.payload = .ok q →
    q.requestID = q₀.requestID → q = q₀
  answered : ∀ rpc ∈ w.wire, rpc.type = .queryResponse →
    ∀ r, decodeQueryResponsePayload rpc.payload = .ok r → r.requestID = q₀.requestID → r.error = [] →
      (rpc.sender, q₀) ∈ w.done
  accepted : ∀ x ∈ w.accepted, x.1 ∈ members ∧ (x.2.error = [] → (x.1, q₀) ∈ w.done)
  distinct : (w.accepted.map Prod.fst).Nodup
  progress : Progress q₀.requestID members w

variable {q : QueryPayload}

theorem requestID_lt_of_decode {data : Bytes} (h : decodeQueryPayload data = .ok q) :
    q.requestID < 2 ^ 64 := by
  rw [decodeQueryPayload] at h
  split_ifs at h
  cases h
  refine (beGet_lt _).trans_le ?_
  calc 256 ^ ((data.drop 1).take 8).length ≤ 256 ^ 8 :=
        Nat.pow_le_pow_right (by decide) (List.length_take_le ..)
    _ = 2 ^ 64 := by decide

variable {answer : Answer}

theorem answer_eq_nil {r : QueryResponsePayload} (hid : q.requestID < 2 ^ 64)
    (htrue : Truthful answer)
    (h : decodeQueryResponsePayload (answerPayload q answer).encode = .ok r) (herr : r.error = []) :
    ∃ data, answer = some (.ok data) := by
  match answer, htrue with
  | some (.ok data), _ => exact ⟨data, rfl⟩
  | some (.error text), htext =>
    have heq := QueryResponsePayload.decode_encode hid h
    have hnil : text.take (text.length % 65536) = [] := by
      rw [heq] at herr
      exact herr
    rcases List.take_eq_nil_iff.mp hnil with hzero | rfl
    · exact absurd hzero htext
    · exact absurd rfl htext

theorem requestID_of_answer {r : QueryResponsePayload} (hid : q.requestID < 2 ^ 64)
    (h : decodeQueryResponsePayload (answerPayload q answer).encode = .ok r) :
    r.requestID = q.requestID := by
  have hsame : (answerPayload q answer).requestID = q.requestID := by
    match answer with
    | none => rfl
    | some (.ok _) => rfl
    | some (.error _) => rfl
  rw [QueryResponsePayload.decode_encode (by rw [hsame]; exact hid) h]
  exact hsame

omit [DecidableEq ν] in
theorem Inv.start [DecidableEq ν] (sg : ScatterGather ν) (counted peers : PeerMap ν) (failed : List ν)
    (key : Bytes) {others : List (QueryRPC ν)} (hothers : ∀ rpc ∈ others, Foreign sg.requestID rpc) :
    Inv (question sg key) (counted.aliveOthers sg.localID)
      (start sg counted peers failed key others) := by
  have hid : sg.requestID < 2 ^ 64 := Nat.mod_lt _ (by decide)
  -- what the call itself puts on the wire are copies of the question
  have hsent : ∀ rpc ∈ (sg.beginQuery counted peers failed queryDelete key).2.2,
      rpc.type = .query ∧ rpc.payload = (question sg key).encode := by
    intro rpc hrpc
    rw [ScatterGather.beginQuery] at hrpc
    split_ifs at hrpc
    · cases hrpc
    · obtain ⟨p, -, rfl⟩ := List.mem_map.mp hrpc
      exact ⟨rfl, rfl⟩
  constructor
  case asked =>
    intro rpc hrpc htype q hq hqid
    rcases List.mem_append.mp hrpc with hrpc | hrpc
    · exact absurd hqid ((hothers rpc hrpc).1 q (by rw [hq]; rfl) htype)
    · rw [(hsent rpc hrpc).2] at hq
      exact QueryPayload.decode_encode hid hq
  case answered =>
    intro rpc hrpc htype r hr hrid
    rcases List.mem_append.mp hrpc with hrpc | hrpc
    · exact absurd hrid ((hothers rpc hrpc).2 r (by rw [hr]; rfl) htype)
    · rw [(hsent rpc hrpc).1] at htype
      cases htype
  case accepted => exact fun x hx => by cases hx
  case distinct => exact List.nodup_nil
  case progress =>
    rw [Progress, Propagation.start]
    simp only [ScatterGather.beginQuery]
    split_ifs with hzero
    · exact ⟨List.nil_prefix, Or.inr (Or.inl rfl)⟩
    · exact ⟨_, OMap.get_put_self .., rfl, rfl, Nat.pos_of_ne_zero hzero⟩

variable {q₀ : QueryPayload} {members : List ν} {w : World ν}

theorem Inv.handle (h : Inv q₀ members w) {rpc : QueryRPC ν}
    (hok : Reliable q₀.requestID members w (.handle rpc answer)) :
    Inv q₀ members (step q₀.requestID w (.handle rpc answer)) := by
  rw [step]
  split_ifs with hwire
  · rw [handleQuery]
    cases hq : decodeQueryPayload rpc.payload with
    | error err => exact h
    | ok q =>
      have hid := requestID_lt_of_decode hq
      set done' := (match answer with
        | some (.ok _) => w.done ++ [(rpc.receiver, q)]
        | _ => w.done) with hdone'
      have hkeep : ∀ x ∈ w.done, x ∈ done' := by
        intro x hx
        rw [hdone']
        split
        · exact List.mem_append_left _ hx
        · exact hx
      constructor
      case asked =>
        intro rpc' hrpc' htype
        rcases List.mem_append.mp hrpc' with hrpc' | hrpc'
        · exact h.asked rpc' hrpc' htype
        · rw [List.mem_singleton.mp hrpc'] at htype
          cases htype
      case answered =>
        intro rpc' hrpc' htype r hr hrid herr
        rcases List.mem_append.mp hrpc' with hrpc' | hrpc'
        · exact hkeep _ (h.answered rpc' hrpc' htype r hr hrid herr)
        · obtain rfl := List.mem_singleton.mp hrpc'
          have hqid : q.requestID = q₀.requestID := (requestID_of_answer hid hr).symm.trans hrid
          obtain ⟨data, rfl⟩ := answer_eq_nil hid (hok q (by rw [hq]; rfl) hqid) hr herr
          rw [← h.asked rpc hwire.1 hwire.2 q hq hqid]
          exact List.mem_append_right _ (List.mem_singleton_self _)
      case accepted =>
        intro x hx
        obtain ⟨hmember, hx⟩ := h.accepted x hx
        exact ⟨hmember, fun herr => hkeep _ (hx herr)⟩
      case distinct => exact h.distinct
      case progress => exact h.progress
  · exact h

omit [DecidableEq ν] in
theorem handleQueryResponse_cases (sg : ScatterGather ν) (rpc : QueryRPC ν) :
    sg.handleQueryResponse rpc = (sg, none) ∨
    ∃ payload g, decodeQueryResponsePayload rpc.payload = .ok payload ∧
      sg.pending.get payload.requestID = some g ∧
      sg.handleQueryResponse rpc =
        ({ sg with pending := sg.pending.put payload.requestID { g with chan := g.chan ++ [payload] } },
          some payload) := by
  rw [ScatterGather.handleQueryResponse]
  cases hdecode : decodeQueryResponsePayload rpc.payload with
  | error err => exact Or.inl rfl
  | ok payload =>
    simp only
    cases hget : sg.pending.get payload.requestID with
    | none => exact Or.inl rfl
    | some g =>
      simp only
      split_ifs
      · exact Or.inr ⟨payload, g, rfl, hget, rfl⟩
      · exact Or.inl rfl

theorem Inv.deliver (h : Inv q₀ members w) {rpc : QueryRPC ν}
    (hok : Reliable q₀.requestID members w (.deliver rpc)) :
    Inv q₀ members (step q₀.requestID w (.deliver rpc)) := by
  rw [step]
  split_ifs with hwire
  · rcases handleQueryResponse_cases w.node rpc with hnone | ⟨payload, g, hdecode, hget, hsome⟩
    · simp only [hnone]
      exact h
    · simp only [hsome]
      by_cases hid : payload.requestID = q₀.requestID
      · obtain ⟨hmember, hnew⟩ := hok payload (by rw [hdecode]; rfl) hid
        rw [if_pos hid]
        constructor
        case asked => exact h.asked
        case answered => exact h.answered
        case accepted =>
          intro x hx
          rcases List.mem_append.mp hx with hx | hx
          · exact h.accepted x hx
          · rw [List.mem_singleton.mp hx]
            exact ⟨hmember, h.answered rpc hwire.1 hwire.2.1 payload hdecode hid⟩
        case distinct =>
          rw [List.map_append]
          exact (List.perm_append_singleton ..).nodup_iff.mpr (List.nodup_cons.mpr ⟨hnew, h.distinct⟩)
        case progress =>
          have hprogress := h.progress
          unfold Progress at hprogress ⊢
          simp only [List.map_append, List.map_cons, List.map_nil]
          cases hout : w.outcome with
          | some results =>
            rw [hout] at hprogress
            exact ⟨hprogress.1.trans (List.prefix_append ..), hprogress.2⟩
          | none =>
            rw [hout] at hprogress
            obtain ⟨g', hg', hcount, hlist, hless⟩ := hprogress
            rw [hid, hg'] at hget
            cases hget
            refine ⟨{ g with chan := g.chan ++ [payload] }, ?_, hcount, ?_, hless⟩
            · rw [hid]
              exact OMap.get_put_self w.node.pending _ _
            · rw [hlist, List.append_assoc]
      · rw [if_neg hid]
        constructor
        case asked => exact h.asked
        case answered => exact h.answered
        case accepted => exact h.accepted
        case distinct => exact h.distinct
        case progress =>
          have hprogress := h.progress
          unfold Progress at hprogress ⊢
          simp only [OMap.get_put_ne w.node.pending _ (Ne.symm hid)]
          exact hprogress
  · exact h

omit [DecidableEq ν] in
/-- Step: the caller's loop goes on, or the call returns. -/
theorem Inv.advance (h : Inv q₀ members w) {node : ScatterGather ν}
    {outcome : Option (List QueryResponsePayload)}
    (hprogress : Progress q₀.requestID members { w with node := node, outcome := outcome }) :
    Inv q₀ members { w with node := node, outcome := outcome } :=
  ⟨h.asked, h.answered, h.accepted, h.distinct, hprogress⟩

theorem Inv.collect (h : Inv q₀ members w) : Inv q₀ members (step q₀.requestID w .collect) := by
  rw [step]
  cases hout : w.outcome with
  | some results => exact h
  | none =>
    have hprogress := h.progress
    rw [Progress, hout] at hprogress
    obtain ⟨g, hget, hcount, hlist, hless⟩ := hprogress
    refine h.advance ?_
    cases hchan : g.chan with
    | nil =>
      simp only [ScatterGather.collect, hget, hchan, Progress]
      exact ⟨g, rfl, hcount, hlist, hless⟩
    | cons payload rest =>
      rw [hchan] at hlist
      by_cases hmore : g.results.length + 1 < g.peerCount
      · simp only [ScatterGather.collect, hget, hchan, if_pos hmore, Progress]
        refine ⟨_, OMap.get_put_self w.node.pending _ _, hcount, ?_, ?_⟩
        · simp only [hlist, List.append_assoc, List.singleton_append]
        · simpa using hmore
      · simp only [ScatterGather.collect, hget, hchan, if_neg hmore, Progress]
        refine ⟨⟨rest, by simp [hlist]⟩, Or.inl ?_⟩
        rw [List.length_append, List.length_singleton]
        omega

theorem Inv.timeout (h : Inv q₀ members w) (hok : Reliable q₀.requestID members w .timeout) :
    Inv q₀ members (step q₀.requestID w .timeout) := by
  rw [step]
  cases hout : w.outcome with
  | some results => exact h
  | none =>
    have hprogress := h.progress
    rw [Progress, hout] at hprogress
    obtain ⟨g, hget, -, hlist, -⟩ := hprogress
    refine h.advance ?_
    rw [ScatterGather.timeoutQuery, hget]
    exact ⟨⟨g.chan, hlist.symm⟩, Or.inr (hok g hget)⟩

theorem Inv.run {events : List (Event ν)} (h : Inv q₀ members w)
    (hg : Guarded (step q₀.requestID) (Reliable q₀.requestID members) w events) :
    Inv q₀ members (run (step q₀.requestID) w events) := by
  refine run_invariant (Inv q₀ members) (fun w e hw hok => ?_) h hg
  cases e with
  | handle rpc answer => exact hw.handle hok
  | deliver rpc => exact hw.deliver hok
  | collect => exact hw.collect
  | timeout => exact hw.timeout hok

omit [DecidableEq ν] in
theorem mem_of_length_le {l : List ν} (hnodup : l.Nodup) (hsub : ∀ x ∈ l, x ∈ members)
    (hlen : members.length ≤ l.length) {x : ν} (hx : x ∈ members) : x ∈ l :=
  ((hnodup.subperm hsub).perm_of_length_le hlen).mem_iff.mpr hx

/-- CORRECT: if every peer alive at the broadcast was counted and the events are reliable, then a
    `PropagateDelete` that returns without an error was confirmed by each of them: the peer deleted
    the key, and its answer was taken. -/
theorem delete_confirmed_by_all (sg : ScatterGather ν) (counted peers : PeerMap ν) (failed : List ν)
    (key : Bytes) (others : List (QueryRPC ν)) (events : List (Event ν))
    (hothers : ∀ rpc ∈ others, Foreign sg.requestID rpc)
    (hcounted : ∀ p ∈ peers.aliveOthers sg.localID, p ∈ counted.aliveOthers sg.localID)
    (hg : Guarded (step sg.requestID) (Reliable sg.requestID (counted.aliveOthers sg.localID))
      (start sg counted peers failed key others) events)
    {results : List QueryResponsePayload}
    (hout : (run (step sg.requestID) (start sg counted peers failed key others) events).outcome =
      some results)
    (hok : propagateDelete (some (results, results.length)) = .ok ()) :
    ∀ p ∈ peers.aliveOthers sg.localID,
      (p, question sg key) ∈
        (run (step sg.requestID) (start sg counted peers failed key others) events).done ∧
      ∃ r ∈ results, (p, r) ∈
        (run (step sg.requestID) (start sg counted peers failed key others) events).accepted := by
  intro p hp
  have hinv : Inv (question sg key) (counted.aliveOthers sg.localID)
      (Momo.run (step sg.requestID) (start sg counted peers failed key others) events) :=
    (Inv.start sg counted peers failed key hothers).run hg
  set w := Momo.run (step sg.requestID) (start sg counted peers failed key others) events
  obtain ⟨hne, hclean⟩ := propagateDelete_ok_iff.mp hok
  have hprogress := hinv.progress
  rw [Progress, hout] at hprogress
  obtain ⟨hpre, hlen | hnil | ⟨r, hr, herr⟩⟩ := hprogress
  · -- all that was accepted was returned
    have hmembers : ∀ x ∈ w.accepted.map Prod.fst, x ∈ counted.aliveOthers sg.localID := by
      intro x hx
      obtain ⟨y, hy, rfl⟩ := List.mem_map.mp hx
      exact (hinv.accepted y hy).1
    have hle := hpre.length_le
    rw [List.length_map] at hle
    have hup := (hinv.distinct.subperm hmembers).length_le
    rw [List.length_map] at hup
    have hall : results = w.accepted.map Prod.snd :=
      hpre.eq_of_length (by rw [List.length_map]; omega)
    have hmem := mem_of_length_le hinv.distinct hmembers (by rw [List.length_map]; omega)
      (hcounted p hp)
    obtain ⟨⟨p', r⟩, hpr, rfl⟩ := List.mem_map.mp hmem
    have hr : r ∈ results := hall ▸ List.mem_map_of_mem hpr
    exact ⟨(hinv.accepted _ hpr).2 (hclean r hr), r, hr, hpr⟩
  · exact absurd hnil hne
  · exact absurd (hclean r hr) herr

/-! ### Two peers -/

section Runs

def twoPeers : PeerMap ℕ := ⟨[⟨1, true⟩, ⟨2, true⟩], by decide⟩

def caller : ScatterGather ℕ := { localID := 0 }

def asks (peer : ℕ) : QueryRPC ℕ := ⟨0, peer, .query, (question caller [107]).encode⟩

def confirms (peer : ℕ) : QueryRPC ℕ :=
  ⟨peer, 0, .queryResponse, (answerPayload (question caller [107]) (some (.ok [1]))).encode⟩

def after (events : List (Event ℕ)) : World ℕ :=
  run (step caller.requestID) (start caller twoPeers twoPeers [] [107] []) events

def bothAnswer : List (Event ℕ) :=
  [.handle (asks 1) (some (.ok [1])), .handle (asks 2) (some (.ok [1])), .deliver (confirms 2),
   .deliver (confirms 1), .collect, .collect]

/-- Only peer 1 gets the question; its answer is delivered once before the timer fires, or twice. -/
def oneAnswers : List (Event ℕ) :=
  [.handle (asks 1) (some (.ok [1])), .deliver (confirms 1), .collect, .timeout]

def oneAnswersTwice : List (Event ℕ) :=
  [.handle (asks 1) (some (.ok [1])), .deliver (confirms 1), .deliver (confirms 1), .collect, .collect]

/-- `PropagateDelete` returns without an error after the events. -/
def ReturnsNil (events : List (Event ℕ)) : Prop :=
  ∃ results ∈ (after events).outcome, propagateDelete (some (results, results.length)) = .ok ()

instance (events : List (Event ℕ)) : Decidable (ReturnsNil events) :=
  inferInstanceAs (Decidable (∃ results ∈ (after events).outcome, _))

theorem delete_confirmed_by_two :
    ReturnsNil bothAnswer ∧ (1, question caller [107]) ∈ (after bothAnswer).done ∧
      (2, question caller [107]) ∈ (after bothAnswer).done :=
  have hout : (after bothAnswer).outcome =
      some (List.replicate 2 ⟨1, [1], []⟩) := by decide +kernel
  have h := delete_confirmed_by_all caller twoPeers twoPeers [] [107] [] bothAnswer (by simp)
    (fun _ h => h) (by decide +kernel) hout (by decide +kernel)
  ⟨by decide +kernel, (h 1 (by decide +kernel)).1, (h 2 (by decide +kernel)).1⟩

/-- A peer that never got the question is not missed: neither when the timer fires on the other peer's
    answer, nor when that answer comes twice. -/
theorem silent_peer_not_missed :
    2 ∈ twoPeers.aliveOthers 0 ∧
    (ReturnsNil oneAnswers ∧ (2, question caller [107]) ∉ (after oneAnswers).done) ∧
    ReturnsNil oneAnswersTwice ∧ (2, question caller [107]) ∉ (after oneAnswersTwice).done :=
  ⟨by decide +kernel, ⟨by decide +kernel, by decide +kernel⟩, by decide +kernel, by decide +kernel⟩

end Runs

end Propagation

end Momo

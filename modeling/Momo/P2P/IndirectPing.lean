import Momo.Schemes.Run
import Momo.P2P.Gossip

/-! @momo src/p2p/gossip.go | scheme:runs of a node's goroutines

    A node that is asked to ping another one. Three goroutines of the node share the pending pings:
    the transport's readers fill `rpcCh`, the consumer loop (`Run`) handles one message after the
    other, the ping loop probes peers of its own. -/

namespace Momo.Gossip

/-! ### Steps of the goroutines -/

/-- What the reader, the consumer loop, the ping loop and the other goroutines do next. -/
inductive Op
  | receive (rpc : RPC)
  | take (down : List Int)
  | wake (down : List Int)
  | expire
  | abandon
  | quit
  | tick (d : ℕ)
  | close
  | ping (down : List Int) (target : Int)
  | pingAcked
  | pingExpired (down : List Int) (helpers : List Int)
  | pingAbandon
  | changePeers (peers : Int → Option Peer)

namespace Gossiper

def drawPingID (g : Gossiper) : ℕ :=
  ((g.localID % 2 ^ 64).toNat * 2 ^ 32 + (g.nextPingID + 1) % 2 ^ 64 % 2 ^ 32) % 2 ^ 64

def openPing (g : Gossiper) : Gossiper :=
  ({ g with nextPingID := (g.nextPingID + 1) % 2 ^ 64 } : Gossiper).addPing g.drawPingID

def sendPing (g : Gossiper) (down : List Int) (target : Int) : Gossiper :=
  let payload : PingPayload := ⟨g.drawPingID, target, g.now⟩
  match g.openPing.send down target ⟨g.localID, .ping, payload.encode⟩ with
  | .error _ => g.openPing.removePendingPing payload.pingID
  | .ok g' => { g' with pinger := .direct payload g.made (g.now + g.pingTimeout) }

def endPing (g : Gossiper) (payload : PingPayload) : Gossiper :=
  { g.removePendingPing payload.pingID with pinger := .idle }

def sendIndirectPing (g : Gossiper) (down : List Int) (helpers : List Int) (payload : PingPayload) :
    Gossiper :=
  (helpers.filter (· ≠ payload.targetID)).foldl
    (fun g helper => g.trySend down helper ⟨g.localID, .indirectPing, payload.encode⟩) g

def expirePing (g : Gossiper) (down : List Int) (helpers : List Int) : Gossiper :=
  match g.pinger with
  | .idle => g
  | .direct payload ackCh deadline =>
    if g.now < deadline then g
    else if ∀ helper ∈ helpers, helper = payload.targetID ∨ helper ∈ down then
      (g.markSuspectIfAlive payload.targetID).endPing payload
    else
      { g.sendIndirectPing down helpers payload with
        pinger := .indirect payload ackCh (g.now + g.pingTimeout) }
  | .indirect payload _ deadline =>
    if g.now < deadline then g else (g.markSuspectIfAlive payload.targetID).endPing payload

def ackPing (g : Gossiper) : Gossiper :=
  match g.pinger with
  | .idle => g
  | .direct payload ackCh _ | .indirect payload ackCh _ =>
    if g.ackChs ackCh then (g.drain ackCh).endPing payload else g

def abandonPing (g : Gossiper) : Gossiper :=
  match g.pinger with
  | .idle => g
  | .direct payload _ _ | .indirect payload _ _ => if g.closed then g.endPing payload else g

/-- `handleIndirectPing` behind its select. -/
def endWait (g : Gossiper) (w : Wait) (e : Event) : Gossiper :=
  { (g.record e).removePendingPing w.payload.pingID with loop := .ready }

def forward (g : Gossiper) (down : List Int) (w : Wait) : Gossiper :=
  ((g.drain w.ackCh).trySend down w.requester ⟨g.localID, .ack, w.payload.encode⟩).endWait w
    (.forwarded w)

def step (g : Gossiper) : Op → Gossiper
  | .receive rpc => if g.rpcCh.length < 256 then { g with rpcCh := g.rpcCh ++ [rpc] } else g
  | .take down =>
    match g.loop, g.rpcCh with
    | .ready, rpc :: rest => ({ g with rpcCh := rest } : Gossiper).handleRPC down rpc
    | _, _ => g
  | .wake down =>
    match g.loop with
    | .waiting w => if g.ackChs w.ackCh then g.forward down w else g
    | _ => g
  | .expire =>
    match g.loop with
    | .waiting w => if g.now < w.deadline then g else g.endWait w (.timedOut w)
    | _ => g
  | .abandon =>
    match g.loop with
    | .waiting w => if g.closed then g.endWait w (.abandoned w) else g
    | _ => g
  | .quit => if g.closed ∧ g.loop = .ready then { g with loop := .stopped } else g
  | .tick d => { g with now := g.now + d }
  | .close => { g with closed := true }
  | .ping down target => if g.pinger = .idle then g.sendPing down target else g
  | .pingAcked => g.ackPing
  | .pingExpired down helpers => g.expirePing down helpers
  | .pingAbandon => g.abandonPing
  | .changePeers peers => { g with peers := peers }

end Gossiper

/-! ### What no handler does -/

def metadataTypes : List MessageType :=
  [.putMetadata, .putMetadataResponse, .resolveMetadata, .resolveMetadataResponse,
    .replicateMetadata, .replicateMetadataResponse]

/-- An event other than an ack passed on or a metadata message of any other type handed over. -/
def Event.Plain : Event → Prop
  | .forwarded _ => False
  | .handed .metadataRPC rpc => rpc.type ∈ metadataTypes
  | _ => True

/-- From `g` to `g'` the loop has not moved, its channels were only emptied, and what happened was
    plain. -/
structure Calm (g g' : Gossiper) : Prop where
  loop : g'.loop = g.loop
  chans : ∀ n, g.ackChs n = false → g'.ackChs n = false
  log : ∃ es, g'.log = g.log ++ es ∧ ∀ e ∈ es, e.Plain

namespace Calm

variable {g g' g'' : Gossiper}

theorem of_eq (hloop : g'.loop = g.loop) (hchans : g'.ackChs = g.ackChs) (hlog : g'.log = g.log) :
    Calm g g' :=
  ⟨hloop, fun _ hn => hchans ▸ hn, [], by simp [hlog]⟩

theorem refl (g : Gossiper) : Calm g g := of_eq rfl rfl rfl

theorem trans (h : Calm g g') (h' : Calm g' g'') : Calm g g'' := by
  obtain ⟨es, hes, hplain⟩ := h.log
  obtain ⟨es', hes', hplain'⟩ := h'.log
  refine ⟨h'.loop.trans h.loop, fun n hn => h'.chans n (h.chans n hn), es ++ es', ?_, fun e he => ?_⟩
  · rw [hes', hes, List.append_assoc]
  · exact (List.mem_append.mp he).elim (hplain e) (hplain' e)

theorem forwarded (h : Calm g g') {w : Wait} (hw : Event.forwarded w ∈ g'.log) :
    Event.forwarded w ∈ g.log := by
  obtain ⟨es, hes, hplain⟩ := h.log
  rw [hes] at hw
  exact (List.mem_append.mp hw).elim id fun he => (hplain _ he).elim

theorem foldl {α : Type} {f : Gossiper → α → Gossiper} (h : ∀ g a, Calm g (f g a)) (xs : List α)
    (g : Gossiper) : Calm g (xs.foldl f g) := by
  induction xs generalizing g with
  | nil => exact refl g
  | cons x xs ih => exact (h g x).trans (ih (f g x))

theorem record (g : Gossiper) {e : Event} (he : e.Plain) : Calm g (g.record e) :=
  ⟨rfl, fun _ h => h, [e], rfl, by simpa using he⟩

theorem send {down : List Int} {receiver : Int} {rpc : RPC}
    (h : g.send down receiver rpc = .ok g') : Calm g g' := by
  rw [Gossiper.send] at h
  split_ifs at h
  cases h
  exact record g trivial

theorem trySend (g : Gossiper) (down : List Int) (receiver : Int) (rpc : RPC) :
    Calm g (g.trySend down receiver rpc) := by
  rw [Gossiper.trySend]
  split
  · exact send ‹_›
  · exact refl g

theorem revive (g : Gossiper) (id : Int) : Calm g (g.revive id) := by
  rw [Gossiper.revive]
  split <;> exact of_eq rfl rfl rfl

theorem markSuspectIfAlive (g : Gossiper) (id : Int) : Calm g (g.markSuspectIfAlive id) := by
  rw [Gossiper.markSuspectIfAlive]
  split
  · exact refl g
  · split_ifs <;> exact of_eq rfl rfl rfl

theorem discover (g : Gossiper) (info : PeerInfo) : Calm g (g.discover info) := by
  rw [Gossiper.discover]
  split_ifs
  · exact refl g
  · split
    · exact refl g
    · have hjoined : Calm g (g.record (.joined info.id)) := record g trivial
      exact hjoined.trans (of_eq rfl rfl rfl)

theorem addPing (g : Gossiper) (pingID : ℕ) : Calm g (g.addPing pingID) := by
  refine ⟨rfl, fun n hn => ?_, (refl g).log⟩
  by_cases h : n = g.made
  · subst h
    exact Function.update_self ..
  · exact (Function.update_of_ne h ..).trans hn

theorem drain (g : Gossiper) (ackCh : ℕ) : Calm g (g.drain ackCh) := by
  refine ⟨rfl, fun n hn => ?_, (refl g).log⟩
  by_cases h : n = ackCh
  · subst h
    exact Function.update_self ..
  · exact (Function.update_of_ne h ..).trans hn

theorem endPing (g : Gossiper) (payload : PingPayload) : Calm g (g.endPing payload) :=
  of_eq rfl rfl rfl

theorem openPing (g : Gossiper) : Calm g g.openPing := by
  have hdrawn : Calm g { g with nextPingID := (g.nextPingID + 1) % 2 ^ 64 } := of_eq rfl rfl rfl
  exact hdrawn.trans (addPing _ _)

theorem sendPing (g : Gossiper) (down : List Int) (target : Int) :
    Calm g (g.sendPing down target) := by
  rw [Gossiper.sendPing]
  split
  · exact (openPing g).trans (of_eq rfl rfl rfl)
  · rename_i g' hsend
    have hsent : Calm g g' := (openPing g).trans (send hsend)
    exact hsent.trans (of_eq rfl rfl rfl)

theorem expirePing (g : Gossiper) (down helpers : List Int) :
    Calm g (g.expirePing down helpers) := by
  have hgive : ∀ payload : PingPayload,
      Calm g ((g.markSuspectIfAlive payload.targetID).endPing payload) :=
    fun payload => (markSuspectIfAlive g _).trans (endPing _ _)
  rw [Gossiper.expirePing]
  split
  · exact refl g
  · split_ifs
    · exact refl g
    · exact hgive _
    · exact (foldl (fun g helper => trySend g ..) _ g).trans (of_eq rfl rfl rfl)
  · split_ifs
    · exact refl g
    · exact hgive _

theorem ackPing (g : Gossiper) : Calm g g.ackPing := by
  rw [Gossiper.ackPing]
  split
  · exact refl g
  all_goals
    split_ifs
    · exact (drain g _).trans (endPing _ _)
    · exact refl g

theorem abandonPing (g : Gossiper) : Calm g g.abandonPing := by
  rw [Gossiper.abandonPing]
  split
  · exact refl g
  all_goals
    split_ifs
    · exact endPing g _
    · exact refl g

end Calm

/-! ### What a step can do -/

/-- The moves of a node: nothing the wait depends on; a loop that was ready fills a channel, starts
    to wait on a new one, or leaves; a loop that waits passes the ack on, or gives up. -/
inductive Moves (g g' : Gossiper) : Prop
  | calm (h : Calm g g')
  | filled (hready : g.loop = .ready) (ackCh : ℕ)
      (h : Calm (g.fill ackCh) g')
  | waits (hready : g.loop = .ready) (w : Wait) (hloop : g'.loop = .waiting w)
      (hempty : g'.ackChs w.ackCh = false) (g₁ : Gossiper) (h : Calm g g₁) (hlog : g'.log = g₁.log)
  | leaves (hready : g.loop = .ready) (hloop : g'.loop = .stopped) (hlog : g'.log = g.log)
  | forwards (w : Wait) (hloop : g.loop = .waiting w) (hfull : g.ackChs w.ackCh = true)
      (g₁ : Gossiper) (h : Calm g g₁) (hlog : g'.log = g₁.log ++ [.forwarded w])
  | givesUp (w : Wait) (hloop : g.loop = .waiting w) (hready : g'.loop = .ready) (e : Event)
      (he : e = .timedOut w ∨ e = .abandoned w) (hlog : g'.log = g.log ++ [e])

variable {g : Gossiper}

theorem Calm.hand {component : Component} {rpc : RPC} (h : (Event.handed component rpc).Plain) :
    Calm g (g.hand component rpc) := by
  rw [Gossiper.hand]
  split_ifs
  · exact Calm.record g h
  · exact Calm.refl g

theorem moves_handleRPC (hready : g.loop = .ready) (down : List Int) (rpc : RPC) :
    Moves g (g.handleRPC down rpc) := by
  rw [Gossiper.handleRPC]
  split
  case h_1 =>
    rw [Gossiper.handleHeartbeat]
    split
    · exact .calm (.refl g)
    · exact .calm ((Calm.foldl Calm.discover _ g).trans (.revive _ _))
  case h_2 =>
    rw [Gossiper.handleMembership]
    split
    · exact .calm (.refl g)
    · exact .calm (Calm.foldl Calm.discover _ g)
  case h_3 =>
    rw [Gossiper.handleSuspect]
    split
    · exact .calm (.refl g)
    · dsimp only
      split
      · exact .calm (.refl g)
      · exact .calm (.markSuspectIfAlive _ _)
  case h_4 =>
    rw [Gossiper.handlePing]
    split
    · exact .calm (.refl g)
    · exact .calm ((Calm.trySend ..).trans (.revive _ _))
  case h_5 =>
    rw [Gossiper.handleAck]
    split
    · exact .calm (.refl g)
    · split
      · exact .calm (.refl g)
      · exact .filled hready _ (.revive _ _)
  case h_6 =>
    rw [Gossiper.handleIndirectPing]
    split
    · exact .calm (.refl g)
    · split
      · exact .calm (.refl g)
      · split
        · exact .calm (.refl g)
        · rename_i g' hsend
          exact .waits hready _ rfl (Function.update_self ..) g' (.send hsend) rfl
  case h_7 =>
    rw [Gossiper.handleLoad]
    split
    · exact .calm (.refl g)
    · split
      · exact .calm (.refl g)
      · exact .calm (.of_eq rfl rfl rfl)
  all_goals first
    | exact .calm (.hand trivial)
    | exact .calm (.hand (by simp [Event.Plain, metadataTypes, *]))
    | exact .calm (.refl g)

theorem moves_step (g : Gossiper) (o : Op) : Moves g (g.step o) := by
  cases o with
  | receive rpc =>
    rw [Gossiper.step]
    split_ifs
    · exact .calm (.of_eq rfl rfl rfl)
    · exact .calm (.refl g)
  | take down =>
    rw [Gossiper.step]
    split
    · rename_i rpc rest hready _
      have htaken : Calm g { g with rpcCh := rest } := .of_eq rfl rfl rfl
      -- the queue plays no part in the moves
      rcases moves_handleRPC (g := { g with rpcCh := rest }) hready down rpc with
        h | ⟨-, ackCh, h⟩ | ⟨-, w, hloop, hempty, g₁, h, hlog⟩ | ⟨-, hloop, hlog⟩ |
          ⟨w, hloop, hfull, -⟩ | ⟨w, hloop, hr, e, he, hlog⟩
      · exact .calm (htaken.trans h)
      · have hfill : Calm (g.fill ackCh) (Gossiper.fill { g with rpcCh := rest } ackCh) :=
          .of_eq rfl rfl rfl
        exact .filled hready ackCh (hfill.trans h)
      · exact .waits hready w hloop hempty g₁ (htaken.trans h) hlog
      · exact .leaves hready hloop hlog
      · exact absurd (hready.symm.trans hloop) (by simp)
      · exact absurd (hready.symm.trans hloop) (by simp)
    · exact .calm (.refl g)
  | wake down =>
    rw [Gossiper.step]
    split
    · rename_i w hloop
      split_ifs with hfull
      · exact .forwards w hloop hfull _ ((Calm.drain g _).trans (.trySend ..)) rfl
      · exact .calm (.refl g)
    · exact .calm (.refl g)
  | expire =>
    rw [Gossiper.step]
    split
    · rename_i w hloop
      split_ifs
      · exact .calm (.refl g)
      · exact .givesUp w hloop rfl _ (Or.inl rfl) rfl
    · exact .calm (.refl g)
  | abandon =>
    rw [Gossiper.step]
    split
    · rename_i w hloop
      split_ifs
      · exact .givesUp w hloop rfl _ (Or.inr rfl) rfl
      · exact .calm (.refl g)
    · exact .calm (.refl g)
  | quit =>
    rw [Gossiper.step]
    split_ifs with h
    · exact .leaves h.2 rfl rfl
    · exact .calm (.refl g)
  | tick d => exact .calm (.of_eq rfl rfl rfl)
  | close => exact .calm (.of_eq rfl rfl rfl)
  | ping down target =>
    rw [Gossiper.step]
    split_ifs
    · exact .calm (.sendPing g down target)
    · exact .calm (.refl g)
  | pingAcked => exact .calm (.ackPing g)
  | pingExpired down helpers => exact .calm (.expirePing g down helpers)
  | pingAbandon => exact .calm (.abandonPing g)
  | changePeers peers => exact .calm (.of_eq rfl rfl rfl)

theorem step_log (g : Gossiper) (o : Op) :
    ∃ es, (g.step o).log = g.log ++ es ∧
      ∀ rpc, Event.handed .metadataRPC rpc ∈ es → rpc.type ∈ metadataTypes := by
  have hplain : ∀ {es : List Event}, (∀ e ∈ es, e.Plain) →
      ∀ rpc, Event.handed .metadataRPC rpc ∈ es → rpc.type ∈ metadataTypes :=
    fun h rpc hrpc => h _ hrpc
  rcases moves_step g o with hc | ⟨-, ackCh, hc⟩ | ⟨-, w, -, -, g₁, hc, hlog⟩ | ⟨-, -, hlog⟩ |
    ⟨w, -, -, g₁, hc, hlog⟩ | ⟨w, -, -, e, he, hlog⟩
  · obtain ⟨es, hes, h⟩ := hc.log
    exact ⟨es, hes, hplain h⟩
  · obtain ⟨es, hes, h⟩ := hc.log
    exact ⟨es, hes, hplain h⟩
  · obtain ⟨es, hes, h⟩ := hc.log
    exact ⟨es, hlog.trans hes, hplain h⟩
  · exact ⟨[], by simp [hlog], by simp⟩
  · obtain ⟨es, hes, h⟩ := hc.log
    refine ⟨es ++ [.forwarded w], by rw [hlog, hes, List.append_assoc], fun rpc hrpc => ?_⟩
    rcases List.mem_append.mp hrpc with hrpc | hrpc
    · exact hplain h rpc hrpc
    · simp at hrpc
  · refine ⟨[e], hlog, fun rpc hrpc => ?_⟩
    rcases he with rfl | rfl <;> simp at hrpc

/-! ### The wait -/

theorem unguarded (g : Gossiper) (ops : List Op) : Guarded Gossiper.step (fun _ _ => True) g ops :=
  guarded_of_forall g fun _ _ => trivial

structure Unanswered (g : Gossiper) : Prop where
  empty : ∀ w, g.loop = .waiting w → g.ackChs w.ackCh = false
  none : ∀ w, Event.forwarded w ∉ g.log

/-- Step: channels are filled by a loop that does not wait, so a wait's own stays empty. -/
theorem Unanswered.step (h : Unanswered g) (o : Op) : Unanswered (g.step o) := by
  have hidle : ∀ {w : Wait} {l : Loop}, l = .ready → l ≠ .waiting w := by
    rintro w l rfl
    simp
  rcases moves_step g o with hc | ⟨hready, ackCh, hc⟩ | ⟨hready, w, hloop, hempty, g₁, hc, hlog⟩ |
    ⟨hready, hloop, hlog⟩ | ⟨w, hloop, hfull, -⟩ | ⟨w, hloop, hready, e, he, hlog⟩
  · exact ⟨fun w hw => hc.chans _ (h.empty w (hc.loop ▸ hw)), fun w hw => h.none w (hc.forwarded hw)⟩
  · exact ⟨fun w hw => absurd (hc.loop.symm.trans hw) (hidle hready),
      fun w hw => h.none w (hc.forwarded hw)⟩
  · refine ⟨fun w' hw' => ?_, fun w' hw' => h.none w' (hc.forwarded (hlog ▸ hw'))⟩
    rw [hloop] at hw'
    cases hw'
    exact hempty
  · exact ⟨fun w hw => absurd (hloop.symm.trans hw) (by simp), fun w hw => h.none w (hlog ▸ hw)⟩
  · -- the channel of a wait is not full
    exact absurd (h.empty w hloop) (by simp [hfull])
  · refine ⟨fun w' hw' => absurd hw' (hidle hready), fun w' hw' => ?_⟩
    rw [hlog] at hw'
    rcases List.mem_append.mp hw' with hw' | hw'
    · exact h.none w' hw'
    · rcases he with rfl | rfl <;> simp at hw'

theorem Unanswered.run (h : Unanswered g) (ops : List Op) :
    Unanswered (Momo.run Gossiper.step g ops) :=
  run_invariant Unanswered (fun _ o hg _ => hg.step o) h (unguarded g ops)

/-! ### The promise of an indirect ping -/

/-- The target has answered: the loop is in the wait, its time is not over, and the ack of the
    target under the ping's id stands in the receive queue. -/
def Gossiper.Answered (g : Gossiper) (w : Wait) : Prop :=
  g.loop = .waiting w ∧ g.now < w.deadline ∧ ∃ rpc ∈ g.rpcCh, rpc.type = .ack ∧
    rpc.sender = w.payload.targetID ∧
      (decodePingPayload rpc.payload).map PingPayload.pingID = .ok w.payload.pingID

def Gossiper.Forwarded (g : Gossiper) (w : Wait) : Prop :=
  Event.forwarded w ∈ g.log ∧ Event.timedOut w ∉ g.log

instance (g : Gossiper) (w : Wait) : Decidable (g.Answered w) :=
  inferInstanceAs (Decidable (_ ∧ _ ∧ ∃ rpc ∈ g.rpcCh, _ ∧ _ ∧ _))

theorem unanswered_start (hready : g.loop = .ready) (hlog : g.log = []) : Unanswered g :=
  ⟨fun w hw => absurd (hready.symm.trans hw) (by simp), by simp [hlog]⟩

/-- CORRECT: a run keeps the promise just when none of its answered indirect pings is over. -/
theorem answered_forwarded_iff (g : Gossiper) (hready : g.loop = .ready) (hlog : g.log = [])
    (ops : List Op) :
    (∀ before after w, ops = before ++ after → (run Gossiper.step g before).Answered w →
        (run Gossiper.step g ops).loop ≠ .waiting w → (run Gossiper.step g ops).Forwarded w) ↔
      ∀ before after w, ops = before ++ after → (run Gossiper.step g before).Answered w →
        (run Gossiper.step g ops).loop = .waiting w := by
  constructor
  · intro h before after w hops hanswered
    by_contra hover
    exact ((unanswered_start hready hlog).run ops).none w (h before after w hops hanswered hover).1
  · intro h before after w hops hanswered hover
    exact absurd (h before after w hops hanswered) hover

/-! ### A run -/

def helper : Gossiper where
  localID := 2
  pingTimeout := 500
  peers id := if id = 1 ∨ id = 3 then some { addr := lit "10.0.0.1:9", lastSeen := 0 } else none

def askedAndAnswered : List Op :=
  [.receive ⟨1, .indirectPing, PingPayload.encode ⟨7, 3, 40⟩⟩, .take [],
    .tick 100, .receive ⟨3, .ack, PingPayload.encode ⟨7, 3, 40⟩⟩]

def waitForThree : Wait := ⟨1, ⟨7, 3, 40⟩, 0, 500⟩

theorem waiting_keeps_promise :
    (run Gossiper.step helper askedAndAnswered).loop = .waiting waitForThree ∧
      ∀ before after w, askedAndAnswered = before ++ after →
        (run Gossiper.step helper before).Answered w →
        (run Gossiper.step helper askedAndAnswered).loop ≠ .waiting w →
        (run Gossiper.step helper askedAndAnswered).Forwarded w := by
  have hloops : ∀ ops ∈ askedAndAnswered.inits, (run Gossiper.step helper ops).loop = .ready ∨
      (run Gossiper.step helper ops).loop = .waiting waitForThree := by decide +kernel
  have hend : (run Gossiper.step helper askedAndAnswered).loop = .waiting waitForThree := by
    decide +kernel
  refine ⟨hend, (answered_forwarded_iff helper rfl rfl askedAndAnswered).mpr ?_⟩
  intro before after w hops hanswered
  rcases hloops before ((List.mem_inits _ _).mpr ⟨after, hops.symm⟩) with h | h
  · exact absurd (h.symm.trans hanswered.1) (by simp)
  · rw [hend, ← h, hanswered.1]

/-- The ack has been in the queue for 400 time units when the helper gives up; handled after that,
    it finds no ping. Node 1 gets nothing. -/
theorem answered_ping_timed_out :
    (run Gossiper.step helper askedAndAnswered).Answered waitForThree ∧
      (run Gossiper.step helper
        (askedAndAnswered ++ [.take [], .wake [], .tick 400, .expire, .take []])).log =
        [.sent 3 ⟨2, .ping, PingPayload.encode ⟨7, 3, 40⟩⟩, .timedOut waitForThree] := by
  decide +kernel

end Momo.Gossip

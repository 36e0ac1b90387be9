import Momo.Schemes.Run
import Momo.Transport.Metadata

/-! @momo src/server/rebuild_source.go | scheme:run

    The connections of a daemon's rebuild source. `dialPeer` stores each communicator it dials and
    hands the same one out again; a push closes it when it returns, a fetch when it fails and the
    reader of a fetch when its caller closes it. Nothing takes a closed communicator out of the
    store. Communicators are numbered in the order in which they are dialed. -/

namespace Momo.Rebuild

open Metadata (trimNull)

structure PeerSource where
  daemons : ℕ
  serverID : Int
  transportCache : Int → Option ℕ := fun _ => none
  dialed : ℕ := 0
  closed : List ℕ := []
  readers : Int → Option ℕ := fun _ => none

namespace PeerSource

/-- Without a `dialFn`, on a network where every dial and handshake succeeds. -/
def dialPeer (s : PeerSource) (peer : Int) : Except Err ℕ × PeerSource :=
  if peer < 0 ∨ (s.daemons : Int) ≤ peer then
    (.error (.wrap "peer ID %d out of range: %w" [.num peer] (.sys .einval)), s)
  else if peer = s.serverID then (.error (.wrap "cannot dial self: %w" [] (.sys .einval)), s)
  else match s.transportCache peer with
    | some comm => (.ok comm, s)
    | none => (.ok s.dialed,
        { s with
          transportCache := Function.update s.transportCache peer (some s.dialed)
          dialed := s.dialed + 1 })

def close (s : PeerSource) (comm : ℕ) : PeerSource := { s with closed := comm :: s.closed }

def closedErr : Err := .text "use of closed network connection"

/-- The 65 bytes a survivor answers: a status and the padded size. -/
def fetchAnswer (peer : Int) (response : Bytes) : Except Err Int64 :=
  if response.head? ≠ some 48 then
    .error (.wrap "survivor %d returned error status %q: %w" [.num peer, .str (response.take 1)]
      (.sys .enoent))
  else match safeParseInt (trimNull response.tail) with
    | .error e => .error (.wrap "parse size from survivor %d: %w" [.num peer] e)
    | .ok size => .ok size

/-- A closed communicator fails the first write. -/
def fetch (s : PeerSource) (peer : Int) (response : Bytes) : Except Err ℕ × PeerSource :=
  match s.dialPeer peer with
  | (.error e, s) => (.error (.wrap "dial survivor %d: %w" [.num peer] e), s)
  | (.ok comm, s) =>
    if comm ∈ s.closed then
      (.error (.wrap "write fetch handshake to survivor %d: %w" [.num peer] closedErr), s.close comm)
    else match fetchAnswer peer response with
      | .error e => (.error e, s.close comm)
      | .ok _ => (.ok comm, { s with readers := Function.update s.readers peer (some comm) })

/-- `pushToPeer` and `pushReaderToPeer`: the deferred `Close` runs on every exit. -/
def push (s : PeerSource) (peer : Int) : Except Err Unit × PeerSource :=
  match s.dialPeer peer with
  | (.error e, s) => (.error (.wrap "dial peer %d: %w" [.num peer] e), s)
  | (.ok comm, s) =>
    if comm ∈ s.closed then
      (.error (.wrap "send metadata to peer %d: %w" [.num peer] closedErr), s.close comm)
    else (.ok (), s.close comm)

inductive Call
  | fetch (peer : Int) (response : Bytes)
  | push (peer : Int)
  | closeReader (peer : Int)

def step (s : PeerSource) : Call → PeerSource
  | .fetch peer response => (s.fetch peer response).2
  | .push peer => (s.push peer).2
  | .closeReader peer => ((s.readers peer).map s.close).getD s

/-! ### Who closed a communicator -/

/-- The call closes the connection to `peer` itself. -/
def Call.closes (peer : Int) : Call → Prop
  | .fetch p response => p = peer ∧ (fetchAnswer p response).isOk = false
  | .push p | .closeReader p => p = peer

def Spent (done : List Call) (peer : Int) : Prop := ∃ call ∈ done, call.closes peer

structure Owned (done : List Call) (s : PeerSource) : Prop where
  dialed : ∀ p c, s.transportCache p = some c → c < s.dialed
  unshared : ∀ p q c, s.transportCache p = some c → s.transportCache q = some c → p = q
  reading : ∀ p c, s.readers p = some c → s.transportCache p = some c
  spent : ∀ c ∈ s.closed, ∃ p, s.transportCache p = some c ∧ Spent done p

variable {done : List Call} {s : PeerSource} {peer : Int} {comm : ℕ}

theorem Owned.spent_of_closed (h : Owned done s) (hp : s.transportCache peer = some comm)
    (hc : comm ∈ s.closed) : Spent done peer := by
  obtain ⟨q, hq, hs⟩ := h.spent comm hc
  rwa [h.unshared peer q comm hp hq]

theorem Owned.close (h : Owned done s) (hp : s.transportCache peer = some comm)
    (hs : Spent done peer) : Owned done (s.close comm) where
  dialed := h.dialed
  unshared := h.unshared
  reading := h.reading
  spent c hc := by
    rcases List.mem_cons.mp hc with rfl | hc
    · exact ⟨peer, hp, hs⟩
    · exact h.spent c hc

theorem Owned.dial (h : Owned done s) (hnew : s.transportCache peer = none) :
    Owned done
      { s with
        transportCache := Function.update s.transportCache peer (some s.dialed)
        dialed := s.dialed + 1 } := by
  refine ⟨fun p c hp => ?_, fun p q c hp hq => ?_, fun p c hr => ?_, fun c hcl => ?_⟩
  · have := h.dialed p c
    grind
  · have := h.dialed p c
    have := h.dialed q c
    have := h.unshared p q c
    grind
  · have := h.reading p c
    grind
  · obtain ⟨p, hp, hs⟩ := h.spent c hcl
    exact ⟨p, by grind, hs⟩

theorem Owned.dialPeer (h : Owned done s) (peer : Int) :
    Owned done (s.dialPeer peer).2 ∧ (s.dialPeer peer).2.closed = s.closed ∧
      ∀ comm, (s.dialPeer peer).1 = .ok comm →
        (s.dialPeer peer).2.transportCache peer = some comm := by
  unfold PeerSource.dialPeer
  split_ifs
  · exact ⟨h, rfl, nofun⟩
  · exact ⟨h, rfl, nofun⟩
  cases hc : s.transportCache peer with
  | some comm => exact ⟨h, rfl, fun c hok => by simpa [hc] using hok⟩
  | none => exact ⟨h.dial hc, rfl, fun c hok => by simpa using hok⟩

/-- The invariant over one call: what it closes is the connection of the peer it names. -/
theorem Owned.step (h : Owned done s) (call : Call) : Owned (done ++ [call]) (s.step call) := by
  have h' : Owned (done ++ [call]) s := ⟨h.dialed, h.unshared, h.reading, fun c hc => by
    obtain ⟨p, hp, earlier, hmem, hcloses⟩ := h.spent c hc
    exact ⟨p, hp, earlier, List.mem_append_left _ hmem, hcloses⟩⟩
  have hspent : ∀ p, call.closes p → Spent (done ++ [call]) p := fun _ h => ⟨call, by simp, h⟩
  cases call with
  | fetch peer response =>
    obtain ⟨hd, -, hcache⟩ := h'.dialPeer peer
    simp only [PeerSource.step, fetch]
    split
    case h_1 e s' heq => simpa [heq] using hd
    case h_2 comm s' heq =>
      simp only [heq] at hd hcache
      have hp := hcache comm rfl
      split_ifs with hc
      · exact hd.close hp (hd.spent_of_closed hp hc)
      split
      case h_1 e hacc => exact hd.close hp (hspent peer ⟨rfl, by rw [hacc]; rfl⟩)
      case h_2 =>
        refine ⟨hd.dialed, hd.unshared, fun q c hq => ?_, hd.spent⟩
        grind [Function.update_apply, hd.reading q c]
  | push peer =>
    obtain ⟨hd, -, hcache⟩ := h'.dialPeer peer
    simp only [PeerSource.step, push]
    split
    case h_1 e s' heq => simpa [heq] using hd
    case h_2 comm s' heq =>
      simp only [heq] at hd hcache
      split_ifs <;> exact hd.close (hcache comm rfl) (hspent peer rfl)
  | closeReader peer =>
    simp only [PeerSource.step]
    cases hr : s.readers peer with
    | none => exact h'
    | some comm => exact h'.close (h'.reading peer comm hr) (hspent peer rfl)

def fresh (daemons : ℕ) (serverID : Int) : PeerSource := { daemons, serverID }

theorem owned_run (daemons : ℕ) (serverID : Int) (done : List Call) :
    Owned done (run step (fresh daemons serverID) done) := by
  induction done using List.reverseRecOn with
  | nil => exact ⟨nofun, nofun, nofun, nofun⟩
  | append_singleton done call ih =>
    rw [run_append]
    exact ih.step call

def Call.dials : Call → Option Int
  | .fetch peer _ => some peer
  | .push peer => some peer
  | .closeReader _ => none

/-- Along every sequence of calls that never dials a peer again after a call has closed its
    connection: each dial gives an open communicator, each push succeeds and each fetch ends as
    the survivor's answer says. -/
theorem calls_open_of_unspent (daemons : ℕ) (serverID : Int) (calls : List Call)
    (hunspent : ∀ before call after, calls = before ++ call :: after →
      ∀ peer, call.dials = some peer → ¬ Spent before peer) :
    ∀ before call after, calls = before ++ call :: after →
      ∀ peer comm, call.dials = some peer →
        let s := run step (fresh daemons serverID) before
        (s.dialPeer peer).1 = .ok comm →
          comm ∉ s.closed ∧ (call = .push peer → (s.push peer).1 = .ok ()) ∧
            ∀ response, call = .fetch peer response →
              (s.fetch peer response).1 = (fetchAnswer peer response).map fun _ => comm := by
  intro before call after hcut peer comm hdials s hok
  have howned : Owned before s := owned_run daemons serverID before
  obtain ⟨hd, hclosed, hcache⟩ := howned.dialPeer peer
  have hopen : comm ∉ s.closed := fun hc => hunspent before call after hcut peer hdials
    (hd.spent_of_closed (hcache comm hok) (hclosed ▸ hc))
  obtain ⟨s', hdial⟩ : ∃ s', s.dialPeer peer = (.ok comm, s') := ⟨_, Prod.ext hok rfl⟩
  simp only [hdial] at hclosed
  have hopen' : comm ∉ s'.closed := hclosed ▸ hopen
  refine ⟨hopen, fun _ => ?_, fun response _ => ?_⟩
  · simp [push, hdial, hopen']
  · simp only [fetch, hdial, if_neg hopen']
    cases fetchAnswer peer response <;> rfl

theorem overlapping_fetches_open :
    let reply : Bytes := 48 :: 53 :: List.replicate 63 0
    let s := run step (fresh 3 0) [.fetch 1 reply, .fetch 1 reply]
    (s.dialPeer 1).1 = .ok 0 ∧ 0 ∉ s.closed ∧ (s.push 1).1 = .ok () := by
  intro reply s
  have hopen := calls_open_of_unspent 3 0 [.fetch 1 reply, .fetch 1 reply, .push 1]
    (fun before call after hcut peer hdials => by
      have hreply : ∀ peer, (fetchAnswer peer reply).isOk = true := fun _ => rfl
      rcases before with _ | ⟨a, _ | ⟨b, _ | ⟨c, t⟩⟩⟩ <;> simp at hcut <;> simp [Spent, Call.closes] <;> grind)
    [.fetch 1 reply, .fetch 1 reply] (.push 1) [] rfl 1 0 rfl rfl
  exact ⟨rfl, hopen.1, hopen.2.1 rfl⟩

theorem second_push_fails :
    let s := run step (fresh 2 0) [.push 1]
    (s.dialPeer 1).1 = .ok 0 ∧ 0 ∈ s.closed ∧
      (s.push 1).1 = .error (.wrap "send metadata to peer %d: %w" [.num 1] closedErr) :=
  ⟨rfl, .head _, rfl⟩

end PeerSource

end Momo.Rebuild

import Momo.P2P.Lease
import Momo.Schemes.Run

/-! @momo src/p2p/lease.go | scheme:quorum intersection over a lossy network

    A cluster of lease managers with a common clock. The network keeps every message ever sent and
    may deliver any of them, at any time, any number of times or never: order, delay, loss and
    duplication in one. `returned` and `released` are the callers' side: the leases `Acquire`
    returned and the calls that were released. The last three fields are history the code does not
    keep, for the condition and the invariant. -/

namespace Momo.LeaseCluster

structure Cluster (n : ℕ) where
  now : Int := 0
  nodes : Fin n → LeaseManager (Fin n)
  net : List (RPC (Fin n)) := []
  returned : List (Lease (Fin n)) := []
  released : List (Fin n × ℕ) := []
  asked : Fin n → ℕ → Option (Bytes × Int) := fun _ _ => none
  voters : Fin n → ℕ → Finset (Fin n) := fun _ _ => ∅
  voteFor : Fin n → Bytes → Option (Fin n × ℕ) := fun _ _ => none

inductive Op (n : ℕ)
  | tick (d : ℕ)
  | acquire (i : Fin n) (key : Bytes) (duration : Int) (failed : List (Fin n))
  | deliver (m : RPC (Fin n))
  | receive (i : Fin n) (leaseID : ℕ)
  | finish (i : Fin n) (leaseID : ℕ)
  | timeout (i : Fin n) (leaseID : ℕ)
  | cancel (i : Fin n) (leaseID : ℕ)
  | release (i : Fin n) (lease : Lease (Fin n)) (failed : List (Fin n))
  | releaseByKey (i : Fin n) (key : Bytes) (first : ℕ) (failed : List (Fin n))
  | cleanup (i : Fin n)
  | stop (i : Fin n)

variable {n : ℕ}

def peersOf (i : Fin n) : List (Peer (Fin n)) :=
  ((List.finRange n).filter (· ≠ i)).map (fun j => ⟨j, true⟩)

def callOf (l : Lease (Fin n)) : Fin n × ℕ := (l.holderID, l.leaseID)

namespace Cluster

def start (n : ℕ) : Cluster n := { nodes := fun i => { localID := i } }

def setNode (c : Cluster n) (i : Fin n) (lm : LeaseManager (Fin n)) : Cluster n :=
  { c with nodes := Function.update c.nodes i lm }

def transmit (c : Cluster n) (out : List (RPC (Fin n))) : Cluster n := { c with net := c.net ++ out }

def noteAsked (c : Cluster n) (i : Fin n) (id : ℕ) (key : Bytes) (e : Int) : Cluster n :=
  { c with asked := fun j id' => if j = i ∧ id' = id then some (key, e) else c.asked j id' }

def noteReturned (c : Cluster n) (l : Option (Lease (Fin n))) : Cluster n :=
  { c with returned := c.returned ++ l.toList }

def noteReleased (c : Cluster n) (l : Option (Lease (Fin n))) : Cluster n :=
  { c with released := c.released ++ (l.map callOf).toList }

def noteVoter (c : Cluster n) (i : Fin n) (id : ℕ) (p : Fin n) : Cluster n :=
  { c with
    voters := fun j id' => if j = i ∧ id' = id then insert p (c.voters j id') else c.voters j id' }

def noteVote (c : Cluster n) (p : Fin n) (key : Bytes) (call : Fin n × ℕ) : Cluster n :=
  { c with voteFor := fun q k => if q = p ∧ k = key then some call else c.voteFor q k }

/-- The history of a delivery: the vote a granted request takes, and the voter a grant adds when it
    reaches the channel of its call. -/
def noteDelivery (c : Cluster n) (m : RPC (Fin n)) : Cluster n :=
  match m.type, decodeLeasePayload m.payload with
  | .leaseRequest, .ok p =>
    if (c.nodes m.receiver).blocks c.now p.key then c
    else c.noteVote m.receiver p.key (m.sender, p.leaseID)
  | .leaseGrant, .ok p =>
    match (c.nodes m.receiver).pending.get p.leaseID with
    | none => c
    | some w =>
      if w.chan.length < w.cap ∧ p.expiry ≠ 0 then c.noteVoter m.receiver p.leaseID m.sender else c
  | _, _ => c

def step (c : Cluster n) : Op n → Cluster n
  | .tick d => { c with now := c.now + d }
  | .acquire i key duration failed =>
    let r := (c.nodes i).beginAcquire (peersOf i) failed c.now key duration
    ((c.setNode i r.2.1).noteAsked i r.2.1.nextLeaseID key (c.now + duration)).transmit r.2.2
  | .deliver m =>
    if m ∈ c.net then
      let r := (c.nodes m.receiver).handleLeaseRPC c.now m
      ((c.noteDelivery m).setNode m.receiver r.1).transmit r.2
    else c
  | .receive i leaseID => c.setNode i ((c.nodes i).receiveGrant leaseID)
  | .finish i leaseID =>
    let r := (c.nodes i).finishAcquire leaseID
    (c.setNode i r.2).noteReturned r.1
  | .timeout i leaseID => c.setNode i ((c.nodes i).timeoutAcquire c.now leaseID).2
  | .cancel i leaseID => c.setNode i ((c.nodes i).cancelAcquire leaseID).2
  | .release i lease failed =>
    let r := (c.nodes i).release (peersOf i) failed lease
    ((c.setNode i r.1).noteReleased (some lease)).transmit r.2
  | .releaseByKey i key first failed =>
    let r := (c.nodes i).releaseByKey (peersOf i) failed key first
    ((c.setNode i r.2.1).noteReleased r.1).transmit r.2.2
  | .cleanup i => c.setNode i ((c.nodes i).cleanupExpired c.now)
  | .stop i => c.setNode i (c.nodes i).stop

def active (c : Cluster n) (key : Bytes) : List (Lease (Fin n)) :=
  c.returned.filter (fun l => l.key = key ∧ callOf l ∉ c.released ∧ c.now < l.expiry)

/-- The condition on a delivery: a grant is not the second one its sender's vote is counted for, and
    a release finds its own lease's vote, or no vote in force. -/
def SafeDelivery (c : Cluster n) (m : RPC (Fin n)) : Prop :=
  match decodeLeasePayload m.payload with
  | .error _ => True
  | .ok p =>
    match m.type with
    | .leaseRequest => True
    | .leaseGrant => p.expiry ≠ 0 → m.sender ∉ c.voters m.receiver p.leaseID
    | .leaseRelease =>
      c.voteFor m.receiver p.key = some (m.sender, p.leaseID) ∨
        (c.nodes m.receiver).blocks c.now p.key = false

/-- The condition on a step: lease ids and expiries stay in 64 bits, deliveries are safe, and a
    caller releases leases of its own node. -/
def Safe (c : Cluster n) : Op n → Prop
  | .acquire i _ duration _ => (c.nodes i).nextLeaseID + 1 < 2 ^ 64 ∧ c.now + duration < 2 ^ 63
  | .deliver m => c.SafeDelivery m
  | .release i lease _ => lease ∈ c.returned ∧ lease.holderID = i
  | _ => True

instance (c : Cluster n) (m : RPC (Fin n)) : Decidable (c.SafeDelivery m) := by
  unfold SafeDelivery
  split <;> [infer_instance; (split <;> infer_instance)]

instance (c : Cluster n) (o : Op n) : Decidable (c.Safe o) := by
  cases o <;> unfold Safe <;> infer_instance

/-! ### The invariant -/

/-- The peer `p` stands behind the call `(i, id)`: as long as that call is neither released nor
    expired, `p`'s vote on its key is the one it gave to this call. -/
def Backs (c : Cluster n) (p i : Fin n) (id : ℕ) : Prop :=
  ∀ key e, c.asked i id = some (key, e) → c.now < e → (i, id) ∉ c.released →
    c.voteFor p key = some (i, id) ∧ (c.nodes p).granted.get key = some e

def MsgOk (c : Cluster n) (m : RPC (Fin n)) : Prop :=
  ∀ p, decodeLeasePayload m.payload = .ok p →
    match m.type with
    | .leaseRequest => ∃ e, c.asked m.sender p.leaseID = some (p.key, e) ∧ p.expiry = int64 e
    | .leaseGrant =>
      p.expiry ≠ 0 → c.asked m.receiver p.leaseID ≠ none ∧ c.Backs m.sender m.receiver p.leaseID
    | .leaseRelease => (m.sender, p.leaseID) ∈ c.released

/-- A call in its select loop: it has not returned, and each grant it counted or will count came
    from a voter of its own. -/
structure Waits (c : Cluster n) (i : Fin n) (id : ℕ) (w : Waiting) : Prop where
  asked : c.asked i id = some (w.key, w.expiry)
  open_ : (i, id) ∉ c.returned.map callOf
  quorum : w.quorum = majorityQuorum (n - 1)
  counted : w.grants + w.chan.count true ≤ (c.voters i id).card

/-- A lease in a manager's `held` map was returned by that manager. -/
def Holds (c : Cluster n) (i : Fin n) (id : ℕ) (l : Lease (Fin n)) : Prop :=
  l ∈ c.returned ∧ callOf l = (i, id)

structure Inv (c : Cluster n) : Prop where
  now_nonneg : 0 ≤ c.now
  localID : ∀ i, (c.nodes i).localID = i
  next_lt : ∀ i, (c.nodes i).nextLeaseID < 2 ^ 64
  drawn : ∀ i id, (c.nodes i).nextLeaseID < id → c.asked i id = none
  expiry_lt : ∀ i id key e, c.asked i id = some (key, e) → e < 2 ^ 63
  messages : ∀ m ∈ c.net, c.MsgOk m
  voters : ∀ i id, ∀ p ∈ c.voters i id, c.asked i id ≠ none ∧ c.Backs p i id
  waiting : ∀ i id w, (c.nodes i).pending.get id = some w → c.Waits i id w
  held : ∀ i id l, (c.nodes i).held.get id = some l → c.Holds i id l
  returned : ∀ l ∈ c.returned, c.asked l.holderID l.leaseID = some (l.key, l.expiry) ∧
    majorityQuorum (n - 1) ≤ (c.voters l.holderID l.leaseID).card
  once : (c.returned.map callOf).Nodup
  released : ∀ r ∈ c.released, r ∈ c.returned.map callOf

/-- Base: nothing has been asked, sent or returned. -/
theorem inv_start (n : ℕ) : Inv (start n) where
  now_nonneg := le_rfl
  localID _ := rfl
  next_lt _ := by simp [start]
  drawn _ _ _ := rfl
  expiry_lt _ _ _ _ h := by cases h
  messages _ h := by cases h
  voters _ _ _ h := by cases h
  waiting _ _ _ h := by cases h
  held _ _ _ h := by cases h
  returned _ h := by cases h
  once := List.nodup_nil
  released _ h := by cases h

theorem setNode_self (c : Cluster n) (i : Fin n) (lm : LeaseManager (Fin n)) :
    (c.setNode i lm).nodes i = lm := Function.update_self ..

theorem setNode_ne {c : Cluster n} {i j : Fin n} (lm : LeaseManager (Fin n)) (h : j ≠ i) :
    (c.setNode i lm).nodes j = c.nodes j := Function.update_of_ne h ..

theorem MsgOk.mono {c c' : Cluster n} {m : RPC (Fin n)} (h : c.MsgOk m)
    (hasked : ∀ i id, c.asked i id ≠ none → c'.asked i id = c.asked i id)
    (hrel : ∀ r ∈ c.released, r ∈ c'.released)
    (hbacks : ∀ p i id, c.asked i id ≠ none → c.Backs p i id → c'.Backs p i id) : c'.MsgOk m := by
  intro p hp
  have hm := h p hp
  cases ht : m.type with
  | leaseRequest =>
    rw [ht] at hm
    obtain ⟨e, he, hexp⟩ := hm
    exact ⟨e, by rw [hasked _ _ (by rw [he]; exact Option.some_ne_none _), he], hexp⟩
  | leaseGrant =>
    rw [ht] at hm
    intro hne
    obtain ⟨ha, hb⟩ := hm hne
    exact ⟨by rw [hasked _ _ ha]; exact ha, hbacks _ _ _ ha hb⟩
  | leaseRelease =>
    rw [ht] at hm
    exact hrel _ hm

namespace Inv

variable {c : Cluster n}

theorem tick (hi : Inv c) (d : ℕ) : Inv { c with now := c.now + d } := by
  have hbacks : ∀ p i id, c.Backs p i id → Backs { c with now := c.now + d } p i id :=
    fun p i id h key e ha hlt => h key e ha (by simp only at hlt; omega)
  exact { hi with
    now_nonneg := by have := hi.now_nonneg; simp only; omega
    messages := fun m hm => (hi.messages m hm).mono (fun _ _ _ => rfl) (fun _ hr => hr)
      (fun p i id _ => hbacks p i id)
    voters := fun i id p hp => ⟨(hi.voters i id p hp).1, hbacks _ _ _ (hi.voters i id p hp).2⟩
    waiting := fun i id w hw => { hi.waiting i id w hw with } }

theorem setNode (hi : Inv c) (i : Fin n) (lm : LeaseManager (Fin n)) (hid : lm.localID = i)
    (hnext : (c.nodes i).nextLeaseID ≤ lm.nextLeaseID) (hlt : lm.nextLeaseID < 2 ^ 64)
    (hgranted : ∀ j id key e, (j, id) ∉ c.released → c.now < e → c.asked j id = some (key, e) →
      c.voteFor i key = some (j, id) → (c.nodes i).granted.get key = some e →
      lm.granted.get key = some e)
    (hwait : ∀ id w, lm.pending.get id = some w → c.Waits i id w)
    (hheld : ∀ id l, lm.held.get id = some l → c.Holds i id l) : Inv (c.setNode i lm) := by
  have hbacks : ∀ p j id, c.Backs p j id → (c.setNode i lm).Backs p j id := by
    intro p j id h key e ha hnow hrel
    obtain ⟨hv, hg⟩ := h key e ha hnow hrel
    refine ⟨hv, ?_⟩
    rcases eq_or_ne p i with rfl | hne
    · rw [setNode_self]
      exact hgranted j id key e hrel hnow ha hv hg
    · rw [setNode_ne lm hne]
      exact hg
  have hnodes : ∀ j, j = i ∧ (c.setNode i lm).nodes j = lm ∨
      j ≠ i ∧ (c.setNode i lm).nodes j = c.nodes j := by
    intro j
    rcases eq_or_ne j i with rfl | hne
    · exact Or.inl ⟨rfl, setNode_self ..⟩
    · exact Or.inr ⟨hne, setNode_ne lm hne⟩
  exact { hi with
    localID := fun j => by
      rcases hnodes j with ⟨rfl, h⟩ | ⟨-, h⟩ <;> rw [h]
      exacts [hid, hi.localID j]
    next_lt := fun j => by
      rcases hnodes j with ⟨rfl, h⟩ | ⟨-, h⟩ <;> rw [h]
      exacts [hlt, hi.next_lt j]
    drawn := fun j id hj => by
      rcases hnodes j with ⟨rfl, h⟩ | ⟨-, h⟩ <;> rw [h] at hj
      exacts [hi.drawn j id (hnext.trans_lt hj), hi.drawn j id hj]
    messages := fun m hm => (hi.messages m hm).mono (fun _ _ _ => rfl) (fun _ hr => hr)
      (fun p j id _ => hbacks p j id)
    voters := fun j id p hp => ⟨(hi.voters j id p hp).1, hbacks _ _ _ (hi.voters j id p hp).2⟩
    waiting := fun j id w hw => by
      rcases hnodes j with ⟨rfl, h⟩ | ⟨-, h⟩ <;> rw [h] at hw
      exacts [{ hwait id w hw with }, { hi.waiting j id w hw with }]
    held := fun j id l hl => by
      rcases hnodes j with ⟨rfl, h⟩ | ⟨-, h⟩ <;> rw [h] at hl
      exacts [hheld id l hl, hi.held j id l hl] }

theorem transmit (hi : Inv c) (out : List (RPC (Fin n))) (hout : ∀ m ∈ out, c.MsgOk m) :
    Inv (c.transmit out) :=
  { hi with
    messages := fun m hm => (List.mem_append.mp hm).elim (hi.messages m) (hout m)
    waiting := fun i id w hw => { hi.waiting i id w hw with } }

variable {i : Fin n} {id : ℕ} {e : Int}

theorem noteAsked (hi : Inv c) (hfresh : c.asked i id = none) (hle : id ≤ (c.nodes i).nextLeaseID)
    (key : Bytes) (he : e < 2 ^ 63) : Inv (c.noteAsked i id key e) := by
  have hold : ∀ j id', c.asked j id' ≠ none →
      (c.noteAsked i id key e).asked j id' = c.asked j id' := by
    intro j id' h
    exact if_neg (fun hc => h (by rw [hc.1, hc.2, hfresh]))
  have hsome : ∀ j id' a, c.asked j id' = some a →
      (c.noteAsked i id key e).asked j id' = some a := by
    intro j id' a h
    rw [hold j id' (by rw [h]; exact Option.some_ne_none a), h]
  have hbacks : ∀ p j id', c.asked j id' ≠ none → c.Backs p j id' →
      (c.noteAsked i id key e).Backs p j id' :=
    fun p j id' ha h key' e' ha' => h key' e' (by rw [← hold j id' ha]; exact ha')
  exact { hi with
    drawn := fun j id' h => by
      have hne : ¬ (j = i ∧ id' = id) := by
        rintro ⟨rfl, rfl⟩
        exact absurd hle (not_le.mpr h)
      exact (if_neg hne).trans (hi.drawn j id' h)
    expiry_lt := fun j id' key' e' h => by
      simp only [Cluster.noteAsked] at h
      split_ifs at h with hc
      · cases h
        exact he
      · exact hi.expiry_lt j id' key' e' h
    messages := fun m hm => (hi.messages m hm).mono hold (fun _ hr => hr) hbacks
    voters := fun j id' p hp => by
      obtain ⟨ha, hb⟩ := hi.voters j id' p hp
      exact ⟨(hold j id' ha).trans_ne ha, hbacks _ _ _ ha hb⟩
    waiting := fun j id' w hw =>
      { hi.waiting j id' w hw with asked := hsome _ _ _ (hi.waiting j id' w hw).asked }
    returned := fun l hl => ⟨hsome _ _ _ (hi.returned l hl).1, (hi.returned l hl).2⟩ }

theorem noteVoter (hi : Inv c) {p : Fin n} (ha : c.asked i id ≠ none) (hb : c.Backs p i id) :
    Inv (c.noteVoter i id p) := by
  have hcard : ∀ j id', (c.voters j id').card ≤ ((c.noteVoter i id p).voters j id').card := by
    intro j id'
    simp only [Cluster.noteVoter]
    split_ifs
    · exact Finset.card_le_card (Finset.subset_insert ..)
    · exact le_rfl
  exact { hi with
    voters := fun j id' q hq => by
      simp only [Cluster.noteVoter] at hq
      split_ifs at hq with hc
      · rcases Finset.mem_insert.mp hq with rfl | hq
        · rw [hc.1, hc.2]
          exact ⟨ha, hb⟩
        · exact hi.voters j id' q hq
      · exact hi.voters j id' q hq
    waiting := fun j id' w hw =>
      { hi.waiting j id' w hw with counted := (hi.waiting j id' w hw).counted.trans (hcard j id') }
    returned := fun l hl => ⟨(hi.returned l hl).1, (hi.returned l hl).2.trans (hcard _ _)⟩ }

theorem noteReturned (hi : Inv c) {l : Lease (Fin n)}
    (hask : c.asked l.holderID l.leaseID = some (l.key, l.expiry))
    (hq : majorityQuorum (n - 1) ≤ (c.voters l.holderID l.leaseID).card)
    (hnew : callOf l ∉ c.returned.map callOf)
    (hdone : (c.nodes l.holderID).pending.get l.leaseID = none) :
    Inv (c.noteReturned (some l)) := by
  have hmap : (c.noteReturned (some l)).returned.map callOf =
      c.returned.map callOf ++ [callOf l] := List.map_append ..
  exact { hi with
    waiting := fun i id w hw =>
      { hi.waiting i id w hw with
        open_ := fun h => by
          rw [hmap, List.mem_append, List.mem_singleton] at h
          rcases h with h | h
          · exact (hi.waiting i id w hw).open_ h
          · -- the call that returns is not in its loop any more
            obtain ⟨rfl, rfl⟩ := Prod.mk.inj h
            cases hdone.symm.trans hw }
    held := fun i id l' hl' =>
      ⟨List.mem_append_left _ (hi.held i id l' hl').1, (hi.held i id l' hl').2⟩
    returned := fun l' hl' => by
      rcases List.mem_append.mp hl' with h | h
      · exact hi.returned l' h
      · rw [List.mem_singleton.mp h]
        exact ⟨hask, hq⟩
    once := by
      rw [hmap]
      exact List.nodup_append.mpr ⟨hi.once, List.nodup_singleton _, fun a ha b hb => by
        rw [List.mem_singleton.mp hb]
        exact fun h => hnew (h ▸ ha)⟩
    released := fun r hr => by
      rw [hmap]
      exact List.mem_append_left _ (hi.released r hr) }

theorem noteReleased (hi : Inv c) {l : Lease (Fin n)} (hl : callOf l ∈ c.returned.map callOf) :
    Inv (c.noteReleased (some l)) := by
  have hbacks : ∀ p i id, c.Backs p i id → (c.noteReleased (some l)).Backs p i id :=
    fun p i id h key e ha hlt hrel => h key e ha hlt (fun hc => hrel (List.mem_append_left _ hc))
  exact { hi with
    messages := fun m hm => (hi.messages m hm).mono (fun _ _ _ => rfl)
      (fun _ h => List.mem_append_left _ h) (fun p i id _ => hbacks p i id)
    voters := fun i id p hp => ⟨(hi.voters i id p hp).1, hbacks _ _ _ (hi.voters i id p hp).2⟩
    waiting := fun i id w hw => { hi.waiting i id w hw with }
    released := fun r' hr' => by
      rcases List.mem_append.mp hr' with h | h
      · exact hi.released r' h
      · rw [List.mem_singleton.mp h]
        exact hl }

theorem blocks_of_open (hi : Inv c) {j : Fin n} {key : Bytes} (hnow : c.now < e)
    (ha : c.asked j id = some (key, e)) (hg : (c.nodes i).granted.get key = some e) :
    (c.nodes i).blocks c.now key = true := by
  have hlt := hi.expiry_lt j id key e ha
  rw [LeaseManager.blocks, hg]
  exact decide_eq_true (by rw [int64_of_bounds hi.now_nonneg (by omega)]; exact hnow)

theorem castVote (hi : Inv c) {p : Fin n} {key : Bytes}
    (hfree : (c.nodes p).blocks c.now key = false) (ha : c.asked i id = some (key, e)) :
    Inv ((c.noteVote p key (i, id)).setNode p
      { c.nodes p with granted := (c.nodes p).granted.put key (int64 e) }) ∧
    Backs ((c.noteVote p key (i, id)).setNode p
      { c.nodes p with granted := (c.nodes p).granted.put key (int64 e) }) p i id := by
  set lm := { c.nodes p with granted := (c.nodes p).granted.put key (int64 e) } with hlm
  have hbacks : ∀ q j id', c.Backs q j id' →
      ((c.noteVote p key (i, id)).setNode p lm).Backs q j id' := by
    intro q j id' h key' e' ha' hnow hrel
    obtain ⟨hv, hg⟩ := h key' e' ha' hnow hrel
    have hne : ¬ (q = p ∧ key' = key) := by
      rintro ⟨rfl, rfl⟩
      rw [hi.blocks_of_open hnow ha' hg] at hfree
      cases hfree
    refine ⟨(if_neg hne).trans hv, ?_⟩
    rcases eq_or_ne q p with rfl | hq
    · have hk : key' ≠ key := fun h => hne ⟨rfl, h⟩
      rw [setNode_self, hlm, OMap.get_put_ne _ _ hk]
      exact hg
    · rw [setNode_ne lm hq]
      exact hg
  have hsame : ∀ j lm', lm' = ((c.noteVote p key (i, id)).setNode p lm).nodes j →
      lm'.localID = (c.nodes j).localID ∧ lm'.nextLeaseID = (c.nodes j).nextLeaseID ∧
      lm'.pending = (c.nodes j).pending ∧ lm'.held = (c.nodes j).held := by
    rintro j lm' rfl
    rcases eq_or_ne j p with rfl | hq
    · rw [setNode_self]
      exact ⟨rfl, rfl, rfl, rfl⟩
    · rw [setNode_ne lm hq]
      exact ⟨rfl, rfl, rfl, rfl⟩
  refine ⟨{ hi with
    localID := fun j => (hsame j _ rfl).1.trans (hi.localID j)
    next_lt := fun j => (hsame j _ rfl).2.1 ▸ hi.next_lt j
    drawn := fun j id' h => hi.drawn j id' ((hsame j _ rfl).2.1 ▸ h)
    messages := fun m hm => (hi.messages m hm).mono (fun _ _ _ => rfl) (fun _ hr => hr)
      (fun q j id' _ => hbacks q j id')
    voters := fun j id' q hq => ⟨(hi.voters j id' q hq).1, hbacks _ _ _ (hi.voters j id' q hq).2⟩
    waiting := fun j id' w hw =>
      { hi.waiting j id' w ((hsame j _ rfl).2.2.1 ▸ hw) with }
    held := fun j id' l hl => hi.held j id' l ((hsame j _ rfl).2.2.2 ▸ hl) }, ?_⟩
  intro key' e' ha' (hnow : c.now < e') _
  obtain ⟨rfl, rfl⟩ := Prod.mk.inj (Option.some.inj (ha'.symm.trans ha))
  refine ⟨if_pos ⟨rfl, rfl⟩, ?_⟩
  have h0 := hi.now_nonneg
  rw [setNode_self, hlm, OMap.get_put_self,
    int64_of_bounds (by omega) (hi.expiry_lt i id key' e' ha)]

end Inv

/-! ### Steps -/

theorem setNode_nodes (c : Cluster n) (i : Fin n) : c.setNode i (c.nodes i) = c := by
  rw [setNode, Function.update_eq_self]

theorem length_peersOf (i : Fin n) :
    ((peersOf i).filter (fun p => p.alive ∧ p.id ≠ i)).length = n - 1 := by
  have hfilter : (peersOf i).filter (fun p => p.alive ∧ p.id ≠ i) = peersOf i := by
    rw [List.filter_eq_self]
    intro p hp
    obtain ⟨j, hj, rfl⟩ := List.mem_map.mp hp
    simpa using (List.mem_filter.mp hj).2
  have herase := (List.nodup_finRange n).erase_eq_filter i
  rw [hfilter, peersOf, List.length_map]
  calc ((List.finRange n).filter (· ≠ i)).length
      = ((List.finRange n).erase i).length := by
        rw [herase]
        exact congrArg List.length (List.filter_congr (fun j _ => Bool.eq_iff_iff.mpr (by simp)))
    _ = n - 1 := by rw [List.length_erase_of_mem (List.mem_finRange i), List.length_finRange]

theorem mem_broadcast {lm : LeaseManager (Fin n)} {peers : List (Peer (Fin n))}
    {failed : List (Fin n)} {type : MsgType} {payload : LeasePayload} {m : RPC (Fin n)}
    (h : m ∈ lm.broadcast peers failed type payload) :
    m.sender = lm.localID ∧ m.type = type ∧ m.payload = payload.encode := by
  obtain ⟨p, -, rfl⟩ := List.mem_map.mp h
  exact ⟨rfl, rfl, rfl⟩

theorem beginAcquire_cases {lm : LeaseManager (Fin n)} {i : Fin n} (hid : lm.localID = i)
    (hnext : lm.nextLeaseID + 1 < 2 ^ 64) (failed : List (Fin n)) (now : Int) (key : Bytes)
    (duration : Int) :
    ∃ res pending, lm.beginAcquire (peersOf i) failed now key duration =
        (res, { lm with nextLeaseID := lm.nextLeaseID + 1, pending := pending },
          lm.broadcast (peersOf i) failed .leaseRequest
            ⟨lm.nextLeaseID + 1, key, int64 (now + duration)⟩) ∧
      ∀ id w, pending.get id = some w → lm.pending.get id = some w ∨
        id = lm.nextLeaseID + 1 ∧
          w = { key := key, expiry := now + duration, deadline := now + duration.tdiv 2,
                quorum := majorityQuorum (n - 1), cap := n - 1 } := by
  subst hid
  have hpart : ¬ (0 < (peersOf lm.localID).length ∧ n - 1 = 0) := by
    rintro ⟨h0, h1⟩
    rw [peersOf, List.length_map] at h0
    have hlt : ((List.finRange n).filter (· ≠ lm.localID)).length < (List.finRange n).length :=
      List.length_filter_lt_length_iff_exists.mpr ⟨lm.localID, List.mem_finRange _, by simp⟩
    rw [List.length_finRange] at hlt
    omega
  have hmod : (lm.nextLeaseID + 1) % 2 ^ 64 = lm.nextLeaseID + 1 := Nat.mod_eq_of_lt hnext
  simp only [LeaseManager.beginAcquire, length_peersOf, if_neg hpart, hmod]
  split_ifs with hsent
  · exact ⟨_, _, rfl, fun id w hw => Or.inl (OMap.get_of_get_del hw)⟩
  · refine ⟨_, _, rfl, fun id w hw => ?_⟩
    rw [OMap.get_put] at hw
    split_ifs at hw with hc
    · exact Or.inr ⟨hc, (Option.some.inj hw).symm⟩
    · exact Or.inl hw

theorem msgOk_release {c : Cluster n} {lm : LeaseManager (Fin n)} {peers : List (Peer (Fin n))}
    {failed : List (Fin n)} {id : ℕ} {key : Bytes} (hid : id < 2 ^ 64)
    (hrel : (lm.localID, id) ∈ c.released) :
    ∀ m ∈ lm.broadcast peers failed .leaseRelease ⟨id, key, 0⟩, c.MsgOk m := by
  intro m hm p hp
  obtain ⟨hsender, htype, hpay⟩ := mem_broadcast hm
  rw [hpay] at hp
  obtain rfl := LeasePayload.decode_encode hid hp
  rw [htype, hsender]
  exact hrel

theorem msgOk_grantReply {c : Cluster n} {lm : LeaseManager (Fin n)} {m : RPC (Fin n)}
    {p : LeasePayload} {e : Int} (hid : p.leaseID < 2 ^ 64)
    (h : int64 e ≠ 0 →
      c.asked m.sender p.leaseID ≠ none ∧ c.Backs lm.localID m.sender p.leaseID) :
    ∀ m' ∈ [lm.grantReply m p e], c.MsgOk m' := by
  intro m' hm' p' hp'
  obtain rfl := List.mem_singleton.mp hm'
  have hp := LeasePayload.decode_encode (l := { p with expiry := e }) hid hp'
  subst hp
  exact h

section Steps

variable {c : Cluster n} (hi : Inv c)

include hi

theorem inv_acquire (i : Fin n) (key : Bytes) (duration : Int) (failed : List (Fin n))
    (hs : c.Safe (.acquire i key duration failed)) :
    Inv (c.step (.acquire i key duration failed)) := by
  obtain ⟨hnext, hexp⟩ := hs
  obtain ⟨res, pending, hbegin, hpending⟩ :=
    beginAcquire_cases (hi.localID i) hnext failed c.now key duration
  have hfresh : c.asked i ((c.nodes i).nextLeaseID + 1) = none := hi.drawn i _ (Nat.lt_succ_self _)
  -- draw the id, note the question, wait, send
  have h1 := hi.setNode i { c.nodes i with nextLeaseID := (c.nodes i).nextLeaseID + 1 }
    (hi.localID i) (Nat.le_succ _) hnext (fun _ _ _ _ _ _ _ _ h => h) (hi.waiting i) (hi.held i)
  have h2 := h1.noteAsked (i := i) hfresh (by rw [setNode_self]) key hexp
  have h3 := h2.setNode i
    { c.nodes i with nextLeaseID := (c.nodes i).nextLeaseID + 1, pending := pending }
    (hi.localID i) (by simp only [Cluster.noteAsked, setNode_self, le_refl]) hnext
    (fun _ _ _ _ _ _ _ _ h => by simpa only [Cluster.noteAsked, setNode_self] using h) (by
      intro id w hw
      rcases hpending id w hw with hold | ⟨rfl, rfl⟩
      · exact h2.waiting i id w (by simpa only [Cluster.noteAsked, setNode_self] using hold)
      · refine ⟨if_pos ⟨rfl, rfl⟩, fun hc => ?_, rfl, by simp⟩
        -- a returned lease was asked for, this one was not
        obtain ⟨l, hl, hcall⟩ := List.mem_map.mp hc
        obtain ⟨hholder, hid⟩ := Prod.mk.inj hcall
        have := (hi.returned l hl).1
        rw [hholder, hid, hfresh] at this
        cases this)
    (fun id l hl => h2.held i id l (by simpa only [Cluster.noteAsked, setNode_self] using hl))
  have h4 := h3.transmit ((c.nodes i).broadcast (peersOf i) failed .leaseRequest
      ⟨(c.nodes i).nextLeaseID + 1, key, int64 (c.now + duration)⟩) (by
    intro m hm p hp
    obtain ⟨hsender, htype, hpay⟩ := mem_broadcast hm
    rw [hpay] at hp
    obtain rfl := LeasePayload.decode_encode hnext hp
    rw [htype]
    exact ⟨c.now + duration, if_pos ⟨hsender.trans (hi.localID i), rfl⟩, int64_int64 _⟩)
  simp only [step, hbegin]
  simp only [Cluster.setNode, Cluster.noteAsked, Function.update_idem] at h4 ⊢
  exact h4

theorem Inv.setPending (i : Fin n) {pending : OMap ℕ Waiting}
    (hw : ∀ id w, pending.get id = some w → c.Waits i id w) :
    Inv (c.setNode i { c.nodes i with pending := pending }) :=
  hi.setNode i _ (hi.localID i) le_rfl (hi.next_lt i) (fun _ _ _ _ _ _ _ _ h => h) hw (hi.held i)

theorem Inv.waits_of_del {i : Fin n} {id id' : ℕ} {w : Waiting}
    (h : ((c.nodes i).pending.del id).get id' = some w) : c.Waits i id' w :=
  hi.waiting i id' w (OMap.get_of_get_del h)

theorem inv_receive (i : Fin n) (id : ℕ) : Inv (c.step (.receive i id)) := by
  simp only [step, LeaseManager.receiveGrant]
  split
  · rw [setNode_nodes]
    exact hi
  · rename_i w hw
    split
    · rw [setNode_nodes]
      exact hi
    · rename_i granted rest hchan
      rcases lt_or_ge w.grants w.quorum with hlt | hge
      · rw [if_pos hlt]
        refine hi.setPending i (fun id' w' hw' => ?_)
        rcases eq_or_ne id' id with rfl | hid
        · -- the answer moves from the channel to the count
          rw [OMap.get_put_self] at hw'
          obtain rfl := Option.some.inj hw'
          have hold := hi.waiting i id' w hw
          refine { hold with counted := ?_ }
          have hcount := hold.counted
          rw [hchan] at hcount
          cases granted <;> simp at hcount ⊢ <;> omega
        · rw [OMap.get_put_ne _ _ hid] at hw'
          exact hi.waiting i id' w' hw'
      · rw [if_neg hge.not_gt, setNode_nodes]
        exact hi

theorem inv_abandon (i : Fin n) (id : ℕ) (fires : Waiting → Bool) (error : Waiting → Err) :
    Inv (c.setNode i ((c.nodes i).abandonAcquire id fires error).2) := by
  simp only [LeaseManager.abandonAcquire]
  split
  · rw [setNode_nodes]
    exact hi
  · split_ifs
    · exact hi.setPending i (fun id' w hw => hi.waits_of_del hw)
    · rw [setNode_nodes]
      exact hi

theorem inv_finish (i : Fin n) (id : ℕ) : Inv (c.step (.finish i id)) := by
  have hnone : Inv ((c.setNode i (c.nodes i)).noteReturned none) := by
    rw [setNode_nodes, noteReturned, Option.toList_none, List.append_nil]
    exact hi
  simp only [step, LeaseManager.finishAcquire]
  split
  · exact hnone
  · rename_i w hw
    split_ifs with hlt
    · exact hnone
    have hwait := hi.waiting i id w hw
    -- stop waiting, return, hold
    have h1 : Inv (c.setNode i { c.nodes i with pending := (c.nodes i).pending.del id }) :=
      hi.setPending i (fun id' w hw => hi.waits_of_del hw)
    have h2 := h1.noteReturned (l := ⟨id, i, w.key, w.expiry, w.grants⟩) hwait.asked
      (by
        have hle : majorityQuorum (n - 1) ≤ w.grants := hwait.quorum ▸ not_lt.mp hlt
        exact hle.trans ((Nat.le_add_right ..).trans hwait.counted))
      hwait.open_ (by simp only [setNode_self, OMap.get_del_self])
    have h3 := h2.setNode i
      { c.nodes i with
        held := (c.nodes i).held.put id ⟨id, i, w.key, w.expiry, w.grants⟩
        pending := (c.nodes i).pending.del id }
      (hi.localID i) (by simp only [noteReturned, setNode_self, le_refl]) (hi.next_lt i)
      (fun _ _ _ _ _ _ _ _ h => by simpa only [noteReturned, setNode_self] using h)
      (fun id' w' hw' => h2.waiting i id' w' (by simpa only [noteReturned, setNode_self] using hw'))
      (by
        intro id' l hl
        simp only [OMap.get_put] at hl
        split_ifs at hl with hid
        · rw [← Option.some.inj hl, hid]
          exact ⟨List.mem_append_right _ (List.mem_singleton.mpr rfl), rfl⟩
        · exact h2.held i id' l (by simpa only [noteReturned, setNode_self] using hl))
    rw [hi.localID i]
    simp only [Cluster.setNode, Cluster.noteReturned, Function.update_idem] at h3 ⊢
    rw [hi.localID i] at h3
    exact h3

theorem Inv.leaseID_lt {l : Lease (Fin n)} (hl : l ∈ c.returned) : l.leaseID < 2 ^ 64 := by
  by_contra hge
  have hnone := hi.drawn l.holderID l.leaseID (by have := hi.next_lt l.holderID; omega)
  rw [(hi.returned l hl).1] at hnone
  cases hnone

theorem inv_release {i : Fin n} {l : Lease (Fin n)} (hl : l ∈ c.returned)
    (hholder : l.holderID = i) (failed : List (Fin n)) : Inv (c.step (.release i l failed)) := by
  have h1 := hi.setNode i { c.nodes i with held := (c.nodes i).held.del l.leaseID } (hi.localID i)
    le_rfl (hi.next_lt i) (fun _ _ _ _ _ _ _ _ h => h) (hi.waiting i)
    (fun id' l' hl' => hi.held i id' l' (OMap.get_of_get_del hl'))
  have h2 := h1.noteReleased (List.mem_map.mpr ⟨l, hl, rfl⟩)
  refine h2.transmit _ (msgOk_release (hi.leaseID_lt hl) ?_)
  rw [hi.localID i, ← hholder]
  exact List.mem_append_right _ (List.mem_singleton.mpr rfl)

theorem inv_releaseByKey (i : Fin n) (key : Bytes) (first : ℕ) (failed : List (Fin n)) :
    Inv (c.step (.releaseByKey i key first failed)) := by
  simp only [step, LeaseManager.releaseByKey]
  split
  · rw [setNode_nodes, noteReleased, transmit]
    simpa using hi
  · rename_i l hl
    obtain ⟨hheld, hkey⟩ := Option.filter_eq_some_iff.mp hl
    obtain ⟨hmem, hcall⟩ := hi.held i first l hheld
    obtain ⟨hholder, rfl⟩ := Prod.mk.inj hcall
    have hkey : l.key = key := of_decide_eq_true hkey
    subst hkey
    exact inv_release hi hmem hholder failed

theorem inv_cleanup (i : Fin n) : Inv (c.step (.cleanup i)) := by
  refine hi.setNode i _ (hi.localID i) le_rfl (hi.next_lt i) ?_ (hi.waiting i) ?_
  · intro j id key e _ hnow hask _ hg
    have hlt := hi.expiry_lt j id key e hask
    simp only [LeaseManager.cleanupExpired, OMap.get_prune, hg, Option.filter_eq_some_iff]
    refine ⟨trivial, ?_⟩
    rw [int64_of_bounds hi.now_nonneg (by omega)]
    simpa using hnow.le
  · intro id l hl
    simp only [LeaseManager.cleanupExpired, OMap.get_prune, Option.filter_eq_some_iff] at hl
    exact hi.held i id l hl.1

theorem Inv.unchanged (i : Fin n) : Inv ((c.setNode i (c.nodes i)).transmit []) := by
  rw [setNode_nodes, Cluster.transmit, List.append_nil]
  exact hi

theorem inv_request {m : RPC (Fin n)} (hm : m ∈ c.net) (ht : m.type = .leaseRequest) :
    Inv (c.step (.deliver m)) := by
  simp only [step, if_pos hm, noteDelivery, LeaseManager.handleLeaseRPC, ht,
    LeaseManager.handleLeaseRequest]
  have hmsg := hi.messages m hm
  cases hp : decodeLeasePayload m.payload with
  | error err => exact hi.unchanged m.receiver
  | ok p =>
    obtain ⟨e, hask, hexp⟩ := by
      have := hmsg p hp
      rw [ht] at this
      exact this
    have hid : p.leaseID < 2 ^ 64 := by
      by_contra hge
      have hnone := hi.drawn m.sender p.leaseID (by have := hi.next_lt m.sender; omega)
      rw [hask] at hnone
      cases hnone
    simp only
    cases hblock : (c.nodes m.receiver).blocks c.now p.key with
    | true =>
      -- a denial carries expiry 0 and promises nothing
      simp only [if_true, setNode_nodes]
      exact hi.transmit _ (msgOk_grantReply hid (fun hne => absurd rfl hne))
    | false =>
      simp only [Bool.false_eq_true, if_false]
      obtain ⟨hinv, hback⟩ := hi.castVote hblock hask
      rw [hexp]
      refine hinv.transmit _ (msgOk_grantReply hid (fun _ => ⟨?_, ?_⟩))
      · exact hask.trans_ne (Option.some_ne_none _)
      · rw [hi.localID m.receiver]
        exact hback

theorem inv_grant {m : RPC (Fin n)} (hm : m ∈ c.net) (ht : m.type = .leaseGrant)
    (hs : c.SafeDelivery m) : Inv (c.step (.deliver m)) := by
  simp only [step, if_pos hm, noteDelivery, LeaseManager.handleLeaseRPC, ht,
    LeaseManager.handleLeaseGrant]
  have hmsg := hi.messages m hm
  have hsame := hi.unchanged m.receiver
  cases hp : decodeLeasePayload m.payload with
  | error err => exact hsame
  | ok p =>
    have hbacks := hmsg p hp
    rw [ht] at hbacks
    simp only [SafeDelivery, hp, ht] at hs
    simp only
    cases hw : (c.nodes m.receiver).pending.get p.leaseID with
    | none => exact hsame
    | some w =>
      simp only
      have hold := hi.waiting _ _ _ hw
      rcases lt_or_ge w.chan.length w.cap with hcap | hfull
      swap
      · rw [if_neg hfull.not_gt, if_neg (fun h => hfull.not_gt h.1)]
        exact hsame
      rw [if_pos hcap]
      rcases eq_or_ne p.expiry 0 with hzero | hne
      · -- a denial: the channel gets a `false`
        rw [if_neg (fun h => h.2 hzero)]
        refine Inv.transmit (hi.setPending _ (fun id' w' hw' => ?_)) [] (fun _ h => by cases h)
        rcases eq_or_ne id' p.leaseID with rfl | hid
        · rw [OMap.get_put_self] at hw'
          obtain rfl := Option.some.inj hw'
          exact { hold with counted := by simpa [hzero] using hold.counted }
        · rw [OMap.get_put_ne _ _ hid] at hw'
          exact hi.waiting _ id' w' hw'
      · -- a vote that was not counted before
        rw [if_pos ⟨hcap, hne⟩]
        obtain ⟨hask, hb⟩ := hbacks hne
        have h1 := hi.noteVoter hask hb
        refine Inv.transmit (h1.setPending m.receiver (fun id' w' hw' => ?_)) []
          (fun _ h => by cases h)
        rcases eq_or_ne id' p.leaseID with rfl | hid
        · rw [OMap.get_put_self] at hw'
          obtain rfl := Option.some.inj hw'
          refine { hold with counted := ?_ }
          have hcard : ((c.noteVoter m.receiver p.leaseID m.sender).voters m.receiver
              p.leaseID).card = (c.voters m.receiver p.leaseID).card + 1 := by
            simp only [noteVoter, and_self, if_true]
            exact Finset.card_insert_of_notMem (hs hne)
          rw [hcard]
          have hcount := hold.counted
          simp only [hne, ne_eq, not_false_eq_true, decide_true, List.count_append,
            List.count_singleton_self]
          omega
        · rw [OMap.get_put_ne _ _ hid] at hw'
          exact h1.waiting m.receiver id' w' hw'

theorem inv_releaseMsg {m : RPC (Fin n)} (hm : m ∈ c.net) (ht : m.type = .leaseRelease)
    (hs : c.SafeDelivery m) : Inv (c.step (.deliver m)) := by
  simp only [step, if_pos hm, noteDelivery, LeaseManager.handleLeaseRPC, ht,
    LeaseManager.handleLeaseRelease]
  have hmsg := hi.messages m hm
  cases hp : decodeLeasePayload m.payload with
  | error err => exact hi.unchanged m.receiver
  | ok p =>
    have hrel := hmsg p hp
    rw [ht] at hrel
    simp only [SafeDelivery, hp, ht] at hs
    refine Inv.transmit (hi.setNode m.receiver
      { c.nodes m.receiver with granted := (c.nodes m.receiver).granted.del p.key }
      (hi.localID _) le_rfl (hi.next_lt _) ?_ (hi.waiting _) (hi.held _)) []
      (fun _ h => by cases h)
    intro j id key e hopen hnow hask hvote hg
    rcases eq_or_ne key p.key with rfl | hkey
    · -- an open call's vote is in force and belongs to a lease nobody released
      rcases hs with hown | hfree
      · rw [Option.some.inj (hvote.symm.trans hown)] at hopen
        exact absurd hrel hopen
      · rw [hi.blocks_of_open hnow hask hg] at hfree
        cases hfree
    · rw [OMap.get_del_ne _ hkey]
      exact hg

end Steps

theorem inv_step (c : Cluster n) (o : Op n) (hi : Inv c) (hs : c.Safe o) : Inv (c.step o) := by
  cases o with
  | tick d => exact hi.tick d
  | acquire i key duration failed => exact inv_acquire hi i key duration failed hs
  | deliver m =>
    by_cases hm : m ∈ c.net
    · cases ht : m.type with
      | leaseRequest => exact inv_request hi hm ht
      | leaseGrant => exact inv_grant hi hm ht hs
      | leaseRelease => exact inv_releaseMsg hi hm ht hs
    · rw [step, if_neg hm]
      exact hi
  | receive i id => exact inv_receive hi i id
  | finish i id => exact inv_finish hi i id
  | timeout i id => exact inv_abandon hi i id _ _
  | cancel i id => exact inv_abandon hi i id _ _
  | release i l failed => exact inv_release hi hs.1 hs.2 failed
  | releaseByKey i key first failed => exact inv_releaseByKey hi i key first failed
  | cleanup i => exact inv_cleanup hi i
  | stop i =>
    exact hi.setNode i _ (hi.localID i) le_rfl (hi.next_lt i) (fun _ _ _ _ _ _ _ _ h => h)
      (hi.waiting i) (hi.held i)

/-! ### Mutual exclusion -/

theorem majorityQuorum_meets {n : ℕ} (hodd : n % 2 = 1) (h3 : 3 ≤ n) :
    n < majorityQuorum (n - 1) + majorityQuorum (n - 1) := by
  rw [majorityQuorum, if_neg (by omega)]
  omega

theorem Inv.callOf_eq {c : Cluster n} (hi : Inv c) (hodd : n % 2 = 1) (h3 : 3 ≤ n) {key : Bytes}
    {a b : Lease (Fin n)} (ha : a ∈ c.active key) (hb : b ∈ c.active key) :
    callOf a = callOf b := by
  simp only [active, List.mem_filter, decide_eq_true_eq] at ha hb
  obtain ⟨ha, rfl, hna, hta⟩ := ha
  obtain ⟨hb, hkey, hnb, htb⟩ := hb
  obtain ⟨hasked, hqa⟩ := hi.returned a ha
  obtain ⟨hbsked, hqb⟩ := hi.returned b hb
  have hmeet : (Finset.univ : Finset (Fin n)).card <
      (c.voters a.holderID a.leaseID).card + (c.voters b.holderID b.leaseID).card := by
    rw [Finset.card_univ, Fintype.card_fin]
    exact (majorityQuorum_meets hodd h3).trans_le (Nat.add_le_add hqa hqb)
  obtain ⟨p, hp⟩ := Finset.inter_nonempty_of_card_lt_card_add_card (Finset.subset_univ _)
    (Finset.subset_univ _) hmeet
  obtain ⟨hpa, hpb⟩ := Finset.mem_inter.mp hp
  -- the common voter's vote on the key is for both calls
  have hva := ((hi.voters _ _ p hpa).2 _ _ hasked hta hna).1
  have hvb := ((hi.voters _ _ p hpb).2 _ _ hbsked htb hnb).1
  rw [hkey] at hvb
  exact Option.some.inj (hva.symm.trans hvb)

/-- CORRECT: in a cluster of an odd number of nodes, at least three, no safe run reaches a moment
    with two unreleased, unexpired leases of one key. -/
theorem active_le_one (n : ℕ) (hodd : n % 2 = 1) (h3 : 3 ≤ n) {ops : List (Op n)}
    (hg : Guarded step Safe (start n) ops) (key : Bytes) :
    ((run step (start n) ops).active key).length ≤ 1 := by
  have hi : Inv (run step (start n) ops) := run_invariant Inv inv_step (inv_start n) hg
  have hnodup : (((run step (start n) ops).active key).map callOf).Nodup :=
    hi.once.sublist (List.filter_sublist.map callOf)
  have hsame : ∀ a ∈ (run step (start n) ops).active key,
      ∀ b ∈ (run step (start n) ops).active key, callOf a = callOf b :=
    fun a ha b hb => hi.callOf_eq hodd h3 ha hb
  match hl : (run step (start n) ops).active key with
  | [] => exact Nat.zero_le 1
  | [a] => exact le_rfl
  | a :: b :: rest =>
    rw [hl] at hnodup hsame
    have hne : callOf a ≠ callOf b := by
      rw [List.map_cons, List.map_cons, List.nodup_cons] at hnodup
      exact fun h => hnodup.1 (h ▸ List.mem_cons_self ..)
    exact absurd (hsame a (by simp) b (by simp)) hne

/-- INVARIANT: every lease in force stands with its expiry in the tables of a majority. -/
theorem active_granted_by_quorum (n : ℕ) {ops : List (Op n)}
    (hg : Guarded step Safe (start n) ops) (key : Bytes) :
    ∀ l ∈ (run step (start n) ops).active key, ∃ voters : Finset (Fin n),
      majorityQuorum (n - 1) ≤ voters.card ∧
        ∀ p ∈ voters, ((run step (start n) ops).nodes p).granted.get key = some l.expiry := by
  have hi : Inv (run step (start n) ops) := run_invariant Inv inv_step (inv_start n) hg
  intro l hl
  simp only [active, List.mem_filter, decide_eq_true_eq] at hl
  obtain ⟨hl, rfl, hkept, hnow⟩ := hl
  obtain ⟨hasked, hquorum⟩ := hi.returned l hl
  exact ⟨_, hquorum, fun p hp => ((hi.voters _ _ p hp).2 _ _ hasked hnow hkept).2⟩

/-! ### Concrete runs -/

/-- A lease message about the key `k`. -/
def leaseMsg (type : MsgType) (i j : Fin n) (leaseID : ℕ) (expiry : Int) : RPC (Fin n) :=
  ⟨i, j, type, LeasePayload.encode ⟨leaseID, [107], expiry⟩⟩

/-- The request of `i` reaches `p`, whose answer is counted. -/
def vote (i p : Fin n) (leaseID : ℕ) (expiry : Int) : List (Op n) :=
  [.deliver (leaseMsg .leaseRequest i p leaseID expiry),
    .deliver (leaseMsg .leaseGrant p i leaseID expiry), .receive i leaseID]

/-- Node 0 gets a lease from both peers while node 1 gets one vote, is denied the other and times
    out. -/
def contendedRun : List (Op 3) :=
  [.acquire 0 [107] 10 [], .acquire 1 [107] 10 []] ++ vote 0 1 1 10 ++ vote 0 2 1 10 ++
  [.finish 0 1] ++ vote 1 0 1 10 ++
  [.deliver (leaseMsg .leaseRequest 1 2 1 10), .deliver (leaseMsg .leaseGrant 2 1 1 0),
    .receive 1 1, .tick 5, .timeout 1 1]

theorem active_after_contendedRun :
    Guarded step Safe (start 3) contendedRun ∧
    ((run step (start 3) contendedRun).active [107]).map callOf = [(0, 1)] ∧
    ((run step (start 3) contendedRun).active [107]).length ≤ 1 := by
  have hg : Guarded step Safe (start 3) contendedRun := by decide +kernel
  refine ⟨hg, by decide +kernel, ?_⟩
  exact active_le_one 3 rfl le_rfl hg [107]

theorem granted_after_contendedRun :
    ∃ l ∈ (run step (start 3) contendedRun).active [107], ∃ voters : Finset (Fin 3),
      2 ≤ voters.card ∧ ∀ p ∈ voters,
        ((run step (start 3) contendedRun).nodes p).granted.get [107] = some l.expiry := by
  have hsome : ∃ l, l ∈ (run step (start 3) contendedRun).active [107] :=
    List.exists_mem_of_length_pos (by decide +kernel)
  obtain ⟨l, hl⟩ := hsome
  exact ⟨l, hl, active_granted_by_quorum 3 (by decide +kernel) [107] l hl⟩

def evenRun : List (Op 2) :=
  [.acquire 0 [107] 10 []] ++ vote 0 1 1 10 ++ [.finish 0 1, .acquire 1 [107] 10 []] ++
  vote 1 0 1 10 ++ [.finish 1 1]

def duplicateRun : List (Op 3) :=
  [.acquire 0 [107] 10 []] ++ vote 0 1 1 10 ++
  [.deliver (leaseMsg .leaseGrant 1 0 1 10), .receive 0 1, .finish 0 1, .acquire 2 [107] 10 []] ++
  vote 2 0 1 10 ++ [.deliver (leaseMsg .leaseGrant 0 2 1 10), .receive 2 1, .finish 2 1]

def staleReleaseRun : List (Op 3) :=
  [.acquire 0 [107] 10 []] ++ vote 0 1 1 10 ++ vote 0 2 1 10 ++
  [.finish 0 1, .releaseByKey 0 [107] 1 [], .deliver (leaseMsg .leaseRelease 0 1 1 0),
    .deliver (leaseMsg .leaseRelease 0 2 1 0), .acquire 1 [107] 10 []] ++
  vote 1 0 1 10 ++ vote 1 2 1 10 ++
  [.finish 1 1, .deliver (leaseMsg .leaseRelease 0 2 1 0), .acquire 0 [107] 10 []] ++
  vote 0 1 2 10 ++ vote 0 2 2 10 ++ [.finish 0 2]

def singleRun : List (Op 1) :=
  [.acquire 0 [107] 10 [], .finish 0 1, .acquire 0 [107] 10 [], .finish 0 2]

theorem active_two_leases :
    ((run step (start 2) evenRun).active [107]).map callOf = [(0, 1), (1, 1)] ∧
    ((run step (start 3) duplicateRun).active [107]).map callOf = [(0, 1), (2, 1)] ∧
    ((run step (start 3) staleReleaseRun).active [107]).map callOf = [(1, 1), (0, 2)] ∧
    ((run step (start 1) singleRun).active [107]).map callOf = [(0, 1), (0, 2)] := by
  decide +kernel

end Cluster

end Momo.LeaseCluster

import Momo.Common.Base
import Momo.Schemes.Run

/-! @momo src/storage/durability.go, src/storage/local_blobstore.go
    scheme:concurrent calls on one barrier

    The group-commit barrier. A `Commit` records its hash in the pending batch; the first one to
    find the flush flag down raises it, drains the batch and syncs the directory of every hash in
    it. The other ones return at once. -/

namespace Momo.GroupCommit

/-- The directory of a blob below the base: `blobs`, and three levels of two characters for a hash
    of six characters or more (`filepath.Dir(blobPath(hash))`). -/
def blobDir (hash : Bytes) : List Bytes :=
  if hash.length < 6 then [] else [hash.take 2, (hash.drop 2).take 2, (hash.drop 4).take 2]

/-- A completed `SyncDir`: the hash it was called for, the calls whose hashes were in its batch, and
    its failure. -/
structure SyncEvent where
  hash : Bytes
  members : List ℕ
  fault : Option Err
  deriving DecidableEq

/-- A call of `Commit`: its hash, the number of syncs that were complete when it recorded, and
    where it stands. -/
inductive Phase
  | idle
  | won (hash : Bytes) (since : ℕ)
  | lost (hash : Bytes) (since : ℕ)
  | syncing (hash : Bytes) (since : ℕ) (members : List ℕ) (rest : List Bytes)
  | returned (hash : Bytes) (since : ℕ) (result : Except Err Unit)
  deriving DecidableEq

/-- A `groupCommitBarrier` and the calls on it. `joined` (the calls of the pending batch) and `log`
    (the syncs so far) are there to speak about; no step reads them. -/
structure State where
  pending : List Bytes := []
  flushing : Bool := false
  joined : List ℕ := []
  calls : ℕ → Phase := fun _ => .idle
  log : List SyncEvent := []

/-- The steps of the calls: the critical sections of `record` and `drain`, one `SyncDir` with its
    outcome, and the return. The order in which a drained map is walked is part of the step. -/
inductive Op
  | record (call : ℕ) (hash : Bytes)
  | drain (call : ℕ) (order : List Bytes)
  | sync (call : ℕ) (fault : Option Err)
  | ret (call : ℕ)

namespace State

def move (s : State) (c : ℕ) (p : Phase) : State := { s with calls := Function.update s.calls c p }

/-- `g.record(hash)`: the flag is raised, and the one who found it down has won. -/
def record (s : State) (c : ℕ) (hash : Bytes) : State :=
  move { s with pending := s.pending.insert hash, flushing := true, joined := c :: s.joined } c
    (if s.flushing then .lost hash s.log.length else .won hash s.log.length)

/-- `g.drain()`: the batch is taken and the flag is lowered before anything is synced. -/
def drain (s : State) (c : ℕ) (hash : Bytes) (since : ℕ) (order : List Bytes) : State :=
  move { s with pending := [], flushing := false, joined := [] } c
    (.syncing hash since s.joined order)

def sync (s : State) (c : ℕ) (hash : Bytes) (since : ℕ) (members : List ℕ) (h : Bytes)
    (rest : List Bytes) (fault : Option Err) : State :=
  move { s with log := s.log ++ [⟨h, members, fault⟩] } c
    (match fault with
      | none => .syncing hash since members rest
      | some e => .returned hash since
          (.error (.wrap "durability group-commit barrier failed for %s: %w" [.str h] e)))

def step (s : State) : Op → State
  | .record c hash => if s.calls c = .idle then s.record c hash else s
  | .drain c order =>
    match s.calls c with
    | .won hash since => if order.Perm s.pending then s.drain c hash since order else s
    | _ => s
  | .sync c fault =>
    match s.calls c with
    | .syncing hash since members (h :: rest) => s.sync c hash since members h rest fault
    | _ => s
  | .ret c =>
    match s.calls c with
    | .lost hash since => s.move c (.returned hash since (.ok ()))
    | .syncing hash since _ [] => s.move c (.returned hash since (.ok ()))
    | _ => s

/-! ### What a commit promises -/

/-- A sync of the directory of `hash` has succeeded since there were `since` of them. -/
def Covered (s : State) (hash : Bytes) (since : ℕ) : Prop :=
  ∃ e ∈ s.log.drop since, e.fault = none ∧ blobDir e.hash = blobDir hash

/-- The promise: nil only after a successful sync, and an error to every call of a batch in which a
    sync failed. -/
structure Kept (s : State) : Prop where
  covered : ∀ c hash since, s.calls c = .returned hash since (.ok ()) → s.Covered hash since
  reported : ∀ e ∈ s.log, e.fault ≠ none → ∀ c ∈ e.members, ∀ hash since result,
    s.calls c = .returned hash since result → ∃ err, result = .error err

def Alone (s : State) : Op → Prop
  | .record _ _ => s.flushing = false
  | _ => True

instance (s : State) (o : Op) : Decidable (s.Alone o) := by
  cases o <;> unfold Alone <;> infer_instance

/-! ### The invariant -/

structure Inv (s : State) : Prop where
  empty : s.flushing = false → s.pending = [] ∧ s.joined = []
  won : ∀ c hash since, s.calls c = .won hash since →
    s.pending = [hash] ∧ s.joined = [c] ∧ since ≤ s.log.length
  lost : ∀ c hash since, s.calls c ≠ .lost hash since
  syncing : ∀ c hash since members rest, s.calls c = .syncing hash since members rest →
    members = [c] ∧ since ≤ s.log.length ∧ (rest = [hash] ∨ (rest = [] ∧ s.Covered hash since))
  returned : ∀ c hash since, s.calls c = .returned hash since (.ok ()) → s.Covered hash since
  failed : ∀ e ∈ s.log, e.fault ≠ none → ∃ c hash since err,
    e.members = [c] ∧ s.calls c = .returned hash since (.error err)

theorem inv_start : Inv {} where
  empty _ := ⟨rfl, rfl⟩
  won _ _ _ h := by cases h
  lost _ _ _ h := by cases h
  syncing _ _ _ _ _ h := by cases h
  returned _ _ _ h := by cases h
  failed _ h := by cases h

theorem move_self (s : State) (c : ℕ) (p : Phase) : (s.move c p).calls c = p :=
  Function.update_self ..

variable {c : ℕ}

theorem move_ne (s : State) {c' : ℕ} (p : Phase) (h : c' ≠ c) :
    (s.move c p).calls c' = s.calls c' := Function.update_of_ne h ..

variable {s : State} {hash : Bytes} {since : ℕ}

theorem Covered.append (h : s.Covered hash since) (e : SyncEvent) :
    Covered { s with log := s.log ++ [e] } hash since := by
  obtain ⟨e', he', hok, hdir⟩ := h
  refine ⟨e', ?_, hok, hdir⟩
  simp only [List.drop_append]
  exact List.mem_append_left _ he'

theorem Inv.append (hi : Inv s) {e : SyncEvent} (he : e.fault ≠ none → ∃ c hash since err,
      e.members = [c] ∧ s.calls c = .returned hash since (.error err)) :
    Inv { s with log := s.log ++ [e] } where
  empty := hi.empty
  won c hash since h := by
    obtain ⟨hp, hj, hsince⟩ := hi.won c hash since h
    refine ⟨hp, hj, ?_⟩
    simp only [List.length_append]
    omega
  lost := hi.lost
  syncing c hash since members rest h := by
    obtain ⟨hm, hsince, hrest⟩ := hi.syncing c hash since members rest h
    refine ⟨hm, ?_, hrest.imp_right (fun hdone => ⟨hdone.1, hdone.2.append e⟩)⟩
    simp only [List.length_append]
    omega
  returned c hash since h := (hi.returned c hash since h).append e
  failed e' he' hfault := by
    rcases List.mem_append.mp he' with hold | hnew
    · exact hi.failed e' hold hfault
    · rw [List.mem_singleton] at hnew
      subst hnew
      exact he hfault

theorem Inv.move (hi : Inv s) {p : Phase}
    (hopen : ∀ hash since result, s.calls c ≠ .returned hash since result)
    (hwon : ∀ hash since, p = .won hash since →
      s.pending = [hash] ∧ s.joined = [c] ∧ since ≤ s.log.length)
    (hlost : ∀ hash since, p ≠ .lost hash since)
    (hsync : ∀ hash since members rest, p = .syncing hash since members rest →
      members = [c] ∧ since ≤ s.log.length ∧ (rest = [hash] ∨ (rest = [] ∧ s.Covered hash since)))
    (hret : ∀ hash since, p = .returned hash since (.ok ()) → s.Covered hash since) :
    Inv (s.move c p) where
  empty := hi.empty
  won c' hash since h := by
    rcases eq_or_ne c' c with rfl | hne
    · rw [move_self] at h
      exact hwon hash since h
    · rw [move_ne s p hne] at h
      exact hi.won c' hash since h
  lost c' hash since h := by
    rcases eq_or_ne c' c with rfl | hne
    · rw [move_self] at h
      exact hlost hash since h
    · rw [move_ne s p hne] at h
      exact hi.lost c' hash since h
  syncing c' hash since members rest h := by
    rcases eq_or_ne c' c with rfl | hne
    · rw [move_self] at h
      exact hsync hash since members rest h
    · rw [move_ne s p hne] at h
      exact hi.syncing c' hash since members rest h
  returned c' hash since h := by
    rcases eq_or_ne c' c with rfl | hne
    · rw [move_self] at h
      exact hret hash since h
    · rw [move_ne s p hne] at h
      exact hi.returned c' hash since h
  failed e he hfault := by
    obtain ⟨c', hash, since, err, hmembers, hcall⟩ := hi.failed e he hfault
    have hne : c' ≠ c := by
      rintro rfl
      exact hopen hash since _ hcall
    exact ⟨c', hash, since, err, hmembers, (move_ne s p hne).trans hcall⟩

theorem inv_record (hi : Inv s) (hidle : s.calls c = .idle) (halone : s.flushing = false)
    (hash : Bytes) : Inv (s.record c hash) := by
  obtain ⟨hpending, hjoined⟩ := hi.empty halone
  have hnone : ∀ c' hash' since, s.calls c' ≠ .won hash' since := by
    intro c' hash' since h
    have := (hi.won c' hash' since h).1
    rw [hpending] at this
    cases this
  have hbase : Inv { s with pending := [hash], flushing := true, joined := [c] } :=
    { hi with
      empty := fun h => by cases h
      won := fun c' hash' since h => absurd h (hnone c' hash' since) }
  have hstep : s.record c hash =
      move { s with pending := [hash], flushing := true, joined := [c] } c
        (.won hash s.log.length) := by
    simp [record, halone, hpending, hjoined]
  rw [hstep]
  refine hbase.move ?_ ?_ ?_ ?_ ?_
  · intro _ _ _ h
    rw [show s.calls c = _ from h] at hidle
    cases hidle
  · intro hash' since h
    cases h
    exact ⟨rfl, rfl, le_rfl⟩
  · intro _ _ h
    cases h
  · intro _ _ _ _ h
    cases h
  · intro _ _ h
    cases h

theorem inv_drain (hi : Inv s) {order : List Bytes} (hcall : s.calls c = .won hash since)
    (horder : order.Perm s.pending) : Inv (s.drain c hash since order) := by
  obtain ⟨hpending, hjoined, hsince⟩ := hi.won c hash since hcall
  rw [hpending, List.perm_singleton] at horder
  have hmove : Inv (s.move c (.syncing hash since s.joined order)) := by
    refine hi.move ?_ ?_ ?_ ?_ ?_
    · intro _ _ _ h
      rw [hcall] at h
      cases h
    · intro _ _ h
      cases h
    · intro _ _ h
      cases h
    · intro _ _ _ _ h
      cases h
      exact ⟨hjoined, hsince, .inl horder⟩
    · intro _ _ h
      cases h
  -- no other call has won
  exact
    { hmove with
      empty := fun _ => ⟨rfl, rfl⟩
      won := fun c' hash' since' h => by
        have hsame : s.joined = [c'] := (hmove.won c' hash' since' h).2.1
        rw [hjoined] at hsame
        cases hsame
        have hphase : (s.move c (.syncing hash since s.joined order)).calls c = .won hash' since' := h
        rw [move_self] at hphase
        cases hphase }

theorem inv_sync (hi : Inv s) {h : Bytes} {members : List ℕ} {rest : List Bytes}
    (hcall : s.calls c = .syncing hash since members (h :: rest)) (fault : Option Err) :
    Inv (s.sync c hash since members h rest fault) := by
  obtain ⟨hmembers, hsince, hbatch | ⟨hbatch, -⟩⟩ := hi.syncing c hash since members _ hcall
  swap
  · cases hbatch
  obtain ⟨rfl, rfl⟩ := List.cons.inj hbatch
  have hopen : ∀ hash' since' result, s.calls c ≠ .returned hash' since' result := by
    intro _ _ _ h'
    rw [hcall] at h'
    cases h'
  cases fault with
  | none =>
    -- the log grows first, and covers the hash
    have hgrown : Inv { s with log := s.log ++ [⟨h, members, none⟩] } :=
      hi.append (fun hfault => absurd rfl hfault)
    refine hgrown.move hopen ?_ ?_ ?_ ?_
    · intro _ _ h'
      cases h'
    · intro _ _ h'
      cases h'
    · intro _ _ _ _ h'
      cases h'
      refine ⟨hmembers, ?_, .inr ⟨rfl, ⟨h, members, none⟩, ?_, rfl, rfl⟩⟩
      · simp only [List.length_append]
        omega
      · simp only [List.drop_append_of_le_length hsince]
        exact List.mem_append_right _ (List.mem_singleton.mpr rfl)
    · intro _ _ h'
      cases h'
  | some e =>
    -- the winner is at its end first, with an error
    have hmoved : Inv (s.move c (.returned h since
        (.error (.wrap "durability group-commit barrier failed for %s: %w" [.str h] e)))) := by
      refine hi.move hopen ?_ ?_ ?_ ?_
      · intro _ _ h'
        cases h'
      · intro _ _ h'
        cases h'
      · intro _ _ _ _ h'
        cases h'
      · intro _ _ h'
        cases h'
    exact hmoved.append (fun _ => ⟨c, h, since, _, hmembers, move_self s c _⟩)

theorem inv_ret (hi : Inv s) {members : List ℕ} (hcall : s.calls c = .syncing hash since members [])
     :
    Inv (s.move c (.returned hash since (.ok ()))) := by
  obtain ⟨-, -, hbatch | ⟨-, hcovered⟩⟩ := hi.syncing c hash since members _ hcall
  · cases hbatch
  refine hi.move ?_ ?_ ?_ ?_ ?_
  · intro _ _ _ h
    rw [hcall] at h
    cases h
  · intro _ _ h
    cases h
  · intro _ _ h
    cases h
  · intro _ _ _ _ h
    cases h
  · intro _ _ h
    cases h
    exact hcovered

theorem inv_step (s : State) (o : Op) (hi : Inv s) (halone : s.Alone o) : Inv (s.step o) := by
  cases o with
  | record c hash =>
    by_cases hidle : s.calls c = .idle
    · simp only [step, if_pos hidle]
      exact inv_record hi hidle halone hash
    · simp only [step, if_neg hidle]
      exact hi
  | drain c order =>
    cases hcall : s.calls c with
    | won hash since =>
      simp only [step, hcall]
      split_ifs with horder
      · exact inv_drain hi hcall horder
      · exact hi
    | idle | lost | syncing | returned =>
      simp only [step, hcall]
      exact hi
  | sync c fault =>
    cases hcall : s.calls c with
    | syncing hash since members rest =>
      cases rest with
      | nil =>
        simp only [step, hcall]
        exact hi
      | cons h rest =>
        simp only [step, hcall]
        exact inv_sync hi hcall fault
    | idle | lost | won | returned =>
      simp only [step, hcall]
      exact hi
  | ret c =>
    cases hcall : s.calls c with
    | lost hash since => exact absurd hcall (hi.lost c hash since)
    | syncing hash since members rest =>
      cases rest with
      | nil =>
        simp only [step, hcall]
        exact inv_ret hi hcall
      | cons h rest =>
        simp only [step, hcall]
        exact hi
    | idle | won | returned =>
      simp only [step, hcall]
      exact hi

theorem Inv.kept (hi : Inv s) : Kept s where
  covered := hi.returned
  reported e he hfault c hc hash since result hcall := by
    obtain ⟨c', hash', since', err, hmembers, hcall'⟩ := hi.failed e he hfault
    rw [hmembers, List.mem_singleton] at hc
    subst hc
    rw [hcall] at hcall'
    cases hcall'
    exact ⟨err, rfl⟩

/-- CORRECT: in every interleaving in which calls record only while the flag is down, every state
    keeps the promise, whatever the syncs answer. -/
theorem kept_of_alone (ops : List Op) (hg : Guarded step Alone {} ops) : Kept (run step {} ops) :=
  (run_invariant Inv inv_step inv_start hg).kept

def wholeCall (c : ℕ) (hash : Bytes) (fault : Option Err) : List Op :=
  [.record c hash, .drain c [hash], .sync c fault, .ret c]

/-- Two calls one after the other, and a third one between the drain and the sync of a fourth. -/
def overlappingRun : List Op :=
  wholeCall 0 [97] none ++ wholeCall 1 [98] none ++
    [.record 2 [97], .drain 2 [[97]], .record 3 [98], .sync 2 none, .ret 2, .drain 3 [[98]],
      .sync 3 (some (.sys .eio))]

theorem kept_after_overlappingRun :
    Guarded step Alone {} overlappingRun ∧ Kept (run step {} overlappingRun) ∧
      (run step {} overlappingRun).calls 2 = .returned [97] 2 (.ok ()) := by
  have hg : Guarded step Alone {} overlappingRun := by decide +kernel
  exact ⟨hg, kept_of_alone overlappingRun hg, by decide +kernel⟩

/-- Call 1 joins the batch of call 0 and returns; then the batch is drained and its sync fails. -/
def joinedRun : List Op :=
  [.record 0 [97], .record 1 [98], .ret 1, .drain 0 [[98], [97]], .sync 0 (some (.sys .eio))]

/-- Call 1 has answered nil before any sync, and its batch has failed; the hash of call 0 was never
    synced either. -/
theorem joined_call_unsynced :
    (run step {} (joinedRun.take 3)).calls 1 = .returned [98] 0 (.ok ()) ∧
    (run step {} (joinedRun.take 3)).log = [] ∧
    (run step {} joinedRun).calls 1 = .returned [98] 0 (.ok ()) ∧
    (run step {} joinedRun).log = [⟨[98], [1, 0], some (.sys .eio)⟩] := by
  decide +kernel

end State

end Momo.GroupCommit

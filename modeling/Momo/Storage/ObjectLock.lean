import Momo.Schemes.Run
import Momo.Storage.Versioning

/-! @momo src/storage/objectlock.go, src/storage/versioning.go
    scheme:history invariant of a lock

    Object locks. A lock record holds a retention (mode and deadline) and a legal hold; one function
    reads, merges, validates, checks and writes it, and `DeleteVersion` asks it first. While a
    retention is active a change may only tighten it. -/

namespace Momo

/-- A lock state as a caller asks for it; a mode of `none` is any text that is not a mode. -/
structure LockRequest where
  mode : Option LockMode
  retainUntil : Int
  legalHoldOn : Bool
  deriving DecidableEq

def validateLockState (next : LockRequest) : Except Err ObjectLockState :=
  match next.mode with
  | none => .error (.sys .einval)
  | some mode =>
    if mode ≠ .unset ∧ next.retainUntil ≤ 0 then .error (.sys .einval)
    else .ok ⟨mode, next.retainUntil, next.legalHoldOn⟩

def checkLockTighten (now : Int) (existing next : ObjectLockState) (bypassGovernance : Bool) :
    Except Err Unit :=
  if now < existing.retainUntil then
    match existing.mode with
    | .COMPLIANCE =>
      if next.mode = .GOVERNANCE ∨
          (next.mode = .COMPLIANCE ∧ next.retainUntil < existing.retainUntil) ∨
          (next.mode = .unset ∧ next.retainUntil = 0) then .error (.sys .eperm)
      else .ok ()
    | .GOVERNANCE =>
      if bypassGovernance = false ∧ next.retainUntil < existing.retainUntil then .error (.sys .eperm)
      else .ok ()
    | .unset => .ok ()
  else .ok ()

namespace CASStore

variable {β : Type}

def mutateVersionLock (s : CASStore β) (bucket key versionID : Bytes) (now : Int)
    (bypassGovernance : Bool) (mutate : ObjectLockState → LockRequest) :
    Except Err Unit × CASStore β :=
  if bucket = [] ∨ key = [] ∨ versionID = [] then (.error (.sys .einval), s)
  else
    let raw := s.db.lockState.get (versionKey bucket key versionID)
    if raw = none ∧ s.db.objectVersions.get (versionKey bucket key versionID) = none then
      (.error (.sys .enoent), s)
    else
      let existing := raw.getD {}
      let tx : Except Err (Bucket ObjectLockState) := do
        let next ← validateLockState (mutate existing)
        let _ ← checkLockTighten now existing next bypassGovernance
        s.db.lockState.put (versionKey bucket key versionID) next
      match tx with
      | .error e => (.error e, s)
      | .ok locks => (.ok (), { s with db := { s.db with lockState := locks } })

def putVersionLock (s : CASStore β) (bucket key versionID : Bytes) (now : Int) (state : LockRequest)
    (bypassGovernance : Bool) : Except Err Unit × CASStore β :=
  s.mutateVersionLock bucket key versionID now bypassGovernance (fun _ => state)

def putVersionRetention (s : CASStore β) (bucket key versionID : Bytes) (now : Int)
    (mode : Option LockMode) (retainUntil : Int) (bypassGovernance : Bool) :
    Except Err Unit × CASStore β :=
  s.mutateVersionLock bucket key versionID now bypassGovernance
    (fun st => ⟨mode, retainUntil, st.legalHoldOn⟩)

def putVersionLegalHold (s : CASStore β) (bucket key versionID : Bytes) (now : Int) (on : Bool) :
    Except Err Unit × CASStore β :=
  s.mutateVersionLock bucket key versionID now false
    (fun st => ⟨some st.mode, st.retainUntil, on⟩)

/-! ### What a change can do -/

theorem mutateVersionLock_cases (s : CASStore β) (bucket key versionID : Bytes) (now : Int)
    (bypass : Bool) (mutate : ObjectLockState → LockRequest) :
    (∃ e, s.mutateVersionLock bucket key versionID now bypass mutate = (.error e, s)) ∨
      ∃ existing next locks,
        (s.db.lockState.get (versionKey bucket key versionID)).getD {} = existing ∧
        validateLockState (mutate existing) = .ok next ∧
        checkLockTighten now existing next bypass = .ok () ∧
        s.db.lockState.put (versionKey bucket key versionID) next = .ok locks ∧
        s.mutateVersionLock bucket key versionID now bypass mutate =
          (.ok (), { s with db := { s.db with lockState := locks } }) := by
  unfold mutateVersionLock
  dsimp only
  split_ifs
  · exact Or.inl ⟨_, rfl⟩
  · exact Or.inl ⟨_, rfl⟩
  · split
    · exact Or.inl ⟨_, rfl⟩
    · rename_i locks htx
      obtain ⟨next, hval, hrest⟩ := bind_eq_ok.mp htx
      obtain ⟨_, htight, hput⟩ := bind_eq_ok.mp hrest
      exact Or.inr ⟨_, next, locks, rfl, hval, htight, hput, rfl⟩

end CASStore

theorem validateLockState_eq_ok {next : LockRequest} {state : ObjectLockState}
    (h : validateLockState next = .ok state) :
    next = ⟨some state.mode, state.retainUntil, state.legalHoldOn⟩ := by
  obtain ⟨mode, retainUntil, legalHoldOn⟩ := next
  cases mode with
  | none => cases h
  | some mode =>
    unfold validateLockState at h
    simp only at h
    split_ifs at h
    cases h
    rfl

/-! ### Retained versions -/

/-- A retention at least until `t`: a COMPLIANCE one if `strict`. -/
structure ObjectLockState.Retains (strict : Bool) (t : Int) (l : ObjectLockState) : Prop where
  mode : l.mode ≠ .unset
  compliance : strict = true → l.mode = .COMPLIANCE
  deadline : t ≤ l.retainUntil

/-- A data version under the key `k`, with a retention at least until `t`. -/
structure CASStore.Retained {β : Type} (strict : Bool) (k : Bytes) (t : Int) (s : CASStore β) :
    Prop where
  version : ∃ r, s.db.objectVersions.get k = some r ∧ r.isDeleteMarker = false
  lock : ∃ l, s.db.lockState.get k = some l ∧ l.Retains strict t

/-- A request that leaves out the mode and still passes the checks of an active retention. -/
def DropsMode (existing : ObjectLockState) (mode : Option LockMode) (retainUntil : Int) : Prop :=
  mode = some .unset ∧
    match existing.mode with
    | .COMPLIANCE => retainUntil ≠ 0
    | .GOVERNANCE => existing.retainUntil ≤ retainUntil
    | .unset => True

instance (existing : ObjectLockState) (mode : Option LockMode) (retainUntil : Int) :
    Decidable (DropsMode existing mode retainUntil) := by
  unfold DropsMode
  cases existing.mode <;> infer_instance

theorem lockDenies_of_retains {locks : Bucket ObjectLockState} {bucket key versionID : Bytes}
    {l : ObjectLockState} {strict bypass : Bool} {t now : Int}
    (hget : locks.get (versionKey bucket key versionID) = some l) (hl : l.Retains strict t)
    (hbypass : strict = false → bypass = false) (hnow : now < t) :
    lockDenies locks bucket key versionID now bypass = true := by
  have hactive : now < l.retainUntil := lt_of_lt_of_le hnow hl.deadline
  have hlocked : l.lockedAt now = true := by
    unfold ObjectLockState.lockedAt
    split_ifs with hhold hmode
    · rfl
    · exact absurd hmode hl.mode
    · exact decide_eq_true hactive
  unfold lockDenies
  rw [hget]
  simp only [hlocked, if_true]
  cases strict with
  | true => simp [hl.compliance rfl]
  | false => simp [hbypass rfl]

theorem ObjectLockState.Retains.tighten {existing next : ObjectLockState} {strict bypass : Bool}
    {t now : Int} (hl : existing.Retains strict t) (hnow : now < t)
    (hbypass : strict = false → bypass = false)
    (hok : checkLockTighten now existing next bypass = .ok ())
    (hkeep : ¬DropsMode existing (some next.mode) next.retainUntil) : next.Retains strict t := by
  have hactive : now < existing.retainUntil := lt_of_lt_of_le hnow hl.deadline
  have hdeadline := hl.deadline
  unfold checkLockTighten at hok
  rw [if_pos hactive] at hok
  unfold DropsMode at hkeep
  cases hmode : existing.mode with
  | unset => exact absurd hmode hl.mode
  | COMPLIANCE =>
    simp only [hmode] at hok hkeep
    split_ifs at hok with hweak
    push Not at hweak
    obtain ⟨hgov, hshort, hclear⟩ := hweak
    have hnext : next.mode = .COMPLIANCE := by
      cases hn : next.mode with
      | unset => exact absurd ⟨congrArg some hn, hclear hn⟩ hkeep
      | COMPLIANCE => rfl
      | GOVERNANCE => exact absurd hn hgov
    exact ⟨by simp [hnext], fun _ => hnext, le_trans hdeadline (hshort hnext)⟩
  | GOVERNANCE =>
    have hstrict : strict = false := by
      cases strict with
      | false => rfl
      | true => exact absurd (hl.compliance rfl) (by simp [hmode])
    simp only [hmode] at hok hkeep
    rw [hbypass hstrict] at hok
    split_ifs at hok with hweak
    have hlong : existing.retainUntil ≤ next.retainUntil := by
      by_contra hlt
      exact hweak ⟨rfl, not_le.mp hlt⟩
    refine ⟨fun hn => hkeep ⟨congrArg some hn, hlong⟩, fun h => ?_, le_trans hdeadline hlong⟩
    rw [hstrict] at h
    cases h

/-! ### Runs -/

inductive LockOp
  | putVersionLock (bucket key versionID : Bytes) (now : Int) (state : LockRequest) (bypass : Bool)
  | putVersionRetention (bucket key versionID : Bytes) (now : Int) (mode : Option LockMode)
      (retainUntil : Int) (bypass : Bool)
  | putVersionLegalHold (bucket key versionID : Bytes) (now : Int) (on : Bool)
  | deleteVersion (bucket key versionID : Bytes) (now : Int) (bypass : Bool)

def LockOp.now : LockOp → Int
  | .putVersionLock _ _ _ now _ _ => now
  | .putVersionRetention _ _ _ now _ _ _ => now
  | .putVersionLegalHold _ _ _ now _ => now
  | .deleteVersion _ _ _ now _ => now

def LockOp.bypass : LockOp → Bool
  | .putVersionLock _ _ _ _ _ bypass => bypass
  | .putVersionRetention _ _ _ _ _ _ bypass => bypass
  | .putVersionLegalHold _ _ _ _ _ => false
  | .deleteVersion _ _ _ _ bypass => bypass

namespace CASStore

variable {β : Type}

def lockStep (s : CASStore β) : LockOp → CASStore β
  | .putVersionLock bucket key versionID now state bypass =>
    (s.putVersionLock bucket key versionID now state bypass).2
  | .putVersionRetention bucket key versionID now mode retainUntil bypass =>
    (s.putVersionRetention bucket key versionID now mode retainUntil bypass).2
  | .putVersionLegalHold bucket key versionID now on =>
    (s.putVersionLegalHold bucket key versionID now on).2
  | .deleteVersion bucket key versionID now bypass =>
    (s.deleteVersion bucket key versionID now bypass).2

/-- The condition under which a call leaves the retained version `k` alone: it does not drop the
    mode of its lock, and no record that the call may promote is written over it. -/
def LockSafe (k : Bytes) (s : CASStore β) : LockOp → Prop
  | .putVersionLock bucket key versionID _ state _ =>
    versionKey bucket key versionID = k →
      ¬DropsMode ((s.db.lockState.get k).getD {}) state.mode state.retainUntil
  | .putVersionRetention bucket key versionID _ mode retainUntil _ =>
    versionKey bucket key versionID = k →
      ¬DropsMode ((s.db.lockState.get k).getD {}) mode retainUntil
  | .putVersionLegalHold .. => True
  | .deleteVersion bucket key _ _ _ =>
    ∀ e ∈ s.db.objectVersions.map.entries, versionPrefix bucket key <+: e.1 →
      versionKey bucket key e.2.versionID = k → e.1 = k

instance (k : Bytes) (s : CASStore β) (o : LockOp) : Decidable (s.LockSafe k o) := by
  cases o <;> unfold LockSafe <;> infer_instance

variable {s : CASStore β} {strict : Bool} {k : Bytes} {t : Int}

theorem Retained.mutateVersionLock (hs : s.Retained strict k t) {bucket key versionID : Bytes}
    {now : Int} {bypass : Bool} {mutate : ObjectLockState → LockRequest} (hnow : now < t)
    (hbypass : strict = false → bypass = false)
    (hkeep : ∀ l, s.db.lockState.get k = some l → versionKey bucket key versionID = k →
      ¬DropsMode l (mutate l).mode (mutate l).retainUntil) :
    (s.mutateVersionLock bucket key versionID now bypass mutate).2.Retained strict k t := by
  rcases mutateVersionLock_cases s bucket key versionID now bypass mutate with
    ⟨e, hres⟩ | ⟨existing, next, locks, hold, hval, htight, hput, hres⟩
  · rw [hres]
    exact hs
  · rw [hres]
    refine ⟨hs.version, ?_⟩
    obtain ⟨l, hget, hl⟩ := hs.lock
    obtain ⟨hk, rfl⟩ := Bucket.put_eq_ok.mp hput
    by_cases hkey : versionKey bucket key versionID = k
    · have hexisting : existing = l := by
        rw [← hold, hkey, hget]
        rfl
      subst hexisting
      have hdrop := hkeep existing hget hkey
      rw [validateLockState_eq_ok hval] at hdrop
      refine ⟨next, ?_, hl.tighten hnow hbypass htight hdrop⟩
      subst hkey
      exact Bucket.get_set_self _ _ hk _
    · exact ⟨l, (Bucket.get_set_ne _ hk _ (Ne.symm hkey)).trans hget, hl⟩

theorem Retained.deleteVersion (hs : s.Retained strict k t) {bucket key versionID : Bytes}
    {now : Int} {bypass : Bool} (hnow : now < t) (hbypass : strict = false → bypass = false)
    (hsafe : ∀ e ∈ s.db.objectVersions.map.entries, versionPrefix bucket key <+: e.1 →
      versionKey bucket key e.2.versionID = k → e.1 = k) :
    (s.deleteVersion bucket key versionID now bypass).2.Retained strict k t := by
  obtain ⟨r, hr, hdata⟩ := hs.version
  obtain ⟨l, hget, hl⟩ := hs.lock
  rcases deleteVersion_cases s bucket key versionID now bypass with
    ⟨e, hdel⟩ | ⟨deleted, versions, hdeleted, hfree, hre, hdel⟩
  · rw [hdel]
    exact hs
  · rw [hdel]
    have hne : k ≠ versionKey bucket key versionID := by
      rintro rfl
      obtain rfl : r = deleted := Option.some.inj (hr.symm.trans hdeleted)
      rcases hfree with hmark | hopen
      · rw [hdata] at hmark
        cases hmark
      · rw [lockDenies_of_retains hget hl hbypass hnow] at hopen
        cases hopen
    have hr' : (s.db.objectVersions.del (versionKey bucket key versionID)).get k = some r :=
      (Bucket.get_del_ne _ hne).trans hr
    refine ⟨?_, l, hget, hl⟩
    rcases rePointLatest_cases hre with rfl | ⟨v, next, hk, hnext, rfl⟩
    · exact ⟨r, hr', hdata⟩
    · by_cases hkey : k = versionKey bucket key next.versionID
      · -- The promoted record is written under `k`, so it was found there.
        have hv : versionKey bucket key v ≠ versionKey bucket key versionID := by
          intro heq
          rw [heq, Bucket.get_del_self] at hnext
          cases hnext
        have hstored := (Bucket.get_del_ne _ hv).symm.trans hnext
        have hat : versionKey bucket key v = k :=
          hsafe (versionKey bucket key v, next) ((OMap.mem_entries _).mpr hstored)
            (List.prefix_append _ _) hkey.symm
        obtain rfl : r = next := by
          rw [hat, hr'] at hnext
          exact Option.some.inj hnext
        refine ⟨{ r with isLatest := true }, ?_, hdata⟩
        rw [hkey]
        exact Bucket.get_set_self _ _ hk _
      · exact ⟨r, (Bucket.get_set_ne _ hk _ hkey).trans hr', hdata⟩

theorem retained_step {o : LockOp} (hs : s.Retained strict k t) (hnow : o.now < t)
    (hbypass : strict = false → o.bypass = false) (hsafe : s.LockSafe k o) :
    (s.lockStep o).Retained strict k t := by
  cases o with
  | putVersionLock bucket key versionID now state bypass =>
    refine hs.mutateVersionLock hnow hbypass (fun l hl hkey => ?_)
    have hkeep := hsafe hkey
    rw [hl] at hkeep
    exact hkeep
  | putVersionRetention bucket key versionID now mode retainUntil bypass =>
    refine hs.mutateVersionLock hnow hbypass (fun l hl hkey => ?_)
    have hkeep := hsafe hkey
    rw [hl] at hkeep
    exact hkeep
  | putVersionLegalHold bucket key versionID now on =>
    obtain ⟨l, hl, hret⟩ := hs.lock
    refine hs.mutateVersionLock hnow (fun _ => rfl) (fun l' hl' _ hdrop => ?_)
    obtain rfl : l = l' := Option.some.inj (hl.symm.trans hl')
    exact hret.mode (Option.some.inj hdrop.1)
  | deleteVersion bucket key versionID now bypass => exact hs.deleteVersion hnow hbypass hsafe

/-- CORRECT: in a run whose calls all come before the deadline and meet the condition, a retained
    version is still there and its lock denies deletion at every instant before the deadline;
    without the bypass, unless the retention is a COMPLIANCE one. -/
theorem retained_after_run (s : CASStore β) (strict : Bool) (bucket key versionID : Bytes) (t : Int)
    (hs : s.Retained strict (versionKey bucket key versionID) t) (ops : List LockOp)
    (hbefore : ∀ o ∈ ops, o.now < t ∧ (strict = false → o.bypass = false))
    (hg : Guarded lockStep (LockSafe (versionKey bucket key versionID)) s ops) :
    (∃ r, (run lockStep s ops).db.objectVersions.get (versionKey bucket key versionID) = some r ∧
      r.isDeleteMarker = false) ∧
    ∀ now < t, ∀ bypass, (strict = false → bypass = false) →
      lockDenies (run lockStep s ops).db.lockState bucket key versionID now bypass = true := by
  have hstep : ∀ (s' : CASStore β) (o : LockOp),
      s'.Retained strict (versionKey bucket key versionID) t →
      s'.LockSafe (versionKey bucket key versionID) o ∧ o ∈ ops →
      (s'.lockStep o).Retained strict (versionKey bucket key versionID) t :=
    fun s' o hs' ho => retained_step hs' (hbefore o ho.2).1 (hbefore o ho.2).2 ho.1
  obtain ⟨hversion, l, hget, hl⟩ := run_invariant _ hstep hs hg.and_mem
  exact ⟨hversion, fun now hnow bypass hbypass => lockDenies_of_retains hget hl hbypass hnow⟩

/-! ### Concrete runs -/

def lockedStore (mode : LockMode) : CASStore LocalBlobStore :=
  { cfg := {}
    blobs := {}
    db :=
      { objectVersions := Bucket.empty.set (versionKey [98] [107] [49]) (by decide)
          { versionID := [49], hash := [1], size := 1, timestamp := 5, isLatest := true }
        lockState := Bucket.empty.set (versionKey [98] [107] [49]) (by decide) ⟨mode, 100, false⟩ } }

theorem lockedStore_retained (mode : LockMode) (hmode : mode ≠ .unset) :
    (lockedStore mode).Retained (mode = .COMPLIANCE) (versionKey [98] [107] [49]) 100 := by
  have hk : KeyOk (versionKey [98] [107] [49]) := by decide
  exact ⟨⟨_, Bucket.get_set_self _ _ hk _, rfl⟩, ⟨mode, 100, false⟩, Bucket.get_set_self _ _ hk _,
    hmode, of_decide_eq_true, le_refl _⟩

/-- A longer deadline, a shorter one, an attempt to lift the retention, a hold and a deletion. -/
def tighteningRun : List LockOp :=
  [.putVersionRetention [98] [107] [49] 10 (some .COMPLIANCE) 200 true,
    .putVersionRetention [98] [107] [49] 20 (some .COMPLIANCE) 150 true,
    .putVersionLock [98] [107] [49] 30 ⟨some .unset, 0, false⟩ true,
    .putVersionLegalHold [98] [107] [49] 40 false,
    .deleteVersion [98] [107] [49] 50 true]

theorem retained_after_tighteningRun :
    (∃ r, (run lockStep (lockedStore .COMPLIANCE) tighteningRun).db.objectVersions.get
        (versionKey [98] [107] [49]) = some r ∧ r.isDeleteMarker = false) ∧
      lockDenies (run lockStep (lockedStore .COMPLIANCE) tighteningRun).db.lockState
        [98] [107] [49] 99 true = true := by
  obtain ⟨hversion, hlock⟩ := retained_after_run (lockedStore .COMPLIANCE) true [98] [107] [49] 100
    (lockedStore_retained .COMPLIANCE (by decide)) tighteningRun (by decide) (by decide +kernel)
  exact ⟨hversion, hlock 99 (by decide) true (fun h => by cases h)⟩

def unlockingRun : List LockOp :=
  [.putVersionRetention [98] [107] [49] 10 (some .unset) 100 false,
    .deleteVersion [98] [107] [49] 20 false]

/-- `unlockingRun` takes 80 seconds before the deadline, needs no bypass, and removes a version
    under COMPLIANCE as well as one under GOVERNANCE. -/
theorem retained_version_deleted :
    (∀ mode, mode ≠ .unset →
      (lockedStore mode).Retained (mode = .COMPLIANCE) (versionKey [98] [107] [49]) 100) ∧
    (∀ o ∈ unlockingRun, o.now < 100 ∧ o.bypass = false) ∧
    (run lockStep (lockedStore .COMPLIANCE) unlockingRun).db.objectVersions.get
      (versionKey [98] [107] [49]) = none ∧
    (run lockStep (lockedStore .GOVERNANCE) unlockingRun).db.objectVersions.get
      (versionKey [98] [107] [49]) = none :=
  ⟨lockedStore_retained, by decide, by decide +kernel, by decide +kernel⟩

end CASStore

end Momo

import Momo.Common.KeyRotation

/-! @momo src/common/keyregistry.go | scheme:interleaved transactions

    Concurrent `StoreKey` calls. A call is two transactions: one reads the versions of its purpose,
    the other writes the entry, and any number of others may run in between. -/

namespace Momo

namespace KeyRegistry

open KeyJSON

inductive Phase
  | idle
  | versioned (entry : KeyEntry)
  | returned (result : Except Err Bytes)
  deriving DecidableEq

def Phase.pending : Phase → Option KeyEntry
  | .versioned entry => some entry
  | _ => none

structure Writers (n : ℕ) where
  reg : Bucket Bytes
  phase : Fin n → Phase

namespace Writers

variable {n : ℕ}

def move (w : Writers n) (i : Fin n) (reg : Bucket Bytes) (p : Phase) : Writers n :=
  ⟨reg, Function.update w.phase i p⟩

@[simp] theorem reg_move (w : Writers n) (i : Fin n) (reg : Bucket Bytes) (p : Phase) :
    (w.move i reg p).reg = reg := rfl

@[simp] theorem phase_move_self (w : Writers n) (i : Fin n) (reg : Bucket Bytes) (p : Phase) :
    (w.move i reg p).phase i = p := Function.update_self ..

theorem phase_move_of_ne (w : Writers n) {i j : Fin n} (h : j ≠ i) (reg : Bucket Bytes) (p : Phase) :
    (w.move i reg p).phase j = w.phase j := Function.update_of_ne h ..

theorem phase_move_eq {w : Writers n} {i j : Fin n} {reg : Bucket Bytes} {p q : Phase} :
    (w.move i reg p).phase j = q ↔ j = i ∧ p = q ∨ j ≠ i ∧ w.phase j = q := by
  by_cases hj : j = i
  · subst hj
    simp
  · simp [phase_move_of_ne w hj, hj]

end Writers

section Race

variable [KeyJSON] {n : ℕ} (calls : Fin n → StoreArgs × Stamp)

def writerStep (w : Writers n) (i : Fin n) : Writers n :=
  match w.phase i with
  | .idle =>
    match checkStore (calls i).1 with
    | .error e => w.move i w.reg (.returned (.error e))
    | .ok _ => w.move i w.reg (.versioned
        { draft (calls i).1 (calls i).2 with version := nextVersion w.reg (calls i).1.purpose [] })
  | .versioned entry =>
    match w.reg.put entry.keyID (marshal entry) with
    | .error e => w.move i w.reg (.returned (.error e))
    | .ok reg => w.move i reg (.returned (.ok entry.keyID))
  | .returned _ => w

def begin (reg : Bucket Bytes) : Writers n := ⟨reg, fun _ => .idle⟩

variable {w : Writers n} {i : Fin n}

theorem writerStep_alone (h : w.phase i = .idle) (hcheck : checkStore (calls i).1 = .ok ()) :
    ∃ reg', storeKey w.reg (calls i).1 (calls i).2 = .ok (newKeyID (calls i).2, reg') ∧
      (run (writerStep calls) w [i, i]).reg = reg' ∧
      (run (writerStep calls) w [i, i]).phase i = .returned (.ok (newKeyID (calls i).2)) := by
  refine ⟨_, storeKey_of_check hcheck (calls i).2, ?_⟩
  have hfirst : writerStep calls w i = w.move i w.reg (.versioned
      { draft (calls i).1 (calls i).2 with version := nextVersion w.reg (calls i).1.purpose [] }) := by
    rw [writerStep, h]
    simp only [hcheck]
  have hput := Bucket.put_of_keyOk w.reg (keyOk_newKeyID (calls i).2) (marshal
    { draft (calls i).1 (calls i).2 with version := nextVersion w.reg (calls i).1.purpose [] })
  rw [run_cons, run_cons, run_nil, hfirst, writerStep, Writers.phase_move_self]
  simp only [draft, Writers.reg_move] at hput ⊢
  rw [hput]
  exact ⟨rfl, Writers.phase_move_self ..⟩

def OwnEntry (i : Fin n) (entry : KeyEntry) : Prop :=
  checkStore (calls i).1 = .ok () ∧
    ∃ version, entry = { draft (calls i).1 (calls i).2 with version := version }

theorem writerStep_cases (w : Writers n) (i : Fin n) :
    (∃ result, w.phase i = .returned result ∧ writerStep calls w i = w) ∨
    (∃ err, (∀ k, w.phase i ≠ .returned (.ok k)) ∧
      writerStep calls w i = w.move i w.reg (.returned (.error err))) ∨
    (∃ entry, w.phase i = .idle ∧ OwnEntry calls i entry ∧
      entry.version = nextVersion w.reg entry.purpose [] ∧
      writerStep calls w i = w.move i w.reg (.versioned entry)) ∨
    ∃ entry, ∃ hk : KeyOk entry.keyID, w.phase i = .versioned entry ∧
      writerStep calls w i =
        w.move i (w.reg.set entry.keyID hk (marshal entry)) (.returned (.ok entry.keyID)) := by
  rw [writerStep]
  cases hphase : w.phase i with
  | idle =>
    cases hcheck : checkStore (calls i).1 with
    | error err => exact Or.inr (Or.inl ⟨err, by simp, rfl⟩)
    | ok u => exact Or.inr (Or.inr (Or.inl ⟨_, rfl, ⟨hcheck, _, rfl⟩, rfl, rfl⟩))
  | versioned entry =>
    simp only
    cases hput : w.reg.put entry.keyID (marshal entry) with
    | error err => exact Or.inr (Or.inl ⟨err, by simp, rfl⟩)
    | ok reg =>
      obtain ⟨hk, rfl⟩ := Bucket.put_eq_ok.mp hput
      exact Or.inr (Or.inr (Or.inr ⟨entry, hk, rfl, rfl⟩))
  | returned result => exact Or.inl ⟨result, rfl, rfl⟩

/-! ### What holds in every state -/

def DistinctVersions (reg : Bucket Bytes) : Prop :=
  ∀ k e k' e', entryAt reg k = some e → entryAt reg k' = some e' → e.purpose = e'.purpose →
    e.version = e'.version → k = k'

def DistinctIDs (reg : Bucket Bytes) : Prop :=
  (∀ i j, checkStore (calls i).1 = .ok () → checkStore (calls j).1 = .ok () →
    newKeyID (calls i).2 = newKeyID (calls j).2 → i = j) ∧
  ∀ i, checkStore (calls i).1 = .ok () → reg.get (newKeyID (calls i).2) = none

/-- The writer does not begin while another one of its purpose is between its transactions. -/
def Uninterrupted (w : Writers n) (i : Fin n) : Prop :=
  w.phase i = .idle → ∀ j, ∀ entry ∈ (w.phase j).pending, entry.purpose ≠ (calls i).1.purpose

instance (reg : Bucket Bytes) : Decidable (DistinctIDs calls reg) :=
  inferInstanceAs (Decidable ((∀ i j, _ → _ → _ → i = j) ∧ ∀ _ : Fin n, _ → _))

instance (w : Writers n) (i : Fin n) : Decidable (Uninterrupted calls w i) :=
  inferInstanceAs (Decidable (w.phase i = .idle → ∀ j, ∀ entry ∈ (w.phase j).pending, _))

structure Settled (reg₀ : Bucket Bytes) (w : Writers n) : Prop where
  kept : ∀ k v, reg₀.get k = some v → w.reg.get k = some v
  origin : ∀ k v, w.reg.get k = some v → reg₀.get k = some v ∨ ∃ i, w.phase i = .returned (.ok k)
  stored : ∀ i k, w.phase i = .returned (.ok k) →
    ∃ entry, OwnEntry calls i entry ∧ entry.keyID = k ∧ w.reg.get k = some (marshal entry)
  chosen : ∀ i entry, w.phase i = .versioned entry → OwnEntry calls i entry ∧
    ∀ k e, entryAt w.reg k = some e → e.purpose = entry.purpose → e.version < entry.version
  alone : ∀ i j entry entry', w.phase i = .versioned entry → w.phase j = .versioned entry' →
    entry.purpose = entry'.purpose → i = j
  versions : DistinctVersions w.reg

variable {calls}

variable {entry : KeyEntry}

omit [KeyJSON] in
theorem OwnEntry.keyID (h : OwnEntry calls i entry) : entry.keyID = newKeyID (calls i).2 := by
  obtain ⟨-, version, rfl⟩ := h
  rfl

omit [KeyJSON] in
theorem OwnEntry.purpose (h : OwnEntry calls i entry) : entry.purpose = (calls i).1.purpose := by
  obtain ⟨-, version, rfl⟩ := h
  rfl

variable {reg₀ : Bucket Bytes}

theorem Settled.base (h : DistinctVersions reg₀) :
    Settled calls reg₀ (begin reg₀) where
  kept := fun k v hv => hv
  origin := fun k v hv => Or.inl hv
  stored := fun i k hi => by cases hi
  chosen := fun i entry hi => by cases hi
  alone := fun i j entry entry' hi => by cases hi
  versions := h

theorem Settled.origin_move (h : Settled calls reg₀ w) (hi : ∀ k, w.phase i ≠ .returned (.ok k))
    (reg : Bucket Bytes) (p : Phase) {k v : Bytes} (hv : w.reg.get k = some v) :
    reg₀.get k = some v ∨ ∃ j, (w.move i reg p).phase j = .returned (.ok k) := by
  rcases h.origin k v hv with hold | ⟨j, hj⟩
  · exact Or.inl hold
  · have hne : j ≠ i := fun heq => hi k (heq ▸ hj)
    exact Or.inr ⟨j, (w.phase_move_of_ne hne reg p).trans hj⟩

theorem Settled.refuse (h : Settled calls reg₀ w) (hi : ∀ k, w.phase i ≠ .returned (.ok k))
    (err : Err) : Settled calls reg₀ (w.move i w.reg (.returned (.error err))) := by
  have hold : ∀ {j q}, (w.move i w.reg (.returned (.error err))).phase j = q →
      q ≠ .returned (.error err) → w.phase j = q := by
    intro j q hj hq
    rcases Writers.phase_move_eq.mp hj with ⟨-, heq⟩ | ⟨-, hj⟩
    · exact absurd heq.symm hq
    · exact hj
  constructor
  case kept => exact h.kept
  case origin => exact fun k v hv => h.origin_move hi _ _ hv
  case stored => exact fun j k hj => h.stored j k (hold hj (by simp))
  case chosen => exact fun j entry hj => h.chosen j entry (hold hj (by simp))
  case alone =>
    exact fun j j' entry entry' hj hj' =>
      h.alone j j' entry entry' (hold hj (by simp)) (hold hj' (by simp))
  case versions => exact h.versions

theorem Settled.choose (h : Settled calls reg₀ w) (hi : w.phase i = .idle)
    (hown : OwnEntry calls i entry) (hversion : entry.version = nextVersion w.reg entry.purpose [])
    (hfree : ∀ j entry', w.phase j = .versioned entry' → entry'.purpose ≠ entry.purpose) :
    Settled calls reg₀ (w.move i w.reg (.versioned entry)) := by
  constructor
  case kept => exact h.kept
  case origin => exact fun k v hv => h.origin_move (by simp [hi]) _ _ hv
  case stored =>
    intro j k hj
    rcases Writers.phase_move_eq.mp hj with ⟨-, heq⟩ | ⟨-, hj⟩
    · cases heq
    · exact h.stored j k hj
  case chosen =>
    intro j entry' hj
    rcases Writers.phase_move_eq.mp hj with ⟨rfl, heq⟩ | ⟨-, hj⟩
    · cases heq
      refine ⟨hown, fun k e he hpurpose => ?_⟩
      rw [hversion, ← hpurpose]
      exact version_lt_nextVersion he []
    · exact h.chosen j entry' hj
  case alone =>
    intro j j' e e' hj hj' hpurpose
    rcases Writers.phase_move_eq.mp hj with ⟨hji, heq⟩ | ⟨-, hold⟩ <;>
      rcases Writers.phase_move_eq.mp hj' with ⟨hji', heq'⟩ | ⟨-, hold'⟩
    · rw [hji, hji']
    · cases heq
      exact absurd hpurpose.symm (hfree j' e' hold')
    · cases heq'
      exact absurd hpurpose (hfree j e hold)
    · exact h.alone j j' e e' hold hold' hpurpose
  case versions => exact h.versions

theorem Settled.write (h : Settled calls reg₀ w) (hk : KeyOk entry.keyID)
    (hi : w.phase i = .versioned entry) (hids : DistinctIDs calls reg₀)
    (hvalid : ValidUTF8 entry.purpose) :
    Settled calls reg₀
      (w.move i (w.reg.set entry.keyID hk (marshal entry)) (.returned (.ok entry.keyID))) := by
  obtain ⟨hown, habove⟩ := h.chosen i entry hi
  have hnew : w.reg.get entry.keyID = none := by
    rw [Option.eq_none_iff_forall_not_mem]
    intro v hv
    rcases h.origin _ v hv with hold | ⟨j, hj⟩
    · rw [hown.keyID, hids.2 i hown.1] at hold
      cases hold
    · obtain ⟨entry', hown', hid, -⟩ := h.stored j _ hj
      have heq := hids.1 j i hown'.1 hown.1 (by rw [← hown'.keyID, hid, hown.keyID])
      rw [heq, hi] at hj
      cases hj
  have hdecoded : (mapTexts toValid entry).purpose = entry.purpose := toValid_of_valid _ hvalid
  have hne : ∀ {k v}, w.reg.get k = some v → k ≠ entry.keyID := by
    rintro k v hv rfl
    rw [hnew] at hv
    cases hv
  -- the writer is no longer between its transactions
  have hbetween : ∀ {j entry'}, (w.move i (w.reg.set entry.keyID hk (marshal entry))
      (.returned (.ok entry.keyID))).phase j = .versioned entry' →
      j ≠ i ∧ w.phase j = .versioned entry' := by
    intro j entry' hj
    rcases Writers.phase_move_eq.mp hj with ⟨-, heq⟩ | hj
    · cases heq
    · exact hj
  constructor
  case kept =>
    intro k v hv
    have hv := h.kept k v hv
    rw [Writers.reg_move, Bucket.get_set_ne _ _ _ (hne hv), hv]
  case origin =>
    intro k v hv
    by_cases hkey : k = entry.keyID
    · exact Or.inr ⟨i, by rw [Writers.phase_move_self, hkey]⟩
    · rw [Writers.reg_move, Bucket.get_set_ne _ _ _ hkey] at hv
      exact h.origin_move (by simp [hi]) _ _ hv
  case stored =>
    intro j k hj
    rcases Writers.phase_move_eq.mp hj with ⟨rfl, heq⟩ | ⟨-, hj⟩
    · cases heq
      exact ⟨entry, hown, rfl, Bucket.get_set_self _ _ hk _⟩
    · obtain ⟨entry', hown', hid, hget⟩ := h.stored j k hj
      exact ⟨entry', hown', hid, by rw [Writers.reg_move, Bucket.get_set_ne _ _ _ (hne hget), hget]⟩
  case chosen =>
    intro j entry' hj
    obtain ⟨hji, hj⟩ := hbetween hj
    obtain ⟨hown', habove'⟩ := h.chosen j entry' hj
    refine ⟨hown', fun k e he hpurpose => ?_⟩
    rw [Writers.reg_move, entryAt_set] at he
    split_ifs at he with hkey
    · -- the purposes differ, or the two calls would be one
      cases he
      rw [hdecoded] at hpurpose
      exact absurd (h.alone j i entry' entry hj hi hpurpose.symm) hji
    · exact habove' k e he hpurpose
  case alone =>
    intro j j' e e' hj hj'
    exact h.alone j j' e e' (hbetween hj).2 (hbetween hj').2
  case versions =>
    intro k e k' e' he he' hpurpose hversion
    rw [Writers.reg_move, entryAt_set] at he he'
    split_ifs at he he' with hkey hkey' hkey'
    · rw [hkey, hkey']
    · cases he
      rw [hdecoded] at hpurpose
      exact absurd hversion (habove k' e' he' hpurpose.symm).ne'
    · cases he'
      rw [hdecoded] at hpurpose
      exact absurd hversion (habove k e he hpurpose).ne
    · exact h.versions k e k' e' he he' hpurpose hversion

theorem Settled.step (h : Settled calls reg₀ w) (hids : DistinctIDs calls reg₀)
    (hvalid : ∀ i, checkStore (calls i).1 = .ok () → ValidUTF8 (calls i).1.purpose)
    (hi : Uninterrupted calls w i) : Settled calls reg₀ (writerStep calls w i) := by
  rcases writerStep_cases calls w i with ⟨result, -, heq⟩ | ⟨err, hphase, heq⟩ |
    ⟨entry, hphase, hown, hversion, heq⟩ | ⟨entry, hk, hphase, heq⟩
  · rwa [heq]
  · rw [heq]
    exact h.refuse hphase err
  · rw [heq]
    refine h.choose hphase hown hversion (fun j entry' hj => ?_)
    rw [hown.purpose]
    exact hi hphase j entry' (by rw [hj]; rfl)
  · rw [heq]
    have hown := (h.chosen i entry hphase).1
    exact h.write hk hphase hids (hown.purpose ▸ hvalid i hown.1)

/-- CORRECT: under distinct ids and UTF-8 purposes, in every schedule in which no call begins between
    the transactions of another one of its purpose, the entries there before stay, each call that
    returned an id has its own entry under it, the ids returned are distinct, and so are the
    versions of a purpose. -/
theorem uninterrupted_versions_distinct {reg₀ : Bucket Bytes} {schedule : List (Fin n)}
    (hids : DistinctIDs calls reg₀)
    (hvalid : ∀ i, checkStore (calls i).1 = .ok () → ValidUTF8 (calls i).1.purpose)
    (hversions : DistinctVersions reg₀)
    (h : Guarded (writerStep calls) (Uninterrupted calls) (begin reg₀) schedule) :
    (∀ k v, reg₀.get k = some v → (run (writerStep calls) (begin reg₀) schedule).reg.get k = some v) ∧
    (∀ i k, (run (writerStep calls) (begin reg₀) schedule).phase i = .returned (.ok k) →
      ∃ entry, OwnEntry calls i entry ∧ entryAt (run (writerStep calls) (begin reg₀) schedule).reg k =
        some (mapTexts toValid entry)) ∧
    (∀ i j k, (run (writerStep calls) (begin reg₀) schedule).phase i = .returned (.ok k) →
      (run (writerStep calls) (begin reg₀) schedule).phase j = .returned (.ok k) → i = j) ∧
    DistinctVersions (run (writerStep calls) (begin reg₀) schedule).reg := by
  have hsettled : Settled calls reg₀ (run (writerStep calls) (begin reg₀) schedule) :=
    run_invariant (Settled calls reg₀) (fun w i hw hi => hw.step hids hvalid hi)
      (Settled.base hversions) h
  refine ⟨hsettled.kept, fun i k hi => ?_, fun i j k hi hj => ?_, hsettled.versions⟩
  · obtain ⟨entry, hown, -, hget⟩ := hsettled.stored i k hi
    exact ⟨entry, hown, entryAt_eq_some.mpr ⟨_, hget, unmarshal_marshal entry⟩⟩
  · obtain ⟨entry, hown, hid, -⟩ := hsettled.stored i k hi
    obtain ⟨entry', hown', hid', -⟩ := hsettled.stored j k hj
    exact hids.1 i j hown.1 hown'.1 (by rw [← hown.keyID, ← hown'.keyID, hid, hid'])

end Race

/-! ### Two writers -/

section Runs

local instance versionsJSON : KeyJSON := sampleKeyJSON

def twoWriters (first second : Int64) : Fin 2 → StoreArgs × Stamp
  | 0 => ({ purpose := lit "disk", material := [1], status := .pendingRotation }, stampAt first)
  | 1 => ({ purpose := lit "disk", material := [2], status := .pendingRotation }, stampAt second)

def storedKeys (first second : Int64) (schedule : List (Fin 2)) : List (ℕ × Bytes) :=
  (run (writerStep (twoWriters first second)) (begin Bucket.empty) schedule).reg.map.entries.filterMap
    fun e => (unmarshal e.2).toOption.map fun entry => (entry.version, entry.material)

def BothReturn (first second : Int64) (schedule : List (Fin 2)) : Prop :=
  ∀ i, (run (writerStep (twoWriters first second)) (begin Bucket.empty) schedule).phase i =
    .returned (.ok (newKeyID (twoWriters first second i).2))

instance (first second : Int64) (schedule : List (Fin 2)) :
    Decidable (BothReturn first second schedule) :=
  inferInstanceAs (Decidable (∀ _ : Fin 2, _ = _))

theorem one_after_the_other :
    DistinctIDs (twoWriters 5 6) Bucket.empty ∧
    Guarded (writerStep (twoWriters 5 6)) (Uninterrupted (twoWriters 5 6)) (begin Bucket.empty)
      [0, 0, 1, 1] ∧
    BothReturn 5 6 [0, 0, 1, 1] ∧ storedKeys 5 6 [0, 0, 1, 1] = [(1, [1]), (2, [2])] ∧
    DistinctVersions (run (writerStep (twoWriters 5 6)) (begin Bucket.empty) [0, 0, 1, 1]).reg :=
  have hids : DistinctIDs (twoWriters 5 6) Bucket.empty := by decide +kernel
  have h : Guarded (writerStep (twoWriters 5 6)) (Uninterrupted (twoWriters 5 6))
      (begin Bucket.empty) [0, 0, 1, 1] := by decide +kernel
  ⟨hids, h, by decide +kernel, by decide +kernel,
    (uninterrupted_versions_distinct hids (by decide +kernel) (by simp [DistinctVersions]) h).2.2.2⟩

/-- Two calls that read one time draw one id: the second entry takes the place of the first, and both
    calls return without an error. Two calls that both read before either writes choose one version. -/
theorem one_id_and_one_version :
    (BothReturn 5 5 [0, 0, 1, 1] ∧ storedKeys 5 5 [0, 0, 1, 1] = [(2, [2])]) ∧
    BothReturn 5 6 [0, 1, 0, 1] ∧ storedKeys 5 6 [0, 1, 0, 1] = [(1, [1]), (1, [2])] :=
  ⟨⟨by decide +kernel, by decide +kernel⟩, by decide +kernel, by decide +kernel⟩

end Runs

end KeyRegistry

end Momo

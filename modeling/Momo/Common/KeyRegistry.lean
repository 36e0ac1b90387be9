import Momo.Storage.Meta
import Momo.Common.Wire

/-! @momo src/common/keyregistry.go, src/common/struct.go | scheme:records over a bucket

    The registry of versioned keys: one bucket, the JSON text of an entry under each key id. Every
    question is answered by a walk over the bucket in the order of the ids. -/

namespace Momo

inductive KeyStatus
  | active | retired | compromised | pendingRotation
  deriving DecidableEq

structure KeyEntry where
  keyID : Bytes
  purpose : Bytes
  version : ℕ
  material : Bytes
  algorithm : Bytes
  status : KeyStatus
  createdAt : Int
  rotatedAt : Option Int
  tenantID : Bytes
  oprfShareIndex : Int
  deriving DecidableEq

namespace KeyRegistry

def mapTexts (f : Bytes → Bytes) (e : KeyEntry) : KeyEntry :=
  { e with keyID := f e.keyID, purpose := f e.purpose, algorithm := f e.algorithm,
           tenantID := f e.tenantID }

/-- `encoding/json` on key entries. What is decoded again has its invalid UTF-8 replaced. -/
class KeyJSON where
  marshal : KeyEntry → Bytes
  unmarshal : Bytes → Except Err KeyEntry
  toValid : Bytes → Bytes
  toValid_of_valid : ∀ b, ValidUTF8 b → toValid b = b
  unmarshal_marshal : ∀ e, unmarshal (marshal e) = .ok (mapTexts toValid e)

open KeyJSON

/-! ### The code -/

/-- The clock as one `StoreKey` reads it: twice for the id, once for the time of creation. -/
structure Stamp where
  nanos : Int64
  rest : Int64
  createdAt : Int
  deriving DecidableEq

/-- `newKeyID`: `key-%d-%d` of the first reading and of the second modulo 1000. -/
def newKeyID (s : Stamp) : Bytes :=
  lit "key-" ++ appendInt s.nanos ++ lit "-" ++ appendInt (s.rest % 1000)

/-- The arguments of `StoreKey`. -/
structure StoreArgs where
  purpose : Bytes
  material : Bytes
  algorithm : Bytes := []
  tenantID : Bytes := []
  status : KeyStatus
  oprfShareIndex : Int := 0
  deriving DecidableEq

def checkStore (a : StoreArgs) : Except Err Unit :=
  if a.material = [] then .error (.wrap "key material cannot be empty: %w" [] (.sys .einval))
  else if a.purpose = [] then .error (.wrap "purpose cannot be empty: %w" [] (.sys .einval))
  else .ok ()

/-- The entry `StoreKey` fills in before it knows the version: neither the tenant nor the share index
    it was given is in it. -/
def draft (a : StoreArgs) (s : Stamp) : KeyEntry where
  keyID := newKeyID s
  purpose := a.purpose
  version := 1
  material := a.material
  algorithm := a.algorithm
  status := a.status
  createdAt := s.createdAt
  rotatedAt := none
  tenantID := []
  oprfShareIndex := 0

section Code

variable [KeyJSON]

/-- The version a value counts with in the walk of `nextVersion`. -/
def versionFor (purpose v : Bytes) : ℕ :=
  match unmarshal v with
  | .ok e => if e.purpose = purpose then e.version else 0
  | .error _ => 0

def nextVersion (reg : Bucket Bytes) (purpose _tenantID : Bytes) : ℕ :=
  reg.map.maxOver (fun _ v => versionFor purpose v) + 1

def storeKey (reg : Bucket Bytes) (a : StoreArgs) (s : Stamp) : Except Err (Bytes × Bucket Bytes) := do
  checkStore a
  let entry := { draft a s with version := nextVersion reg a.purpose [] }
  let reg' ← reg.put entry.keyID (marshal entry)
  pure (entry.keyID, reg')

def activeFor (purpose v : Bytes) : Option KeyEntry :=
  match unmarshal v with
  | .ok e => if e.purpose = purpose ∧ e.tenantID = [] ∧ e.status = .active then some e else none
  | .error _ => none

/-- The walk keeps the last entry that qualifies. -/
def getActiveKey (reg : Bucket Bytes) (purpose _tenantID : Bytes) : Option (Bytes × Bytes) :=
  (reg.map.entries.foldl (fun found e => (activeFor purpose e.2).or found) none).map
    fun e => (e.keyID, e.material)

def markStatus (status : KeyStatus) (reg : Bucket Bytes) (keyID : Bytes) (now : Int) :
    Except Err (Bucket Bytes) :=
  match reg.get keyID with
  | none => .error (.wrap "key %s not found: %w" [.str keyID] (.sys .enoent))
  | some v => do
    let entry ← unmarshal v
    reg.put keyID (marshal { entry with status := status, rotatedAt := some now })

def markRetired : Bucket Bytes → Bytes → Int → Except Err (Bucket Bytes) := markStatus .retired

def markCompromised : Bucket Bytes → Bytes → Int → Except Err (Bucket Bytes) :=
  markStatus .compromised

/-- The value `SetActive` writes back for another entry of the purpose, if it writes one. `now` is the
    clock when the cursor stands at an id. -/
def demoted (purpose keyID : Bytes) (now : Bytes → Int) (k v : Bytes) : Option Bytes :=
  match unmarshal v with
  | .ok e =>
    if e.purpose = purpose ∧ e.status = .active ∧ k ≠ keyID then
      some (marshal { e with status := .retired, rotatedAt := some (now k) })
    else none
  | .error _ => none

def setActive (reg : Bucket Bytes) (keyID : Bytes) (now : Bytes → Int) : Except Err (Bucket Bytes) :=
  match reg.get keyID with
  | none => .error (.wrap "key %s not found: %w" [.str keyID] (.sys .enoent))
  | some v => do
    let target ← unmarshal v
    let reg ← reg.rewrite (demoted target.purpose keyID now)
    -- the target is read again, behind the demotions
    let targetEntry ← unmarshal ((reg.get keyID).getD [])
    reg.put keyID (marshal { targetEntry with status := .active, rotatedAt := none })

/-! ### Key ids -/

omit [KeyJSON] in
theorem ascii_newKeyID (s : Stamp) : ∀ c ∈ newKeyID s, c.toNat < 128 := by
  have hkey : ∀ c ∈ lit "key-", c.toNat < 128 := by decide +kernel
  have hdash : ∀ c ∈ lit "-", c.toNat < 128 := by decide +kernel
  intro c hc
  simp only [newKeyID, List.mem_append] at hc
  rcases hc with ((hc | hc) | hc) | hc
  · exact hkey c hc
  · exact toNat_of_mem_appendInt hc
  · exact hdash c hc
  · exact toNat_of_mem_appendInt hc

omit [KeyJSON] in
theorem keyOk_newKeyID (s : Stamp) : KeyOk (newKeyID s) := by
  have hfirst := length_appendInt_le s.nanos
  have hsecond := length_appendInt_le (s.rest % 1000)
  have hkey : (lit "key-").length = 4 := rfl
  have hdash : (lit "-").length = 1 := rfl
  have hlen : (newKeyID s).length ≤ maxKeySize := by
    simp only [newKeyID, List.length_append, hkey, hdash, maxKeySize]
    unfold fileInfoLength at hfirst hsecond
    omega
  refine ⟨fun h => ?_, hlen⟩
  have h := congrArg List.length h
  simp only [newKeyID, List.length_append, hkey, List.length_nil] at h
  omega

theorem toValid_newKeyID (s : Stamp) : toValid (newKeyID s) = newKeyID s :=
  toValid_of_valid _ (validUTF8_of_ascii (ascii_newKeyID s))

/-! ### The registry as a table of entries -/

def entryAt (reg : Bucket Bytes) (k : Bytes) : Option KeyEntry :=
  (reg.get k).bind fun v => (unmarshal v).toOption

@[simp] theorem entryAt_empty (k : Bytes) : entryAt Bucket.empty k = none := rfl

variable {reg : Bucket Bytes} {k : Bytes} {e : KeyEntry}

theorem entryAt_eq_some :
    entryAt reg k = some e ↔ ∃ v, reg.get k = some v ∧ unmarshal v = .ok e := by
  rw [entryAt, Option.bind_eq_some_iff]
  refine exists_congr fun v => and_congr_right fun _ => ?_
  cases unmarshal v <;> simp [Except.toOption]

theorem entryAt_set (reg : Bucket Bytes) (k : Bytes) (hk : KeyOk k) (e : KeyEntry) (k' : Bytes) :
    entryAt (reg.set k hk (marshal e)) k' =
      if k' = k then some (mapTexts toValid e) else entryAt reg k' := by
  rw [entryAt, Bucket.get_set]
  split_ifs with h
  · rw [Option.bind_some, unmarshal_marshal]
    rfl
  · rfl

theorem version_lt_nextVersion (h : entryAt reg k = some e) (tenantID : Bytes) :
    e.version < nextVersion reg e.purpose tenantID := by
  obtain ⟨v, hv, he⟩ := entryAt_eq_some.mp h
  have hle : versionFor e.purpose v ≤ _ :=
    OMap.le_maxOver (fun _ v => versionFor e.purpose v) (m := reg.map) hv
  rw [versionFor, he] at hle
  simp only [if_true] at hle
  rw [nextVersion]
  omega

theorem storeKey_of_check {a : StoreArgs} (h : checkStore a = .ok ()) (s : Stamp) :
    storeKey reg a s = .ok (newKeyID s, reg.set (newKeyID s) (keyOk_newKeyID s)
      (marshal { draft a s with version := nextVersion reg a.purpose [] })) := by
  have hput := Bucket.put_of_keyOk reg (keyOk_newKeyID s)
    (marshal { draft a s with version := nextVersion reg a.purpose [] })
  simp only [storeKey, h, draft] at hput ⊢
  change (reg.put _ _ >>= _) = _
  rw [hput]
  rfl

theorem storeKey_of_not_check {a : StoreArgs} {err : Err} (h : checkStore a = .error err)
    (s : Stamp) : storeKey reg a s = .error err := by
  rw [storeKey, h]
  rfl

/-! ### What a walk finds -/

omit [KeyJSON] in
theorem foldl_or_eq {α γ : Type} (g : α → Option γ) (l : List α) (acc : Option γ) :
    l.foldl (fun found a => (g a).or found) acc = ((l.filterMap g).getLast?).or acc := by
  induction l generalizing acc with
  | nil => rfl
  | cons a l ih =>
    rw [List.foldl_cons, ih]
    cases hg : g a with
    | none => rw [List.filterMap_cons_none hg, Option.none_or]
    | some c =>
      rw [List.filterMap_cons_some hg, Option.some_or, List.getLast?_cons]
      cases (l.filterMap g).getLast? <;> rfl

def ActiveAt (reg : Bucket Bytes) (purpose k : Bytes) (e : KeyEntry) : Prop :=
  entryAt reg k = some e ∧ e.purpose = purpose ∧ e.tenantID = [] ∧ e.status = .active

variable {purpose : Bytes}

theorem activeFor_eq_some {v : Bytes} :
    activeFor purpose v = some e ↔
      unmarshal v = .ok e ∧ e.purpose = purpose ∧ e.tenantID = [] ∧ e.status = .active := by
  rw [activeFor]
  cases unmarshal v with
  | error err => simp
  | ok e' =>
    simp only [Option.ite_none_right_eq_some, Option.some.injEq, Except.ok.injEq]
    constructor
    · rintro ⟨h, rfl⟩
      exact ⟨rfl, h⟩
    · rintro ⟨rfl, h⟩
      exact ⟨h, rfl⟩

theorem mem_actives :
    e ∈ reg.map.entries.filterMap (fun x => activeFor purpose x.2) ↔
      ∃ k, ActiveAt reg purpose k e := by
  rw [List.mem_filterMap]
  constructor
  · rintro ⟨⟨k, v⟩, hmem, he⟩
    obtain ⟨hv, hrest⟩ := activeFor_eq_some.mp he
    exact ⟨k, entryAt_eq_some.mpr ⟨v, (OMap.mem_entries reg.map).mp hmem, hv⟩, hrest⟩
  · rintro ⟨k, hk, hrest⟩
    obtain ⟨v, hget, hv⟩ := entryAt_eq_some.mp hk
    exact ⟨(k, v), (OMap.mem_entries reg.map).mpr hget, activeFor_eq_some.mpr ⟨hv, hrest⟩⟩

theorem getActiveKey_eq_none (tenantID : Bytes) :
    getActiveKey reg purpose tenantID = none ↔ ∀ k e, ¬ ActiveAt reg purpose k e := by
  rw [getActiveKey, foldl_or_eq, Option.or_none, Option.map_eq_none_iff, List.getLast?_eq_none_iff]
  constructor
  · intro h k e hke
    have := mem_actives.mpr ⟨k, hke⟩
    rw [h] at this
    cases this
  · intro h
    rw [List.eq_nil_iff_forall_not_mem]
    intro e he
    obtain ⟨k, hk⟩ := mem_actives.mp he
    exact h k e hk

theorem activeAt_of_getActiveKey {tenantID : Bytes} {r : Bytes × Bytes}
    (h : getActiveKey reg purpose tenantID = some r) :
    ∃ k e, ActiveAt reg purpose k e ∧ r = (e.keyID, e.material) := by
  rw [getActiveKey, foldl_or_eq, Option.or_none, Option.map_eq_some_iff] at h
  obtain ⟨e, he, rfl⟩ := h
  obtain ⟨k, hk⟩ := mem_actives.mp (List.mem_of_getLast? he)
  exact ⟨k, e, hk, rfl⟩

theorem getActiveKey_of_unique (h : ActiveAt reg purpose k e)
    (honly : ∀ k' e', ActiveAt reg purpose k' e' → k' = k) (tenantID : Bytes) :
    getActiveKey reg purpose tenantID = some (e.keyID, e.material) := by
  cases hr : getActiveKey reg purpose tenantID with
  | none => exact absurd h ((getActiveKey_eq_none tenantID).mp hr k e)
  | some r =>
    obtain ⟨k', e', h', rfl⟩ := activeAt_of_getActiveKey hr
    obtain rfl := honly k' e' h'
    have heq : some e' = some e := h'.1.symm.trans h.1
    rw [Option.some.inj heq]

/-! ### What a status change leaves -/

theorem markStatus_of_entry (status : KeyStatus) (now : Int) (h : entryAt reg k = some e) :
    ∃ reg', markStatus status reg k now = .ok reg' ∧
      ∀ k', entryAt reg' k' = if k' = k then
        some (mapTexts toValid { e with status := status, rotatedAt := some now })
        else entryAt reg k' := by
  obtain ⟨v, hget, hv⟩ := entryAt_eq_some.mp h
  have hkey := Bucket.keyOk_of_get hget
  refine ⟨_, ?_, entryAt_set reg k hkey { e with status := status, rotatedAt := some now }⟩
  simp only [markStatus, hget, hv]
  exact Bucket.put_of_keyOk reg hkey _

variable {keyID : Bytes}

theorem entryAt_demoted {reg' : Bucket Bytes} {now : Bytes → Int}
    (h : ∀ k, reg'.get k = (reg.get k).map fun v => (demoted purpose keyID now k v).getD v)
    (k : Bytes) : entryAt reg' k = (entryAt reg k).map fun e =>
      if e.purpose = purpose ∧ e.status = .active ∧ k ≠ keyID then
        mapTexts toValid { e with status := .retired, rotatedAt := some (now k) }
      else e := by
  rw [entryAt, entryAt, h k]
  cases reg.get k with
  | none => rfl
  | some v =>
    rw [Option.map_some, Option.bind_some, Option.bind_some]
    cases hv : unmarshal v with
    | error err => simp [demoted, hv, Except.toOption]
    | ok e =>
      by_cases hcond : e.purpose = purpose ∧ e.status = .active ∧ k ≠ keyID
      · simp [demoted, hv, hcond, unmarshal_marshal, Except.toOption]
      · simp only [demoted, hv, if_neg hcond, Option.getD_none, Except.toOption, Option.map_some]

theorem setActive_of_entry {target : KeyEntry} (now : Bytes → Int)
    (h : entryAt reg keyID = some target) :
    ∃ reg', setActive reg keyID now = .ok reg' ∧
      entryAt reg' keyID =
        some (mapTexts toValid { target with status := .active, rotatedAt := none }) ∧
      ∀ k ≠ keyID, entryAt reg' k = (entryAt reg k).map fun e =>
        if e.purpose = target.purpose ∧ e.status = .active then
          mapTexts toValid { e with status := .retired, rotatedAt := some (now k) }
        else e := by
  obtain ⟨v, hget, hv⟩ := entryAt_eq_some.mp h
  have hkey := Bucket.keyOk_of_get hget
  obtain ⟨mid, hmid, hgetmid⟩ := reg.rewrite_ok (demoted target.purpose keyID now)
  have hmidentry := entryAt_demoted hgetmid
  -- the pass leaves the target alone
  have hsame : mid.get keyID = some v := by
    rw [hgetmid, hget, Option.map_some, demoted, hv]
    simp
  refine ⟨mid.set keyID hkey (marshal { target with status := .active, rotatedAt := none }),
    ?_, ?_, ?_⟩
  · simp only [setActive, hget, hv]
    change (reg.rewrite (demoted target.purpose keyID now) >>= _) = _
    rw [hmid]
    change (unmarshal ((mid.get keyID).getD []) >>= _) = _
    rw [hsame, Option.getD_some, hv]
    exact Bucket.put_of_keyOk mid hkey _
  · rw [entryAt_set, if_pos rfl]
  · intro k hk
    rw [entryAt_set, if_neg hk, hmidentry]
    simp only [ne_eq, hk, not_false_eq_true, and_true]

theorem setActive_of_absent (now : Bytes → Int) (h : entryAt reg keyID = none) :
    ∃ err, setActive reg keyID now = .error err := by
  rw [setActive]
  cases hget : reg.get keyID with
  | none => exact ⟨_, rfl⟩
  | some v =>
    cases hv : unmarshal v with
    | error err => exact ⟨err, by simp only [hv]; rfl⟩
    | ok e => rw [entryAt_eq_some.mpr ⟨v, hget, hv⟩] at h; cases h

theorem markStatus_of_absent (status : KeyStatus) (now : Int) (h : entryAt reg keyID = none) :
    ∃ err, markStatus status reg keyID now = .error err := by
  rw [markStatus]
  cases hget : reg.get keyID with
  | none => exact ⟨_, rfl⟩
  | some v =>
    cases hv : unmarshal v with
    | error err => exact ⟨err, by simp only [hv]; rfl⟩
    | ok e => rw [entryAt_eq_some.mpr ⟨v, hget, hv⟩] at h; cases h

end Code

end KeyRegistry

end Momo

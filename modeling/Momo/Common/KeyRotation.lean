import Momo.Common.KeyRegistry
import Momo.Schemes.Run
import Momo.Schemes.Code

/-! @momo src/common/rotation.go, src/common/keyregistry.go | scheme:simulation of a ledger

    Rotation and reload over the key registry, against what a registry of keys is for: a ledger of
    the keys made active, the last one first, from which a key is dropped when it is retired or
    compromised. -/

namespace Momo

namespace KeyRegistry

open KeyJSON

/-! ### The code of the rotation manager -/

def rotationPurposes : List Bytes := [lit "encryption", lit "auth", lit "e2ee", lit "oprf"]

def secretName (purpose : Bytes) : Bytes :=
  if purpose = lit "auth" then lit "auth_token"
  else if purpose = lit "e2ee" then lit "e2ee_key"
  else if purpose = lit "oprf" then lit "oprf_share"
  else purpose ++ lit "_key"

/-- What `rand.Read` into 32 bytes gives. -/
abbrev Random := Except Err {b : Bytes // b.length = 32}

def generateKeyForPurpose (purpose : Bytes) (random : Random) : Except Err Bytes :=
  if purpose = lit "encryption" ∨ purpose = lit "auth" ∨ purpose = lit "e2ee" then
    random.map Subtype.val
  else if purpose = lit "oprf" then .ok (lit "oprf-share-placeholder")
  else .error (.text "unknown purpose: %s" [.str purpose])

structure SecretProvider where
  reload : Except Err Unit
  getSecret : Bytes → Except Err (Option Bytes)

def decodeSecret (val : Bytes) : Option Bytes := if val.length = 64 then hexDecode val else some val

section Code

variable [KeyJSON]

def managedKey (purpose material : Bytes) (status : KeyStatus) : StoreArgs where
  purpose := purpose
  material := material
  algorithm := lit "AES-256-GCM"
  status := status

/-- What `Reload` does for one purpose: whatever fails is logged and skipped. -/
def reloadKey (provider : SecretProvider) (stamps : Bytes → Stamp) (reg : Bucket Bytes)
    (purpose : Bytes) : Bucket Bytes :=
  match provider.getSecret (secretName purpose) with
  | .error _ => reg
  | .ok none => reg
  | .ok (some val) =>
    match decodeSecret val with
    | none => reg
    | some material =>
      match storeKey reg (managedKey purpose material .active) (stamps purpose) with
      | .ok (_, reg') => reg'
      | .error _ => reg

def reload (provider : SecretProvider) (stamps : Bytes → Stamp) (reg : Bucket Bytes) :
    Bucket Bytes × Except Err Unit :=
  match provider.reload with
  | .error e => (reg, .error (.wrap "provider reload failed: %w" [] e))
  | .ok _ => (rotationPurposes.foldl (reloadKey provider stamps) reg, .ok ())

/-- `Rotate`; the id of the old key goes to the audit log only. -/
def rotate (reg : Bucket Bytes) (purpose : Bytes) (random : Random) (stamp : Stamp)
    (now : Bytes → Int) : Bucket Bytes × Except Err Unit :=
  match generateKeyForPurpose purpose random with
  | .error e => (reg, .error (.wrap "failed to generate new key: %w" [] e))
  | .ok material =>
    match storeKey reg (managedKey purpose material .pendingRotation) stamp with
    | .error e => (reg, .error (.wrap "failed to store new key: %w" [] e))
    | .ok (keyID, stored) =>
      match setActive stored keyID now with
      | .error e => (stored, .error (.wrap "failed to activate new key: %w" [] e))
      | .ok activated => (activated, .ok ())

inductive Call
  | storeKey (a : StoreArgs) (stamp : Stamp)
  | setActive (keyID : Bytes) (now : Bytes → Int)
  | markRetired (keyID : Bytes) (now : Int)
  | markCompromised (keyID : Bytes) (now : Int)
  | rotate (purpose : Bytes) (random : Random) (stamp : Stamp) (now : Bytes → Int)
  | reload (provider : SecretProvider) (stamps : Bytes → Stamp)

def settle (reg : Bucket Bytes) : Except Err (Bucket Bytes) → Bucket Bytes
  | .ok reg' => reg'
  | .error _ => reg

def regStep (reg : Bucket Bytes) : Call → Bucket Bytes
  | .storeKey a stamp => settle reg ((storeKey reg a stamp).map Prod.snd)
  | .setActive keyID now => settle reg (setActive reg keyID now)
  | .markRetired keyID now => settle reg (markRetired reg keyID now)
  | .markCompromised keyID now => settle reg (markCompromised reg keyID now)
  | .rotate purpose random stamp now => (rotate reg purpose random stamp now).1
  | .reload provider stamps => (reload provider stamps reg).1

end Code

/-! ### The ledger -/

structure Key where
  id : Bytes
  purpose : Bytes
  tenant : Bytes
  material : Bytes
  deriving DecidableEq

/-- The keys stored, and those made active and not withdrawn since, the last made active first. -/
structure Ledger where
  keys : List Key := []
  live : List Key := []
  deriving DecidableEq

namespace Ledger

def store (L : Ledger) (k : Key) (active : Bool) : Ledger :=
  ⟨k :: L.keys, if active then k :: L.live else L.live⟩

def activate (L : Ledger) (id : Bytes) : Ledger :=
  match L.keys.find? (·.id = id) with
  | none => L
  | some k => ⟨L.keys, k :: L.live.filter fun x => ¬ (x.purpose = k.purpose ∧ x.tenant = k.tenant)⟩

def withdraw (L : Ledger) (id : Bytes) : Ledger := ⟨L.keys, L.live.filter fun x => x.id ≠ id⟩

def current (L : Ledger) (purpose tenant : Bytes) : Option (Bytes × Bytes) :=
  (L.live.find? fun k => k.purpose = purpose ∧ k.tenant = tenant).map fun k => (k.id, k.material)

def Unshared (L : Ledger) (purpose tenant : Bytes) : Prop :=
  ∀ k ∈ L.keys, k.purpose = purpose → k.tenant = tenant

instance (L : Ledger) (purpose tenant : Bytes) : Decidable (L.Unshared purpose tenant) :=
  inferInstanceAs (Decidable (∀ k ∈ L.keys, k.purpose = purpose → k.tenant = tenant))

end Ledger

/-- The key `Reload` finds for a purpose; an empty one is refused by the registry. -/
def secretFor (provider : SecretProvider) (purpose : Bytes) : Option Bytes :=
  match provider.reload, provider.getSecret (secretName purpose) with
  | .ok _, .ok (some val) => (decodeSecret val).filter fun m => m ≠ []
  | _, _ => none

def ledgerReload (provider : SecretProvider) (stamps : Bytes → Stamp) (L : Ledger)
    (purpose : Bytes) : Ledger :=
  match secretFor provider purpose with
  | none => L
  | some m => L.store ⟨newKeyID (stamps purpose), purpose, [], m⟩ true

def ledgerStep (L : Ledger) : Call → Ledger
  | .storeKey a stamp =>
    if checkStore a = .ok () then
      L.store ⟨newKeyID stamp, a.purpose, a.tenantID, a.material⟩ (a.status = .active)
    else L
  | .setActive keyID _ => L.activate keyID
  | .markRetired keyID _ => L.withdraw keyID
  | .markCompromised keyID _ => L.withdraw keyID
  | .rotate purpose random stamp _ =>
    match generateKeyForPurpose purpose random with
    | .ok m => (L.store ⟨newKeyID stamp, purpose, [], m⟩ false).activate (newKeyID stamp)
    | .error _ => L
  | .reload provider stamps => rotationPurposes.foldl (ledgerReload provider stamps) L

def Call.keyIDs : Call → List Bytes
  | .storeKey a stamp => if checkStore a = .ok () then [newKeyID stamp] else []
  | .rotate purpose random stamp _ =>
    match generateKeyForPurpose purpose random with
    | .ok _ => [newKeyID stamp]
    | .error _ => []
  | .reload provider stamps =>
    rotationPurposes.filterMap fun p => (secretFor provider p).map fun _ => newKeyID (stamps p)
  | _ => []

def step [KeyJSON] (s : Bucket Bytes × Ledger) (c : Call) : Bucket Bytes × Ledger :=
  (regStep s.1 c, ledgerStep s.2 c)

/-! ### What the two have in common -/

section Simulation

variable [KeyJSON]

structure Describes (k : Key) (e : KeyEntry) : Prop where
  keyID : e.keyID = k.id
  purpose : e.purpose = k.purpose
  material : e.material = k.material
  tenantID : e.tenantID = []
  idValid : toValid k.id = k.id
  purposeValid : toValid k.purpose = k.purpose

/-- The registry holds the keys of the ledger, and those of `live` are its active ones. -/
structure Matches (reg : Bucket Bytes) (L : Ledger) : Prop where
  entry : ∀ k ∈ L.keys, ∃ e, entryAt reg k.id = some e ∧ Describes k e ∧
    (k ∈ L.live ↔ e.status = .active)
  known : ∀ id e, entryAt reg id = some e → ∃ k ∈ L.keys, k.id = id
  nodup : (L.keys.map Key.id).Nodup
  live : ∀ k ∈ L.live, k ∈ L.keys
  unique : ∀ k ∈ L.live, ∀ k' ∈ L.live, k.purpose = k'.purpose → k = k'
  tenant : ∀ k ∈ L.keys, L.Unshared k.purpose k.tenant

theorem toValid_nil : toValid ([] : Bytes) = [] := toValid_of_valid _ ⟨[], rfl⟩

variable {k : Key}

theorem Describes.withStatus {e : KeyEntry} (h : Describes k e) (status : KeyStatus)
    (rotatedAt : Option Int) :
    Describes k (mapTexts toValid { e with status := status, rotatedAt := rotatedAt }) where
  keyID := by simp only [mapTexts, h.keyID, h.idValid]
  purpose := by simp only [mapTexts, h.purpose, h.purposeValid]
  material := h.material
  tenantID := by simp only [mapTexts, h.tenantID, toValid_nil]
  idValid := h.idValid
  purposeValid := h.purposeValid

theorem Matches.empty : Matches Bucket.empty {} where
  entry := by simp
  known := by simp
  nodup := List.nodup_nil
  live := by simp
  unique := by simp
  tenant := by simp

variable {reg : Bucket Bytes} {L : Ledger}

theorem Matches.eq_of_id (h : Matches reg L) {k' : Key} (hk : k ∈ L.keys) (hk' : k' ∈ L.keys)
    (hid : k.id = k'.id) : k = k' :=
  List.inj_on_of_nodup_map h.nodup hk hk' hid

variable {purpose : Bytes}

theorem Matches.activeAt_iff (h : Matches reg L) {id : Bytes} {e : KeyEntry} :
    ActiveAt reg purpose id e ↔
      ∃ k ∈ L.live, k.id = id ∧ k.purpose = purpose ∧ entryAt reg id = some e := by
  constructor
  · rintro ⟨hentry, hpurpose, -, hactive⟩
    obtain ⟨k, hk, rfl⟩ := h.known id e hentry
    obtain ⟨e', he', hdesc, hlive⟩ := h.entry k hk
    obtain rfl : e = e' := Option.some.inj (hentry.symm.trans he')
    exact ⟨k, hlive.mpr hactive, rfl, hdesc.purpose ▸ hpurpose, hentry⟩
  · rintro ⟨k, hk, rfl, rfl, hentry⟩
    obtain ⟨e', he', hdesc, hlive⟩ := h.entry k (h.live k hk)
    obtain rfl : e = e' := Option.some.inj (hentry.symm.trans he')
    exact ⟨hentry, hdesc.purpose, hdesc.tenantID, hlive.mp hk⟩

theorem Matches.getActiveKey_eq_none (h : Matches reg L) {tenantID : Bytes} :
    getActiveKey reg purpose tenantID = none ↔ ∀ k ∈ L.live, k.purpose ≠ purpose := by
  rw [KeyRegistry.getActiveKey_eq_none]
  constructor
  · rintro hnone k hk rfl
    obtain ⟨e, he, -⟩ := h.entry k (h.live k hk)
    exact hnone k.id e (h.activeAt_iff.mpr ⟨k, hk, rfl, rfl, he⟩)
  · intro hnone id e hactive
    obtain ⟨k, hk, -, hpurpose, -⟩ := h.activeAt_iff.mp hactive
    exact hnone k hk hpurpose

theorem Matches.getActiveKey (h : Matches reg L) {tenant : Bytes}
    (htenant : L.Unshared purpose tenant) :
    KeyRegistry.getActiveKey reg purpose tenant = L.current purpose tenant := by
  rw [Ledger.current]
  cases hfind : L.live.find? fun k => k.purpose = purpose ∧ k.tenant = tenant with
  | none =>
    rw [Option.map_none, h.getActiveKey_eq_none]
    intro k hk hpurpose
    have := List.find?_eq_none.mp hfind k hk
    simp only [decide_eq_true_eq] at this
    exact this ⟨hpurpose, htenant k (h.live k hk) hpurpose⟩
  | some k =>
    have hk := List.mem_of_find?_eq_some hfind
    have hpurpose : k.purpose = purpose ∧ k.tenant = tenant := by
      simpa using List.find?_some hfind
    obtain ⟨e, he, hdesc, -⟩ := h.entry k (h.live k hk)
    have hactive : ActiveAt reg purpose k.id e :=
      h.activeAt_iff.mpr ⟨k, hk, rfl, hpurpose.1, he⟩
    rw [getActiveKey_of_unique hactive, Option.map_some, hdesc.keyID, hdesc.material]
    intro id e' h'
    obtain ⟨k', hk', rfl, hpurpose', -⟩ := h.activeAt_iff.mp h'
    rw [h.unique k' hk' k hk (hpurpose'.trans hpurpose.1.symm)]

/-! ### Steps -/

theorem Matches.store (h : Matches reg L) {a : StoreArgs} {stamp : Stamp} {tenant : Bytes}
    (hcheck : checkStore a = .ok ()) (hvalid : ValidUTF8 a.purpose)
    (hfresh : newKeyID stamp ∉ L.keys.map Key.id) (htenant : L.Unshared a.purpose tenant)
    (halone : a.status = .active → ∀ k ∈ L.live, k.purpose ≠ a.purpose) :
    Matches (settle reg ((storeKey reg a stamp).map Prod.snd))
      (L.store ⟨newKeyID stamp, a.purpose, tenant, a.material⟩ (a.status = .active)) := by
  rw [storeKey_of_check hcheck]
  change Matches (reg.set (newKeyID stamp) (keyOk_newKeyID stamp) _) _
  set new : Key := ⟨newKeyID stamp, a.purpose, tenant, a.material⟩ with hnew
  have hother : ∀ k ∈ L.keys, k.id ≠ newKeyID stamp := fun k hk hid =>
    hfresh (hid ▸ List.mem_map_of_mem hk)
  have hnotlive : new ∉ L.live := fun hmem => hother new (h.live new hmem) rfl
  have hlive : ∀ k, k ∈ (L.store new (a.status = .active)).live ↔
      k ∈ L.live ∨ k = new ∧ a.status = .active := by
    intro k
    by_cases hactive : a.status = .active
    · simp [Ledger.store, hactive, or_comm]
    · simp [Ledger.store, hactive]
  constructor
  case entry =>
    intro k hk
    rcases List.mem_cons.mp hk with rfl | hk
    · refine ⟨_, by rw [entryAt_set, if_pos rfl], ?_, ?_⟩
      · exact ⟨toValid_newKeyID stamp, toValid_of_valid _ hvalid, rfl, toValid_nil,
          toValid_newKeyID stamp, toValid_of_valid _ hvalid⟩
      · rw [hlive]
        constructor
        · rintro (hmem | ⟨-, hactive⟩)
          · exact absurd hmem hnotlive
          · exact hactive
        · intro hactive
          exact Or.inr ⟨rfl, hactive⟩
    · obtain ⟨e, he, hdesc, hstatus⟩ := h.entry k hk
      refine ⟨e, by rw [entryAt_set, if_neg (hother k hk), he], hdesc, ?_⟩
      rw [hlive, ← hstatus]
      constructor
      · rintro (hmem | ⟨rfl, -⟩)
        · exact hmem
        · exact absurd rfl (hother _ hk)
      · exact Or.inl
  case known =>
    intro id e he
    rw [entryAt_set] at he
    split_ifs at he with hid
    · exact ⟨new, List.mem_cons_self .., hid.symm⟩
    · obtain ⟨k, hk, hkid⟩ := h.known id e he
      exact ⟨k, List.mem_cons_of_mem _ hk, hkid⟩
  case nodup => exact List.nodup_cons.mpr ⟨hfresh, h.nodup⟩
  case live =>
    intro k hk
    rcases (hlive k).mp hk with hk | ⟨rfl, -⟩
    · exact List.mem_cons_of_mem _ (h.live k hk)
    · exact List.mem_cons_self ..
  case unique =>
    intro k hk k' hk' hpurpose
    rcases (hlive k).mp hk with hk | ⟨rfl, hactive⟩ <;>
      rcases (hlive k').mp hk' with hk' | ⟨rfl, hactive'⟩
    · exact h.unique k hk k' hk' hpurpose
    · exact absurd hpurpose (halone hactive' k hk)
    · exact absurd hpurpose.symm (halone hactive k' hk')
    · rfl
  case tenant =>
    intro k hk k' hk' hpurpose
    rcases List.mem_cons.mp hk with rfl | hk <;> rcases List.mem_cons.mp hk' with rfl | hk'
    · rfl
    · exact htenant k' hk' hpurpose
    · exact (htenant k hk hpurpose.symm).symm
    · exact h.tenant k hk k' hk' hpurpose

/-- Step: an id that is not there is refused, and the ledger does not know it either. -/
theorem Matches.withdraw_absent (h : Matches reg L) {id : Bytes} (hid : entryAt reg id = none) :
    L.withdraw id = L := by
  have hother : ∀ k ∈ L.live, k.id ≠ id := by
    rintro k hk rfl
    obtain ⟨e, he, -⟩ := h.entry k (h.live k hk)
    rw [hid] at he
    cases he
  rw [Ledger.withdraw, List.filter_eq_self.mpr (fun k hk => by simpa using hother k hk)]

theorem Matches.mark (h : Matches reg L) {status : KeyStatus} (hstatus : status ≠ .active)
    (id : Bytes) (now : Int) :
    Matches (settle reg (markStatus status reg id now)) (L.withdraw id) := by
  cases hentry : entryAt reg id with
  | none =>
    obtain ⟨err, herr⟩ := markStatus_of_absent status now hentry
    rw [herr, h.withdraw_absent hentry]
    exact h
  | some e =>
    obtain ⟨reg', hreg', hget⟩ := markStatus_of_entry status now hentry
    rw [hreg']
    change Matches reg' _
    have hlive : ∀ k, k ∈ (L.withdraw id).live ↔ k ∈ L.live ∧ k.id ≠ id := by
      intro k
      simp [Ledger.withdraw]
    constructor
    case entry =>
      intro k hk
      obtain ⟨e', he', hdesc, hactive⟩ := h.entry k hk
      by_cases hid : k.id = id
      · obtain rfl : e = e' := Option.some.inj ((hid ▸ hentry).symm.trans he')
        refine ⟨_, by rw [hget, if_pos hid], hdesc.withStatus _ _, ?_⟩
        rw [hlive]
        constructor
        · rintro ⟨-, hne⟩
          exact absurd hid hne
        · intro hactive
          exact absurd hactive hstatus
      · refine ⟨e', by rw [hget, if_neg hid, he'], hdesc, ?_⟩
        rw [hlive, ← hactive]
        exact and_iff_left hid
    case known =>
      intro id' e' he'
      rw [hget] at he'
      split_ifs at he' with hid
      · exact hid ▸ h.known id e hentry
      · exact h.known id' e' he'
    case nodup => exact h.nodup
    case live => exact fun k hk => h.live k ((hlive k).mp hk).1
    case unique => exact fun k hk k' hk' => h.unique k ((hlive k).mp hk).1 k' ((hlive k').mp hk').1
    case tenant => exact h.tenant

theorem Matches.find_eq (h : Matches reg L) (hk : k ∈ L.keys) :
    L.keys.find? (·.id = k.id) = some k := by
  cases hfind : L.keys.find? (·.id = k.id) with
  | none => exact absurd (List.find?_eq_none.mp hfind k hk) (by simp)
  | some k' =>
    have hid : k'.id = k.id := by simpa using List.find?_some hfind
    rw [h.eq_of_id (List.mem_of_find?_eq_some hfind) hk hid]

theorem Matches.setActive (h : Matches reg L) (id : Bytes) (now : Bytes → Int) :
    Matches (settle reg (KeyRegistry.setActive reg id now)) (L.activate id) := by
  cases hentry : entryAt reg id with
  | none =>
    obtain ⟨err, herr⟩ := setActive_of_absent now hentry
    have hnone : L.keys.find? (·.id = id) = none := by
      rw [List.find?_eq_none]
      intro k hk hid
      obtain ⟨e, he, -⟩ := h.entry k hk
      rw [decide_eq_true_eq.mp hid, hentry] at he
      cases he
    rw [herr, Ledger.activate, hnone]
    exact h
  | some target =>
    obtain ⟨k, hk, rfl⟩ := h.known id target hentry
    obtain ⟨target', htarget', hdesc, -⟩ := h.entry k hk
    obtain rfl : target = target' := Option.some.inj (hentry.symm.trans htarget')
    obtain ⟨reg', hreg', hself, hothers⟩ := setActive_of_entry now hentry
    rw [hreg', Ledger.activate, h.find_eq hk]
    change Matches reg' _
    -- one tenant per purpose: the keys that give way in the ledger are those retired
    have hlive : ∀ x, x ∈ k :: L.live.filter (fun x => ¬ (x.purpose = k.purpose ∧ x.tenant = k.tenant)) ↔
        x = k ∨ x ∈ L.live ∧ x.purpose ≠ k.purpose := by
      intro x
      rw [List.mem_cons, List.mem_filter, decide_eq_true_eq]
      refine or_congr_right (and_congr_right fun hx => not_congr ?_)
      exact and_iff_left_of_imp (h.tenant k hk x (h.live x hx))
    constructor
    case entry =>
      intro x hx
      by_cases hid : x.id = k.id
      · obtain rfl := h.eq_of_id hx hk hid
        exact ⟨_, hself, hdesc.withStatus _ _, by rw [hlive]; simp [mapTexts]⟩
      · obtain ⟨e, he, hxdesc, hactive⟩ := h.entry x hx
        have hne : x ≠ k := fun heq => hid (congrArg Key.id heq)
        have hx' := hothers x.id hid
        rw [he, Option.map_some] at hx'
        by_cases hgive : e.purpose = target.purpose ∧ e.status = .active
        · rw [if_pos hgive] at hx'
          refine ⟨_, hx', hxdesc.withStatus _ _, ?_⟩
          rw [hlive]
          constructor
          · rintro (heq | ⟨-, hpurpose⟩)
            · exact absurd heq hne
            · rw [hxdesc.purpose, hdesc.purpose] at hgive
              exact absurd hgive.1 hpurpose
          · rintro ⟨⟩
        · rw [if_neg hgive] at hx'
          refine ⟨e, hx', hxdesc, ?_⟩
          rw [hlive]
          rw [hxdesc.purpose, hdesc.purpose] at hgive
          constructor
          · rintro (heq | ⟨hmem, -⟩)
            · exact absurd heq hne
            · exact hactive.mp hmem
          · intro hstatus
            exact Or.inr ⟨hactive.mpr hstatus, fun hpurpose => hgive ⟨hpurpose, hstatus⟩⟩
    case known =>
      intro id e he
      by_cases hid : id = k.id
      · exact ⟨k, hk, hid.symm⟩
      · rw [hothers id hid, Option.map_eq_some_iff] at he
        obtain ⟨e', he', -⟩ := he
        exact h.known id e' he'
    case nodup => exact h.nodup
    case live =>
      intro x hx
      rcases (hlive x).mp hx with rfl | ⟨hx, -⟩
      · exact hk
      · exact h.live x hx
    case unique =>
      intro x hx x' hx' hpurpose
      rcases (hlive x).mp hx with rfl | ⟨hx, hne⟩ <;> rcases (hlive x').mp hx' with rfl | ⟨hx', hne'⟩
      · rfl
      · exact absurd hpurpose.symm hne'
      · exact absurd hpurpose hne
      · exact h.unique x hx x' hx' hpurpose
    case tenant => exact h.tenant

/-! ### Rotation and reload -/

omit [KeyJSON] in
theorem validUTF8_rotationPurposes : ∀ p ∈ rotationPurposes, ValidUTF8 p ∧ p ≠ [] := by
  decide +kernel

omit [KeyJSON] in
theorem checkStore_managedKey {material : Bytes} (hm : material ≠ []) (hp : purpose ≠ [])
    (status : KeyStatus) : checkStore (managedKey purpose material status) = .ok () := by
  simp [checkStore, managedKey, hm, hp]

omit [KeyJSON] in
theorem generateKeyForPurpose_ok {m : Bytes} {random : Random}
    (h : generateKeyForPurpose purpose random = .ok m) : purpose ∈ rotationPurposes ∧ m ≠ [] := by
  rw [generateKeyForPurpose] at h
  split_ifs at h with hrandom hoprf
  · refine ⟨by simp [rotationPurposes]; tauto, ?_⟩
    cases random with
    | error e => cases h
    | ok b =>
      cases h
      intro hnil
      have hlen := b.property
      rw [hnil] at hlen
      cases hlen
  · cases h
    exact ⟨by simp [rotationPurposes, hoprf], by decide +kernel⟩

theorem Matches.rotate (h : Matches reg L) {m : Bytes} {random : Random} {stamp : Stamp}
    (hm : generateKeyForPurpose purpose random = .ok m)
    (hfresh : newKeyID stamp ∉ L.keys.map Key.id) (htenant : L.Unshared purpose [])
    (now : Bytes → Int) :
    Matches (KeyRegistry.rotate reg purpose random stamp now).1
      ((L.store ⟨newKeyID stamp, purpose, [], m⟩ false).activate (newKeyID stamp)) := by
  obtain ⟨hpurpose, hne⟩ := generateKeyForPurpose_ok hm
  obtain ⟨hvalid, hpne⟩ := validUTF8_rotationPurposes purpose hpurpose
  have hcheck := checkStore_managedKey hne hpne .pendingRotation
  have hstored := h.store hcheck hvalid hfresh htenant (fun hactive => by cases hactive)
  have hactivated := hstored.setActive (newKeyID stamp) now
  rw [storeKey_of_check hcheck] at hactivated
  rw [KeyRegistry.rotate, hm]
  simp only [storeKey_of_check hcheck]
  simp only [settle, Except.map] at hactivated
  cases hset : KeyRegistry.setActive (reg.set (newKeyID stamp) (keyOk_newKeyID stamp) (marshal
      { draft (managedKey purpose m .pendingRotation) stamp with
        version := nextVersion reg (managedKey purpose m .pendingRotation).purpose [] }))
      (newKeyID stamp) now with
  | error e => rw [hset] at hactivated; exact hactivated
  | ok activated => rw [hset] at hactivated; exact hactivated

theorem reloadKey_eq {provider : SecretProvider} (hreload : provider.reload = .ok ())
    (stamps : Bytes → Stamp) (reg : Bucket Bytes) (hp : purpose ≠ []) :
    reloadKey provider stamps reg purpose = match secretFor provider purpose with
      | none => reg
      | some m => settle reg
          ((storeKey reg (managedKey purpose m .active) (stamps purpose)).map Prod.snd) := by
  rw [reloadKey, secretFor, hreload]
  cases provider.getSecret (secretName purpose) with
  | error e => rfl
  | ok found =>
    cases found with
    | none => rfl
    | some val =>
      simp only
      cases decodeSecret val with
      | none => rfl
      | some m =>
        by_cases hm : m = []
        · subst hm
          have herr : checkStore (managedKey purpose [] .active) = .error _ := if_pos rfl
          simp only [storeKey_of_not_check herr]
          rfl
        · simp only [Option.filter_some, ne_eq, hm, not_false_eq_true, decide_true, if_true,
            storeKey_of_check (checkStore_managedKey hm hp .active)]
          rfl

theorem Matches.reloadKeys {provider : SecretProvider} (hreload : provider.reload = .ok ())
    (stamps : Bytes → Stamp) {ps : List Bytes} (hps : ∀ p ∈ ps, ValidUTF8 p ∧ p ≠ [])
    (hdistinct : ps.Nodup) (h : Matches reg L)
    (hfresh : (ps.filterMap (fun p => (secretFor provider p).map fun _ => newKeyID (stamps p)) ++
      L.keys.map Key.id).Nodup) (hfree : ∀ p ∈ ps, secretFor provider p ≠ none →
      L.Unshared p [] ∧ ∀ k ∈ L.live, k.purpose ≠ p) :
    Matches (ps.foldl (reloadKey provider stamps) reg)
      (ps.foldl (ledgerReload provider stamps) L) := by
  induction ps generalizing reg L with
  | nil => exact h
  | cons p ps ih =>
    obtain ⟨hvalid, hpne⟩ := hps p (List.mem_cons_self ..)
    obtain ⟨hp, hdistinct⟩ := List.nodup_cons.mp hdistinct
    have hps' : ∀ p ∈ ps, ValidUTF8 p ∧ p ≠ [] := fun p' hp' => hps p' (List.mem_cons_of_mem _ hp')
    rw [List.foldl_cons, List.foldl_cons, reloadKey_eq hreload stamps reg hpne, ledgerReload]
    cases hsecret : secretFor provider p with
    | none =>
      rw [List.filterMap_cons_none (by rw [hsecret]; rfl)] at hfresh
      exact ih hps' hdistinct h hfresh (fun p' hp' => hfree p' (List.mem_cons_of_mem _ hp'))
    | some m =>
      obtain ⟨htenant, halone⟩ := hfree p (List.mem_cons_self ..) (by simp [hsecret])
      rw [List.filterMap_cons_some (by rw [hsecret]; rfl), List.cons_append] at hfresh
      have hmne : m ≠ [] := by
        rw [secretFor] at hsecret
        split at hsecret
        · simpa using (Option.filter_eq_some_iff.mp hsecret).2
        · cases hsecret
      have hid : newKeyID (stamps p) ∉ L.keys.map Key.id := fun hmem =>
        (List.nodup_cons.mp hfresh).1 (List.mem_append_right _ hmem)
      refine ih hps' hdistinct (h.store (checkStore_managedKey hmne hpne .active) hvalid hid htenant
        (fun _ => halone)) (List.nodup_middle.mpr hfresh) (fun p' hp' hp'secret => ?_)
      -- the key just stored is of another purpose
      have hne : p ≠ p' := fun heq => hp (heq ▸ hp')
      obtain ⟨htenant', halone'⟩ := hfree p' (List.mem_cons_of_mem _ hp') hp'secret
      constructor
      · intro k hk hkp
        rcases List.mem_cons.mp hk with rfl | hk
        · exact absurd hkp hne
        · exact htenant' k hk hkp
      · intro k hk
        rcases List.mem_cons.mp hk with rfl | hk
        · exact hne
        · exact halone' k hk

/-! ### Runs -/

/-- What a call may be: a key is stored under a purpose that is UTF-8 and for the tenant that the
    purpose's other keys have, and as active only while the purpose has no active key. -/
def Orderly (s : Bucket Bytes × Ledger) : Call → Prop
  | .storeKey a _ => checkStore a = .ok () → ValidUTF8 a.purpose ∧
      s.2.Unshared a.purpose a.tenantID ∧
        (a.status = .active → getActiveKey s.1 a.purpose a.tenantID = none)
  | .rotate purpose _ _ _ => s.2.Unshared purpose []
  | .reload provider _ => ∀ p ∈ rotationPurposes, secretFor provider p ≠ none →
      s.2.Unshared p [] ∧ getActiveKey s.1 p [] = none
  | _ => True

instance (s : Bucket Bytes × Ledger) : ∀ c, Decidable (Orderly s c)
  | .storeKey _ _ => inferInstanceAs (Decidable (_ → _ ∧ _ ∧ (_ → _)))
  | .setActive _ _ => instDecidableTrue
  | .markRetired _ _ => instDecidableTrue
  | .markCompromised _ _ => instDecidableTrue
  | .rotate purpose _ _ _ => inferInstanceAs (Decidable (s.2.Unshared purpose []))
  | .reload _ _ => inferInstanceAs (Decidable (∀ p ∈ rotationPurposes, _ → _ ∧ _))

theorem Matches.step {s : Bucket Bytes × Ledger} {c : Call} (h : Matches s.1 s.2)
    (hc : Orderly s c) (hfresh : (c.keyIDs ++ s.2.keys.map Key.id).Nodup) :
    Matches (step s c).1 (step s c).2 := by
  cases c with
  | storeKey a stamp =>
    simp only [KeyRegistry.step, regStep, ledgerStep]
    by_cases hcheck : checkStore a = .ok ()
    · obtain ⟨hvalid, htenant, halone⟩ := hc hcheck
      rw [Call.keyIDs, if_pos hcheck] at hfresh
      rw [if_pos hcheck]
      exact h.store hcheck hvalid (List.nodup_cons.mp hfresh).1 htenant
        (fun hactive => h.getActiveKey_eq_none.mp (halone hactive))
    · rw [if_neg hcheck]
      cases herr : checkStore a with
      | error err => rw [storeKey_of_not_check herr]; exact h
      | ok u => exact absurd herr hcheck
  | setActive keyID now => exact h.setActive keyID now
  | markRetired keyID now => exact h.mark (by decide) keyID now
  | markCompromised keyID now => exact h.mark (by decide) keyID now
  | rotate purpose random stamp now =>
    simp only [KeyRegistry.step, regStep, ledgerStep]
    cases hm : generateKeyForPurpose purpose random with
    | error err =>
      rw [KeyRegistry.rotate, hm]
      exact h
    | ok m =>
      simp only [Call.keyIDs, hm] at hfresh
      exact h.rotate hm (List.nodup_cons.mp hfresh).1 hc now
  | reload provider stamps =>
    simp only [KeyRegistry.step, regStep, ledgerStep]
    cases hreload : provider.reload with
    | error err =>
      have hnone : ∀ p, secretFor provider p = none := fun p => by rw [secretFor, hreload]
      have hskip : ∀ ps : List Bytes, ps.foldl (ledgerReload provider stamps) s.2 = s.2 := by
        intro ps
        induction ps with
        | nil => rfl
        | cons p ps ih => rw [List.foldl_cons, ledgerReload, hnone, ih]
      rw [KeyRegistry.reload, hreload, hskip]
      exact h
    | ok u =>
      rw [KeyRegistry.reload, hreload]
      refine h.reloadKeys hreload stamps validUTF8_rotationPurposes (by decide +kernel) hfresh
        (fun p hp hsecret => ?_)
      obtain ⟨htenant, hnone⟩ := hc p hp hsecret
      exact ⟨htenant, h.getActiveKey_eq_none.mp hnone⟩

omit [KeyJSON] in
theorem keys_ledgerReload (provider : SecretProvider) (stamps : Bytes → Stamp) (ps : List Bytes)
    (L : Ledger) : ((ps.foldl (ledgerReload provider stamps) L).keys.map Key.id).Perm
      (ps.filterMap (fun p => (secretFor provider p).map fun _ => newKeyID (stamps p)) ++
        L.keys.map Key.id) := by
  induction ps generalizing L with
  | nil => exact List.Perm.refl _
  | cons p ps ih =>
    rw [List.foldl_cons]
    refine (ih _).trans ?_
    rw [ledgerReload]
    cases hsecret : secretFor provider p with
    | none => rw [List.filterMap_cons_none (by rw [hsecret]; rfl)]
    | some m =>
      rw [List.filterMap_cons_some (by rw [hsecret]; rfl)]
      exact List.perm_middle

omit [KeyJSON] in
theorem keys_ledgerStep (L : Ledger) (c : Call) :
    ((ledgerStep L c).keys.map Key.id).Perm (c.keyIDs ++ L.keys.map Key.id) := by
  have hactivate : ∀ (L : Ledger) (id : Bytes), (L.activate id).keys = L.keys := by
    intro L id
    rw [Ledger.activate]
    split <;> rfl
  cases c with
  | storeKey a stamp =>
    rw [ledgerStep, Call.keyIDs]
    split_ifs
    · exact List.Perm.refl _
    · exact List.Perm.refl _
  | setActive keyID now =>
    rw [ledgerStep, hactivate]
    exact List.Perm.refl _
  | markRetired keyID now => exact List.Perm.refl _
  | markCompromised keyID now => exact List.Perm.refl _
  | rotate purpose random stamp now =>
    rw [ledgerStep, Call.keyIDs]
    cases generateKeyForPurpose purpose random with
    | error err => exact List.Perm.refl _
    | ok m =>
      simp only [hactivate]
      exact List.Perm.refl _
  | reload provider stamps => exact keys_ledgerReload provider stamps rotationPurposes L

theorem keys_run (calls : List Call) (s : Bucket Bytes × Ledger) :
    ((run step s calls).2.keys.map Key.id).Perm (calls.flatMap Call.keyIDs ++ s.2.keys.map Key.id) := by
  induction calls generalizing s with
  | nil => exact List.Perm.refl _
  | cons c calls ih =>
    rw [run_cons, List.flatMap_cons]
    refine (ih _).trans (((keys_ledgerStep s.2 c).append_left _).trans ?_)
    rw [← List.append_assoc]
    exact List.perm_append_comm.append_right _

theorem matches_run {calls : List Call} (hids : (calls.flatMap Call.keyIDs).Nodup)
    (h : Guarded step Orderly (Bucket.empty, {}) calls) :
    Matches (run step (Bucket.empty, {}) calls).1 (run step (Bucket.empty, {}) calls).2 := by
  have hfresh : Guarded step (fun s c => Orderly s c ∧ (c.keyIDs ++ s.2.keys.map Key.id).Nodup)
      (Bucket.empty, {}) calls := by
    rw [guarded_iff_split] at h ⊢
    intro before c after hcut
    refine ⟨h before c after hcut, ?_⟩
    have hperm := (keys_run before (Bucket.empty, {})).append_left c.keyIDs
    rw [List.map_nil, List.append_nil] at hperm
    rw [hperm.nodup_iff, List.perm_append_comm.nodup_iff]
    rw [hcut, List.flatMap_append, List.flatMap_cons, ← List.append_assoc] at hids
    exact hids.of_append_left
  exact run_invariant (fun s => Matches s.1 s.2) (fun s c hs hc => hs.step hc.1 hc.2)
    Matches.empty hfresh

/-- CORRECT: with pairwise distinct ids, after orderly calls a purpose has at most one active key,
    and `GetActiveKey` returns the one most recently made active for the purpose and its tenant. -/
theorem orderly_registry_follows_ledger {calls : List Call}
    (hids : (calls.flatMap Call.keyIDs).Nodup)
    (h : Guarded step Orderly (Bucket.empty, {}) calls) :
    (∀ id e id' e', entryAt (run step (Bucket.empty, {}) calls).1 id = some e →
      entryAt (run step (Bucket.empty, {}) calls).1 id' = some e' → e.status = .active →
        e'.status = .active → e.purpose = e'.purpose → id = id') ∧
    ∀ purpose tenant, (run step (Bucket.empty, {}) calls).2.Unshared purpose tenant →
      getActiveKey (run step (Bucket.empty, {}) calls).1 purpose tenant =
        (run step (Bucket.empty, {}) calls).2.current purpose tenant := by
  have hmatches := matches_run hids h
  constructor
  · intro id e id' e' he he' hactive hactive' hpurpose
    obtain ⟨k, hk, rfl⟩ := hmatches.known id e he
    obtain ⟨k', hk', rfl⟩ := hmatches.known id' e' he'
    obtain ⟨x, hx, hdesc, hlive⟩ := hmatches.entry k hk
    obtain ⟨x', hx', hdesc', hlive'⟩ := hmatches.entry k' hk'
    obtain rfl : e = x := Option.some.inj (he.symm.trans hx)
    obtain rfl : e' = x' := Option.some.inj (he'.symm.trans hx')
    have hkeys : k.purpose = k'.purpose := by rw [← hdesc.purpose, hpurpose, hdesc'.purpose]
    rw [hmatches.unique k (hlive.mpr hactive) k' (hlive'.mpr hactive') hkeys]
  · intro purpose tenant htenant
    exact hmatches.getActiveKey htenant

end Simulation

/-! ### A registry of concrete calls -/

/-- A JSON stand-in: fields behind their lengths; a text that is not UTF-8 is stored as U+FFFD. -/
def statusCode : Code KeyStatus :=
  Code.nat.map
    (fun n => match n with
      | 0 => .active
      | 1 => .retired
      | 2 => .compromised
      | _ => .pendingRotation)
    (fun s => match s with
      | .active => 0
      | .retired => 1
      | .compromised => 2
      | .pendingRotation => 3)
    (by rintro (_ | _ | _ | _) <;> rfl)

def keyCode : Code KeyEntry :=
  (Code.pair (Code.pair (Code.pair statusCode Code.nat) (Code.pair Code.int Code.int))
    (Code.pair (Code.list Code.int) (Code.list Code.bytes))).map
    (fun x => match x.2.2 with
      | [i, p, m, a, t] =>
        ⟨i, p, x.1.1.2, m, a, x.1.1.1, x.1.2.1, x.2.1.head?, t, x.1.2.2⟩
      | _ => ⟨[], [], x.1.1.2, [], [], x.1.1.1, x.1.2.1, x.2.1.head?, [], x.1.2.2⟩)
    (fun e => (((e.status, e.version), (e.createdAt, e.oprfShareIndex)),
      (e.rotatedAt.toList, [e.keyID, e.purpose, e.material, e.algorithm, e.tenantID])))
    (by rintro ⟨_, _, _, _, _, _, _, _ | _, _, _⟩ <;> rfl)

@[reducible] def sampleKeyJSON : KeyJSON where
  marshal e := keyCode.enc (mapTexts (fun b => if ValidUTF8 b then b else [239, 191, 189]) e)
  unmarshal v := match keyCode.dec v with
    | some (e, []) => .ok e
    | _ => .error (.text "invalid character after top-level value")
  toValid b := if ValidUTF8 b then b else [239, 191, 189]
  toValid_of_valid := replaceInvalid_of_valid
  unmarshal_marshal e := by
    have h := keyCode.dec_enc (mapTexts (fun b => if ValidUTF8 b then b else [239, 191, 189]) e) []
    rw [List.append_nil] at h
    simp only [h]

section Runs

local instance rotationJSON : KeyJSON := sampleKeyJSON

def stampAt (n : Int64) : Stamp := ⟨n, n, n.toInt⟩

def authProvider : SecretProvider where
  reload := .ok ()
  getSecret name := .ok (if name = lit "auth_token" then some [7] else none)

def zeroRandom : Random := .ok ⟨List.replicate 32 0, rfl⟩

/-- A key of tenant `a`, a rotation of another purpose, a withdrawal and a reload. -/
def orderlyCalls : List Call :=
  [.storeKey { purpose := lit "disk", material := [1], tenantID := [97], status := .active } (stampAt 5),
   .rotate (lit "auth") zeroRandom (stampAt 6) (fun _ => 6),
   .rotate (lit "auth") zeroRandom (stampAt 7) (fun _ => 7),
   .markCompromised (newKeyID (stampAt 7)) 8,
   .reload authProvider (fun _ => stampAt 9)]

def tenantCalls : List Call :=
  [.storeKey { purpose := lit "disk", material := [1], tenantID := [97], status := .active } (stampAt 5),
   .storeKey { purpose := lit "disk", material := [2], tenantID := [98], status := .active } (stampAt 6)]

def reloadCalls : List Call :=
  [.rotate (lit "auth") zeroRandom (stampAt 5) (fun _ => 5),
   .reload authProvider (fun _ => stampAt 6)]

def activeCount (calls : List Call) (purpose : Bytes) : ℕ :=
  (run step (Bucket.empty, {}) calls).1.map.count fun _ v => (activeFor purpose v).isSome

def Answers (calls : List Call) (purpose tenant : Bytes) : Prop :=
  getActiveKey (run step (Bucket.empty, {}) calls).1 purpose tenant =
    (run step (Bucket.empty, {}) calls).2.current purpose tenant

instance (calls : List Call) (purpose tenant : Bytes) : Decidable (Answers calls purpose tenant) :=
  inferInstanceAs (Decidable (getActiveKey _ purpose tenant = _))

theorem orderlyCalls_follow_ledger :
    (orderlyCalls.flatMap Call.keyIDs).Nodup ∧
    Guarded step Orderly (Bucket.empty, {}) orderlyCalls ∧
    getActiveKey (run step (Bucket.empty, {}) orderlyCalls).1 (lit "auth") [] =
      some (newKeyID (stampAt 9), [7]) :=
  have hids : (orderlyCalls.flatMap Call.keyIDs).Nodup := by decide +kernel
  have h : Guarded step Orderly (Bucket.empty, {}) orderlyCalls := by decide +kernel
  ⟨hids, h, ((orderly_registry_follows_ledger hids h).2 (lit "auth") [] (by decide +kernel)).trans
    (by decide +kernel)⟩

/-- With keys of two tenants under one purpose both are active, and the first tenant is answered with
    the second one's key; a reload behind a rotation leaves the rotated key active beside the one
    reloaded. -/
theorem tenants_and_reload_share_purpose :
    ((tenantCalls.flatMap Call.keyIDs).Nodup ∧ activeCount tenantCalls (lit "disk") = 2 ∧
      getActiveKey (run step (Bucket.empty, {}) tenantCalls).1 (lit "disk") [97] =
        some (newKeyID (stampAt 6), [2]) ∧ ¬ Answers tenantCalls (lit "disk") [97]) ∧
    (reloadCalls.flatMap Call.keyIDs).Nodup ∧ activeCount reloadCalls (lit "auth") = 2 :=
  ⟨⟨by decide +kernel, by decide +kernel, by decide +kernel, by decide +kernel⟩,
    by decide +kernel, by decide +kernel⟩

end Runs

end KeyRegistry

end Momo

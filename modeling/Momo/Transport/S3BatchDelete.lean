import Momo.Transport.S3Delete

/-! @momo src/transport/s3_communicator.go, src/transport/s3_versioning.go |
    scheme:two runs over one list

    DeleteObjects (`POST /{bucket}?delete`) against the single DELETEs it stands for. -/

namespace Momo.S3

open CASStore (Removed orphanOf DeleteOk dropRef)

/-! ### The batch -/

def maxDeleteBodyBytes : ℕ := 2 ^ 20

def maxDeleteKeys : ℕ := 1000

/-- The body of a DeleteObjects request: whether reading it failed, its length, and the `Key` of each
    `Object` if the XML is well formed. -/
structure Payload where
  readFault : Bool := false
  length : ℕ
  objects : Option (List Bytes)

def parseDeleteObjectsBody (objects : Option (List Bytes)) : Option (List Bytes) :=
  match objects with
  | none => none
  | some objects =>
    if maxDeleteKeys < objects.length then none
    else some ((objects.map trimSpace).filter (fun k => k ≠ []))

structure DeleteError where
  key : Bytes
  code : String
  message : String
  deriving DecidableEq

inductive BatchReply
  | s3Error (status : ℕ) (code message : String)
  | deleteResult (deleted : List Bytes) (errs : List DeleteError)
  deriving DecidableEq

structure Batch (β : Type) where
  store : CASStore β
  deleted : List Bytes := []
  errs : List DeleteError := []

section Batch

variable {β : Type} [BlobStore β]

def batchStep (env : Bytes → DeleteEnv) (b : Batch β) (k : Bytes) : Batch β :=
  if dotDot <:+: k ∨ k.contains 92 then
    { b with errs := b.errs ++ [⟨k, "InvalidArgument", "Invalid key."⟩] }
  else
    match (env k).lease with
    | some _ =>
      { b with
        errs := b.errs ++ [⟨k, "ServiceUnavailable",
          "The request could not be completed because the resource is locked by another request."⟩] }
    | none =>
      match b.store.delete (env k).io (env k).clock k with
      | (.error _, s') =>
        { b with
          store := s'
          errs := b.errs ++ [⟨k, "InternalError", "The request failed due to an internal error."⟩] }
      | (.ok _, s') =>
        { b with
          store := s'
          deleted := b.deleted ++ [k] }

def handleBatchDelete (g : Gateway) (env : Bytes → DeleteEnv) (s : CASStore β) (bucket : Bytes)
    (payload : Payload) : BatchReply × CASStore β :=
  if validBucket g bucket = false then
    (.s3Error 404 "NoSuchBucket" "The specified bucket does not exist.", s)
  else if payload.readFault then
    (.s3Error 400 "InvalidRequest" "Error parsing request body:", s)
  else if maxDeleteBodyBytes < payload.length then
    (.s3Error 400 "MalformedXML" "The request body is too large.", s)
  else
    match parseDeleteObjectsBody payload.objects with
    | none =>
      (.s3Error 400 "MalformedXML" ("The XML you provided was not well-formed or did not validate " ++
        "against our published schema."), s)
    | some keys =>
      let b := run (batchStep env) { store := s } keys
      (.deleteResult b.deleted b.errs, b.store)

def singleDeletes (g : Gateway) (env : Bytes → DeleteEnv) (status : Option VersioningStatus)
    (s : CASStore β) (bucket : Bytes) (keys : List Bytes) : CASStore β :=
  run (fun s k => (handleDelete g (env k) status s { bucket := bucket, key := k }).2) s keys

end Batch

def ValidKey (k : Bytes) : Prop := k ≠ [] ∧ trimSpace k = k ∧ ¬ dotDot <:+: k ∧ k.contains 92 = false

instance (k : Bytes) : Decidable (ValidKey k) := inferInstanceAs (Decidable (_ ∧ _ ∧ _ ∧ _))

/-! ### The same outcome -/

def anonymous (r : VersionRecord) : VersionRecord := { r with versionID := [], timestamp := 0 }

section Outcome

variable {β : Type} [BlobStore β] [MapBackend β]

def readable (s : CASStore β) (n : Bytes) : Option Bytes :=
  match s.getHashForName n with
  | .ok h => s.bytes h
  | .error _ => none

def versionContent (s : CASStore β) (K : Bytes) : Option Bytes :=
  (s.db.objectVersions.get K).bind (fun r => if r.isDeleteMarker then none else s.bytes r.hash)

/-- Two outcomes from `s` are the same up to fresh ids and clock values: the records that were there
    are the same, and the others correspond one to one. -/
structure SameOutcome (s s₁ s₂ : CASStore β) : Prop where
  ns : ∀ n, s₁.db.ns.get n = s₂.db.ns.get n
  readable : ∀ n, readable s₁ n = readable s₂ n
  lockState : s₁.db.lockState = s₂.db.lockState
  versions : ∃ σ : Equiv.Perm Bytes,
    (∀ K, s.db.objectVersions.get K ≠ none → σ K = K ∧
      s₁.db.objectVersions.get K = s₂.db.objectVersions.get K) ∧
    (∀ K, (s₁.db.objectVersions.get K).map anonymous =
      (s₂.db.objectVersions.get (σ K)).map anonymous) ∧
    ∀ K, versionContent s₁ K = versionContent s₂ (σ K)

/-! ### What a list of deletes does -/

inductive Effect
  | skip
  | unmap
  | remove (io : Option Err)
  deriving DecidableEq

def Applies (e : Effect) (k : Bytes) (s s' : CASStore β) : Prop :=
  match e with
  | .skip => s' = s
  | .unmap => s' = { s with db := { s.db with ns := s.db.ns.del k } }
  | .remove io => ∃ at_, Removed s s' io k at_

/-- The back end's answers to the deletes that release a reference to `h`. -/
def releases (effect : Bytes → Effect) (ns : Bucket Bytes) (h : Bytes) (keys : List Bytes) :
    List (Option Err) :=
  keys.filterMap (fun k =>
    match effect k with
    | .remove io => if ns.get k = some h then some io else none
    | _ => none)

/-- Releasing references, from `n` on, deletes the bytes: with the last one, if the back end carries
    the delete out. -/
def burns (h : Bytes) : Int → List (Option Err) → Bool
  | _, [] => false
  | n, io :: rest =>
    if n ≤ 1 then decide (DeleteOk io h) || burns h 0 rest else burns h (n - 1) rest

def lost (effect : Bytes → Effect) (db : MetaDB) (keys : List Bytes) (h : Bytes) : Bool :=
  (db.objects.get h).any (fun m => burns h m.refCount (releases effect db.ns h keys))

def Cleared (effect : Bytes → Effect) (keys : List Bytes) (n : Bytes) : Prop :=
  n ∈ keys ∧ effect n ≠ .skip

instance (effect : Bytes → Effect) (keys : List Bytes) (n : Bytes) :
    Decidable (Cleared effect keys n) := inferInstanceAs (Decidable (_ ∧ _))

structure Applied (effect : Bytes → Effect) (keys : List Bytes) (s s' : CASStore β) : Prop where
  objectVersions : s'.db.objectVersions = s.db.objectVersions
  lockState : s'.db.lockState = s.db.lockState
  ns : ∀ n, s'.db.ns.get n = if Cleared effect keys n then none else s.db.ns.get n
  tombstones : ∀ n, ¬ Cleared effect keys n → s'.db.tombstones.get n = s.db.tombstones.get n
  bytes : ∀ h, s'.bytes h = if lost effect s.db keys h then none else s.bytes h

variable {effect : Bytes → Effect} {s s₁ s' : CASStore β} {k : Bytes} {keys : List Bytes}

theorem Applies.objectVersions {e : Effect} (h : Applies e k s s') :
    s'.db.objectVersions = s.db.objectVersions := by
  cases e with
  | skip => rw [show s' = s from h]
  | unmap => rw [show s' = _ from h]
  | remove io =>
    obtain ⟨at_, hr⟩ := h
    exact hr.objectVersions

theorem releases_del (effect : Bytes → Effect) (ns : Bucket Bytes) (h : Bytes) (hk : k ∉ keys) :
    releases effect (ns.del k) h keys = releases effect ns h keys := by
  refine List.filterMap_congr (fun n hn => ?_)
  have hne : n ≠ k := fun he => hk (he ▸ hn)
  rw [Bucket.get_del_ne _ hne]

theorem releases_cons_remove {io : Option Err} (he : effect k = .remove io) (ns : Bucket Bytes)
    (h : Bytes) : releases effect ns h (k :: keys) =
      if ns.get k = some h then io :: releases effect ns h keys else releases effect ns h keys := by
  unfold releases
  by_cases hns : ns.get k = some h
  · rw [if_pos hns, List.filterMap_cons_some (b := io) (by simp only [he, if_pos hns])]
  · rw [if_neg hns, List.filterMap_cons_none (by simp only [he, if_neg hns])]

theorem releases_cons_other (he : ∀ io, effect k ≠ .remove io) (ns : Bucket Bytes) (h : Bytes) :
    releases effect ns h (k :: keys) = releases effect ns h keys := by
  unfold releases
  rw [List.filterMap_cons_none]
  cases hk : effect k with
  | remove io => exact absurd hk (he io)
  | _ => rfl

theorem burns_drop (h : Bytes) (m : ObjectMeta) (at_ : Int) (ios : List (Option Err)) :
    burns h (dropRef m at_).refCount ios =
      burns h (if m.refCount ≤ 1 then 0 else m.refCount - 1) ios := by
  unfold dropRef
  by_cases hle : m.refCount - 1 ≤ 0
  · rw [if_pos hle, if_pos (by omega)]
  · rw [if_neg hle, if_neg (by omega)]

/-- Step: a removal, then the rest of the list. -/
theorem lost_cons_remove {io : Option Err} {at_ : Int} (he : effect k = .remove io)
    (hr : Removed s s₁ io k at_) (hk : k ∉ keys) (h : Bytes) :
    lost effect s.db (k :: keys) h =
      (decide (orphanOf s.db k = some h ∧ DeleteOk io h) || lost effect s₁.db keys h) := by
  unfold lost
  rw [hr.ns, releases_del effect _ h hk, releases_cons_remove he, hr.objects h]
  cases hobj : s.db.objects.get h with
  | none =>
    have hno : orphanOf s.db k ≠ some h := by
      intro ho
      obtain ⟨-, m, hm, -⟩ := CASStore.orphanOf_eq_some.mp ho
      rw [hobj] at hm
      cases hm
    simp [hno]
  | some m =>
    by_cases hns : s.db.ns.get k = some h
    · by_cases hle : m.refCount ≤ 1
      · have horphan : orphanOf s.db k = some h :=
          CASStore.orphanOf_eq_some.mpr ⟨hns, m, hobj, hle⟩
        by_cases hok : DeleteOk io h
        · simp [hns, horphan, hok, burns, hle]
        · simp [hns, hok, burns, hle, burns_drop]
      · have horphan : orphanOf s.db k ≠ some h := by
          intro ho
          obtain ⟨-, m', hm', hle'⟩ := CASStore.orphanOf_eq_some.mp ho
          rw [hobj] at hm'
          obtain rfl := Option.some.inj hm'
          exact hle hle'
        simp [hns, horphan, burns, hle, burns_drop]
    · have horphan : orphanOf s.db k ≠ some h :=
        fun ho => hns (CASStore.orphanOf_eq_some.mp ho).1
      simp [hns, horphan]

theorem cleared_cons {n : Bytes} :
    Cleared effect (k :: keys) n ↔ (n = k ∧ effect k ≠ .skip) ∨ Cleared effect keys n := by
  unfold Cleared
  rw [List.mem_cons]
  constructor
  · rintro ⟨rfl | hn, he⟩
    · exact .inl ⟨rfl, he⟩
    · exact .inr ⟨hn, he⟩
  · rintro (⟨rfl, he⟩ | ⟨hn, he⟩)
    · exact ⟨.inl rfl, he⟩
    · exact ⟨.inr hn, he⟩

theorem Applied.nil (effect : Bytes → Effect) (s : CASStore β) : Applied effect [] s s where
  objectVersions := rfl
  lockState := rfl
  ns n := by simp [Cleared]
  tombstones _ _ := rfl
  bytes h := by
    have hno : lost effect s.db [] h = false := by
      unfold lost releases
      cases s.db.objects.get h <;> rfl
    rw [hno, if_neg (by simp)]

theorem Applied.cons (hk : k ∉ keys) (hone : Applies (effect k) k s s₁)
    (hrest : Applied effect keys s₁ s') : Applied effect (k :: keys) s s' := by
  have hversions := hrest.objectVersions.trans hone.objectVersions
  cases he : effect k with
  | skip =>
    rw [he] at hone
    obtain rfl : s₁ = s := hone
    have hclear : ∀ n, Cleared effect (k :: keys) n ↔ Cleared effect keys n := by
      intro n
      rw [cleared_cons, he]
      simp
    refine ⟨hversions, hrest.lockState, fun n => ?_, fun n hn => ?_, fun h => ?_⟩
    · rw [hrest.ns n, if_congr (hclear n) rfl rfl]
    · exact hrest.tombstones n (fun hc => hn ((hclear n).mpr hc))
    · rw [hrest.bytes h]
      unfold lost
      rw [releases_cons_other (by simp [he])]
  | unmap =>
    rw [he] at hone
    obtain rfl : s₁ = { s with db := { s.db with ns := s.db.ns.del k } } := hone
    refine ⟨hversions, hrest.lockState, fun n => ?_, fun n hn => ?_, fun h => ?_⟩
    · rw [hrest.ns n, Bucket.get_del]
      by_cases hn : n = k
      · rw [if_pos hn, ite_self, if_pos (cleared_cons.mpr (.inl ⟨hn, by simp [he]⟩))]
      · rw [if_neg hn]
        refine if_congr ?_ rfl rfl
        rw [cleared_cons]
        simp [hn]
    · exact hrest.tombstones n (fun hc => hn (cleared_cons.mpr (.inr hc)))
    · rw [hrest.bytes h]
      unfold lost
      rw [releases_cons_other (by simp [he]), releases_del effect _ h hk]
  | remove io =>
    rw [he] at hone
    obtain ⟨at_, hr⟩ := hone
    refine ⟨hversions, hrest.lockState.trans hr.lockState, fun n => ?_, fun n hn => ?_, fun h => ?_⟩
    · rw [hrest.ns n, hr.ns, Bucket.get_del]
      by_cases hn : n = k
      · rw [if_pos hn, ite_self, if_pos (cleared_cons.mpr (.inl ⟨hn, by simp [he]⟩))]
      · rw [if_neg hn]
        refine if_congr ?_ rfl rfl
        rw [cleared_cons]
        simp [hn]
    · have hne : n ≠ k := fun hnk => hn (cleared_cons.mpr (.inl ⟨hnk, by simp [he]⟩))
      rw [hrest.tombstones n (fun hc => hn (cleared_cons.mpr (.inr hc))), hr.tombstones,
        Bucket.get_set_ne _ _ _ hne]
    · rw [hrest.bytes h, hr.bytes h, lost_cons_remove he hr hk]
      by_cases hgone : orphanOf s.db k = some h ∧ DeleteOk io h
      · rw [if_pos hgone, decide_eq_true hgone]
        simp
      · rw [if_neg hgone, decide_eq_false hgone, Bool.false_or]

/-- Run: a step function that deletes each key with its effect, as long as the version table is the
    one the run started with. -/
theorem applied_run (effect : Bytes → Effect) {step : CASStore β → Bytes → CASStore β} (hnodup : keys.Nodup) :
    ∀ {s : CASStore β}, (∀ s' k, k ∈ keys → s'.db.objectVersions = s.db.objectVersions →
      Applies (effect k) k s' (step s' k)) → Applied effect keys s (run step s keys) := by
  induction keys with
  | nil => exact fun {s} _ => Applied.nil effect s
  | cons k keys ih =>
    intro s hstep
    obtain ⟨hk, hnodup⟩ := List.nodup_cons.mp hnodup
    have hone := hstep s k List.mem_cons_self rfl
    refine Applied.cons hk hone (ih hnodup (fun s' n hn hversions => ?_))
    exact hstep s' n (List.mem_cons_of_mem k hn) (hversions.trans hone.objectVersions)

/-! ### When two lists of deletes have the same outcome -/

/-- A content somebody can ask for after the list: a name that stays shows it, or a data version. -/
def Needed (effect : Bytes → Effect) (keys : List Bytes) (s : CASStore β) (h : Bytes) : Prop :=
  (∃ n, s.getHashForName n = .ok h ∧ ¬ Cleared effect keys n) ∨
    ∃ K r, s.db.objectVersions.get K = some r ∧ r.isDeleteMarker = false ∧ r.hash = h

theorem Applied.getHashForName (ha : Applied effect keys s s') (n : Bytes) :
    (Cleared effect keys n → ∀ h, s'.getHashForName n ≠ .ok h) ∧
      (¬ Cleared effect keys n → s'.getHashForName n = s.getHashForName n) := by
  constructor
  · intro hc h hshown
    have hns := (CASStore.getHashForName_eq_ok.mp hshown).2
    rw [ha.ns n, if_pos hc] at hns
    cases hns
  · intro hc
    unfold CASStore.getHashForName
    rw [ha.tombstones n hc, ha.ns n, if_neg hc]

theorem Applied.readable_cleared (ha : Applied effect keys s s') {n : Bytes}
    (hc : Cleared effect keys n) : readable s' n = none := by
  unfold readable
  cases hshown : s'.getHashForName n with
  | error e => rfl
  | ok h => exact absurd hshown ((ha.getHashForName n).1 hc h)

theorem Applied.readable_of_shown (ha : Applied effect keys s s') {n h : Bytes}
    (hc : ¬ Cleared effect keys n) (hshown : s.getHashForName n = .ok h) :
    readable s' n = s'.bytes h := by
  unfold readable
  rw [(ha.getHashForName n).2 hc, hshown]

theorem sameOutcome_iff_of_applied {effect₁ effect₂ : Bytes → Effect} {s₂ : CASStore β}
    (h₁ : Applied effect₁ keys s s₁) (h₂ : Applied effect₂ keys s s₂) :
    SameOutcome s s₁ s₂ ↔
      (∀ n, s.db.ns.get n ≠ none → (Cleared effect₁ keys n ↔ Cleared effect₂ keys n)) ∧
        ∀ h, Needed effect₂ keys s h → s.bytes h ≠ none →
          lost effect₁ s.db keys h = lost effect₂ s.db keys h := by
  -- the bytes after the two lists agree exactly when both or none lose them
  have hbytes : ∀ h, s₁.bytes h = s₂.bytes h ↔
      (s.bytes h ≠ none → lost effect₁ s.db keys h = lost effect₂ s.db keys h) := by
    intro h
    rw [h₁.bytes h, h₂.bytes h]
    cases s.bytes h <;> cases lost effect₁ s.db keys h <;> cases lost effect₂ s.db keys h <;> simp
  constructor
  · intro hp
    have hclear : ∀ n, s.db.ns.get n ≠ none →
        (Cleared effect₁ keys n ↔ Cleared effect₂ keys n) := by
      intro n hn
      have hns := hp.ns n
      rw [h₁.ns n, h₂.ns n] at hns
      by_cases hc₁ : Cleared effect₁ keys n <;> by_cases hc₂ : Cleared effect₂ keys n
      · exact iff_of_true hc₁ hc₂
      · rw [if_pos hc₁, if_neg hc₂] at hns
        exact absurd hns.symm hn
      · rw [if_neg hc₁, if_pos hc₂] at hns
        exact absurd hns hn
      · exact iff_of_false hc₁ hc₂
    refine ⟨hclear, fun h hneeded hb => (hbytes h).mp ?_ hb⟩
    rcases hneeded with ⟨n, hshown, hc₂⟩ | ⟨K, r, hr, hdata, rfl⟩
    · have hmapped : s.db.ns.get n ≠ none := by
        rw [(CASStore.getHashForName_eq_ok.mp hshown).2]
        simp
      have hc₁ : ¬ Cleared effect₁ keys n := fun hc => hc₂ ((hclear n hmapped).mp hc)
      rw [← h₁.readable_of_shown hc₁ hshown, ← h₂.readable_of_shown hc₂ hshown, hp.readable n]
    · obtain ⟨σ, hfix, -, hcontent⟩ := hp.versions
      have hK : s.db.objectVersions.get K ≠ none := by rw [hr]; simp
      have hsame := hcontent K
      rw [(hfix K hK).1] at hsame
      simpa [versionContent, h₁.objectVersions, h₂.objectVersions, hr, hdata] using hsame
  · rintro ⟨hclear, hlost⟩
    have hneeded : ∀ h, Needed effect₂ keys s h → s₁.bytes h = s₂.bytes h :=
      fun h hn => (hbytes h).mpr (hlost h hn)
    refine ⟨fun n => ?_, fun n => ?_, h₁.lockState.trans h₂.lockState.symm,
      Equiv.refl _, fun K _ => ⟨rfl, ?_⟩, fun K => ?_, fun K => ?_⟩
    · rw [h₁.ns n, h₂.ns n]
      cases hn : s.db.ns.get n with
      | none => simp
      | some h => exact if_congr (hclear n (by rw [hn]; simp)) rfl rfl
    · cases hshown : s.getHashForName n with
      | error e =>
        have hnone : ∀ {effect' : Bytes → Effect} {s'' : CASStore β},
            Applied effect' keys s s'' → readable s'' n = none := by
          intro effect' s'' ha
          by_cases hc : Cleared effect' keys n
          · exact ha.readable_cleared hc
          · unfold readable
            rw [(ha.getHashForName n).2 hc, hshown]
        rw [hnone h₁, hnone h₂]
      | ok h =>
        have hmapped : s.db.ns.get n ≠ none := by
          rw [(CASStore.getHashForName_eq_ok.mp hshown).2]
          simp
        by_cases hc₂ : Cleared effect₂ keys n
        · rw [h₁.readable_cleared ((hclear n hmapped).mpr hc₂), h₂.readable_cleared hc₂]
        · have hc₁ : ¬ Cleared effect₁ keys n := fun hc => hc₂ ((hclear n hmapped).mp hc)
          rw [h₁.readable_of_shown hc₁ hshown, h₂.readable_of_shown hc₂ hshown]
          exact hneeded h (.inl ⟨n, hshown, hc₂⟩)
    · rw [h₁.objectVersions, h₂.objectVersions]
    · rw [h₁.objectVersions, h₂.objectVersions]
      rfl
    · unfold versionContent
      rw [h₁.objectVersions, h₂.objectVersions]
      change Option.bind (s.db.objectVersions.get K) _ = Option.bind (s.db.objectVersions.get K) _
      cases hr : s.db.objectVersions.get K with
      | none => rfl
      | some r =>
        cases hdata : r.isDeleteMarker with
        | true => simp [hdata]
        | false => simpa [hdata] using hneeded r.hash (.inr ⟨K, r, hr, hdata, rfl⟩)

end Outcome

/-! ### The two ways -/

section Ways

variable {β : Type} [BlobStore β] [MapBackend β]

def Payload.accepted (payload : Payload) (keys : List Bytes) : Bool :=
  !payload.readFault && payload.length ≤ maxDeleteBodyBytes && keys.length ≤ maxDeleteKeys

def plainEffect (lease io : Option Err) (k : Bytes) : Effect :=
  if lease = none ∧ KeyOk k then .remove io else .skip

def batchEffect (accepted : Bool) (env : Bytes → DeleteEnv) (k : Bytes) : Effect :=
  if accepted then plainEffect (env k).lease (env k).io k else .skip

def versionedRoute (g : Gateway) (status : Option VersioningStatus) (env : DeleteEnv) : Bool :=
  g.versioning && isVersioned env.viewFault status = .ok true

def singleEffect (g : Gateway) (status : Option VersioningStatus) (env : Bytes → DeleteEnv)
    (k : Bytes) : Effect :=
  if versionedRoute g status (env k) then .unmap else plainEffect (env k).lease (env k).io k

def MarkerRefused (versions : Bucket VersionRecord) (bucket k markerID : Bytes) : Prop :=
  scanVersions versions bucket k = none ∨ ¬ KeyOk (versionKey bucket k markerID)

instance (versions : Bucket VersionRecord) (bucket k markerID : Bytes) :
    Decidable (MarkerRefused versions bucket k markerID) := inferInstanceAs (Decidable (_ ∨ _))

/-- The condition: no delete marker is recorded, and the list takes the same mappings and the same
    needed bytes away on both ways. -/
def BatchOk (g : Gateway) (status : Option VersioningStatus) (env : Bytes → DeleteEnv)
    (s : CASStore β) (bucket : Bytes) (payload : Payload) (keys : List Bytes) : Prop :=
  validBucket g bucket = true →
    (∀ k ∈ keys, versionedRoute g status (env k) = true →
      MarkerRefused s.db.objectVersions bucket k (env k).markerID) ∧
    (∀ n, s.db.ns.get n ≠ none → (Cleared (batchEffect (payload.accepted keys) env) keys n ↔
      Cleared (singleEffect g status env) keys n)) ∧
    ∀ h, Needed (singleEffect g status env) keys s h → s.bytes h ≠ none →
      lost (batchEffect (payload.accepted keys) env) s.db keys h =
        lost (singleEffect g status env) s.db keys h

variable {g : Gateway} {status : Option VersioningStatus} {keys : List Bytes}

theorem batchOk_of_plain {env : Bytes → DeleteEnv} (s : CASStore β) (bucket : Bytes)
    {payload : Payload} (hplain : ∀ k, versionedRoute g status (env k) = false)
    (haccepted : payload.accepted keys = true) : BatchOk g status env s bucket payload keys := by
  have hsame : batchEffect (payload.accepted keys) env = singleEffect g status env := by
    funext k
    unfold batchEffect singleEffect
    rw [haccepted, hplain k]
    simp
  intro _
  rw [hsame]
  refine ⟨fun k _ hk => ?_, fun _ _ => Iff.rfl, fun _ _ _ => rfl⟩
  rw [hplain k] at hk
  cases hk

variable {k : Bytes} {s : CASStore β}

theorem applies_plain {s' : CASStore β} {lease io : Option Err} (at_ : Int)
    (h : ((lease ≠ none ∨ ¬ KeyOk k) ∧ s' = s) ∨ (lease = none ∧ Removed s s' io k at_)) :
    Applies (plainEffect lease io k) k s s' := by
  unfold plainEffect
  rcases h with ⟨hrefused, hs⟩ | ⟨hlease, hr⟩
  · rw [if_neg (fun hok => hrefused.elim (· hok.1) (· hok.2))]
    exact hs
  · rw [if_pos ⟨hlease, hr.nameOk⟩]
    exact ⟨at_, hr⟩

theorem applies_batchStep (env : Bytes → DeleteEnv) (b : Batch β) (hk : ValidKey k) :
    Applies (plainEffect (env k).lease (env k).io k) k b.store (batchStep env b k).store := by
  apply applies_plain (env k).clock
  have hvalid : ¬ (dotDot <:+: k ∨ k.contains 92 = true) := by
    rintro (h | h)
    · exact hk.2.2.1 h
    · rw [hk.2.2.2] at h
      cases h
  unfold batchStep
  rw [if_neg hvalid]
  cases (env k).lease with
  | some e => exact .inl ⟨.inl (by simp), rfl⟩
  | none =>
    have hcases := b.store.delete_cases (env k).io (env k).clock k
    generalize b.store.delete (env k).io (env k).clock k = out at hcases
    obtain ⟨result, s'⟩ := out
    cases result <;> exact hcases.imp (fun h => ⟨.inr h.1, h.2⟩) (fun h => ⟨rfl, h⟩)

omit [MapBackend β] in
theorem store_run_batchStep (env : Bytes → DeleteEnv) (keys : List Bytes) :
    ∀ b : Batch β, (run (batchStep env) b keys).store =
      run (fun s k => (batchStep env { store := s } k).store) b.store keys := by
  have hstore : ∀ (b : Batch β) (k : Bytes),
      (batchStep env b k).store = (batchStep env { store := b.store } k).store := by
    intro b k
    unfold batchStep
    split_ifs
    · rfl
    · cases (env k).lease with
      | some e => rfl
      | none =>
        generalize b.store.delete (env k).io (env k).clock k = out
        obtain ⟨result, s'⟩ := out
        cases result <;> rfl
  induction keys with
  | nil => exact fun b => rfl
  | cons k keys ih =>
    intro b
    change (run (batchStep env) (batchStep env b k) keys).store = _
    rw [ih, hstore]
    rfl

variable {bucket : Bytes}

theorem exists_putVersion (op : String) {versions : Bucket VersionRecord} {r : VersionRecord}
    {found : List (Bytes × VersionRecord)} (hscan : scanVersions versions bucket k = some found)
    (hk : KeyOk (versionKey bucket k r.versionID)) :
    ∃ versions', putVersion op versions bucket k r = .ok versions' := by
  obtain ⟨hget, hsorted⟩ := scanVersions_spec hscan
  obtain ⟨mid, hdem, -⟩ := demote_spec found hget hsorted
  refine ⟨mid.set _ hk r, ?_⟩
  rw [putVersion, hscan]
  simp only [hdem, bind, Except.bind, Bucket.put_of_keyOk _ hk]

omit [BlobStore β] [MapBackend β] in
theorem recordDeleteMarker_cases (s : CASStore β) (bucket k markerID : Bytes) (clock : Int) :
    (MarkerRefused s.db.objectVersions bucket k markerID →
      (s.recordDeleteMarker bucket k markerID clock).2 = s) ∧
    ∃ versions, (s.recordDeleteMarker bucket k markerID clock).2 = s.withVersions versions ∧
      (∀ K, s.db.objectVersions.get K ≠ none → versions.get K ≠ none) ∧
      (¬ MarkerRefused s.db.objectVersions bucket k markerID →
        versions.get (versionKey bucket k markerID) ≠ none) := by
  unfold CASStore.recordDeleteMarker
  cases hput : putVersion "CASStore.RecordDeleteMarker" s.db.objectVersions bucket k
      { versionID := markerID, timestamp := clock, isLatest := true, isDeleteMarker := true } with
  | error e =>
    refine ⟨fun _ => rfl, s.db.objectVersions, rfl, fun K hK => hK, fun hok => ?_⟩
    obtain ⟨hscan, hk⟩ := not_or.mp hok
    obtain ⟨found, hfound⟩ := Option.ne_none_iff_exists'.mp hscan
    obtain ⟨versions', hput'⟩ := exists_putVersion "CASStore.RecordDeleteMarker" hfound
      (r := { versionID := markerID, timestamp := clock, isLatest := true, isDeleteMarker := true })
      (not_not.mp hk)
    rw [hput] at hput'
    cases hput'
  | ok versions =>
    obtain ⟨found, hfound, hget⟩ := putVersion_ok hput
    refine ⟨fun hrefused => ?_, versions, rfl, fun K hK => ?_, fun _ => ?_⟩
    · have hk : KeyOk (versionKey bucket k markerID) :=
        Bucket.keyOk_of_get (by rw [hget, if_pos rfl])
      rcases hrefused with hscan | hbad
      · rw [hfound] at hscan
        cases hscan
      · exact absurd hk hbad
    · rw [hget K]
      split_ifs
      · simp
      · simpa using hK
      · exact hK
    · rw [hget, if_pos rfl]
      simp

variable {env : DeleteEnv}

omit [MapBackend β] in
theorem handleDelete_versioned (hk : k ≠ []) (hb : validBucket g bucket = true)
    (hroute : versionedRoute g status env = true) :
    (handleDelete g env status s { bucket := bucket, key := k }).2 =
      (({ s with db := { s.db with ns := s.db.ns.del k } } : CASStore β).recordDeleteMarker bucket k
        env.markerID env.clock).2 := by
  obtain ⟨hver, hstatus⟩ := Bool.and_eq_true_iff.mp hroute
  unfold handleDelete
  rw [if_neg (fun h => h.1 rfl), if_neg hk, if_neg (by simp [hb]), if_neg (by simp [hver]),
    of_decide_eq_true hstatus]
  simp only [CASStore.handleVersionedDelete, CASStore.repointNamespace, if_true]
  generalize CASStore.recordDeleteMarker _ bucket k env.markerID env.clock = out
  obtain ⟨result, s'⟩ := out
  cases result <;> rfl

omit [MapBackend β] in
theorem handleDelete_plain (hk : k ≠ []) (hb : validBucket g bucket = true)
    (hroute : versionedRoute g status env = false) :
    (handleDelete g env status s { bucket := bucket, key := k }).2 = (plainDelete env s k).2 := by
  unfold handleDelete
  rw [if_neg (fun h => h.1 rfl), if_neg hk, if_neg (by simp [hb])]
  cases hver : g.versioning with
  | false => rw [if_pos rfl, if_neg (fun h => h rfl)]
  | true =>
    have hstatus : isVersioned env.viewFault status ≠ .ok true := by
      intro h
      simp [versionedRoute, hver, h] at hroute
    rw [if_neg (by simp)]
    split
    · next h => exact absurd h hstatus
    · rfl

theorem applies_singleDelete (env : Bytes → DeleteEnv) (hk : k ≠ [])
    (hb : validBucket g bucket = true) (hmarker : versionedRoute g status (env k) = true →
      MarkerRefused s.db.objectVersions bucket k (env k).markerID) :
    Applies (singleEffect g status env k) k s
      (handleDelete g (env k) status s { bucket := bucket, key := k }).2 := by
  unfold singleEffect
  cases hroute : versionedRoute g status (env k) with
  | true =>
    rw [if_pos rfl, handleDelete_versioned hk hb hroute]
    exact (recordDeleteMarker_cases _ bucket k _ _).1 (hmarker hroute)
  | false =>
    rw [if_neg (by simp), handleDelete_plain hk hb hroute]
    exact applies_plain _ (plainDelete_cases (env k) s k).2

theorem singleDelete_keeps {K : Bytes} (hk : k ≠ []) (hb : validBucket g bucket = true)
    (hK : s.db.objectVersions.get K ≠ none) :
    (handleDelete g env status s { bucket := bucket, key := k }).2.db.objectVersions.get K ≠ none := by
  cases hroute : versionedRoute g status env with
  | true =>
    rw [handleDelete_versioned hk hb hroute]
    obtain ⟨-, versions, heq, hkeep, -⟩ := recordDeleteMarker_cases
      { s with db := { s.db with ns := s.db.ns.del k } } bucket k env.markerID env.clock
    rw [heq]
    exact hkeep K hK
  | false =>
    rw [handleDelete_plain hk hb hroute]
    rcases (plainDelete_cases env s k).2 with ⟨-, hs⟩ | ⟨-, hr⟩
    · rw [hs]
      exact hK
    · rw [hr.objectVersions]
      exact hK

/-- Run: as soon as one marker of the list is not refused, the table has a record under the key of
    one of the markers. -/
theorem marker_recorded {env : Bytes → DeleteEnv} (hb : validBucket g bucket = true) :
    ∀ {s : CASStore β}, (∀ k ∈ keys, k ≠ []) →
      (∃ k ∈ keys, versionedRoute g status (env k) = true ∧
        ¬ MarkerRefused s.db.objectVersions bucket k (env k).markerID) →
      ∃ k ∈ keys, (singleDeletes g env status s bucket keys).db.objectVersions.get
        (versionKey bucket k (env k).markerID) ≠ none := by
  induction keys with
  | nil =>
    rintro s - ⟨k, hk, -⟩
    cases hk
  | cons k keys ih =>
    intro s hne hmarker
    set s₁ := (handleDelete g (env k) status s { bucket := bucket, key := k }).2 with hs₁
    have hrun : singleDeletes g env status s bucket (k :: keys) =
        singleDeletes g env status s₁ bucket keys := rfl
    have hkne := hne k List.mem_cons_self
    have hne' : ∀ n ∈ keys, n ≠ [] := fun n hn => hne n (List.mem_cons_of_mem k hn)
    by_cases hhead : versionedRoute g status (env k) = true ∧
        ¬ MarkerRefused s.db.objectVersions bucket k (env k).markerID
    · -- the marker of the first key is there, and stays
      have hput : s₁.db.objectVersions.get (versionKey bucket k (env k).markerID) ≠ none := by
        rw [hs₁, handleDelete_versioned hkne hb hhead.1]
        obtain ⟨-, versions, heq, -, hnew⟩ := recordDeleteMarker_cases
          { s with db := { s.db with ns := s.db.ns.del k } } bucket k (env k).markerID (env k).clock
        rw [heq]
        exact hnew hhead.2
      refine ⟨k, List.mem_cons_self, ?_⟩
      rw [hrun]
      exact run_invariant (fun t : CASStore β => t.db.objectVersions.get _ ≠ none)
        (fun t n hK hn => singleDelete_keeps hn hb hK) hput (guarded_of_forall s₁ hne')
    · have hkeep : s₁.db.objectVersions = s.db.objectVersions := by
        refine (applies_singleDelete env hkne hb (fun hroute => ?_)).objectVersions
        exact not_not.mp (fun hbad => hhead ⟨hroute, hbad⟩)
      obtain ⟨n, hn, hroute, hfree⟩ := hmarker
      rcases List.mem_cons.mp hn with rfl | hn
      · exact absurd ⟨hroute, hfree⟩ hhead
      · obtain ⟨n', hn', hthere⟩ := ih hne' ⟨n, hn, hroute, by rw [hkeep]; exact hfree⟩
        exact ⟨n', List.mem_cons_of_mem k hn', by rw [hrun]; exact hthere⟩

/-! ### The batch against the single requests -/

theorem parseDeleteObjectsBody_valid (hvalid : ∀ k ∈ keys, ValidKey k) :
    parseDeleteObjectsBody (some keys) =
      if keys.length ≤ maxDeleteKeys then some keys else none := by
  have hmap : keys.map trimSpace = keys :=
    (List.map_congr_left (fun k hk => (hvalid k hk).2.1)).trans (List.map_id keys)
  have hfilter : keys.filter (fun k => decide (k ≠ [])) = keys :=
    List.filter_eq_self.mpr (fun k hk => decide_eq_true (hvalid k hk).1)
  simp only [parseDeleteObjectsBody, hmap, hfilter]
  by_cases hlen : keys.length ≤ maxDeleteKeys
  · rw [if_pos hlen, if_neg (not_lt.mpr hlen)]
  · rw [if_neg hlen, if_pos (not_le.mp hlen)]

theorem applied_batchDelete (env : Bytes → DeleteEnv) (s : CASStore β) {payload : Payload}
    (hb : validBucket g bucket = true) (hnodup : keys.Nodup) (hvalid : ∀ k ∈ keys, ValidKey k)
    (hkeys : payload.objects = some keys) :
    Applied (batchEffect (payload.accepted keys) env) keys s
      (handleBatchDelete g env s bucket payload).2 := by
  -- a refused body: no key of the list is looked at
  have hrefused : payload.accepted keys = false →
      Applied (batchEffect (payload.accepted keys) env) keys s s := by
    intro hno
    have hskip : Applied (batchEffect (payload.accepted keys) env) keys s
        (run (fun (s : CASStore β) (_ : Bytes) => s) s keys) :=
      applied_run _ hnodup (fun s' k _ _ => by rw [batchEffect, hno]; rfl)
    have hrun : run (fun (s : CASStore β) (_ : Bytes) => s) s keys = s := List.foldl_fixed keys
    rwa [hrun] at hskip
  unfold handleBatchDelete
  rw [if_neg (by simp [hb]), hkeys, parseDeleteObjectsBody_valid hvalid]
  by_cases hread : payload.readFault = true
  · rw [if_pos hread]
    exact hrefused (by simp [Payload.accepted, hread])
  · rw [if_neg hread]
    by_cases hsize : maxDeleteBodyBytes < payload.length
    · rw [if_pos hsize]
      exact hrefused (by simp [Payload.accepted, hsize])
    · rw [if_neg hsize]
      by_cases hcount : keys.length ≤ maxDeleteKeys
      · have hacc : payload.accepted keys = true := by
          simp [Payload.accepted, hread, hcount, not_lt.mp hsize]
        rw [if_pos hcount]
        change Applied _ keys s (run (batchStep env) { store := s } keys).store
        rw [store_run_batchStep]
        refine applied_run _ hnodup (fun s' k hk _ => ?_)
        rw [batchEffect, hacc, if_pos rfl]
        exact applies_batchStep env { store := s' } (hvalid k hk)
      · rw [if_neg hcount]
        exact hrefused (by simp [Payload.accepted, hcount])

theorem not_sameOutcome_of_fresh {s₁ s₂ : CASStore β} {K : Bytes}
    (hsame : s₁.db.objectVersions = s.db.objectVersions) (hfresh : s.db.objectVersions.get K = none)
    (hnew : s₂.db.objectVersions.get K ≠ none) : ¬ SameOutcome s s₁ s₂ := by
  intro hp
  obtain ⟨σ, hfix, hrec, -⟩ := hp.versions
  have himage := hrec (σ.symm K)
  rw [Equiv.apply_symm_apply, hsame] at himage
  cases hold : s.db.objectVersions.get (σ.symm K) with
  | none =>
    rw [hold] at himage
    exact hnew (Option.map_eq_none_iff.mp himage.symm)
  | some r =>
    have hfixed := (hfix (σ.symm K) (by rw [hold]; simp)).1
    rw [Equiv.apply_symm_apply] at hfixed
    rw [← hfixed, hfresh] at hold
    cases hold

end Ways

section Runs

local instance batchSha : Sha256 := sampleSha

/-- Objects `k` and `l` of one content. -/
def twoNames : CASStore LocalBlobStore :=
  (neverVersioned.put none 2 [108] (hashBytes [97]) 1 [] (some ⟨[97], none⟩)).2

/-- A DeleteObjects request for `k` and `l`. -/
def bothKeys : Payload where
  length := 80
  objects := some [[107], [108]]

def quiet (k : Bytes) : DeleteEnv where
  clock := 5
  now := 5
  markerID := 51 :: k

def later (_ : Bytes) : DeleteEnv where
  clock := 9

/-- A DeleteObjects request for `k`. -/
def oneKey : Payload where
  length := 50
  objects := some [[107]]

end Runs

end Momo.S3

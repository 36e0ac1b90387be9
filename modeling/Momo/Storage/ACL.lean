import Momo.Storage.Meta

/-! @momo src/storage/storage.go, src/common/struct.go | scheme:default deny over two lists

    Authorization. One bucket holds the JSON text of every access-control list, a bucket's under
    `bucket/<bucket>` and an object's under `object/<bucket>/<key>`; `Authorize` looks for a grant in
    the object's list and then in the bucket's. -/

namespace Momo

inductive Permission
  | read | write | admin | delete
  deriving DecidableEq

/-- `common.ACLEntry`; the permission is `none` for a text that is no permission. -/
structure ACLEntry where
  tenantID : Bytes
  permission : Option Permission
  effect : Bytes
  deriving DecidableEq

/-- `encoding/json` on the two kinds of lists. -/
class AclJSON where
  bucketEntries : Bytes → Except Err (List ACLEntry)
  objectEntries : Bytes → Except Err (List ACLEntry)

namespace ACL

def bucketResource : Bytes := lit "bucket/"

def objectResource : Bytes := lit "object/"

def checkACL (acl : ACLEntry) (tenantID : Bytes) (perm : Permission) : Bool :=
  if acl.tenantID ≠ [] ∧ acl.tenantID ≠ tenantID then false
  else
    let permMatch : Bool :=
      match acl.permission with
      | some .admin => perm = .admin
      | some p => perm = p ∨ perm = .admin
      | none => false
    if permMatch then
      let effect := if acl.effect = [] then lit "allow" else acl.effect
      effect = lit "allow"
    else false

def aclAllows (entries : List ACLEntry) (tenantID : Bytes) (perm : Permission) : Bool :=
  entries.any (fun acl => checkACL acl tenantID perm)

def parseACLResource (resource : Bytes) : Except Err (Bytes × Bytes) :=
  if bucketResource <+: resource then .ok (resource.drop bucketResource.length, [])
  else if objectResource <+: resource then
    let rest := resource.drop objectResource.length
    if slash ∈ rest then
      .ok (rest.takeWhile (· ≠ slash), (rest.dropWhile (· ≠ slash)).tail)
    else .error (.wrap "invalid object resource format: %w" [] (.sys .einval))
  else .error (.wrap "invalid resource format: %w" [] (.sys .einval))

section Authorize

variable [AclJSON]

def getBucketACL (acls : Bucket Bytes) (bucket : Bytes) : Except Err (List ACLEntry) :=
  if bucket = [] then .error (.wrap "bucket name required: %w" [] (.sys .einval))
  else
    match acls.get (bucketResource ++ bucket) with
    | none => .ok []
    | some data => AclJSON.bucketEntries data

def getObjectACL (acls : Bucket Bytes) (key : Bytes) : Except Err (List ACLEntry) :=
  if key = [] then .error (.wrap "object key required: %w" [] (.sys .einval))
  else
    match acls.get (objectResource ++ key) with
    | none => .ok []
    | some data => AclJSON.objectEntries data

def authorize (acls : Bucket Bytes) (tenantID : Bytes) (perm : Permission) (resource : Bytes) :
    Except Err Unit := do
  if tenantID = [] then .error (.wrap "tenant ID required: %w" [] (.sys .einval))
  else if tenantID = lit "admin" then .ok ()
  else
    let (bucket, object) ← parseACLResource resource
    let objectEntries ←
      if object ≠ [] then getObjectACL acls (bucket ++ slash :: object) else .ok []
    if aclAllows objectEntries tenantID perm then .ok ()
    else
      let bucketEntries ← if bucket ≠ [] then getBucketACL acls bucket else .ok []
      if aclAllows bucketEntries tenantID perm then .ok ()
      else
        .error (.wrap "access denied for tenant %s to %s: %w" [.str tenantID, .str resource]
          (.sys .eacces))

end Authorize

/-! ### Least privilege -/

section Privilege

def Concerns (e : ACLEntry) (tenantID : Bytes) : Prop := e.tenantID = [] ∨ e.tenantID = tenantID

def Held (l : List ACLEntry) (tenantID : Bytes) (p : Permission) : Prop :=
  ∃ e ∈ l, Concerns e tenantID ∧ (e.effect = [] ∨ e.effect = lit "allow") ∧ e.permission = some p

def Denied (l : List ACLEntry) (tenantID : Bytes) (p : Permission) : Prop :=
  ∃ e ∈ l, Concerns e tenantID ∧ e.effect = lit "deny" ∧
    (e.permission = some p ∨ e.permission = some .admin)

def FullGrant (obj bkt : List ACLEntry) (tenantID : Bytes) (p : Permission) : Prop :=
  ¬ Denied obj tenantID p ∧
    (Held obj tenantID .admin ∨ Held bkt tenantID .admin ∧ ¬ Denied bkt tenantID p)

structure LeastPrivilege (obj bkt : List ACLEntry) (tenantID : Bytes) (p : Permission) (ok : Prop) :
    Prop where
  lesser : p = .admin → ok → Held (obj ++ bkt) tenantID .admin
  admin : FullGrant obj bkt tenantID p → ok
  object : Denied obj tenantID p → ¬ ok
  bucket : Denied bkt tenantID p → ok → Held obj tenantID p ∨ Held obj tenantID .admin

/-- Lists in which every entry that decides is one for the operation itself: no lesser grant without
    an admin grant where admin is asked for, no admin grant without the grant of the operation, and
    no such grant where an entry denies it. -/
structure Explicit (obj bkt : List ACLEntry) (tenantID : Bytes) (p : Permission) : Prop where
  lesser : p = .admin → ∀ p', Held (obj ++ bkt) tenantID p' → Held (obj ++ bkt) tenantID .admin
  admin : FullGrant obj bkt tenantID p → Held (obj ++ bkt) tenantID p
  object : Denied obj tenantID p → ¬ Held (obj ++ bkt) tenantID p
  bucket : Denied bkt tenantID p → Held (obj ++ bkt) tenantID p →
    Held obj tenantID p ∨ Held obj tenantID .admin

variable {obj bkt : List ACLEntry} {tenantID : Bytes} {p : Permission}

theorem checkACL_iff (e : ACLEntry) :
    checkACL e tenantID p = true ↔ Concerns e tenantID ∧ (e.effect = [] ∨ e.effect = lit "allow") ∧
      ∃ p', e.permission = some p' ∧ (p' = p ∨ p = .admin) := by
  have heffect : (if e.effect = [] then lit "allow" else e.effect) = lit "allow" ↔
      e.effect = [] ∨ e.effect = lit "allow" := by
    by_cases h : e.effect = [] <;> simp [h]
  unfold checkACL Concerns
  by_cases hc : e.tenantID = [] ∨ e.tenantID = tenantID
  · rw [if_neg (by tauto)]
    simp only [heffect, hc, true_and]
    rcases e.permission with _ | p' <;> [skip; cases p'] <;> cases p <;> simp
  · rw [if_pos (by tauto)]
    simp [hc]

theorem aclAllows_iff (l : List ACLEntry) :
    aclAllows l tenantID p = true ↔ Held l tenantID p ∨ p = .admin ∧ ∃ p', Held l tenantID p' := by
  simp only [aclAllows, List.any_eq_true, checkACL_iff, Held]
  constructor
  · rintro ⟨e, he, hc, ha, p', hp, rfl | rfl⟩
    · exact Or.inl ⟨e, he, hc, ha, hp⟩
    · exact Or.inr ⟨rfl, p', e, he, hc, ha, hp⟩
  · rintro (⟨e, he, hc, ha, hp⟩ | ⟨rfl, p', e, he, hc, ha, hp⟩)
    · exact ⟨e, he, hc, ha, p, hp, Or.inl rfl⟩
    · exact ⟨e, he, hc, ha, p', hp, Or.inr rfl⟩

variable [AclJSON]

def Lists (acls : Bucket Bytes) (resource : Bytes) (obj bkt : List ACLEntry) : Prop :=
  ∃ bucket object, parseACLResource resource = .ok (bucket, object) ∧
    (if object ≠ [] then getObjectACL acls (bucket ++ slash :: object) else .ok []) = .ok obj ∧
    (if bucket ≠ [] then getBucketACL acls bucket else .ok []) = .ok bkt

variable {acls : Bucket Bytes} {resource : Bytes}

theorem authorize_iff (ht : tenantID ≠ []) (hadmin : tenantID ≠ lit "admin")
    (hlists : Lists acls resource obj bkt) :
    authorize acls tenantID p resource = .ok () ↔ aclAllows (obj ++ bkt) tenantID p = true := by
  obtain ⟨bucket, object, hres, hobj, hbkt⟩ := hlists
  have hany : aclAllows (obj ++ bkt) tenantID p = (aclAllows obj tenantID p || aclAllows bkt tenantID p) :=
    List.any_append
  simp only [authorize, if_neg ht, if_neg hadmin, hres, bind, Except.bind, hany, Bool.or_eq_true]
  split_ifs at hobj hbkt ⊢ <;> grind

theorem authorize_leastPrivilege_iff (ht : tenantID ≠ []) (hadmin : tenantID ≠ lit "admin")
    (hlists : Lists acls resource obj bkt) :
    LeastPrivilege obj bkt tenantID p (authorize acls tenantID p resource = .ok ()) ↔
      Explicit obj bkt tenantID p := by
  rw [authorize_iff ht hadmin hlists, aclAllows_iff]
  constructor
  · intro h
    have hlesser : p = .admin → ∀ p', Held (obj ++ bkt) tenantID p' →
        Held (obj ++ bkt) tenantID .admin := fun hp p' hp' => h.lesser hp (Or.inr ⟨hp, p', hp'⟩)
    refine ⟨hlesser, fun hfull => ?_, fun hd hp => h.object hd (Or.inl hp),
      fun hd hp => h.bucket hd (Or.inl hp)⟩
    rcases h.admin hfull with hp | ⟨rfl, p', hp'⟩
    · exact hp
    · exact hlesser rfl p' hp'
  · intro h
    -- where admin is asked for, every grant comes with an admin grant
    have hheld : Held (obj ++ bkt) tenantID p ∨ p = .admin ∧ (∃ p', Held (obj ++ bkt) tenantID p') →
        Held (obj ++ bkt) tenantID p := by
      rintro (hp | ⟨rfl, p', hp'⟩)
      · exact hp
      · exact h.lesser rfl p' hp'
    exact ⟨fun hp hok => hp ▸ hheld hok, fun hfull => Or.inl (h.admin hfull),
      fun hd hok => h.object hd (hheld hok), fun hd hok => h.bucket hd (hheld hok)⟩

end Privilege

section Runs

/-- A list as one byte per entry: read allowed, admin allowed, read denied. -/
local instance privilegeBytes : AclJSON where
  bucketEntries data := .ok (data.map fun c => ⟨lit "t", if c = 1 then some .admin else some .read,
    if c = 2 then lit "deny" else []⟩)
  objectEntries _ := .ok []

def bucketACL (data : Bytes) : Bucket Bytes :=
  Bucket.empty.set (lit "bucket/b") (by decide +kernel) data

theorem read_grant_explicit :
    LeastPrivilege [] [⟨lit "t", some .read, []⟩] (lit "t") .read
      (authorize (bucketACL [0]) (lit "t") .read (lit "bucket/b") = .ok ()) := by
  have hlists : Lists (bucketACL [0]) (lit "bucket/b") [] [⟨lit "t", some .read, []⟩] :=
    ⟨lit "b", [], by decide +kernel, rfl, by decide +kernel⟩
  refine (authorize_leastPrivilege_iff (by decide) (by decide) hlists).mpr ⟨?_, ?_, ?_, ?_⟩
  · exact fun h => nomatch h
  · exact fun _ => ⟨_, List.mem_singleton_self _, Or.inr rfl, Or.inl rfl, rfl⟩
  · exact fun ⟨_, h, _⟩ => nomatch h
  · rintro ⟨e, he, -, hdeny, -⟩
    obtain rfl := List.mem_singleton.mp he
    cases hdeny

theorem grants_confused :
    authorize (bucketACL [0]) (lit "t") .admin (lit "bucket/b") = .ok () ∧
      authorize (bucketACL [1]) (lit "t") .read (lit "bucket/b") ≠ .ok () ∧
      authorize (bucketACL [2, 0]) (lit "t") .read (lit "bucket/b") = .ok () := by
  decide +kernel

end Runs

end ACL

end Momo

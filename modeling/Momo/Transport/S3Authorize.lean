import Momo.Storage.ACL
import Momo.Transport.S3BatchDelete
import Momo.Transport.S3Routes

/-! @momo src/transport/s3_communicator.go | scheme:one check, many accesses

    The whole of `HandshakeServer` behind authentication: the checks of the path and of the query, the
    one call of `Authorize`, and then the handlers, each with the objects it touches. -/

namespace Momo.S3

open ACL (authorize)

/-! ### Requests -/

/-- The method of a request; `other` is none of the five. -/
inductive Verb
  | GET | HEAD | PUT | POST | DELETE | other
  deriving DecidableEq

/-- `url.Values`, in the order of the query. -/
abbrev Query := List (Bytes × Bytes)

def Query.has (q : Query) (name : Bytes) : Bool := q.any (fun p => p.1 = name)

def Query.value (q : Query) (name : Bytes) : Bytes :=
  ((q.find? (fun p => p.1 = name)).map (·.2)).getD []

/-- An authenticated request, with the verdicts on the headers that are not followed here: the
    timestamp and the mode, the encryption headers, checksum and hash and chunked body of an upload. -/
structure Request where
  verb : Verb
  host : Bytes := []
  path : Bytes
  query : Query := []
  copySource : Bytes := []
  payload : Payload := { length := 0, objects := none }
  timestampOk : Bool := true
  sseOk : Bool := true
  uploadOk : Bool := true

structure Services extends Gateway where
  lifecycle : Bool := true
  notification : Bool := true
  lock : Bool := true
  oprf : Bool := true

inductive Task
  | reject (status : ℕ) (code message : String)
  | denied (e : Err)
  | badHeader
  | oprfEval
  | bucketLevel
  | uploadSession
  | objectLock
  | handOver
  | headObject (key : Bytes)
  | getObject (key : Bytes)
  | getVersion (bucket key versionID : Bytes)
  | completeUpload (key : Bytes)
  | batchDelete (keys : List Bytes)
  | deleteObject (key : Bytes)
  | deleteVersioned (bucket key versionID : Bytes)
  | copyObject (source key : Bytes)
  | putObject (name : Bytes)
  deriving DecidableEq

/-! ### The checks before the routes -/

def unsupportedBucketConfigSubresources : List (Bytes × String) :=
  [(lit "acl", "bucket access-control lists"), (lit "policy", "bucket policies"),
    (lit "cors", "CORS configuration"), (lit "website", "static website hosting"),
    (lit "tagging", "bucket tagging"), (lit "encryption", "bucket encryption"),
    (lit "publicAccessBlock", "public access block"),
    (lit "accelerate", "transfer acceleration"),
    (lit "replication", "replication configuration"),
    (lit "requestPayment", "request-payer configuration"),
    (lit "logging", "logging configuration"),
    (lit "notification", "notification configuration"),
    (lit "analytics", "bucket analytics configuration"),
    (lit "inventory", "bucket inventory configuration"),
    (lit "metrics", "bucket metrics configuration"),
    (lit "intelligent-tiering", "S3 Intelligent-Tiering configuration")]

def unsupportedObjectSubresources : List (Bytes × String) :=
  [(lit "tagging", "object tagging"), (lit "acl", "object access-control lists"),
    (lit "select", "SelectObjectContent")]

/-- `unsupportedBucketConfigSubresource` and `unsupportedObjectSubresource`: the first parameter that
    is in the table. -/
def unsupportedSubresource (table : List (Bytes × String)) (q : Query) : Option String :=
  q.findSome? (fun p => table.lookup p.1)

def notImplemented (message : String) : Task := .reject 501 "NotImplemented" message

def unknownBucket : Task := .reject 404 "NoSuchBucket" "The specified bucket does not exist."

def rejectVersioningUnsupported : Task :=
  notImplemented "Versioning is not supported by this storage backend."

def rejectLifecycleUnsupported : Task :=
  notImplemented "Lifecycle configuration is not supported by this storage backend."

def rejectNotificationUnsupported : Task :=
  notImplemented "Notification configuration is not supported by this storage backend."

def rejectObjectLockUnsupported : Task := notImplemented "Object Lock is not supported."

def precheck (g : Services) (req : Request) : Option Task :=
  if dotDot <:+: req.path ∨ req.path.contains 92 then
    some (.reject 400 "InvalidArgument" "Invalid key path.")
  else if req.verb = .POST ∧ req.query.has (lit "momo-oprf-eval") then
    if g.oprf then some .oprfEval
    else some (notImplemented "Threshold-OPRF confidential dedup is not enabled on this node.")
  else
    let table :=
      if (extractS3BucketAndKey req.host req.path).2 = [] then unsupportedBucketConfigSubresources
      else unsupportedObjectSubresources
    (unsupportedSubresource table req.query).map (fun op =>
      notImplemented ("The specified " ++ op ++ " operation is not supported by this server."))

def Verb.perm : Verb → Permission
  | .GET | .HEAD => .read
  | .PUT | .POST => .write
  | .DELETE => .delete
  | .other => .read

def urlResource (bucket key : Bytes) : Bytes :=
  if key ≠ [] then ACL.objectResource ++ bucket ++ slash :: key else ACL.bucketResource ++ bucket

/-! ### The routes -/

def objectLockSubresourceRoute (g : Services) (q : Query) : Option Task :=
  if q.has (lit "retention") ∨ q.has (lit "legal-hold") then
    some (if g.lock then .objectLock else rejectObjectLockUnsupported)
  else none

/-- The keys that `handleBatchDelete` goes over, or its answer. -/
def batchTask (g : Gateway) (bucket : Bytes) (payload : Payload) : Task :=
  if validBucket g bucket = false then unknownBucket
  else if payload.readFault then .reject 400 "InvalidRequest" "Error parsing request body:"
  else if maxDeleteBodyBytes < payload.length then
    .reject 400 "MalformedXML" "The request body is too large."
  else
    match parseDeleteObjectsBody payload.objects with
    | none =>
      .reject 400 "MalformedXML" ("The XML you provided was not well-formed or did not validate " ++
        "against our published schema.")
    | some keys => .batchDelete keys

def taskPost (g : Services) (req : Request) (bucket key : Bytes) : Task :=
  if req.query.has (lit "uploads") ∧ key ≠ [] then
    if validBucket g.toGateway bucket = false then unknownBucket else .uploadSession
  else if req.query.has (lit "uploadId") ∧ key ≠ [] then
    if validBucket g.toGateway bucket = false then unknownBucket else .completeUpload key
  else if req.query.has (lit "delete") then batchTask g.toGateway bucket req.payload
  else if req.timestampOk then .handOver
  else .badHeader

def bucketConfig (g : Services) (q : Query) : Option Task :=
  if q.has (lit "versioning") then
    some (if g.versioning then .bucketLevel else rejectVersioningUnsupported)
  else if q.has (lit "lifecycle") then
    some (if g.lifecycle then .bucketLevel else rejectLifecycleUnsupported)
  else if q.has (lit "notification") then
    some (if g.notification then .bucketLevel else rejectNotificationUnsupported)
  else if q.has (lit "object-lock") then
    some (if g.lock then .bucketLevel else rejectObjectLockUnsupported)
  else none

def taskGetBucket (g : Services) (req : Request) (bucket : Bytes) : Task :=
  if req.query.has (lit "location") then
    if validBucket g.toGateway bucket = false then unknownBucket else .bucketLevel
  else if req.query.has (lit "versioning") = false ∧ req.query.has (lit "versions") then
    if g.versioning then .bucketLevel else rejectVersioningUnsupported
  else
    match bucketConfig g req.query with
    | some task => task
    | none => if validBucket g.toGateway bucket = false then unknownBucket else .bucketLevel

def taskGet (g : Services) (req : Request) (bucket key : Bytes) : Task :=
  if bucket = [] ∧ req.query.value (lit "list-type") = [] then .bucketLevel
  else if key = [] then taskGetBucket g req bucket
  else if validBucket g.toGateway bucket = false then unknownBucket
  else if req.query.value (lit "list-type") = lit "2" then .bucketLevel
  else if req.query.has (lit "uploadId") then .uploadSession
  else
    match objectLockSubresourceRoute g req.query with
    | some task => task
    | none =>
      let versionID := req.query.value (lit "versionId")
      if versionID = [] then .getObject key
      else if g.versioning then .getVersion bucket key versionID
      else rejectVersioningUnsupported

def taskHead (g : Services) (req : Request) (bucket key : Bytes) : Task :=
  if key = [] then
    if bucket ≠ [] ∧ validBucket g.toGateway bucket = false then unknownBucket else .bucketLevel
  else if validBucket g.toGateway bucket = false then unknownBucket
  else if req.query.value (lit "versionId") ≠ [] ∧ g.versioning = false then
    rejectVersioningUnsupported
  else .headObject key

/-- The DELETE branch; `versioned` is what `IsVersioned` reports without an error. -/
def taskDelete (g : Services) (versioned : Bytes → Bool) (req : Request) (bucket key : Bytes) :
    Task :=
  let versionID := req.query.value (lit "versionId")
  if req.query.value (lit "uploadId") ≠ [] ∧ key ≠ [] then .uploadSession
  else if key = [] then
    if g.configuredBucket = [] then .reject 400 "InvalidArgument" "Missing key in DELETE request."
    else if validBucket g.toGateway bucket = false then unknownBucket
    else if req.query.has (lit "lifecycle") ∧ g.lifecycle = false then rejectLifecycleUnsupported
    else if req.query.has (lit "lifecycle") = false ∧ req.query.has (lit "notification") ∧
        g.notification = false then
      rejectNotificationUnsupported
    else .bucketLevel
  else if validBucket g.toGateway bucket = false then unknownBucket
  else if g.versioning then
    if versioned bucket then .deleteVersioned bucket key versionID else .deleteObject key
  else if versionID ≠ [] then rejectVersioningUnsupported
  else .deleteObject key

def Task.ofRoute (uploadOk : Bool) : Route → Task
  | .s3Error status code message => .reject status code message
  | .putObject name => if uploadOk then .putObject name else .badHeader
  | .copyObject source key => .copyObject source key
  | _ => .bucketLevel

def taskPut (g : Services) (req : Request) (bucket key : Bytes) : Task :=
  let q := req.query
  if req.timestampOk = false ∨ req.sseOk = false then .badHeader
  else if q.has (lit "uploadId") ∧ key ≠ [] ∧ q.has (lit "partNumber") then
    if req.copySource ≠ [] then notImplemented "UploadPartCopy is not supported by this server."
    else if validBucket g.toGateway bucket = false then unknownBucket
    else .uploadSession
  else if req.copySource ≠ [] then
    .ofRoute req.uploadOk (handleCopyObject g.toGateway bucket key req.copySource)
  else
    match (if key = [] then bucketConfig g q else objectLockSubresourceRoute g q) with
    | some task => task
    | none => .ofRoute req.uploadOk (routePut g.toGateway bucket key req.path)

def dispatch (g : Services) (versioned : Bytes → Bool) (req : Request) : Task :=
  let (bucket, key) := extractS3BucketAndKey req.host req.path
  match req.verb with
  | .POST => taskPost g req bucket key
  | .GET => taskGet g req bucket key
  | .HEAD => taskHead g req bucket key
  | .DELETE => taskDelete g versioned req bucket key
  | .PUT => taskPut g req bucket key
  | .other => if req.timestampOk then .handOver else .badHeader

section Gate

variable [AclJSON]

def gate (acls : Bucket Bytes) (tenantID : Bytes) (req : Request) : Except Err Unit :=
  let (bucket, key) := extractS3BucketAndKey req.host req.path
  if tenantID = [] then .ok () else authorize acls tenantID req.verb.perm (urlResource bucket key)

/-- `HandshakeServer` behind authentication, for a connection bound to `tenantID`. -/
def handshakeServer (g : Services) (acls : Bucket Bytes) (tenantID : Bytes)
    (versioned : Bytes → Bool) (req : Request) : Task :=
  match precheck g req with
  | some task => task
  | none =>
    match gate acls tenantID req with
    | .error e => .denied e
    | .ok _ => dispatch g versioned req

end Gate

/-! ### What the handlers touch -/

/-- A read, a write or a removal of the object stored as `name`. -/
structure Access where
  perm : Permission
  name : Bytes
  deriving DecidableEq

structure Answers where
  /-- `IsVersioned(bucket)` is true. -/
  versioned : Bytes → Bool := fun _ => false
  /-- `store.Get(name)` gives a stream. -/
  opens : Bytes → Bool := fun _ => true
  /-- `GetVersionContent(bucket, key, versionID)` gives a stream. -/
  opensVersion : Bytes → Bytes → Bytes → Bool := fun _ _ _ => true
  /-- `AcquireLease(name)`. -/
  leases : Bytes → Bool := fun _ => true
  /-- `store.Put(name, …)`; for a completion also the checks on the parts before it. -/
  stores : Bytes → Bool := fun _ => true
  /-- `store.Delete(name)`. -/
  deletes : Bytes → Bool := fun _ => true
  /-- `handleVersionedDelete(bucket, key, versionID)` sets a marker or removes the version. -/
  deletesVersion : Bytes → Bytes → Bytes → Bool := fun _ _ _ => true

def Answers.removed (ans : Answers) (keys : List Bytes) : List Bytes :=
  keys.filter (fun k => ¬ dotDot <:+: k ∧ k.contains 92 = false ∧ ans.leases k ∧ ans.deletes k)

def Task.accesses (ans : Answers) : Task → List Access
  | .getObject key => if ans.opens key then [⟨.read, key⟩] else []
  | .getVersion bucket key v => if ans.opensVersion bucket key v then [⟨.read, key⟩] else []
  | .completeUpload key => if ans.stores key then [⟨.write, key⟩] else []
  | .batchDelete keys => (ans.removed keys).map (⟨.delete, ·⟩)
  | .deleteObject key => if ans.leases key ∧ ans.deletes key then [⟨.delete, key⟩] else []
  | .deleteVersioned bucket key v =>
    if ans.deletesVersion bucket key v then [⟨.delete, key⟩] else []
  | .copyObject source key =>
    if ans.opens source then ⟨.read, source⟩ :: (if ans.stores key then [⟨.write, key⟩] else [])
    else []
  | .putObject name => if ans.stores name then [⟨.write, name⟩] else []
  | _ => []

/-! ### The property -/

def resourceOf (g : Gateway) (name : Bytes) : Bytes :=
  if g.configuredBucket ≠ [] then ACL.objectResource ++ g.configuredBucket ++ slash :: name
  else if slash ∈ name then ACL.objectResource ++ name
  else ACL.bucketResource ++ name

section Property

variable [AclJSON]

def Granted (g : Gateway) (acls : Bucket Bytes) (tenantID : Bytes) (a : Access) : Prop :=
  authorize acls tenantID a.perm (resourceOf g a.name) = .ok ()

instance (g : Gateway) (acls : Bucket Bytes) (tenantID : Bytes) (a : Access) :
    Decidable (Granted g acls tenantID a) :=
  inferInstanceAs (Decidable (_ = _))

/-- The request touches no object but as `Authorize` grants. -/
def Confined (g : Services) (acls : Bucket Bytes) (tenantID : Bytes) (ans : Answers)
    (req : Request) : Prop :=
  ∀ a ∈ (handshakeServer g acls tenantID ans.versioned req).accesses ans,
    Granted g.toGateway acls tenantID a

instance (g : Services) (acls : Bucket Bytes) (tenantID : Bytes) (ans : Answers) (req : Request) :
    Decidable (Confined g acls tenantID ans req) :=
  inferInstanceAs (Decidable (∀ _ ∈ _, _))

end Property

/-- What the check of the URL leaves open: the source of a copy, the keys of a batch, and in flat
    mode every object, since the bucket of the URL is no part of its name. -/
def Task.Covered (g : Gateway) (granted : Access → Prop) (ans : Answers) : Task → Prop
  | .copyObject source key =>
    ans.opens source = true → granted ⟨.read, source⟩ ∧
      (g.configuredBucket = [] → ans.stores key = true → granted ⟨.write, key⟩)
  | .batchDelete keys => ∀ k ∈ ans.removed keys, granted ⟨.delete, k⟩
  | task => g.configuredBucket = [] → ∀ a ∈ task.accesses ans, granted a

/-! ### What each route touches in bucket mode -/

def Own (g : Gateway) (bucket key : Bytes) : Prop := bucket = g.configuredBucket ∧ key ≠ []

/-- A task touches the object of the URL, as the permission says, and nothing else; the source of a
    copy and the keys of a batch apart. -/
def Task.About (g : Gateway) (bucket key : Bytes) (perm : Permission) : Task → Prop
  | .copyObject _ k => (⟨.write, k⟩ : Access) = ⟨perm, key⟩ ∧ Own g bucket key
  | .batchDelete _ => True
  | task => ∀ ans, ∀ a ∈ task.accesses ans, a = ⟨perm, key⟩ ∧ Own g bucket key

section About

variable {g : Services} {bucket key : Bytes} {perm : Permission}

variable {task : Task}

theorem Task.about_of_quiet (h : ∀ ans, task.accesses ans = []) :
    task.About g.toGateway bucket key perm := by
  cases task with
  | copyObject source k => exact absurd (h {}) (List.cons_ne_nil _ _)
  | batchDelete => trivial
  | _ =>
    intro ans a ha
    rw [h ans] at ha
    cases ha

theorem eq_of_mem_ite {c : Prop} [Decidable c] {a b : Access} (h : a ∈ if c then [b] else []) :
    a = b := by
  split_ifs at h
  · exact List.mem_singleton.mp h
  · cases h

theorem about_objectLockSubresourceRoute {q : Query}
    (h : objectLockSubresourceRoute g q = some task) : task.About g.toGateway bucket key perm := by
  unfold objectLockSubresourceRoute at h
  split_ifs at h <;> cases h <;> exact Task.about_of_quiet fun _ => rfl

theorem about_bucketConfig {q : Query} (h : bucketConfig g q = some task) :
    task.About g.toGateway bucket key perm := by
  unfold bucketConfig at h
  split_ifs at h <;> cases h <;> exact Task.about_of_quiet fun _ => rfl

theorem taskGetBucket_about (req : Request) :
    (taskGetBucket g req bucket).About g.toGateway bucket key perm := by
  cases hc : bucketConfig g req.query with
  | some task =>
    simp only [taskGetBucket, hc]
    split_ifs
    any_goals exact Task.about_of_quiet fun _ => rfl
    exact about_bucketConfig hc
  | none =>
    simp only [taskGetBucket, hc]
    split_ifs <;> exact Task.about_of_quiet fun _ => rfl

theorem taskHead_about (req : Request) :
    (taskHead g req bucket key).About g.toGateway bucket key .read := by
  unfold taskHead
  split_ifs <;> exact Task.about_of_quiet fun _ => rfl

theorem precheck_quiet {req : Request} (h : precheck g req = some task) (ans : Answers) :
    task.accesses ans = [] := by
  unfold precheck at h
  split_ifs at h
  · cases h
    rfl
  · cases h
    rfl
  · cases h
    rfl
  · obtain ⟨op, -, rfl⟩ := Option.map_eq_some_iff.mp h
    rfl
  · obtain ⟨op, -, rfl⟩ := Option.map_eq_some_iff.mp h
    rfl

variable (hconf : g.configuredBucket ≠ [])

include hconf

theorem own_of_valid (hvalid : ¬ validBucket g.toGateway bucket = false) (hkey : key ≠ []) :
    Own g.toGateway bucket key :=
  ⟨(validBucket_iff hconf bucket).mp (by simpa using hvalid), hkey⟩

theorem taskPost_about (req : Request) :
    (taskPost g req bucket key).About g.toGateway bucket key .write := by
  have hquiet : ∀ task : Task, (∀ ans, task.accesses ans = []) →
      task.About g.toGateway bucket key .write := fun _ => Task.about_of_quiet
  unfold taskPost
  split_ifs with hup hv hid hv hdel hts
  · exact hquiet _ fun _ => rfl
  · exact hquiet _ fun _ => rfl
  · exact hquiet _ fun _ => rfl
  · exact fun ans a ha => ⟨eq_of_mem_ite ha, own_of_valid hconf hv hid.2⟩
  · unfold batchTask
    split_ifs
    · exact hquiet _ fun _ => rfl
    · exact hquiet _ fun _ => rfl
    · exact hquiet _ fun _ => rfl
    · cases parseDeleteObjectsBody req.payload.objects with
      | none => exact hquiet _ fun _ => rfl
      | some keys => trivial
  · exact hquiet _ fun _ => rfl
  · exact hquiet _ fun _ => rfl

theorem taskGet_about (req : Request) :
    (taskGet g req bucket key).About g.toGateway bucket key .read := by
  have hquiet : ∀ task : Task, (∀ ans, task.accesses ans = []) →
      task.About g.toGateway bucket key .read := fun _ => Task.about_of_quiet
  cases hl : objectLockSubresourceRoute g req.query with
  | some task =>
    simp only [taskGet, hl]
    split_ifs
    any_goals exact hquiet _ fun _ => rfl
    · exact taskGetBucket_about req
    · exact about_objectLockSubresourceRoute hl
  | none =>
    simp only [taskGet, hl]
    split_ifs with hroot hkey hv hlist hid hlatest hversions
    any_goals exact hquiet _ fun _ => rfl
    · exact taskGetBucket_about req
    · exact fun ans a ha => ⟨eq_of_mem_ite ha, own_of_valid hconf hv hkey⟩
    · exact fun ans a ha => ⟨eq_of_mem_ite ha, own_of_valid hconf hv hkey⟩

theorem taskDelete_about (versioned : Bytes → Bool) (req : Request) :
    (taskDelete g versioned req bucket key).About g.toGateway bucket key .delete := by
  have hquiet : ∀ task : Task, (∀ ans, task.accesses ans = []) →
      task.About g.toGateway bucket key .delete := fun _ => Task.about_of_quiet
  simp only [taskDelete]
  split_ifs with hup hkey hroot hl hn hv hver hon hid
  any_goals exact hquiet _ fun _ => rfl
  · exact fun ans a ha => ⟨eq_of_mem_ite ha, own_of_valid hconf hv hkey⟩
  · exact fun ans a ha => ⟨eq_of_mem_ite ha, own_of_valid hconf hv hkey⟩
  · exact fun ans a ha => ⟨eq_of_mem_ite ha, own_of_valid hconf hv hkey⟩

theorem handleCopyObject_about (copySource : Bytes) (ok : Bool) :
    (Task.ofRoute ok (handleCopyObject g.toGateway bucket key copySource)).About g.toGateway bucket
      key .write := by
  unfold handleCopyObject
  by_cases hv : validBucket g.toGateway bucket = false
  · rw [if_pos hv]
    exact Task.about_of_quiet fun _ => rfl
  · rw [if_neg hv]
    by_cases hkey : key = []
    · rw [if_pos hkey]
      exact Task.about_of_quiet fun _ => rfl
    · have hown := own_of_valid hconf hv hkey
      rw [if_neg hkey]
      simp only
      generalize (if slash ∈ slashTrim (decodeSource copySource) then _ else _) = source
      split_ifs
      · exact Task.about_of_quiet fun _ => rfl
      · exact Task.about_of_quiet fun _ => rfl
      · exact Task.about_of_quiet fun _ => rfl
      · exact ⟨rfl, hown⟩

theorem routePut_about (path : Bytes) (ok : Bool) :
    (Task.ofRoute ok (routePut g.toGateway bucket key path)).About g.toGateway bucket key .write := by
  unfold routePut
  by_cases hroot : g.configuredBucket ≠ [] ∧ key = []
  · rw [if_pos hroot]
    split_ifs <;> exact Task.about_of_quiet fun _ => rfl
  · have hkey : key ≠ [] := fun h => hroot ⟨hconf, h⟩
    rw [if_neg hroot]
    by_cases hv : validBucket g.toGateway bucket = false
    · rw [if_pos hv]
      exact Task.about_of_quiet fun _ => rfl
    · rw [if_neg hv]
      simp only [hconf, ne_eq, not_false_eq_true, if_true]
      by_cases hbad : pathClean path = dot ∨ pathClean path = dotDot ∨
          (dotDot ++ [slash]) <+: pathClean path ∨ pathClean path = [slash]
      · rw [if_pos hbad]
        exact Task.about_of_quiet fun _ => rfl
      · rw [if_neg hbad]
        cases ok with
        | false => exact Task.about_of_quiet fun _ => rfl
        | true => exact fun ans a ha => ⟨eq_of_mem_ite ha, own_of_valid hconf hv hkey⟩

theorem taskPut_about (req : Request) :
    (taskPut g req bucket key).About g.toGateway bucket key .write := by
  have hquiet : ∀ task : Task, (∀ ans, task.accesses ans = []) →
      task.About g.toGateway bucket key .write := fun _ => Task.about_of_quiet
  simp only [taskPut]
  by_cases hhead : req.timestampOk = false ∨ req.sseOk = false
  · rw [if_pos hhead]
    exact hquiet _ fun _ => rfl
  · rw [if_neg hhead]
    by_cases hpart : req.query.has (lit "uploadId") = true ∧ key ≠ [] ∧
        req.query.has (lit "partNumber") = true
    · rw [if_pos hpart]
      split_ifs <;> exact hquiet _ fun _ => rfl
    · rw [if_neg hpart]
      by_cases hcopy : req.copySource ≠ []
      · rw [if_pos hcopy]
        exact handleCopyObject_about hconf req.copySource req.uploadOk
      · rw [if_neg hcopy]
        by_cases hkey : key = []
        · rw [if_pos hkey]
          cases hc : bucketConfig g req.query with
          | some task => exact about_bucketConfig hc
          | none => exact routePut_about hconf req.path req.uploadOk
        · rw [if_neg hkey]
          cases hl : objectLockSubresourceRoute g req.query with
          | some task => exact about_objectLockSubresourceRoute hl
          | none => exact routePut_about hconf req.path req.uploadOk

theorem dispatch_about (versioned : Bytes → Bool) (req : Request)
    (hurl : extractS3BucketAndKey req.host req.path = (bucket, key)) :
    (dispatch g versioned req).About g.toGateway bucket key req.verb.perm := by
  unfold dispatch
  rw [hurl]
  cases req.verb with
  | POST => exact taskPost_about hconf req
  | GET => exact taskGet_about hconf req
  | HEAD => exact taskHead_about req
  | DELETE => exact taskDelete_about hconf versioned req
  | PUT => exact taskPut_about hconf req
  | other =>
    simp only
    split_ifs <;> exact Task.about_of_quiet fun _ => rfl

end About

/-! ### The check and the accesses -/

theorem Task.covered_flat_iff {g : Gateway} (hflat : g.configuredBucket = [])
    (granted : Access → Prop) (ans : Answers) (task : Task) :
    (∀ a ∈ task.accesses ans, granted a) ↔ task.Covered g granted ans := by
  cases task with
  | copyObject source key =>
    simp only [Task.Covered, Task.accesses, hflat]
    by_cases ho : ans.opens source = true
    · by_cases hs : ans.stores key = true <;> simp [ho, hs]
    · simp [ho]
  | batchDelete keys => simp [Task.Covered, Task.accesses]
  | _ => exact ⟨fun h _ => h, fun h => h hflat⟩

theorem Task.About.covered_iff {g : Gateway} (hconf : g.configuredBucket ≠ []) {bucket key : Bytes}
    {perm : Permission} {granted : Access → Prop} (hgate : Own g bucket key → granted ⟨perm, key⟩)
    (ans : Answers) {task : Task} (h : task.About g bucket key perm) :
    (∀ a ∈ task.accesses ans, granted a) ↔ task.Covered g granted ans := by
  cases task with
  | copyObject source k =>
    obtain ⟨hk, hown⟩ := h
    have hwrite : granted ⟨.write, k⟩ := hk ▸ hgate hown
    simp only [Task.Covered, Task.accesses]
    by_cases ho : ans.opens source = true
    · by_cases hs : ans.stores k = true <;> simp [ho, hs, hwrite, hconf]
    · simp [ho]
  | batchDelete keys => simp [Task.Covered, Task.accesses]
  | _ =>
    refine iff_of_true (fun a ha => ?_) (fun hflat => absurd hflat hconf)
    obtain ⟨rfl, hown⟩ := h ans a ha
    exact hgate hown

section Main

variable [AclJSON]

def UrlCovers (g : Services) (acls : Bucket Bytes) (tenantID : Bytes) (ans : Answers)
    (req : Request) : Prop :=
  precheck g req = none → gate acls tenantID req = .ok () →
    (dispatch g ans.versioned req).Covered g.toGateway (Granted g.toGateway acls tenantID) ans

theorem granted_of_gate {g : Gateway} (hconf : g.configuredBucket ≠ []) {acls : Bucket Bytes}
    {tenantID : Bytes} (hbound : tenantID ≠ []) {req : Request} {bucket key : Bytes}
    (hurl : extractS3BucketAndKey req.host req.path = (bucket, key))
    (hgate : gate acls tenantID req = .ok ()) (hown : Own g bucket key) :
    Granted g acls tenantID ⟨req.verb.perm, key⟩ := by
  obtain ⟨rfl, hkey⟩ := hown
  simp only [gate, hurl, if_neg hbound, urlResource, if_pos hkey] at hgate
  simpa only [Granted, resourceOf, if_pos hconf] using hgate

/-- CORRECT: a request is confined to what `Authorize` grants exactly when it is granted what the
    check of the URL leaves open: the read of a copy's source, the removal of each key of a batch,
    and in flat mode every access. -/
theorem confined_iff (g : Services) (acls : Bucket Bytes) (tenantID : Bytes)
    (hbound : tenantID ≠ []) (ans : Answers) (req : Request) :
    Confined g acls tenantID ans req ↔ UrlCovers g acls tenantID ans req := by
  unfold Confined UrlCovers handshakeServer
  cases hp : precheck g req with
  | some task =>
    refine iff_of_true (fun a ha => ?_) (fun h => nomatch h)
    rw [precheck_quiet hp] at ha
    cases ha
  | none =>
    cases hgate : gate acls tenantID req with
    | error e => exact iff_of_true (fun a ha => nomatch ha) (fun _ h => nomatch h)
    | ok u =>
      simp only [true_implies]
      by_cases hflat : g.configuredBucket = []
      · exact Task.covered_flat_iff hflat _ ans _
      · rcases hurl : extractS3BucketAndKey req.host req.path with ⟨bucket, key⟩
        exact (dispatch_about hflat ans.versioned req hurl).covered_iff hflat
          (granted_of_gate hflat hbound hurl hgate) ans

end Main

/-! ### Runs -/

section Runs

def tenantEntries (data : Bytes) : List ACLEntry :=
  data.map fun c : UInt8 =>
    { tenantID := lit "t"
      permission := if c = 0 then some .read else if c = 1 then some .write else some .delete
      effect := [] }

local instance permissionBytes : AclJSON where
  bucketEntries data := .ok (tenantEntries data)
  objectEntries data := .ok (tenantEntries data)

/-- The tenant may write to the bucket `b`, and may read the object `open` in it. -/
def writerACL : Bucket Bytes :=
  (ACL.bucketACL [1]).set (lit "object/b/open") (by decide +kernel) [0]

/-- The tenant may read the bucket `b`. -/
def readerACL : Bucket Bytes := ACL.bucketACL [0]

def gatewayB : Services where
  configuredBucket := lit "b"

/-- A CopyObject to `own`. -/
def copyFrom (source : Bytes) : Request where
  verb := .PUT
  path := lit "/b/own"
  copySource := source

theorem copy_of_readable_confined :
    UrlCovers gatewayB writerACL (lit "t") {} (copyFrom (lit "/b/open")) ∧
      Confined gatewayB writerACL (lit "t") {} (copyFrom (lit "/b/open")) := by
  have hcovers : UrlCovers gatewayB writerACL (lit "t") {} (copyFrom (lit "/b/open")) := by
    intro _ _ _
    exact ⟨by decide +kernel, fun h => absurd h (by decide +kernel)⟩
  exact ⟨hcovers, (confined_iff gatewayB writerACL (lit "t") (by decide +kernel) {}
    (copyFrom (lit "/b/open"))).mpr hcovers⟩

/-- A DeleteObjects of `secret`. -/
def batchOfSecret : Request where
  verb := .POST
  path := lit "/b"
  query := [(lit "delete", [])]
  payload := { length := 64, objects := some [lit "secret"] }

/-- A tenant that may write, and no more, copies `secret` out and removes it; and without a configured
    bucket one that may read the bucket `b` reads what is stored under another. -/
theorem secret_copied_and_removed :
    (handshakeServer gatewayB writerACL (lit "t") (fun _ => false)
        (copyFrom (lit "/b/secret"))).accesses {} = [⟨.read, lit "secret"⟩, ⟨.write, lit "own"⟩] ∧
      ¬ Confined gatewayB writerACL (lit "t") {} (copyFrom (lit "/b/secret")) ∧
      (handshakeServer gatewayB writerACL (lit "t") (fun _ => false)
        batchOfSecret).accesses {} = [⟨.delete, lit "secret"⟩] ∧
      ¬ Confined gatewayB writerACL (lit "t") {} batchOfSecret ∧
      ¬ Confined {} readerACL (lit "t") {} { verb := .GET, path := lit "/b/s/secret" } := by
  decide +kernel

end Runs

end Momo.S3

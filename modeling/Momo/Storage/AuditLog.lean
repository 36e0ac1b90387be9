import Momo.Storage.Meta
import Momo.Schemes.Code
import Momo.Schemes.HashChain
import Momo.Schemes.Run

/-! @momo src/storage/storage.go, src/common/struct.go | scheme:hash chain over a bucket

    The audit log. `WriteAuditLog` puts each entry under its time, links it to the entry that is
    last in the bucket, and hashes the JSON text of its fields; `VerifyAuditLog` walks the bucket in
    key order, decodes each value and computes the hashes anew. -/

namespace Momo

structure AuditLogEntry where
  timestamp : Int
  tenantID : Bytes
  identity : Bytes
  operation : Bytes
  resource : Bytes
  outcome : Bytes
  requestID : Bytes
  prevHash : Bytes
  entryHash : Bytes
  deriving DecidableEq

namespace AuditLog

structure HashedFields where
  timestamp : Int
  tenantID : Bytes
  identity : Bytes
  operation : Bytes
  resource : Bytes
  outcome : Bytes
  requestID : Bytes
  prevHash : Bytes
  deriving DecidableEq

def hashedFields (e : AuditLogEntry) (prevHash : Bytes) : HashedFields :=
  ⟨e.timestamp, e.tenantID, e.identity, e.operation, e.resource, e.outcome, e.requestID, prevHash⟩

def texts (e : AuditLogEntry) : List Bytes :=
  [e.tenantID, e.identity, e.operation, e.resource, e.outcome, e.requestID, e.prevHash, e.entryHash]

def mapTexts (f : Bytes → Bytes) (e : AuditLogEntry) : AuditLogEntry :=
  ⟨e.timestamp, f e.tenantID, f e.identity, f e.operation, f e.resource, f e.outcome, f e.requestID,
    f e.prevHash, f e.entryHash⟩

theorem mapTexts_of_fixed {f : Bytes → Bytes} {e : AuditLogEntry} (h : ∀ s ∈ texts e, f s = s) :
    mapTexts f e = e := by
  unfold texts at h
  simp only [List.forall_mem_cons] at h
  obtain ⟨h1, h2, h3, h4, h5, h6, h7, h8, -⟩ := h
  simp only [mapTexts, h1, h2, h3, h4, h5, h6, h7, h8]

/-- `encoding/json` on audit entries. What is decoded again has its invalid UTF-8 replaced. -/
class AuditJSON where
  marshalHashed : HashedFields → Bytes
  marshalEntry : AuditLogEntry → Bytes
  unmarshalEntry : Bytes → Except Err AuditLogEntry
  toValid : Bytes → Bytes
  toValid_of_valid : ∀ b, ValidUTF8 b → toValid b = b
  unmarshal_marshal : ∀ e, unmarshalEntry (marshalEntry e) = .ok (mapTexts toValid e)

open AuditJSON

/-! ### The code -/

structure Call where
  now : Int
  tenantID : Bytes := []
  identity : Bytes := []
  operation : Bytes := []
  resource : Bytes := []
  outcome : Bytes := []
  requestID : Bytes := []
  deriving DecidableEq

/-- The key of a time: its eight bytes as a `uint64`, most significant first. -/
def auditKey (timestamp : Int) : Bytes := bePut 8 (int64Bits timestamp)

theorem keyOk_auditKey (timestamp : Int) : KeyOk (auditKey timestamp) := by
  have hlen : (auditKey timestamp).length = 8 := length_bePut 8 _
  refine ⟨fun h => ?_, by rw [hlen]; decide⟩
  rw [h] at hlen
  cases hlen

section Code

variable [Sha256] [AuditJSON]

def entryDigest (prevHash : Bytes) (e : AuditLogEntry) : Bytes :=
  hashBytes (marshalHashed (hashedFields e prevHash))

def lastEntryHash (log : Bucket Bytes) : Bytes :=
  match log.map.entries.getLast? with
  | none => []
  | some (_, v) =>
    match unmarshalEntry v with
    | .ok last => last.entryHash
    | .error _ => []

def newEntry (log : Bucket Bytes) (c : Call) : AuditLogEntry :=
  let e : AuditLogEntry :=
    ⟨c.now, c.tenantID, c.identity, c.operation, c.resource, c.outcome, c.requestID,
      lastEntryHash log, []⟩
  { e with entryHash := entryDigest (lastEntryHash log) e }

def writeAuditLog (log : Bucket Bytes) (c : Call) : Except Err (Bucket Bytes) :=
  log.put (auditKey c.now) (marshalEntry (newEntry log c))

/-- The walk of `VerifyAuditLog`. -/
def verifyFrom (prevHash : Bytes) : List (Bytes × Bytes) → Except Err Unit
  | [] => .ok ()
  | (k, v) :: rest =>
    match unmarshalEntry v with
    | .error e => .error (.wrap "failed to unmarshal audit entry at %d: %w" [.num (beGet k)] e)
    | .ok entry =>
      if entry.prevHash ≠ prevHash then
        .error (.text ("audit log chain broken at timestamp %d: prev_hash mismatch " ++
          "(expected %q, got %q)") [.num (beGet k), .str prevHash, .str entry.prevHash])
      else if entry.entryHash ≠ entryDigest prevHash entry then
        .error (.text "audit log entry hash mismatch at timestamp %d: expected %q, got %q"
          [.num (beGet k), .str (entryDigest prevHash entry), .str entry.entryHash])
      else verifyFrom entry.entryHash rest

def verifyAuditLog (log : Bucket Bytes) : Except Err Unit := verifyFrom [] log.map.entries

def auditEntries (log : Bucket Bytes) : List AuditLogEntry :=
  log.map.entries.filterMap fun e => (unmarshalEntry e.2).toOption

/-! ### What the walk accepts -/

def Linked (prevHash : Bytes) (es : List AuditLogEntry) : Prop :=
  HashChain.Chain AuditLogEntry.prevHash AuditLogEntry.entryHash entryDigest prevHash es

theorem verifyFrom_ok_iff {prevHash : Bytes} {l : List (Bytes × Bytes)} :
    verifyFrom prevHash l = .ok () ↔
      ∃ es, l.map (fun e => unmarshalEntry e.2) = es.map .ok ∧ Linked prevHash es := by
  induction l generalizing prevHash with
  | nil =>
    constructor
    · intro _
      exact ⟨[], rfl, trivial⟩
    · intro _
      rfl
  | cons e l ih =>
    obtain ⟨k, v⟩ := e
    rw [verifyFrom]
    constructor
    · intro h
      cases hv : unmarshalEntry v with
      | error err => simp [hv] at h
      | ok entry =>
        simp only [hv] at h
        split_ifs at h with hprev hhash
        push Not at hprev hhash
        obtain ⟨es, hes, hlinked⟩ := ih.mp h
        exact ⟨entry :: es, by simp only [List.map_cons, hv, hes], hprev, hhash, hlinked⟩
    · rintro ⟨es, hes, hlinked⟩
      cases es with
      | nil => cases hes
      | cons entry es =>
        obtain ⟨hv, hes⟩ := List.cons.inj hes
        obtain ⟨hprev, hhash, hlinked⟩ := hlinked
        simp only at hv
        simp only [hv, hprev, ne_eq, not_true_eq_false, if_false, hhash]
        rw [← hhash]
        exact ih.mpr ⟨es, hes, hlinked⟩

variable {log : Bucket Bytes}

omit [Sha256] in
theorem auditEntries_of_decoded {es : List AuditLogEntry}
    (h : log.map.entries.map (fun e => unmarshalEntry e.2) = es.map .ok) :
    auditEntries log = es := by
  have hcomp : auditEntries log =
      (log.map.entries.map (fun e => unmarshalEntry e.2)).filterMap Except.toOption := by
    rw [auditEntries, List.filterMap_map]
    rfl
  rw [hcomp, h, List.filterMap_map]
  exact List.filterMap_some

theorem verifyAuditLog_ok_iff :
    verifyAuditLog log = .ok () ↔
      log.map.entries.map (fun e => unmarshalEntry e.2) = (auditEntries log).map .ok ∧
        Linked [] (auditEntries log) := by
  rw [verifyAuditLog, verifyFrom_ok_iff]
  constructor
  · rintro ⟨es, hes, hlinked⟩
    rw [auditEntries_of_decoded hes]
    exact ⟨hes, hlinked⟩
  · rintro ⟨hes, hlinked⟩
    exact ⟨_, hes, hlinked⟩

/-! ### Writing -/

def step (log : Bucket Bytes) (c : Call) : Bucket Bytes :=
  match writeAuditLog log c with
  | .ok log' => log'
  | .error _ => log

def Call.Valid (c : Call) : Prop :=
  ∀ s ∈ [c.tenantID, c.identity, c.operation, c.resource, c.outcome, c.requestID], ValidUTF8 s

instance (c : Call) : Decidable c.Valid := inferInstanceAs (Decidable (∀ s ∈ _, ValidUTF8 s))

def Later (log : Bucket Bytes) (c : Call) : Prop := ∀ e ∈ log.map.entries, e.1 < auditKey c.now

instance (log : Bucket Bytes) (c : Call) : Decidable (Later log c) :=
  inferInstanceAs (Decidable (∀ e ∈ log.map.entries, e.1 < auditKey c.now))

theorem writeAuditLog_ok (log : Bucket Bytes) (c : Call) :
    writeAuditLog log c =
      .ok (log.set (auditKey c.now) (keyOk_auditKey c.now) (marshalEntry (newEntry log c))) :=
  Bucket.put_of_keyOk log (keyOk_auditKey c.now) _

theorem step_eq (log : Bucket Bytes) (c : Call) :
    step log c = log.set (auditKey c.now) (keyOk_auditKey c.now) (marshalEntry (newEntry log c)) := by
  rw [step, writeAuditLog_ok]

variable {c : Call}

theorem entries_step (h : Later log c) :
    (step log c).map.entries =
      log.map.entries ++ [(auditKey c.now, marshalEntry (newEntry log c))] := by
  rw [step_eq]
  exact OMap.entries_put_last log.map _ h

/-! ### The texts that are stored -/

omit [Sha256] [AuditJSON] in
theorem validUTF8_hexEncode (b : Bytes) : ValidUTF8 (hexEncode b) := by
  have hdigit : ∀ n : Fin 16, (hexDigit n).toNat < 128 := by decide
  apply validUTF8_of_ascii
  intro c hc
  obtain ⟨n, rfl⟩ := mem_hexEncode hc
  exact hdigit n

omit [Sha256] in
theorem lastEntryHash_eq
    (h : log.map.entries.map (fun e => unmarshalEntry e.2) = (auditEntries log).map .ok) :
    lastEntryHash log = HashChain.lastHash AuditLogEntry.entryHash [] (auditEntries log) := by
  rw [lastEntryHash]
  rcases List.eq_nil_or_concat log.map.entries with hnil | ⟨es, e, hes⟩
  · rw [hnil, List.map_nil, eq_comm, List.map_eq_nil_iff] at h
    rw [hnil, h]
    rfl
  · rw [hes, List.concat_eq_append, List.map_append, eq_comm, List.map_eq_append_iff] at h
    obtain ⟨ds, d, hds, -, hd⟩ := h
    obtain ⟨entry, rfl⟩ : ∃ entry, d = [entry] := by
      rw [← List.length_eq_one_iff]
      simpa using congrArg List.length hd
    have hentry : unmarshalEntry e.2 = .ok entry := (List.cons.inj hd).1.symm
    rw [hes, List.concat_eq_append, List.getLast?_concat, hds, HashChain.lastHash_concat]
    simp only [hentry]

theorem validUTF8_lastHash {es : List AuditLogEntry} (h : Linked [] es) :
    ValidUTF8 (HashChain.lastHash AuditLogEntry.entryHash [] es) := by
  rcases List.eq_nil_or_concat es with rfl | ⟨es, e, rfl⟩
  · exact ⟨[], rfl⟩
  · rw [List.concat_eq_append, Linked, HashChain.chain_concat] at h
    rw [List.concat_eq_append, HashChain.lastHash_concat, h.2.2]
    exact validUTF8_hexEncode _

theorem unmarshal_newEntry (hverified : verifyAuditLog log = .ok ()) (hc : c.Valid) :
    unmarshalEntry (marshalEntry (newEntry log c)) = .ok (newEntry log c) := by
  obtain ⟨hdecoded, hlinked⟩ := verifyAuditLog_ok_iff.mp hverified
  have hprev : ValidUTF8 (lastEntryHash log) := by
    rw [lastEntryHash_eq hdecoded]
    exact validUTF8_lastHash hlinked
  rw [unmarshal_marshal, mapTexts_of_fixed]
  intro s hs
  apply toValid_of_valid
  have hcases : s ∈ [c.tenantID, c.identity, c.operation, c.resource, c.outcome, c.requestID] ∨
      s = lastEntryHash log ∨ s = (newEntry log c).entryHash := by
    simpa [texts, newEntry, or_assoc] using hs
  rcases hcases with hs | rfl | rfl
  · exact hc s hs
  · exact hprev
  · exact validUTF8_hexEncode _

/-! ### Runs -/

theorem verified_step (hverified : verifyAuditLog log = .ok ()) (hlater : Later log c)
    (hc : c.Valid) : verifyAuditLog (step log c) = .ok () := by
  have hnew := unmarshal_newEntry hverified hc
  obtain ⟨hdecoded, hlinked⟩ := verifyAuditLog_ok_iff.mp hverified
  rw [verifyAuditLog, verifyFrom_ok_iff, entries_step hlater]
  refine ⟨auditEntries log ++ [newEntry log c], ?_, ?_⟩
  · rw [List.map_append, hdecoded, List.map_append]
    simp only [List.map_cons, List.map_nil, hnew]
  · rw [Linked, HashChain.chain_concat, ← lastEntryHash_eq hdecoded]
    exact ⟨hlinked, rfl, rfl⟩

theorem get_step (hlater : Later log c) {k v : Bytes} (h : log.get k = some v) :
    (step log c).get k = some v := by
  have hlt : k < auditKey c.now := hlater (k, v) ((OMap.mem_entries log.map).mpr h)
  rw [step_eq, Bucket.get_set_ne log _ _ hlt.ne]
  exact h

def Orderly (log : Bucket Bytes) (c : Call) : Prop := Later log c ∧ c.Valid

instance (log : Bucket Bytes) (c : Call) : Decidable (Orderly log c) :=
  inferInstanceAs (Decidable (_ ∧ _))

theorem verified_run {calls : List Call} (hverified : verifyAuditLog log = .ok ())
    (h : Guarded step Orderly log calls) : verifyAuditLog (run step log calls) = .ok () :=
  run_invariant (fun log => verifyAuditLog log = .ok ())
    (fun _ _ hlog hc => verified_step hlog hc.1 hc.2) hverified h

/-- CORRECT: while every call's clock is past the keys of the log and its strings are UTF-8, each
    call succeeds, its entry is decoded from the log ever after, and the log verifies. -/
theorem orderly_log_kept_and_verified {calls : List Call}
    (h : Guarded step Orderly Bucket.empty calls) :
    verifyAuditLog (run step Bucket.empty calls) = .ok () ∧
      ∀ before c after, calls = before ++ c :: after →
        (writeAuditLog (run step Bucket.empty before) c).isOk = true ∧
          ∃ v, (run step Bucket.empty calls).get (auditKey c.now) = some v ∧
            unmarshalEntry v = .ok (newEntry (run step Bucket.empty before) c) := by
  refine ⟨verified_run rfl h, ?_⟩
  rintro before c after rfl
  obtain ⟨hbefore, hc, hafter⟩ := guarded_append.mp h
  have hverified := verified_run rfl hbefore
  refine ⟨by rw [writeAuditLog_ok]; rfl, _, ?_, unmarshal_newEntry hverified hc.2⟩
  rw [run_append, run_cons]
  refine run_invariant (fun log => log.get (auditKey c.now) = some _)
    (fun _ _ hlog hc' => get_step hc'.1 hlog) ?_ hafter
  rw [step_eq, Bucket.get_set_self]

end Code

/-! ### A log of concrete calls -/

/-- A JSON stand-in: fields behind their lengths; a text that is not UTF-8 is stored as U+FFFD. -/
def fieldsCode : Code HashedFields :=
  (Code.pair Code.int (Code.list Code.bytes)).map
    (fun x => match x.2 with
      | [t, i, o, r, c, q, p] => ⟨x.1, t, i, o, r, c, q, p⟩
      | _ => ⟨x.1, [], [], [], [], [], [], []⟩)
    (fun f => (f.timestamp, [f.tenantID, f.identity, f.operation, f.resource, f.outcome, f.requestID,
      f.prevHash]))
    (fun _ => rfl)

def entryCode : Code AuditLogEntry :=
  (Code.pair fieldsCode Code.bytes).map
    (fun x => ⟨x.1.timestamp, x.1.tenantID, x.1.identity, x.1.operation, x.1.resource, x.1.outcome,
      x.1.requestID, x.1.prevHash, x.2⟩)
    (fun e => (hashedFields e e.prevHash, e.entryHash))
    (fun _ => rfl)

@[reducible] def sampleAuditJSON : AuditJSON where
  marshalHashed := fieldsCode.enc
  marshalEntry e := entryCode.enc (mapTexts (fun b => if ValidUTF8 b then b else [239, 191, 189]) e)
  unmarshalEntry v := match entryCode.dec v with
    | some (e, []) => .ok e
    | _ => .error (.text "invalid character after top-level value")
  toValid b := if ValidUTF8 b then b else [239, 191, 189]
  toValid_of_valid := replaceInvalid_of_valid
  unmarshal_marshal e := by
    have h := entryCode.dec_enc (mapTexts (fun b => if ValidUTF8 b then b else [239, 191, 189]) e) []
    rw [List.append_nil] at h
    simp only [h]

section Runs

local instance auditSha : Sha256 := polySha
local instance auditJSON : AuditJSON := sampleAuditJSON

def forwardCalls : List Call :=
  [{ now := 5, tenantID := [97] }, { now := 6, outcome := [111, 107] }, { now := 9 }]

/-- Two calls at one time, two with the clock set back, and one with a byte that is not UTF-8. -/
def sameTimeCalls : List Call := [{ now := 5, tenantID := [97] }, { now := 5 }]

def backwardCalls : List Call := [{ now := 5, tenantID := [97] }, { now := 3 }]

def invalidTextCalls : List Call := [{ now := 5, tenantID := [255] }]

def FirstKept (calls : List Call) : Prop :=
  ∀ c ∈ calls.head?, newEntry Bucket.empty c ∈ auditEntries (run step Bucket.empty calls)

instance (calls : List Call) : Decidable (FirstKept calls) :=
  inferInstanceAs (Decidable (∀ c ∈ calls.head?, _ ∈ auditEntries (run step Bucket.empty calls)))

theorem orderly_log_three :
    Guarded step Orderly Bucket.empty forwardCalls ∧
      verifyAuditLog (run step Bucket.empty forwardCalls) = .ok () :=
  have h : Guarded step Orderly Bucket.empty forwardCalls := by decide +kernel
  ⟨h, (orderly_log_kept_and_verified h).1⟩

/-- A second call at the same time takes the place of the first and links to it; a call at an earlier
    time stands before the entry it links to; a text that is not UTF-8 is hashed as it came and
    stored replaced. Every one of these calls succeeds. -/
theorem clock_and_texts_break_log :
    (¬ FirstKept sameTimeCalls ∧ (verifyAuditLog (run step Bucket.empty sameTimeCalls)).isOk = false) ∧
    (FirstKept backwardCalls ∧ (verifyAuditLog (run step Bucket.empty backwardCalls)).isOk = false) ∧
    (¬ FirstKept invalidTextCalls ∧
      (verifyAuditLog (run step Bucket.empty invalidTextCalls)).isOk = false) ∧
    Guarded step (fun log c => (writeAuditLog log c).isOk = true) Bucket.empty sameTimeCalls ∧
    Guarded step (fun log c => (writeAuditLog log c).isOk = true) Bucket.empty backwardCalls ∧
    Guarded step (fun log c => (writeAuditLog log c).isOk = true) Bucket.empty invalidTextCalls :=
  ⟨by decide +kernel, by decide +kernel, by decide +kernel, by decide +kernel, by decide +kernel,
    by decide +kernel⟩

end Runs

/-! ### What the last hash determines -/

section Determined

variable [Sha256] [AuditJSON]

def hashedText (e : AuditLogEntry) : Bytes := marshalHashed (hashedFields e e.prevHash)

def CollisionFree (log log' : Bucket Bytes) : Prop :=
  ∀ e ∈ auditEntries log, ∀ e' ∈ auditEntries log',
    Sha256.sum256 (hashedText e) = Sha256.sum256 (hashedText e') → hashedText e = hashedText e'

def InjectiveJSON (log log' : Bucket Bytes) : Prop :=
  ∀ e ∈ auditEntries log, ∀ e' ∈ auditEntries log',
    hashedText e = hashedText e' → hashedFields e e.prevHash = hashedFields e' e'.prevHash

instance (log log' : Bucket Bytes) : Decidable (CollisionFree log log') :=
  inferInstanceAs (Decidable (∀ e ∈ auditEntries log, ∀ e' ∈ auditEntries log', _ → _))

instance (log log' : Bucket Bytes) : Decidable (InjectiveJSON log log') :=
  inferInstanceAs (Decidable (∀ e ∈ auditEntries log, ∀ e' ∈ auditEntries log', _ → _))

omit [Sha256] [AuditJSON] in
theorem entry_ext {e e' : AuditLogEntry}
    (h : hashedFields e e.prevHash = hashedFields e' e'.prevHash) (hhash : e.entryHash = e'.entryHash) :
    e = e' := by
  cases e
  cases e'
  simp only [hashedFields, HashedFields.mk.injEq] at h
  simp only at hhash
  simp only [h, hhash]

/-- CORRECT: two logs the walk accepts and that end in the same hash hold the same entries. -/
theorem last_hash_determines_log {log log' : Bucket Bytes} (hne : log.map.entries ≠ [])
    (hne' : log'.map.entries ≠ []) (hok : verifyAuditLog log = .ok ())
    (hok' : verifyAuditLog log' = .ok ()) (hsha : CollisionFree log log')
    (hjson : InjectiveJSON log log') (hlast : lastEntryHash log = lastEntryHash log') :
    log.map.entries.map (fun e => unmarshalEntry e.2) =
        log'.map.entries.map (fun e => unmarshalEntry e.2) ∧
      auditEntries log = auditEntries log' := by
  obtain ⟨hdecoded, hlinked⟩ := verifyAuditLog_ok_iff.mp hok
  obtain ⟨hdecoded', hlinked'⟩ := verifyAuditLog_ok_iff.mp hok'
  have hnil : ∀ {log : Bucket Bytes}, log.map.entries ≠ [] →
      log.map.entries.map (fun e => unmarshalEntry e.2) = (auditEntries log).map .ok →
      auditEntries log ≠ [] := by
    intro log hne hdecoded hempty
    rw [hempty, List.map_nil, List.map_eq_nil_iff] at hdecoded
    exact hne hdecoded
  rw [lastEntryHash_eq hdecoded, lastEntryHash_eq hdecoded'] at hlast
  have heq : auditEntries log = auditEntries log' := by
    refine HashChain.chain_determined _ _ entryDigest hlinked hlinked' (hnil hne hdecoded)
      (hnil hne' hdecoded') ?_ ?_ hlast
    · -- a digest has 64 characters, the start none
      intro p e _ hstart
      have hlen : (entryDigest p e).length = 64 := length_hashBytes _
      rw [hstart] at hlen
      cases hlen
    · intro e he e' he' hown hdigest hdigest'
      have hsum : hexEncode (Sha256.sum256 (hashedText e)) =
          hexEncode (Sha256.sum256 (hashedText e')) := hdigest.symm.trans (hown.trans hdigest')
      exact entry_ext (hjson e he e' he' (hsha e he e' he' (hexEncode_injective hsum))) hown
  rw [hdecoded, hdecoded', heq]
  exact ⟨rfl, rfl⟩

end Determined

section Runs

local instance copySha : Sha256 := polySha
local instance copyJSON : AuditJSON := sampleAuditJSON

def rekeyed (log : Bucket Bytes) : Bucket Bytes :=
  log.map.entries.foldl (fun b e => match b.put (1 :: e.1) e.2 with
    | .ok b' => b'
    | .error _ => b) Bucket.empty

theorem rekeyed_log_same_entries :
    run step Bucket.empty forwardCalls ≠ rekeyed (run step Bucket.empty forwardCalls) ∧
      auditEntries (run step Bucket.empty forwardCalls) =
        auditEntries (rekeyed (run step Bucket.empty forwardCalls)) :=
  ⟨fun h => absurd (congrArg (fun b : Bucket Bytes => b.map.entries) h) (by decide +kernel),
    (last_hash_determines_log (by decide +kernel) (by decide +kernel) (by decide +kernel)
      (by decide +kernel) (by decide +kernel) (by decide +kernel) (by decide +kernel)).2⟩

end Runs

end AuditLog

end Momo

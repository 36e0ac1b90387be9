import Momo.Storage.Refinement

/-! @momo src/storage/storage.go, src/storage/integrity.go, src/storage/rebuild.go
    scheme:write then read, in damaged states

    A put that is acknowledged, and the read that follows it, in any state at all. The put asks
    whether the hash is there; the read asks whether its bytes can be trusted. -/

namespace Momo.CASStore

section ReadBack

variable [Sha256] {β : Type} [BlobStore β]

/-! ### The scrubber -/

def quarantine (s : CASStore β) (hash : Bytes) (io : Option Err) : Except Err Unit × CASStore β :=
  match BlobStore.deleteBlob s.blobs hash io with
  | (.error e, b) => (.error e, { s with blobs := b })
  | (.ok _, b) =>
    (.ok (), { s with blobs := b, db := { s.db with objects := s.db.objects.del hash } })

def scrubBlob (s : CASStore β) (hash : Bytes) (io : Option Err) : Except Err Bool × CASStore β :=
  match BlobStore.getBlob s.blobs hash with
  | .error e => if e = .sys .enoent then (.ok false, s) else (.error e, s)
  | .ok rc =>
    match rc.fault with
    | some e => (.error e, s)
    | none =>
      if hashBytes rc.data = hash then (.ok false, s)
      else match s.quarantine hash io with
        | (.error e, s') => (.error e, s')
        | (.ok _, s') => (.ok true, s')

def referencedBlobs (s : CASStore β) : List Bytes :=
  (s.db.objects.map.entries.filter (fun e => 24 ≤ e.2.encode.length ∧ 0 < e.2.refCount)).map Prod.fst

/-- A blob that cannot be checked does not stop the pass. -/
def runScrub (s : CASStore β) (io : Bytes → Option Err) : CASStore β :=
  s.referencedBlobs.foldl (fun s h => (s.scrubBlob h (io h)).2) s

variable [MapBackend β]

/-! ### What a read returns -/

/-- Degraded reads are armed, and the first good answer of the survivors is `c`. -/
def SurvivorsServe (cfg : CASConfig) (h c : Bytes) : Prop :=
  cfg.degradedRead = true ∧ ∃ source peers, cfg.rebuildSource = some source ∧
    source.survivors h = .ok peers ∧
    peers.findSome? (fun peer => verifiedAnswer h (source.fetch h peer)) = some c

def Delivers (result : Except Err Stream) (c : Bytes) : Prop :=
  ∃ st, result = .ok st ∧ st.readAll = (c, none)

variable {cfg : CASConfig} {h c : Bytes}

omit [BlobStore β] [MapBackend β] in
theorem delivers_fallback : Delivers (fallback cfg h) c ↔ SurvivorsServe cfg h c := by
  unfold fallback SurvivorsServe survivorRead
  cases hd : cfg.degradedRead with
  | false => simp [Delivers]
  | true =>
    cases hsrc : cfg.rebuildSource with
    | none => simp [Delivers]
    | some source =>
      cases hsurv : source.survivors h with
      | error e => simp [Delivers, Except.map, hsurv]
      | ok peers =>
        cases hfind : peers.findSome? (fun peer => verifiedAnswer h (source.fetch h peer)) with
        | none => simp [Delivers, Except.map, hsurv, hfind]
        | some d => simp [Delivers, Except.map, Stream.readAll, hsurv, hfind]

theorem delivers_localStream {d : Bytes} (hc : hashBytes c = h) :
    Delivers (.ok (localStream cfg h d)) c ↔ d = c := by
  constructor
  · rintro ⟨st, hst, hread⟩
    cases hst
    exact congrArg Prod.fst hread
  · rintro rfl
    refine ⟨_, rfl, ?_⟩
    unfold localStream Stream.readAll
    cases cfg.verifyOnRead <;> simp [hc]

theorem delivers_readBlob {flagged : Bool} {b : Option Bytes} (hc : hashBytes c = h) :
    Delivers (readBlob β cfg flagged h b) c ↔
      if flagged = false ∧ b.isSome then b = some c else SurvivorsServe cfg h c := by
  cases b with
  | none =>
    rw [readBlob_none cfg flagged (hc ▸ hasPathTraversalChars_hashBytes c)]
    simp [delivers_fallback]
  | some d =>
    cases flagged with
    | false => simp [readBlob, delivers_localStream hc]
    | true => simp [readBlob, delivers_fallback]

omit [Sha256] [BlobStore β] [MapBackend β] in
theorem fileMetadata_readable {db : MetaDB} {name : Bytes} {m : ObjectMeta}
    (hm : db.objects.get h = some m) :
    (∃ info, fileMetadata db name h = .ok info) ↔ 0 ≤ m.size := by
  unfold fileMetadata
  rw [hm]
  simp only
  split_ifs with hneg
  · simpa using hneg
  · simpa using hneg

theorem get_delivers {s : CASStore β} {name : Bytes} {m : ObjectMeta}
    (hvis : s.getHashForName name = .ok h) (hm : s.db.objects.get h = some m) :
    (∃ st info, (s.get name).1 = .ok (st, info) ∧ st.readAll = (c, none)) ↔
      Delivers (readBlob β s.cfg (s.db.quarantine.get h).isSome h (s.bytes h)) c ∧ 0 ≤ m.size := by
  rw [get_visible s hvis, ← fileMetadata_readable hm]
  cases readBlob β s.cfg (s.db.quarantine.get h).isSome h (s.bytes h) with
  | error e => simp [Delivers, Except.bind]
  | ok st =>
    cases fileMetadata s.db name h with
    | error e => simp [Except.bind, Except.map]
    | ok info => simp [Delivers, Except.bind, Except.map]

/-! ### Put, then Get -/

/-- The state before a put in which the read after it delivers what was put: the size on record can
    be read, and the hash is unmarked and held with these very bytes or not held at all; a marked
    hash, or one held without bytes, is served by the survivors. -/
def ReadsBack (s : CASStore β) (h : Bytes) (size : Int) (c : Bytes) : Prop :=
  0 ≤ (s.db.objects.get h).elim size ObjectMeta.size ∧
    if s.db.quarantine.get h = none ∧ (s.Holds h → (s.bytes h).isSome) then
      s.Holds h → s.bytes h = some c
    else SurvivorsServe s.cfg h c

/-- CORRECT: in every state, after a put that returns nil the next read of the name delivers the
    content exactly when the state before the put was one that reads back. -/
theorem get_after_put_iff (s s' : CASStore β) (io : Option Err) (now : Int) (name h : Bytes)
    (size : Int) (remotePath read : Bytes) (content : Reader) (hhash : hashBytes content.data = h)
    (hput : s.put io now name h size remotePath (some content) = (.ok read, s')) :
    (∃ st info, (s'.get name).1 = .ok (st, info) ∧ st.readAll = (content.data, none)) ↔
      s.ReadsBack h size content.data := by
  obtain ⟨-, hw, -, hbytes⟩ := put_ok hput
  have hvis : s'.getHashForName name = .ok h := by
    refine getHashForName_eq_ok.mpr ⟨?_, ?_⟩
    · rw [hw.tombstones]
      exact Bucket.get_del_self _ _
    · rw [hw.ns]
      exact Bucket.get_set_self _ _ _ _
  have hrec : s'.db.objects.get h = some (putMeta (s.db.objects.get h) size {}) := by
    rw [hw.objects]
    exact Bucket.get_set_self _ _ _ _
  have hlocal : s'.bytes h = if s.Holds h then s.bytes h else some content.data := by
    rw [hbytes, bytesAfter]
    split_ifs
    · rfl
    · exact Function.update_self ..
  rw [get_delivers hvis hrec, delivers_readBlob hhash, hlocal, hw.cfg, hw.quarantine, putMeta_size,
    and_comm]
  refine and_congr Iff.rfl ?_
  by_cases hheld : s.Holds h
  · simp [hheld]
  · simp [hheld]

end ReadBack

/-! ### Concrete runs -/

section Runs

local instance readBackSha : Sha256 := sampleSha

inductive WearOp
  | put (name hash : Bytes) (size : Int) (content : Bytes)
  | get (name : Bytes)
  | delete (name : Bytes)
  | scrub
  | rot (hash : Bytes) (found : Option Bytes)

def wearStep (s : CASStore LocalBlobStore) : WearOp → CASStore LocalBlobStore
  | .put name hash size content => (s.put none 1 name hash size [] (some ⟨content, none⟩)).2
  | .get name => (s.get name).2
  | .delete name => (s.delete none 1 name).2
  | .scrub => s.runScrub (fun _ => none)
  | .rot hash found =>
    { s with blobs := ⟨match found with
      | some c => s.blobs.files.put hash c
      | none => s.blobs.files.del hash⟩ }

/-- Degraded reads over one survivor that serves the bytes of `b` whatever it is asked for. -/
def lyingSurvivor : CASConfig :=
  { degradedRead := true, rebuildSource := some ⟨fun _ => .ok [1], fun _ _ => .ok ⟨[98], none⟩⟩ }

def scrubbedRun : List WearOp :=
  [.put [120] (hashBytes [97]) 1 [97], .rot (hashBytes [97]) (some [98]), .scrub]

theorem get_after_put_scrubbed :
    ∃ st info, (((run wearStep (fresh {} {}) scrubbedRun).put none 2 [121] (hashBytes [97]) 1 []
        (some ⟨[97], none⟩)).2.get [121]).1 = .ok (st, info) ∧ st.readAll = ([97], none) := by
  have hput : ((run wearStep (fresh {} {}) scrubbedRun).put none 2 [121] (hashBytes [97]) 1 []
      (some ⟨[97], none⟩)).1 = .ok [97] := by decide +kernel
  refine (get_after_put_iff _ _ none 2 [121] (hashBytes [97]) 1 [] [97] ⟨[97], none⟩ rfl
    (Prod.fst_eq_iff.mp hput)).mpr ⟨by decide +kernel, ?_⟩
  rw [if_pos (by decide +kernel)]
  decide +kernel

def rottenRun : List WearOp :=
  [.put [120] (hashBytes [97]) 1 [97], .rot (hashBytes [97]) (some [98])]

/-- A file that was lost, and a read that asked the lying survivor: the hash is marked. -/
def markedRun : List WearOp :=
  [.put [120] (hashBytes [97]) 1 [97], .rot (hashBytes [97]) none, .get [120]]

/-- Three puts that return nil, and reads that do not deliver: the rotten bytes are taken for the
    content, the mark outlives the bytes the put wrote, and a negative size is stored. -/
theorem get_after_put_fails :
    (((run wearStep (fresh {} {}) rottenRun).put none 2 [121] (hashBytes [97]) 1 []
      (some ⟨[97], none⟩)).1 = .ok [97] ∧
    (((run wearStep (fresh {} {}) rottenRun).put none 2 [121] (hashBytes [97]) 1 []
      (some ⟨[97], none⟩)).2.get [121]).1.map (fun r => r.1.readAll) =
        .ok ([98], some (contentHashVerifiedError (hashBytes [97])))) ∧
    (((run wearStep (fresh lyingSurvivor {}) markedRun).put none 2 [121] (hashBytes [97]) 1 []
      (some ⟨[97], none⟩)).1 = .ok [97] ∧
    ((run wearStep (fresh lyingSurvivor {}) markedRun).put none 2 [121] (hashBytes [97]) 1 []
      (some ⟨[97], none⟩)).2.bytes (hashBytes [97]) = some [97] ∧
    (((run wearStep (fresh lyingSurvivor {}) markedRun).put none 2 [121] (hashBytes [97]) 1 []
      (some ⟨[97], none⟩)).2.get [121]).1 = .error (.sys .enoent)) ∧
    (((fresh {} ({} : LocalBlobStore)).put none 2 [121] (hashBytes [97]) (-1) []
      (some ⟨[97], none⟩)).1 = .ok [97] ∧
    (((fresh {} ({} : LocalBlobStore)).put none 2 [121] (hashBytes [97]) (-1) []
      (some ⟨[97], none⟩)).2.get [121]).1 =
        .error (.wrap "invalid size %d for hash %s: %w" [.num (-1), .str (hashBytes [97])]
          (.sys .ebadmsg))) := by
  decide +kernel

end Runs

end Momo.CASStore

import Momo.Server.Upload

/-! @momo src/server/server.go | scheme:checks, then deduplication

    The first half of the daemon's connection handler, the same for every replication mode: the
    announced metadata is checked, and the answer tells the sender whether to send the payload.
    A refused announcement closes the connection without an acknowledgement. -/

namespace Momo

namespace Upload

def admitted (u : Upload) : Bool :=
  u.hash ≠ [] && !u.hash.contains 46 && !u.hash.contains slash && !u.hash.contains 92 &&
    u.name ≠ [] && (validatePath u.name).isOk && 0 ≤ u.size && u.size ≤ maxFileSize

def received (u : Upload) : Upload :=
  { u with remotePath := if u.name.contains slash then pathDir u.name else [] }

theorem hash_of_admitted {u : Upload} (h : u.admitted = true) :
    hasPathTraversalChars u.hash = false := by
  simp only [admitted, Bool.and_eq_true, Bool.not_eq_true', List.contains_eq_mem,
    decide_eq_false_iff_not] at h
  obtain ⟨⟨⟨⟨⟨⟨⟨-, hdot⟩, hslash⟩, hback⟩, -⟩, -⟩, -⟩, -⟩ := h
  simp only [hasPathTraversalChars, Bool.or_eq_false_iff, List.any_eq_false, Bool.or_eq_true,
    decide_eq_true_eq, decide_eq_false_iff_not]
  refine ⟨fun c hc => ?_, fun hdd => hdot (by simp [hdd, dotDot])⟩
  rintro (rfl | rfl)
  · exact hslash hc
  · exact hback hc

end Upload

namespace CASStore

variable {β : Type}

def answer (s : CASStore β) (u : Upload) : Option Bool :=
  if u.admitted then (s.canDedup u.name u.hash).toOption else none

theorem answer_eq_some {s : CASStore β} {u : Upload} {dedup : Bool} :
    s.answer u = some dedup ↔ u.admitted = true ∧
      dedup = decide ((s.db.objects.get u.hash).isSome = true ∧
        s.getHashForName u.name = .ok u.hash) := by
  unfold answer
  cases ha : u.admitted with
  | false => simp
  | true =>
    simp only [if_true, canDedup, has, Upload.hash_of_admitted ha, Bool.false_eq_true, if_false,
      Except.map, Except.toOption, Option.some.injEq, true_and, hasInternal, Bool.decide_and,
      Bool.decide_eq_true]
    exact eq_comm

variable [Sha256] [BlobStore β] [MapBackend β]

theorem storeUpload_dedup_bytes (s : CASStore β) (env : UploadEnv) (u : Upload) :
    (s.storeUpload env u true).2.bytes = s.bytes := by
  unfold storeUpload
  simp only [if_true]
  cases hput : s.put env.putFault env.putAt u.name u.hash u.size u.remotePath none with
  | mk res s' =>
    cases res with
    | error e =>
      obtain ⟨-, -, hb | hb⟩ := put_error hput
      · exact hb
      · exact hb
    | ok read => exact (put_ok hput).2.2.2

theorem getFile_honest (s : CASStore β) (env : UploadEnv) {u : Upload}
    (hv : u.verdict u.payload.data = none) :
    (s.getFile env u).2.bytes = s.bytesPut env u ∧
      ((s.getFile env u).1 = .ok () ↔ s.BytesAccepted env u ∧ MetaAccepted u) := by
  obtain ⟨hacc, hrej⟩ := registerUpload_spec s env u
  unfold getFile
  by_cases ha : s.BytesAccepted env u ∧ MetaAccepted u
  · obtain ⟨s', hreg, -, hb⟩ := hacc ha
    simp only [hreg, verifyUpload, hv]
    exact ⟨hb, iff_of_true trivial ha⟩
  · obtain ⟨e, s', hreg, -, -, hb⟩ := hrej ha
    simp only [hreg]
    exact ⟨hb, iff_of_false (fun h => by cases h) ha⟩

theorem getFile_ok_iff (s : CASStore β) (env : UploadEnv) (u : Upload) :
    (s.getFile env u).1 = .ok () ↔
      s.BytesAccepted env u ∧ MetaAccepted u ∧ u.verdict u.payload.data = none := by
  cases hv : u.verdict u.payload.data with
  | none =>
    rw [(getFile_honest s env hv).2]
    simp
  | some e =>
    simp only [reduceCtorEq, and_false, iff_false]
    obtain ⟨hacc, hrej⟩ := registerUpload_spec s env u
    unfold getFile
    by_cases ha : s.BytesAccepted env u ∧ MetaAccepted u
    · obtain ⟨s', hreg, -, -⟩ := hacc ha
      simp [hreg, verifyUpload, hv]
    · obtain ⟨e', s', hreg, -⟩ := hrej ha
      simp [hreg]

end CASStore

end Momo

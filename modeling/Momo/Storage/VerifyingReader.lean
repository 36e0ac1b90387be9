import Momo.Schemes.Run
import Momo.Storage.CAS

/-! @momo src/storage/integrity.go | scheme:fold over reads

    The reader that recomputes a blob's digest while it passes the bytes on, and judges the digest
    when its source first reports the end. The source is any state machine that answers `Read`
    calls; the answers of the verifying reader are the source's own, except that the end is an
    integrity error when the digest of everything read is not the expected key. -/

namespace Momo

/-- What a `Read` reports next to its bytes: `io.EOF` or another error. -/
inductive ReadErr where
  | eof
  | other (e : Err)
  deriving DecidableEq

/-- The bytes and the error of a `Read`. -/
abbrev ReadAnswer := Bytes × Option ReadErr

/-- `verifyingReader`, with the bytes written to its hash and the calls of its callbacks. -/
structure VerifyingReader (σ : Type) where
  src : σ
  expected : Bytes
  h : Bytes := []
  checked : Bool := false
  corrupt : Option Err := none
  verifiedCalls : ℕ := 0
  corruptCalls : ℕ := 0

variable {σ : Type}

def answers (read : σ → ℕ → ReadAnswer × σ) : σ → List ℕ → List ReadAnswer
  | _, [] => []
  | s, p :: ps => (read s p).1 :: answers read (read s p).2 ps

namespace VerifyingReader

def fed (v : VerifyingReader σ) (src : σ) (data : Bytes) : VerifyingReader σ :=
  { v with src := src, h := v.h ++ data }

def passed (v : VerifyingReader σ) : VerifyingReader σ :=
  { v with checked := true, verifiedCalls := v.verifiedCalls + 1 }

def failed (v : VerifyingReader σ) : VerifyingReader σ :=
  { v with
    checked := true, corrupt := some (contentHashVerifiedError v.expected)
    corruptCalls := v.corruptCalls + 1 }

def read [Sha256] (read : σ → ℕ → ReadAnswer × σ) (v : VerifyingReader σ) (p : ℕ) :
    ReadAnswer × VerifyingReader σ :=
  match v.corrupt with
  | some e => (([], some (.other e)), v)
  | none =>
    let ((data, err), src) := read v.src p
    let v := v.fed src data
    if err = some .eof ∧ v.checked = false then
      if hashBytes v.h ≠ v.expected then
        ((data, some (.other (contentHashVerifiedError v.expected))), v.failed)
      else ((data, err), v.passed)
    else ((data, err), v)

end VerifyingReader

def judged [Sha256] (expected all : Bytes) (a : ReadAnswer) : ReadAnswer :=
  if a.2 = some .eof ∧ hashBytes all ≠ expected then
    (a.1, some (.other (contentHashVerifiedError expected)))
  else a

def StaysAtEnd : List ReadAnswer → Prop :=
  List.Pairwise fun a b => a.2 = some .eof → b = ([], some .eof)

theorem length_answers (read : σ → ℕ → ReadAnswer × σ) :
    ∀ (s : σ) (ps : List ℕ), (answers read s ps).length = ps.length
  | _, [] => rfl
  | _, _ :: ps => congrArg (· + 1) (length_answers read _ ps)

section Reads
variable [Sha256] (read : σ → ℕ → ReadAnswer × σ)

def VerifyingReader.after : VerifyingReader σ → List ℕ → VerifyingReader σ :=
  run fun v p => (v.read read p).2

theorem after_cons {v v' : VerifyingReader σ} {p : ℕ} {a : ReadAnswer} (ps : List ℕ)
    (h : v.read read p = (a, v')) :
    answers (VerifyingReader.read read) v (p :: ps) = a :: answers (VerifyingReader.read read) v' ps ∧
      v.after read (p :: ps) = v'.after read ps := by
  simp only [answers, VerifyingReader.after, run_cons, h, true_and]

theorem answers_of_corrupt {v : VerifyingReader σ} {e : Err} (hv : v.corrupt = some e) (ps : List ℕ) :
    answers (VerifyingReader.read read) v ps = List.replicate ps.length ([], some (.other e)) ∧
      (v.after read ps).verifiedCalls = v.verifiedCalls := by
  induction ps with
  | nil => exact ⟨rfl, rfl⟩
  | cons p ps ih =>
    have hread : v.read read p = (([], some (.other e)), v) := by rw [VerifyingReader.read, hv]
    rw [(after_cons read ps hread).1, (after_cons read ps hread).2, ih.1]
    exact ⟨rfl, ih.2⟩

theorem answers_of_checked (ps : List ℕ) : ∀ {v : VerifyingReader σ}, v.corrupt = none →
    v.checked = true → answers (VerifyingReader.read read) v ps = answers read v.src ps ∧
      (v.after read ps).verifiedCalls = v.verifiedCalls := by
  induction ps with
  | nil => exact fun _ _ => ⟨rfl, rfl⟩
  | cons p ps ih =>
    intro v hv hc
    have hread : v.read read p = ((read v.src p).1, v.fed (read v.src p).2 (read v.src p).1.1) := by
      simp [VerifyingReader.read, VerifyingReader.fed, hv, hc]
    obtain ⟨hans, hcalls⟩ := @ih (v.fed (read v.src p).2 (read v.src p).1.1) hv hc
    rw [(after_cons read ps hread).1, (after_cons read ps hread).2, hans]
    exact ⟨rfl, hcalls⟩

def Judges (v : VerifyingReader σ) (given out : List ReadAnswer) (calls : ℕ) : Prop :=
  out = given.map (judged v.expected (v.h ++ given.flatMap Prod.fst)) ∧
    calls = v.verifiedCalls + if (∃ a ∈ given, a.2 = some .eof) ∧
      hashBytes (v.h ++ given.flatMap Prod.fst) = v.expected then 1 else 0

theorem judges_of_unchecked (ps : List ℕ) : ∀ {v : VerifyingReader σ}, v.corrupt = none →
    v.checked = false → StaysAtEnd (answers read v.src ps) →
    Judges v (answers read v.src ps) (answers (VerifyingReader.read read) v ps)
      (v.after read ps).verifiedCalls := by
  induction ps with
  | nil => intro v _ _ _; simp [Judges, answers, VerifyingReader.after]
  | cons p ps ih =>
    intro v hv hc hend
    obtain ⟨⟨⟨data, err⟩, src⟩, hsrc⟩ : ∃ r, read v.src p = r := ⟨_, rfl⟩
    rw [show answers read v.src (p :: ps) = (data, err) :: answers read src ps by simp [answers, hsrc]]
      at hend ⊢
    obtain ⟨hfirst, hlater⟩ := List.pairwise_cons.mp hend
    by_cases heof : err = some .eof
    · have hrest : answers read src ps = List.replicate ps.length ([], some .eof) :=
        List.eq_replicate_iff.mpr ⟨length_answers read src ps, fun a ha => hfirst a ha heof⟩
      by_cases hkey : hashBytes (v.h ++ data) = v.expected
      · have hread : v.read read p = ((data, err), (v.fed src data).passed) := by
          simp [VerifyingReader.read, VerifyingReader.fed, hv, hc, hsrc, heof, hkey]
        obtain ⟨hans, hcalls⟩ := @answers_of_checked σ _ read ps (v.fed src data).passed hv rfl
        rw [(after_cons read ps hread).1, (after_cons read ps hread).2, hans, hcalls]
        simp [Judges, judged, VerifyingReader.fed, VerifyingReader.passed, hrest,
          List.flatMap_replicate, heof, hkey]
      · have hread : v.read read p = ((data, some (.other (contentHashVerifiedError v.expected))),
            (v.fed src data).failed) := by
          simp [VerifyingReader.read, VerifyingReader.fed, hv, hc, hsrc, heof, hkey]
        obtain ⟨hans, hcalls⟩ := @answers_of_corrupt σ _ read (v.fed src data).failed _ rfl ps
        rw [(after_cons read ps hread).1, (after_cons read ps hread).2, hans, hcalls]
        simp [Judges, judged, VerifyingReader.fed, VerifyingReader.failed, hrest,
          List.flatMap_replicate, heof, hkey]
    · have hread : v.read read p = ((data, err), v.fed src data) := by
        simp [VerifyingReader.read, hv, hsrc, heof]
      obtain ⟨hans, hcalls⟩ := @ih (v.fed src data) hv hc hlater
      rw [(after_cons read ps hread).1, (after_cons read ps hread).2, hans, hcalls]
      refine ⟨by simp [judged, VerifyingReader.fed, heof], congrArg _ (if_congr ?_ rfl rfl)⟩
      simp [VerifyingReader.fed, heof]

/-- CORRECT: the source's bytes pass through unchanged, read by read, and so do its errors; its end is
    passed on exactly when the digest of all its bytes is the expected key, and `onVerified` is called
    once in that case and never otherwise. -/
theorem verifyingReader_answers (s : σ) (expected : Bytes) (ps : List ℕ)
    (hend : StaysAtEnd (answers read s ps)) :
    answers (VerifyingReader.read read) ⟨s, expected, [], false, none, 0, 0⟩ ps =
        (answers read s ps).map (judged expected ((answers read s ps).flatMap Prod.fst)) ∧
      (VerifyingReader.after read ⟨s, expected, [], false, none, 0, 0⟩ ps).verifiedCalls =
        if (∃ a ∈ answers read s ps, a.2 = some .eof) ∧
          hashBytes ((answers read s ps).flatMap Prod.fst) = expected then 1 else 0 := by
  simpa [Judges] using @judges_of_unchecked σ _ read ps ⟨s, expected, [], false, none, 0, 0⟩ rfl rfl hend

end Reads

def scripted : List ReadAnswer → ℕ → ReadAnswer × List ReadAnswer
  | [], _ => (([], some .eof), [])
  | a :: rest, _ => (a, rest)

local instance readerSha : Sha256 := sampleSha

/-- A short read, and the last byte together with the end, from then on seen again. -/
theorem split_reads_verified :
    (VerifyingReader.after scripted ⟨[([], none), ([97], some .eof)], hashBytes [97], [], false, none, 0, 0⟩
      [1, 1, 1]).verifiedCalls = 1 := by
  refine (verifyingReader_answers scripted [([], none), ([97], some .eof)] (hashBytes [97]) [1, 1, 1] ?_).2.trans
    (if_pos (by decide +kernel))
  simp [StaysAtEnd, answers, scripted]

end Momo

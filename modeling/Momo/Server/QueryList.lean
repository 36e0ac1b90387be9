import Momo.Storage.ObjectRecord
import Momo.Transport.Metadata

/-! @momo src/server/query_handler.go | scheme:length-prefixed list

    The listing a peer sends in answer to a query. The encoder leaves out what is too long; the decoder
    also judges the characters and the size of an entry, and gives up the whole list at the first one
    it does not take. -/

namespace Momo.QueryList

open Framing

def maxPathLength : ℕ := 4096

def Fits (f : FileMetadata) : Prop :=
  f.name.length ≤ fileInfoLength ∧ f.hash.length ≤ fileInfoLength ∧ f.remotePath.length ≤ maxPathLength

instance (f : FileMetadata) : Decidable (Fits f) := inferInstanceAs (Decidable (_ ∧ _))

def encodeEntry (f : FileMetadata) : Bytes :=
  bePut 4 f.name.length ++ (f.name ++ (bePut 4 f.hash.length ++ (f.hash ++ (bePut 8 (int64Bits f.size) ++
    (bePut 4 f.remotePath.length ++ (f.remotePath ++ bePut 8 (int64Bits f.modTime)))))))

def filtered (files : List FileMetadata) : List FileMetadata := files.filter (Fits ·)

def encodeFileMetadataList (files : List FileMetadata) : Bytes :=
  bePut 4 (filtered files).length ++ (filtered files).flatMap encodeEntry

def cut (what : String) (i : ℕ) : Err := .text ("truncated " ++ what ++ " at entry %d") [.num i]

def readField (what : String) (max i : ℕ) : Prog Bytes Err Bytes := do
  let n ← number (cut (what ++ " length") i) 4
  if max < n then
    Prog.fail (.wrap (what ++ " length %d exceeds max %d at entry %d: %w") [.num n, .num max, .num i]
      (.sys .ebadmsg))
  else take (cut what i) n

def checkEntry (i : ℕ) (f : FileMetadata) : Except Err FileMetadata :=
  if Metadata.containsCRLF f.hash ∨ Metadata.containsCRLF f.name ∨ Metadata.containsCRLF f.remotePath then
    .error (.wrap "invalid characters (CRLF) in metadata at entry %d: %w" [.num i] (.sys .ebadmsg))
  else if hasPathTraversalChars f.hash then
    .error (.wrap "invalid hash at entry %d: %w" [.num i] (.sys .ebadmsg))
  else
    match validatePath f.name with
    | .error e => .error (.wrap "invalid name at entry %d: %w" [.num i] e)
    | .ok () =>
      if f.size < 0 ∨ f.size > maxFileSize then
        .error (.wrap "invalid file size at entry %d: %w" [.num i] (.sys .ebadmsg))
      else .ok f

def readEntry (i : ℕ) : Prog Bytes Err FileMetadata := do
  let name ← readField "name" fileInfoLength i
  let hash ← readField "hash" fileInfoLength i
  let size ← take (cut "size" i) 8
  let remotePath ← readField "path" maxPathLength i
  let modTime ← take (cut "modtime" i) 8
  Prog.ofExcept (checkEntry i ⟨name, hash, int64At size, remotePath, int64At modTime⟩)

def decodeFileMetadataList (data : Bytes) : Except Err (List FileMetadata) :=
  if data.length < 4 then .error (.wrap "file metadata list too short: %w" [] (.sys .einval))
  else
    let count := beGet (data.take 4)
    let maxCount := (data.length - 4) / 28
    if maxCount < count then
      .error (.wrap "file metadata list count %d exceeds max %d for data length %d: %w"
        [.num count, .num maxCount, .num data.length] (.sys .ebadmsg))
    else (many readEntry 0 count (data.drop 4)).1

/-! ### Entries -/

def Clean (f : FileMetadata) : Prop :=
  ¬ (Metadata.containsCRLF f.hash ∨ Metadata.containsCRLF f.name ∨ Metadata.containsCRLF f.remotePath) ∧
    hasPathTraversalChars f.hash = false ∧ (validatePath f.name).isOk ∧ 0 ≤ f.size ∧ f.size ≤ maxFileSize

instance (f : FileMetadata) : Decidable (Clean f) := inferInstanceAs (Decidable (_ ∧ _))

/-- Size and time are `int64` values. -/
def Words (f : FileMetadata) : Prop :=
  (-2 ^ 63 ≤ f.size ∧ f.size < 2 ^ 63) ∧ -2 ^ 63 ≤ f.modTime ∧ f.modTime < 2 ^ 63

instance (f : FileMetadata) : Decidable (Words f) := inferInstanceAs (Decidable (_ ∧ _))

variable {f : FileMetadata} {files : List FileMetadata}

theorem checkEntry_clean (h : Clean f) (i : ℕ) : checkEntry i f = .ok f := by
  obtain ⟨hcrlf, hhash, hname, hsize⟩ := h
  cases hv : validatePath f.name with
  | error e => rw [hv] at hname; cases hname
  | ok u =>
    simp only [checkEntry, if_neg hcrlf, hhash, hv, Bool.false_eq_true, if_false]
    exact if_neg (by omega)

theorem checkEntry_unclean (h : ¬ Clean f) (i : ℕ) : ∃ e, checkEntry i f = .error e := by
  cases hv : validatePath f.name with
  | error e =>
    simp only [checkEntry, hv]
    split_ifs <;> exact ⟨_, rfl⟩
  | ok u =>
    simp only [checkEntry, hv]
    split_ifs with hcrlf hhash hsize
    · exact ⟨_, rfl⟩
    · exact ⟨_, rfl⟩
    · exact ⟨_, rfl⟩
    · exact absurd ⟨hcrlf, by simpa using hhash, by rw [hv]; rfl, by omega, by omega⟩ h

theorem readField_append {what : String} {max i : ℕ} {b rest : Bytes} (h : b.length ≤ max)
    (hmax : max < 256 ^ 4) : readField what max i (bePut 4 b.length ++ (b ++ rest)) = (.ok b, rest) := by
  rw [readField, Prog.bind_of_ok (number_bePut (h.trans_lt hmax)), if_neg (by omega), take_append rfl]

theorem readEntry_encodeEntry (hf : Fits f) (hw : Words f) (i : ℕ) (rest : Bytes) :
    readEntry i (encodeEntry f ++ rest) = (checkEntry i f, rest) := by
  have hword : ∀ n : ℕ, (bePut 8 n).length = 8 := length_bePut 8
  simp only [encodeEntry, List.append_assoc]
  rw [readEntry, Prog.bind_of_ok (readField_append hf.1 (by decide)),
    Prog.bind_of_ok (readField_append hf.2.1 (by decide)), Prog.bind_of_ok (take_append (hword _)),
    Prog.bind_of_ok (readField_append hf.2.2 (by decide)), Prog.bind_of_ok (take_append (hword _)),
    int64At_bePut hw.1, int64At_bePut hw.2]
  rfl

theorem length_encodeEntry (f : FileMetadata) : 28 ≤ (encodeEntry f).length := by
  simp only [encodeEntry, List.length_append, length_bePut]
  omega

/-- Run: the loop over entries, by induction on the list; it ends at the first unclean one. -/
theorem many_readEntry (hf : ∀ f ∈ files, Fits f ∧ Words f) (i : ℕ) (rest : Bytes)
    (out : List FileMetadata) :
    (many readEntry i files.length (files.flatMap encodeEntry ++ rest)).1 = .ok out ↔
      out = files ∧ ∀ f ∈ files, Clean f := by
  induction files generalizing i out with
  | nil => simp [many, Prog.pure_eq, eq_comm]
  | cons f files ih =>
    obtain ⟨hfirst, hlater⟩ := List.forall_mem_cons.mp hf
    have hread := readEntry_encodeEntry hfirst.1 hfirst.2 i (files.flatMap encodeEntry ++ rest)
    rw [List.flatMap_cons, List.append_assoc, List.length_cons]
    by_cases hc : Clean f
    · rw [checkEntry_clean hc] at hread
      rw [many_succ hread]
      rcases hrest : (many readEntry (i + 1) files.length (files.flatMap encodeEntry ++ rest)).1 with e | l
      · have hsome : ¬ ∀ f ∈ files, Clean f := fun hall => by
          have hok := (ih hlater (i + 1) files).mpr ⟨rfl, hall⟩
          rw [hrest] at hok
          cases hok
        simp only [Except.map, reduceCtorEq, false_iff]
        exact fun h => hsome fun g hg => h.2 g (List.mem_cons_of_mem _ hg)
      · obtain ⟨rfl, hall⟩ := (ih hlater (i + 1) l).mp hrest
        simp only [Except.map, Except.ok.injEq]
        exact ⟨fun h => ⟨h.symm, List.forall_mem_cons.mpr ⟨hc, hall⟩⟩, fun h => h.1.symm⟩
    · obtain ⟨e, he⟩ := checkEntry_unclean hc i
      rw [many, Prog.bind_of_error (hread.trans (by rw [he]))]
      simp [hc]

/-! ### Lists -/

def announced (files : List FileMetadata) : List FileMetadata :=
  (filtered files).take ((filtered files).length % 2 ^ 32)

theorem decode_encode_eq_ok (hw : ∀ f ∈ files, Words f) (out : List FileMetadata) :
    decodeFileMetadataList (encodeFileMetadataList files) = .ok out ↔
      out = announced files ∧ ∀ f ∈ announced files, Clean f := by
  set n := (filtered files).length % 2 ^ 32 with hn
  have hmem : ∀ f ∈ announced files, Fits f ∧ Words f := fun f hf => by
    obtain ⟨hin, hfits⟩ := List.mem_filter.mp (List.mem_of_mem_take hf)
    exact ⟨of_decide_eq_true hfits, hw f hin⟩
  have hlen : (announced files).length = n := by
    rw [announced, List.length_take, min_eq_left (Nat.mod_le ..)]
  have hcount : beGet (bePut 4 (filtered files).length) = n := beGet_bePut 4 _
  have hsplit : (filtered files).flatMap encodeEntry =
      (announced files).flatMap encodeEntry ++ ((filtered files).drop n).flatMap encodeEntry := by
    rw [announced, ← List.flatMap_append, ← hn, List.take_append_drop]
  have hfew : n ≤ ((bePut 4 (filtered files).length ++ (filtered files).flatMap encodeEntry).length - 4) / 28 := by
    have := le_length_flatMap length_encodeEntry (filtered files)
    have := Nat.mod_le (filtered files).length (2 ^ 32)
    rw [List.length_append, length_bePut]
    omega
  have hshort : ¬ (bePut 4 (filtered files).length ++ (filtered files).flatMap encodeEntry).length < 4 := by
    rw [List.length_append, length_bePut]
    omega
  simp only [decodeFileMetadataList, encodeFileMetadataList, if_neg hshort,
    List.take_left' (length_bePut 4 _), List.drop_left' (length_bePut 4 _), hcount, if_neg (not_lt.mpr hfew)]
  rw [hsplit, ← hlen]
  exact many_readEntry hmem 0 _ out

def AcceptedAlone (f : FileMetadata) : Prop :=
  decodeFileMetadataList (encodeFileMetadataList [f]) = .ok [f]

instance (f : FileMetadata) : Decidable (AcceptedAlone f) := inferInstanceAs (Decidable (_ = _))

theorem acceptedAlone_iff (hw : Words f) : AcceptedAlone f ↔ Fits f ∧ Clean f := by
  rw [AcceptedAlone, decode_encode_eq_ok (by simpa using hw)]
  by_cases hf : Fits f
  · simp [announced, filtered, hf]
  · simp [announced, filtered, hf]

/-- CORRECT: the peer gets the acceptable entries exactly when the decoder takes every entry that the
    encoder keeps and the count announces, and none beyond the count (there are such only when 2^32
    entries or more are kept). -/
theorem decode_encode_iff (hw : ∀ f ∈ files, Words f) :
    decodeFileMetadataList (encodeFileMetadataList files) = .ok (files.filter (AcceptedAlone ·)) ↔
      (∀ f ∈ announced files, Clean f) ∧
        ∀ f ∈ (filtered files).drop ((filtered files).length % 2 ^ 32), ¬ Clean f := by
  have haccepted : files.filter (AcceptedAlone ·) = (filtered files).filter (Clean ·) := by
    rw [filtered, List.filter_filter]
    refine List.filter_congr fun f hf => ?_
    simp [acceptedAlone_iff (hw f hf), and_comm]
  have hsplit : (filtered files).filter (Clean ·) = (announced files).filter (Clean ·) ++
      ((filtered files).drop ((filtered files).length % 2 ^ 32)).filter (Clean ·) := by
    rw [announced, ← List.filter_append, List.take_append_drop]
  rw [decode_encode_eq_ok hw, haccepted, hsplit]
  constructor
  · rintro ⟨heq, hclean⟩
    rw [List.filter_eq_self.mpr (by simpa using hclean), List.append_right_eq_self] at heq
    exact ⟨hclean, by simpa using heq⟩
  · rintro ⟨hclean, hrest⟩
    rw [List.filter_eq_self.mpr (by simpa using hclean), List.filter_eq_nil_iff.mpr (by simpa using hrest),
      List.append_nil]
    exact ⟨rfl, hclean⟩

/-- A file `a`, and one whose name no path check takes. -/
def plainFile : FileMetadata := ⟨[97], [49], 3, [], 5⟩

def absoluteFile : FileMetadata := ⟨[47, 97], [49], 3, [], 5⟩

theorem plain_files_arrive :
    decodeFileMetadataList (encodeFileMetadataList [plainFile, plainFile]) =
      .ok ([plainFile, plainFile].filter (AcceptedAlone ·)) :=
  (@decode_encode_iff [plainFile, plainFile] (by decide)).mpr (by decide +kernel)

theorem absolute_name_loses_others : AcceptedAlone plainFile ∧
    (decodeFileMetadataList (encodeFileMetadataList [plainFile, absoluteFile])).isOk = false := by
  refine ⟨(acceptedAlone_iff (by decide)).mpr (by decide +kernel), by decide +kernel⟩

end Momo.QueryList

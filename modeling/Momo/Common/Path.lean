import Momo.Common.Base

/-! @momo src/common/string.go | scheme:segment scan

    Path text handling: the traversal guard on hashes, `NormalizeVirtualPath` for remote paths and
    `ValidatePath` for names. `strings.TrimSpace` and `path.Clean` come from Go's library; they are
    spelled out here byte by byte (Unicode white space by its UTF-8 encodings, `Clean` by its
    segment stack) because what a stored path looks like depends on them. -/

namespace Momo

/-- The separator `/`. -/
def slash : UInt8 := 47

/-- The segment `.`. -/
def dot : Bytes := [46]

/-- The segment `..`. -/
def dotDot : Bytes := [46, 46]

/-- A separator anywhere, or exactly `..`. -/
def hasPathTraversalChars (s : Bytes) : Bool :=
  s.any (fun c => c = slash || c = 92) || s = dotDot

/-! ### Trimming -/

def space1 (a : UInt8) : Bool := (9 ≤ a && a ≤ 13) || a = 32

def space2 (a b : UInt8) : Bool := a = 0xC2 && (b = 0x85 || b = 0xA0)

/-- White space of three bytes: U+1680, U+2000 to U+200A, U+2028, U+2029, U+202F, U+205F, U+3000. -/
def space3 (a b c : UInt8) : Bool :=
  (a = 0xE1 && b = 0x9A && c = 0x80) ||
  (a = 0xE2 && b = 0x80 && ((0x80 ≤ c && c ≤ 0x8A) || c = 0xA8 || c = 0xA9 || c = 0xAF)) ||
  (a = 0xE2 && b = 0x81 && c = 0x9F) ||
  (a = 0xE3 && b = 0x80 && c = 0x80)

def trimWith (p1 : UInt8 → Bool) (p2 : UInt8 → UInt8 → Bool) (p3 : UInt8 → UInt8 → UInt8 → Bool) :
    Bytes → Bytes
  | [] => []
  | a :: s =>
    if p1 a then trimWith p1 p2 p3 s
    else match s with
      | [] => [a]
      | b :: t =>
        if p2 a b then trimWith p1 p2 p3 t
        else match t with
          | [] => [a, b]
          | c :: u => if p3 a b c then trimWith p1 p2 p3 u else a :: b :: c :: u

/-- `strings.TrimSpace`. The right end is trimmed by running the left trim on the reversed text
    with the encodings read backwards. -/
def trimSpace (s : Bytes) : Bytes :=
  let left := trimWith space1 space2 space3 s
  (trimWith space1 (fun a b => space2 b a) (fun a b c => space3 c b a) left.reverse).reverse

variable {s : Bytes}

theorem trimWith_eq_self {p1 : UInt8 → Bool} {p2 : UInt8 → UInt8 → Bool}
    {p3 : UInt8 → UInt8 → UInt8 → Bool} (h1 : ∀ a ∈ s, p1 a = false)
    (h2 : ∀ a ∈ s, ∀ b ∈ s, p2 a b = false) (h3 : ∀ a ∈ s, ∀ b ∈ s, ∀ c ∈ s, p3 a b c = false) :
    trimWith p1 p2 p3 s = s := by
  rcases s with _ | ⟨a, _ | ⟨b, _ | ⟨c, u⟩⟩⟩
  · rfl
  · simp [trimWith, h1]
  · simp [trimWith, h1, h2]
  · simp [trimWith, h1, h2, h3]

theorem mem_of_mem_trimWith {p1 : UInt8 → Bool} {p2 : UInt8 → UInt8 → Bool}
    {p3 : UInt8 → UInt8 → UInt8 → Bool} {c : UInt8} (h : c ∈ trimWith p1 p2 p3 s) : c ∈ s := by
  fun_induction trimWith p1 p2 p3 s <;> simp_all

theorem mem_of_mem_trimSpace {c : UInt8} (h : c ∈ trimSpace s) : c ∈ s :=
  mem_of_mem_trimWith (List.mem_reverse.mp (mem_of_mem_trimWith (List.mem_reverse.mp h)))

theorem trimSpace_visible (h : ∀ c ∈ s, 32 < c.toNat ∧ c.toNat < 128) : trimSpace s = s := by
  have h1 : ∀ a ∈ s, space1 a = false := by
    intro a ha
    obtain ⟨hlow, -⟩ := h a ha
    simp only [space1, Bool.or_eq_false_iff, Bool.and_eq_false_iff, decide_eq_false_iff_not,
      UInt8.le_iff_toNat_le, UInt8.ext_iff, UInt8.reduceToNat]
    omega
  have h2 : ∀ a ∈ s, ∀ b, space2 a b = false := by
    intro a ha b
    have hne : a ≠ 0xC2 := by
      rintro rfl
      exact absurd (h _ ha).2 (by decide)
    simp [space2, hne]
  have h3 : ∀ a ∈ s, ∀ b c, space3 a b c = false := by
    intro a ha b c
    have hne : a ≠ 0xE1 ∧ a ≠ 0xE2 ∧ a ≠ 0xE3 := by
      refine ⟨?_, ?_, ?_⟩ <;> rintro rfl <;> exact absurd (h _ ha).2 (by decide)
    simp [space3, hne]
  have hrev : ∀ {c}, c ∈ s.reverse → c ∈ s := List.mem_reverse.mp
  simp only [trimSpace]
  rw [trimWith_eq_self h1 (fun a ha b _ => h2 a ha b) (fun a ha b _ c _ => h3 a ha b c),
    trimWith_eq_self (fun a ha => h1 a (hrev ha)) (fun a _ b hb => h2 b (hrev hb) a)
      (fun a _ b _ c hc => h3 c (hrev hc) b a), List.reverse_reverse]

/-! ### Cleaning -/

def segments (p : Bytes) : List Bytes := p.splitOn slash

def joinSegments (segs : List Bytes) : Bytes := List.intercalate [slash] segs

/-- One segment of `path.Clean`: empty and `.` vanish, `..` removes the segment before it; above
    the start it is kept in a relative path and dropped in a rooted one. The stack is reversed. -/
def cleanStep (rooted : Bool) (stack : List Bytes) (seg : Bytes) : List Bytes :=
  if seg = [] ∨ seg = dot then stack
  else if seg = dotDot then
    match stack with
    | [] => if rooted then [] else [dotDot]
    | top :: below => if top = dotDot then dotDot :: stack else below
  else seg :: stack

def pathClean (p : Bytes) : Bytes :=
  let rooted := p.head? = some slash
  let kept := ((segments p).foldl (cleanStep rooted) []).reverse
  if rooted then slash :: joinSegments kept
  else if kept = [] then dot else joinSegments kept

/-- `filepath.Dir`: what stands before the last separator, cleaned. -/
def pathDir (p : Bytes) : Bytes := pathClean (p.reverse.dropWhile (fun c => c ≠ slash)).reverse

/-- NUL, backslash and `..` segments. -/
def rejectPathHazards (p : Bytes) : Except Err Unit :=
  if p.contains 0 then .error (.sys .einval)
  else if p.contains 92 then .error (.sys .einval)
  else if (segments p).contains dotDot then .error (.sys .einval)
  else .ok ()

/-- The segments that are not empty, `.`, `..` or all white space. -/
def meaningfulSegments (cleaned : Bytes) : List Bytes :=
  (segments cleaned).filter (fun s => s ≠ [] ∧ s ≠ dot ∧ s ≠ dotDot ∧ trimSpace s ≠ [])

def normalizeVirtualPath (p : Bytes) : Except Err Bytes :=
  let p := trimSpace p
  if p = [] then .ok []
  else do
    rejectPathHazards p
    let validSegments := meaningfulSegments (pathClean p)
    if validSegments = [] then .error (.sys .einval)
    else .ok (joinSegments validSegments)

def validatePath (name : Bytes) : Except Err Unit :=
  let cleaned := pathClean name
  if cleaned = dot ∨ cleaned = dotDot ∨ (dotDot ++ [slash]) <+: cleaned ∨ [slash] <+: cleaned ∨
      cleaned.contains 92 then
    .error (.wrap "path traversal attempt or absolute path detected: %w" [] (.sys .ebadmsg))
  else .ok ()

theorem hasPathTraversalChars_hashBytes [Sha256] (c : Bytes) :
    hasPathTraversalChars (hashBytes c) = false := by
  have hdigit : ∀ n : Fin 16, (hexDigit n = slash || hexDigit n = 92) = false := by decide
  have hany : (hashBytes c).any (fun x => x = slash || x = 92) = false := by
    rw [List.any_eq_false]
    intro x hx
    obtain ⟨n, rfl⟩ := mem_hexEncode hx
    simpa using hdigit n
  have hne : hashBytes c ≠ dotDot := fun h => by
    have := congrArg List.length h
    rw [length_hashBytes] at this
    exact absurd this (by decide)
  simp [hasPathTraversalChars, hany, hne]

-- "  a//./b c/ " keeps its inner blank and loses the rest
example : normalizeVirtualPath [32, 97, 47, 47, 46, 47, 98, 32, 99, 47, 32] =
    .ok [97, 47, 98, 32, 99] := by decide +kernel

example : normalizeVirtualPath [97, 47, 46, 46, 47, 98] = .error (.sys .einval) := by
  decide +kernel

end Momo

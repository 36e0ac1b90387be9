import Momo.Common.Base
import Momo.Schemes.Run

/-! @momo src/common/auth_limiter.go | scheme:state machine per source

    The limiter of failed authentications. Per source it keeps the number of consecutive failures
    and the instant from which the source may try again. -/

namespace Momo

def authLimiterDefaultFactor : Int64 := 2

def authLimiterDefaultMaxDelay : Int64 := 8000000000

def authLimiterDefaultMaxFailures : ℕ := 5

def authLimiterDefaultIdleWindow : Int64 := 300000000000

structure AuthLimiterEntry where
  failures : ℕ := 0
  nextAllow : ℤ := 0
  lockoutUntil : ℤ := 0
  lastSeen : ℤ := 0
  deriving DecidableEq

/-- The fields that no caller sets (`factor`, `maxDelay`, `maxFailures`, `idleWindow`) are the
    constants above; the clock is an argument of the calls. -/
structure AuthLimiter where
  baseDelay : Int64
  lockout : Int64
  sources : OMap Bytes AuthLimiterEntry := OMap.empty

namespace AuthLimiter

def lockoutOf (baseDelay : Int64) : Int64 :=
  if baseDelay ≤ 0 then 0
  else
    let scaled := baseDelay * 60
    let capped := if scaled > 60000000000 then 60000000000 else scaled
    if capped < authLimiterDefaultMaxDelay then authLimiterDefaultMaxDelay else capped

def newAuthLimiter (baseDelay : Int64) : AuthLimiter :=
  ⟨baseDelay, lockoutOf baseDelay, OMap.empty⟩

def enabled (l : AuthLimiter) : Bool := l.baseDelay > 0

def evictIdle (l : AuthLimiter) (now : ℤ) : AuthLimiter :=
  { l with
    sources := l.sources.prune (fun _ e => now - e.lastSeen ≤ authLimiterDefaultIdleWindow.toInt) }

/-- `Allow`, with the limiter it leaves: a source without an entry sweeps the idle ones. -/
def allow (l : AuthLimiter) (now : ℤ) (source : Bytes) : Bool × AuthLimiter :=
  if l.enabled then
    match l.sources.get source with
    | none => (true, l.evictIdle now)
    | some e => (!(now < e.lockoutUntil || now < e.nextAllow), l)
  else (true, l)

def backoffLoop (delay : Int64) : ℕ → Int64
  | 0 => if delay > authLimiterDefaultMaxDelay then authLimiterDefaultMaxDelay else delay
  | n + 1 =>
    if delay * authLimiterDefaultFactor ≥ authLimiterDefaultMaxDelay then authLimiterDefaultMaxDelay
    else backoffLoop (delay * authLimiterDefaultFactor) n

def backoffDelay (l : AuthLimiter) (failures : ℕ) : Int64 := backoffLoop l.baseDelay (failures - 1)

def afterFailure (l : AuthLimiter) (now : ℤ) (e : AuthLimiterEntry) : AuthLimiterEntry × Int64 :=
  let failures := e.failures + 1
  if failures ≥ authLimiterDefaultMaxFailures then
    (⟨failures, now + l.lockout.toInt, now + l.lockout.toInt, now⟩, l.lockout)
  else
    let delay := l.backoffDelay failures
    (⟨failures, now + delay.toInt, e.lockoutUntil, now⟩, delay)

def recordFailure (l : AuthLimiter) (now : ℤ) (source : Bytes) : Int64 × AuthLimiter :=
  if l.enabled then
    let (e, delay) := l.afterFailure now ((l.sources.get source).getD {})
    (delay, { l with sources := l.sources.put source e })
  else (0, l)

def recordSuccess (l : AuthLimiter) (source : Bytes) : AuthLimiter :=
  if l.enabled then { l with sources := l.sources.del source } else l

/-! ### What one limiter gives -/

section Lockout

variable {l : AuthLimiter} {source : Bytes} {now : ℤ}

theorem allow_of_absent (h : l.sources.get source = none) : (l.allow now source).1 = true := by
  unfold allow
  split
  · simp only [h]
  · rfl

def failuresOf (l : AuthLimiter) (source : Bytes) : ℕ := ((l.sources.get source).getD {}).failures

theorem lockoutOf_bounds {baseDelay : Int64} (h : 0 < baseDelay) :
    authLimiterDefaultMaxDelay ≤ lockoutOf baseDelay ∧ lockoutOf baseDelay ≤ 60000000000 := by
  have hle : ¬ baseDelay ≤ 0 := Int64.not_le.mpr h
  simp only [lockoutOf, if_neg hle]
  generalize baseDelay * 60 = scaled
  split_ifs with h1 h2 h2
  · exact ⟨by decide, by decide⟩
  · exact ⟨by decide, by decide⟩
  · exact ⟨by decide, by decide⟩
  · exact ⟨Int64.not_lt.mp h2, Int64.not_lt.mp h1⟩

end Lockout

/-! ### Delays over whole runs -/

inductive Call
  | allow (source : Bytes)
  | recordFailure (source : Bytes)
  | recordSuccess (source : Bytes)
  deriving DecidableEq

def call (l : AuthLimiter) (c : ℤ × Call) : AuthLimiter :=
  match c.2 with
  | .allow source => (l.allow c.1 source).2
  | .recordFailure source => (l.recordFailure c.1 source).2
  | .recordSuccess source => l.recordSuccess source

def delayAfter (base : Int64) (failures : ℕ) : Int64 :=
  if failures ≥ authLimiterDefaultMaxFailures then lockoutOf base else backoffLoop base (failures - 1)

def oneYear : ℤ := 366 * 86400 * 1000000000

theorem backoffLoop_toInt {delay : Int64} (hpos : 0 < delay.toInt) (hle : delay.toInt ≤ oneYear)
    (n : ℕ) : (backoffLoop delay n).toInt = min (delay.toInt * 2 ^ n) 8000000000 := by
  have hmax : authLimiterDefaultMaxDelay.toInt = 8000000000 := rfl
  have hyear : oneYear = 31622400000000000 := rfl
  induction n generalizing delay with
  | zero =>
    rw [backoffLoop, pow_zero, mul_one]
    split_ifs with h
    · have := Int64.lt_iff_toInt_lt.mp h
      omega
    · have := Int64.le_iff_toInt_le.mp (Int64.not_lt.mp h)
      omega
  | succ n ih =>
    have hdouble : (delay * authLimiterDefaultFactor).toInt = delay.toInt * 2 := by
      rw [Int64.toInt_mul]
      exact Int.bmod_eq_of_le (by change _ ≤ delay.toInt * 2; omega) (by change delay.toInt * 2 < _; omega)
    have hpow : (0 : ℤ) < 2 ^ n := by positivity
    rw [backoffLoop, pow_succ', ← mul_assoc]
    split_ifs with h
    · have hbig := Int64.le_iff_toInt_le.mp h
      rw [hmax, hdouble] at hbig
      rw [hmax, min_eq_right (hbig.trans (le_mul_of_one_le_right (by omega) hpow))]
    · have hsmall := Int64.lt_iff_toInt_lt.mp (Int64.not_le.mp h)
      rw [hmax, hdouble] at hsmall
      rw [ih (by omega) (by omega), hdouble]

def Tuned (base : Int64) (l : AuthLimiter) : Prop :=
  0 < base.toInt ∧ l.baseDelay = base ∧ l.lockout = lockoutOf base

theorem delayAfter_mono {base : Int64} (hpos : 0 < base.toInt) (hhigh : base.toInt ≤ oneYear) {j k : ℕ}
    (hjk : j ≤ k) : (delayAfter base j).toInt ≤ (delayAfter base k).toInt ∧
      (delayAfter base k).toInt ≤ 60000000000 := by
  have hback := backoffLoop_toInt hpos hhigh
  obtain ⟨hmin, hmax⟩ := lockoutOf_bounds (Int64.lt_iff_toInt_lt.mpr hpos)
  have hmin : 8000000000 ≤ (lockoutOf base).toInt := Int64.le_iff_toInt_le.mp hmin
  have hmax : (lockoutOf base).toInt ≤ 60000000000 := Int64.le_iff_toInt_le.mp hmax
  have hpow : base.toInt * 2 ^ (j - 1) ≤ base.toInt * 2 ^ (k - 1) :=
    mul_le_mul_of_nonneg_left (pow_le_pow_right₀ (by decide) (Nat.sub_le_sub_right hjk 1)) hpos.le
  simp only [delayAfter]
  split_ifs
  · exact ⟨le_refl _, hmax⟩
  · omega
  · rw [hback]
    omega
  · rw [hback, hback]
    omega

variable {base : Int64} {l : AuthLimiter} {source : Bytes} {c : ℤ × Call} {k : ℕ} {t : ℤ}

theorem Tuned.enabled (h : Tuned base l) : l.enabled = true := by
  have hpos : (0 : Int64) < l.baseDelay := by
    rw [Int64.lt_iff_toInt_lt, h.2.1]
    exact h.1
  exact decide_eq_true hpos

theorem Tuned.recordFailure (h : Tuned base l) (t : ℤ) (source : Bytes) :
    ∃ e, l.recordFailure t source =
        (delayAfter base e.failures, { l with sources := l.sources.put source e }) ∧
      e.failures = l.failuresOf source + 1 ∧ e.lastSeen = t ∧
      e.nextAllow = t + (delayAfter base e.failures).toInt := by
  have hpair : ((l.afterFailure t ((l.sources.get source).getD {})).1.failures =
      l.failuresOf source + 1) ∧ (l.afterFailure t ((l.sources.get source).getD {})).1.lastSeen = t ∧
      (l.afterFailure t ((l.sources.get source).getD {})).2 =
        delayAfter base (l.failuresOf source + 1) ∧
      (l.afterFailure t ((l.sources.get source).getD {})).1.nextAllow =
        t + (l.afterFailure t ((l.sources.get source).getD {})).2.toInt := by
    simp only [afterFailure, delayAfter, failuresOf, backoffDelay, h.2.1, h.2.2]
    by_cases hmany : ((l.sources.get source).getD {}).failures + 1 ≥ authLimiterDefaultMaxFailures
    · simp only [if_pos hmany]
      exact ⟨trivial, trivial, (if_pos hmany).symm, trivial⟩
    · simp only [if_neg hmany]
      exact ⟨trivial, trivial, (if_neg hmany).symm, trivial⟩
  obtain ⟨hfail, hseen, hdelay, hnext⟩ := hpair
  refine ⟨_, ?_, hfail, hseen, by rw [hnext, hdelay, hfail]⟩
  simp only [AuthLimiter.recordFailure, h.enabled, if_true]
  rw [hfail, ← hdelay]

theorem Tuned.call_cases (h : Tuned base l) (c : ℤ × Call) (source : Bytes) : Tuned base (l.call c) ∧
    ((l.call c).sources.get source = l.sources.get source ∨
    (∃ e, (l.call c).sources.get source = some e ∧ e.failures = l.failuresOf source + 1 ∧
      e.lastSeen = c.1 ∧ e.nextAllow = c.1 + (delayAfter base e.failures).toInt) ∨
    (l.call c).sources.get source = none ∧ (c.2 = .recordSuccess source ∨
      ∃ e, l.sources.get source = some e ∧ authLimiterDefaultIdleWindow.toInt < c.1 - e.lastSeen)) := by
  obtain ⟨now, op⟩ := c
  cases op with
  | allow s =>
    simp only [call, allow, h.enabled, if_true]
    cases l.sources.get s with
    | some e => exact ⟨h, .inl rfl⟩
    | none =>
      refine ⟨h, ?_⟩
      simp only [evictIdle, OMap.get_prune]
      cases hget : l.sources.get source with
      | none => exact .inl rfl
      | some e =>
        by_cases hidle : now - e.lastSeen ≤ authLimiterDefaultIdleWindow.toInt
        · exact .inl (by rw [Option.filter_some, if_pos (decide_eq_true hidle)])
        · refine .inr (.inr ⟨?_, .inr ⟨e, rfl, not_le.mp hidle⟩⟩)
          rw [Option.filter_some, if_neg (by rwa [decide_eq_true_iff])]
  | recordFailure s =>
    obtain ⟨e, heq, hfail, hseen, hnext⟩ := h.recordFailure now s
    simp only [call, heq, OMap.get_put]
    refine ⟨h, ?_⟩
    split_ifs with hs
    · subst hs
      exact .inr (.inl ⟨e, rfl, hfail, hseen, hnext⟩)
    · exact .inl rfl
  | recordSuccess s =>
    simp only [call, recordSuccess, h.enabled, if_true, OMap.get_del]
    refine ⟨h, ?_⟩
    split_ifs with hs
    · subst hs
      exact .inr (.inr ⟨rfl, .inl rfl⟩)
    · exact .inl rfl

theorem tuned_run (hlow : 1 ≤ base.toInt) (calls : List (ℤ × Call)) :
    Tuned base (run call (newAuthLimiter base) calls) :=
  run_invariant (Tuned base) (fun _ c h (_ : True) => (h.call_cases c []).1)
    ⟨hlow, rfl, rfl⟩ (guarded_of_forall _ fun _ _ => trivial)

def Held (base : Int64) (source : Bytes) (t : ℤ) (k : ℕ) (l : AuthLimiter) : Prop :=
  Tuned base l ∧ ∃ e, l.sources.get source = some e ∧ k ≤ e.failures ∧ t ≤ e.lastSeen ∧
    e.nextAllow = e.lastSeen + (delayAfter base e.failures).toInt

/-- Step: until the delay is over the source stays refused, whatever is called but its success. The
    delay is shorter than the idle window, so no sweep takes the entry. -/
theorem Held.call (hhigh : base.toInt ≤ oneYear) (hl : Held base source t k l) (hfrom : t ≤ c.1)
    (hto : c.1 < t + (delayAfter base k).toInt) (hc : c.2 ≠ .recordSuccess source) :
    Held base source t k (l.call c) := by
  obtain ⟨h, e, hget, hk, hseen, hnext⟩ := hl
  obtain ⟨h', hcases⟩ := h.call_cases c source
  refine ⟨h', ?_⟩
  rcases hcases with hsame | ⟨e', hget', hfail, hseen', hnext'⟩ | ⟨-, hsucc | ⟨e', hget', hidle⟩⟩
  · exact ⟨e, hsame.trans hget, hk, hseen, hnext⟩
  · simp only [failuresOf, hget, Option.getD_some] at hfail
    exact ⟨e', hget', by omega, by omega, by rw [hnext', hseen']⟩
  · exact absurd hsucc hc
  · have hbound := (delayAfter_mono h.1 hhigh (le_refl k)).2
    have hwindow : authLimiterDefaultIdleWindow.toInt = 300000000000 := rfl
    rw [hget] at hget'
    cases hget'
    omega

theorem Tuned.failuresOf_call (h : Tuned base l) (hk : k ≤ l.failuresOf source)
    (hthere : ((l.call c).sources.get source).isSome) : k ≤ (l.call c).failuresOf source := by
  rcases (h.call_cases c source).2 with hsame | ⟨e, hget, hfail, -⟩ | ⟨hnone, -⟩
  · rw [failuresOf, hsame]
    exact hk
  · rw [failuresOf, hget, Option.getD_some]
    omega
  · rw [hnone] at hthere
    cases hthere

/-- CORRECT: a failure that returns a delay refuses its source for that long, whatever else is
    called, unless the source has a success; and as long as its entry is kept the delays of a source
    never get shorter. -/
theorem delays_hold (base : Int64) (hlow : 1 ≤ base.toInt) (hhigh : base.toInt ≤ oneYear)
    (before between : List (ℤ × Call)) (t : ℤ) (source : Bytes) :
    let out := (run call (newAuthLimiter base) before).recordFailure t source
    (∀ now, (t :: (between.map Prod.fst ++ [now])).Pairwise (· ≤ ·) →
      (∀ c ∈ between, c.2 ≠ .recordSuccess source) → now < t + out.1.toInt →
        ((run call out.2 between).allow now source).1 = false) ∧
    (Guarded call (fun l c => ((l.call c).sources.get source).isSome) out.2 between →
      ∀ later, out.1.toInt ≤ ((run call out.2 between).recordFailure later source).1.toInt) := by
  have htuned := tuned_run hlow before
  obtain ⟨e, heq, -, hseen, hnext⟩ := htuned.recordFailure t source
  simp only [heq]
  set l := { run call (newAuthLimiter base) before with
    sources := (run call (newAuthLimiter base) before).sources.put source e }
  have hget : l.sources.get source = some e := OMap.get_put_self ..
  constructor
  · intro now hclock hsucc hnow
    rw [List.pairwise_cons, List.pairwise_append] at hclock
    obtain ⟨hafter, -, -, hbefore⟩ := hclock
    have hcalls : ∀ c ∈ between, t ≤ c.1 ∧ c.1 ≤ now := fun c hc =>
      have hmem := List.mem_map_of_mem (f := Prod.fst) hc
      ⟨hafter _ (List.mem_append_left _ hmem), hbefore _ hmem now List.mem_cons_self⟩
    have hheld : Held base source t e.failures (run call l between) :=
      run_invariant (Held base source t e.failures)
        (fun l c hl (hc : (t ≤ c.1 ∧ c.1 ≤ now) ∧ c.2 ≠ .recordSuccess source) =>
          hl.call hhigh hc.1.1 (by omega) hc.2)
        ⟨htuned, e, hget, le_refl _, hseen.ge, by rw [hnext, hseen]⟩
        (guarded_of_forall l fun c hc => ⟨hcalls c hc, hsucc c hc⟩)
    obtain ⟨h, e', hget', hk, hseen', hnext'⟩ := hheld
    have hmono := (delayAfter_mono h.1 hhigh hk).1
    have hrefused : now < e'.nextAllow := by omega
    simp only [allow, h.enabled, if_true, hget', hrefused, decide_true, Bool.or_true, Bool.not_true]
  · intro hthere later
    have hkept : Tuned base (run call l between) ∧ e.failures ≤ (run call l between).failuresOf source :=
      run_invariant (fun l => Tuned base l ∧ e.failures ≤ l.failuresOf source)
        (fun l c hl hc => ⟨(hl.1.call_cases c []).1, hl.1.failuresOf_call hl.2 hc⟩)
        ⟨htuned, by rw [failuresOf, hget, Option.getD_some]⟩ hthere
    obtain ⟨e', heq', hfail', -⟩ := hkept.1.recordFailure later source
    rw [heq']
    exact (delayAfter_mono hkept.1.1 hhigh (by omega)).1

theorem second_source_spares_first :
    ((run call ((newAuthLimiter 1000000000).recordFailure 5 [97]).2 [(6, .allow [98])]).allow 7
      [97]).1 = false :=
  (delays_hold 1000000000 (by decide) (by decide) [] [(6, .allow [98])] 5 [97]).1 7 (by decide)
    (by decide) (by decide +kernel)

end AuthLimiter

end Momo

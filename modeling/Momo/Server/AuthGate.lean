import Momo.Common.AuthLimiter
import Momo.Transport.Metadata

/-! @momo src/server/server.go | scheme:state machine over connections

    The gate in front of the handshake. Every accepted connection is served by a goroutine of its
    own, which asks a limiter about the remote address, runs `HandshakeServer` and tells the limiter
    how it ended. -/

namespace Momo.AuthGate

/-- A connection at the gate: the two halves of `RemoteAddr().String()`, and the instant at which
    the limiter reads its clock. -/
structure Conn where
  host : Bytes
  port : Bytes
  at_ : ℤ
  deriving DecidableEq

/-- How `HandshakeServer` returns: with a mode, with `ErrRequestHandled`, with an authentication
    error, or with another one. -/
inductive Outcome
  | authenticated
  | handled
  | authError
  | otherError
  deriving DecidableEq

/-- A handshake that ended, with the limiter of its goroutine, which nothing reads any more. -/
structure Handshake where
  host : Bytes
  at_ : ℤ
  outcome : Outcome
  limiter : AuthLimiter

/-- `handshaking`: the goroutines inside `HandshakeServer`, with their limiters; `finished`: the
    handshakes that ended, the last one first. -/
structure State where
  handshaking : List (Conn × AuthLimiter) := []
  finished : List Handshake := []

inductive Op
  | accept (c : Conn)
  | finish (index : ℕ) (at_ : ℤ) (outcome : Outcome)

def remoteAddr (c : Conn) : Bytes := Metadata.sanitizeLog (c.host ++ 58 :: c.port)

/-- `time.Duration(cfg.Global.AuthBackoffDelay) * time.Millisecond`. -/
def baseDelay (authBackoffDelay : ℤ) : Int64 := Int64.ofInt authBackoffDelay * 1000000

/-- The limiter after a handshake. `ErrRequestHandled` returns before either record; every other
    error counts as a failed authentication. -/
def record (l : AuthLimiter) (source : Bytes) (now : ℤ) : Outcome → AuthLimiter
  | .authenticated => l.recordSuccess source
  | .handled => l
  | .authError | .otherError => (l.recordFailure now source).2

/-- The check in front of the handshake, with the limiter it leaves: `none` when it refuses. -/
def passLimiter (authLimiter : AuthLimiter) (c : Conn) : Option AuthLimiter :=
  if authLimiter.enabled then
    let (allowed, authLimiter) := authLimiter.allow c.at_ (remoteAddr c)
    if allowed then some authLimiter else none
  else some authLimiter

/-- What the goroutine of a connection does before the handshake: the limiter it asks is its own. -/
def gate (authBackoffDelay : ℤ) (c : Conn) : Option AuthLimiter :=
  passLimiter (AuthLimiter.newAuthLimiter (baseDelay authBackoffDelay)) c

/-- A refused connection is closed; the goroutine of an admitted one goes on to its handshake. -/
def State.admitted (s : State) (c : Conn) : Option AuthLimiter → State
  | none => s
  | some l => { s with handshaking := s.handshaking ++ [(c, l)] }

def step (authBackoffDelay : ℤ) (s : State) : Op → State
  | .accept c => s.admitted c (gate authBackoffDelay c)
  | .finish index now outcome =>
    match s.handshaking[index]? with
    | none => s
    | some (c, l) =>
      { handshaking := s.handshaking.eraseIdx index
        finished := ⟨c.host, now, outcome, record l (remoteAddr c) now outcome⟩ :: s.finished }

/-! ### The lockout, as it is meant -/

def recent (finished : List Handshake) (host : Bytes) : List Handshake :=
  (finished.filter (fun h => h.host = host)).take authLimiterDefaultMaxFailures

/-- The last five handshakes of a host failed to authenticate within the idle window, and the
    lockout after the last of them is not over. -/
def lockedOut (authBackoffDelay : ℤ) (finished : List Handshake) (c : Conn) : Bool :=
  let last := recent finished c.host
  last.length = authLimiterDefaultMaxFailures && last.all (fun h => h.outcome = .authError) &&
    match last.head?, last.getLast? with
    | some newest, some oldest =>
      newest.at_ - oldest.at_ ≤ authLimiterDefaultIdleWindow.toInt &&
        c.at_ < newest.at_ + (AuthLimiter.lockoutOf (baseDelay authBackoffDelay)).toInt
    | _, _ => false

/-- The connection does not get to `HandshakeServer`. -/
def Rejects (authBackoffDelay : ℤ) (s : State) (c : Conn) : Prop :=
  (step authBackoffDelay s (.accept c)).handshaking.length = s.handshaking.length

def Enforced (authBackoffDelay : ℤ) (ops : List Op) : Prop :=
  ∀ before c after, ops = before ++ Op.accept c :: after →
    lockedOut authBackoffDelay (run (step authBackoffDelay) {} before).finished c = true →
      Rejects authBackoffDelay (run (step authBackoffDelay) {} before) c

def Undisturbed (authBackoffDelay : ℤ) (ops : List Op) : Prop :=
  Guarded (step authBackoffDelay)
    (fun s op => ∀ c, op = .accept c → lockedOut authBackoffDelay s.finished c = false) {} ops

/-! ### What the gate does -/

theorem passLimiter_of_absent {l : AuthLimiter} {c : Conn} (h : l.sources.get (remoteAddr c) = none) :
    ∃ l', passLimiter l c = some l' := by
  unfold passLimiter
  by_cases hen : l.enabled
  · exact ⟨_, by rw [if_pos hen]; exact if_pos (AuthLimiter.allow_of_absent h)⟩
  · exact ⟨l, if_neg hen⟩

theorem gate_eq_some (authBackoffDelay : ℤ) (c : Conn) : ∃ l, gate authBackoffDelay c = some l :=
  passLimiter_of_absent (OMap.get_empty _)

theorem step_accept (authBackoffDelay : ℤ) (s : State) (c : Conn) :
    ∃ l, step authBackoffDelay s (.accept c) =
      { s with handshaking := s.handshaking ++ [(c, l)] } := by
  obtain ⟨l, hl⟩ := gate_eq_some authBackoffDelay c
  refine ⟨l, ?_⟩
  change s.admitted c (gate authBackoffDelay c) = s.admitted c (some l)
  rw [hl]

theorem not_rejects (authBackoffDelay : ℤ) (s : State) (c : Conn) :
    ¬ Rejects authBackoffDelay s c := by
  obtain ⟨l, hl⟩ := step_accept authBackoffDelay s c
  simp [Rejects, hl]

/-- CORRECT: for every delay and every interleaving, the lockout is enforced exactly when there is
    nothing to enforce. -/
theorem enforced_iff (authBackoffDelay : ℤ) (ops : List Op) :
    Enforced authBackoffDelay ops ↔ Undisturbed authBackoffDelay ops := by
  unfold Undisturbed
  rw [guarded_iff_split]
  constructor
  · rintro henf before op after hops c rfl
    by_contra hlocked
    exact not_rejects _ _ c (henf before c after hops (by simpa using hlocked))
  · intro hnone before c after hops hlocked
    rw [hnone before (.accept c) after hops c rfl] at hlocked
    exact absurd hlocked Bool.false_ne_true

/-! ### A burst of failures -/

/-- A connection of 10.0.0.9 from a port, at an instant, whose token is refused a millisecond
    later. -/
def attempt (port : Bytes) (now : ℤ) : List Op :=
  [.accept ⟨[49, 48, 46, 48, 46, 48, 46, 57], port, now⟩, .finish 0 (now + 1000000) .authError]

def burst : List Op :=
  [attempt [49] 1000000000, attempt [50] 2000000000, attempt [51] 3000000000,
    attempt [52] 4000000000, attempt [53] 5000000000].flatten

def sixth : Conn := ⟨[49, 48, 46, 48, 46, 48, 46, 57], [54], 6000000000⟩

instance (authBackoffDelay : ℤ) (s : State) (c : Conn) : Decidable (Rejects authBackoffDelay s c) :=
  inferInstanceAs (Decidable (_ = _))

theorem sixth_attempt_served :
    lockedOut 100 (run (step 100) {} burst).finished sixth = true ∧
      ¬ Rejects 100 (run (step 100) {} burst) sixth :=
  ⟨by decide +kernel, by decide +kernel⟩

end Momo.AuthGate

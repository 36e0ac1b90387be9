import Mathlib

/-! @momo src/p2p/metadata_ring.go | scheme:interleaving

    The lock of the metadata ring. A call is the list of the lock operations it still has to do;
    `Lock` is two of them, since a writer announces itself and then waits for the readers. Who holds
    the lock is read off the lists. `Replicas` calls `Lookup` with its own read lock held: a writer
    that announces itself in between waits for the outer lock and holds up the inner one. -/

namespace Momo.RingLocks

inductive LockOp
  | rLock
  | rUnlock
  | lock
  | acquire
  | unlock
  deriving DecidableEq

open LockOp

inductive RingCall
  | lookup
  | replicas
  | updateNodes
  | nodeCount

/-- What `Replicas` has left once it holds its own read lock. -/
def nested : List LockOp := [rLock, rUnlock] ++ [rUnlock]

def RingCall.program : RingCall → List LockOp
  | lookup => [rLock, rUnlock]
  | replicas => rLock :: nested
  | updateNodes => [lock, acquire, unlock]
  | nodeCount => [rLock, rUnlock]

abbrev Reads (rest : List LockOp) : Prop := rest.count rLock < rest.count rUnlock

abbrev Waits (rest : List LockOp) : Prop := acquire ∈ rest ∧ lock ∉ rest

abbrev Writes (rest : List LockOp) : Prop := unlock ∈ rest ∧ acquire ∉ rest

variable {ι : Type} [DecidableEq ι]

/-- `sync.RWMutex`: a writer waits for the readers inside, and a reader for every writer that has
    announced itself. -/
def Ready (s : ι → List LockOp) : LockOp → Prop
  | rLock => ∀ j, ¬ Waits (s j) ∧ ¬ Writes (s j)
  | acquire => ∀ j, ¬ Reads (s j) ∧ ¬ Writes (s j)
  | rUnlock | lock | unlock => True

def Step (s : ι → List LockOp) (i : ι) (s' : ι → List LockOp) : Prop :=
  ∃ op rest, s i = op :: rest ∧ Ready s op ∧ s' = Function.update s i rest

/-- The states of the interleavings whose steps all meet `ok`. -/
inductive Reached (ok : (ι → List LockOp) → ι → Prop) (s₀ : ι → List LockOp) :
    (ι → List LockOp) → Prop
  | start : Reached ok s₀ s₀
  | step {s s' : ι → List LockOp} {i : ι} : Reached ok s₀ s → ok s i → Step s i s' → Reached ok s₀ s'

/-- No writer announces itself while a `Replicas` is between its two read locks. -/
def Unnested (s : ι → List LockOp) (i : ι) : Prop := (s i).head? = some lock → ∀ j, s j ≠ nested

def phases : List (List LockOp) :=
  [[], [rUnlock], [rLock, rUnlock], [rUnlock, rUnlock], nested, rLock :: nested, [unlock],
    [acquire, unlock], [lock, acquire, unlock]]

structure Inv (s : ι → List LockOp) : Prop where
  phase : ∀ i, s i ∈ phases
  apart : ∀ i j, Waits (s i) ∨ Writes (s i) → s j ≠ nested

/-- A call becomes a writer or nested only by an operation that the others have to let it do. -/
theorem phases_step : ∀ p ∈ phases, p.tail ∈ phases ∧
    (Waits p.tail ∨ Writes p.tail → p.head? = some lock ∨ Waits p) ∧
    (p.tail = nested → p.head? = some rLock) := by
  decide

theorem phases_head : ∀ p ∈ phases, (Writes p → p.head? = some unlock) ∧
    (Reads p → p ≠ nested → p.head? = some rUnlock) ∧ (p.head? = some acquire → Waits p) ∧
    (Waits p → p.head? = some acquire) := by
  decide

variable {s s' : ι → List LockOp} {i : ι}

theorem Inv.step (hi : Inv s) (hok : Unnested s i) (h : Step s i s') : Inv s' := by
  obtain ⟨op, rest, hs, hready, rfl⟩ := h
  obtain ⟨hrest, hwriter, hnested⟩ := phases_step (s i) (hi.phase i)
  simp only [hs, List.tail_cons, List.head?_cons, Option.some.injEq] at hrest hwriter hnested
  refine ⟨fun j => ?_, fun j k hj => ?_⟩
  · rcases eq_or_ne j i with rfl | hji
    · rwa [Function.update_self]
    · rw [Function.update_of_ne hji]
      exact hi.phase j
  -- every writer after the step was one before it, or announces itself now
  have hbefore : op = lock ∨ ∃ j, Waits (s j) ∨ Writes (s j) := by
    rcases eq_or_ne j i with rfl | hji
    · rw [Function.update_self] at hj
      rcases hwriter hj with h | h
      · exact .inl h
      · exact .inr ⟨j, .inl (hs ▸ h)⟩
    · rw [Function.update_of_ne hji] at hj
      exact .inr ⟨j, hj⟩
  have hold : ∀ k, s k ≠ nested := by
    rcases hbefore with rfl | ⟨j, hj⟩
    · exact hok (by rw [hs]; rfl)
    · exact fun k => hi.apart j k hj
  rcases eq_or_ne k i with rfl | hki
  · rw [Function.update_self]
    intro h
    obtain rfl := hnested h
    obtain h | ⟨j, h⟩ := hbefore
    · cases h
    · exact h.elim (hready j).1 (hready j).2
  · rw [Function.update_of_ne hki]
    exact hold k

theorem Inv.steps (hi : Inv s) (hleft : ∃ i, s i ≠ []) : ∃ i s', Step s i s' := by
  have hstep : ∀ i op, (s i).head? = some op → Ready s op → ∃ i s', Step s i s' :=
    fun i op hop hready => ⟨i, _, op, (s i).tail, List.eq_cons_of_mem_head? hop, hready, rfl⟩
  by_cases hwrites : ∃ i, Writes (s i)
  · obtain ⟨i, h⟩ := hwrites
    exact hstep i unlock ((phases_head _ (hi.phase i)).1 h) trivial
  by_cases hwaits : ∃ i, Waits (s i)
  · obtain ⟨i, h⟩ := hwaits
    by_cases hreads : ∃ j, Reads (s j)
    · obtain ⟨j, hj⟩ := hreads
      exact hstep j rUnlock ((phases_head _ (hi.phase j)).2.1 hj (hi.apart i j (.inl h))) trivial
    · exact hstep i acquire ((phases_head _ (hi.phase i)).2.2.2 h)
        fun j => ⟨fun hj => hreads ⟨j, hj⟩, fun hj => hwrites ⟨j, hj⟩⟩
  · obtain ⟨i, hne⟩ := hleft
    obtain ⟨op, rest, hs⟩ := List.exists_cons_of_ne_nil hne
    have hop : (s i).head? = some op := by rw [hs]; rfl
    refine hstep i op hop ?_
    cases op with
    | rLock => exact fun j => ⟨fun hj => hwaits ⟨j, hj⟩, fun hj => hwrites ⟨j, hj⟩⟩
    | acquire => exact absurd ⟨i, (phases_head _ (hi.phase i)).2.2.1 hop⟩ hwaits
    | rUnlock | lock | unlock => trivial

/-- SAFETY: any calls, in any interleaving in which no writer announces itself while a `Replicas` is
    between its two read locks, never reach a state where a call is unfinished and none can step. -/
theorem calls_step_of_unnested (calls : ι → RingCall) {s : ι → List LockOp}
    (h : Reached Unnested (fun i => (calls i).program) s) (hleft : ∃ i, s i ≠ []) :
    ∃ i s', Step s i s' := by
  refine Inv.steps ?_ hleft
  clear hleft
  induction h with
  | start =>
    have hprogram : ∀ call : RingCall, call.program ∈ phases ∧ ¬ Waits call.program ∧
        ¬ Writes call.program := by
      rintro (_ | _ | _ | _) <;> decide
    exact ⟨fun i => (hprogram (calls i)).1, fun i _ h =>
      absurd h (not_or.mpr (hprogram (calls i)).2)⟩
  | step _ hok hstep ih => exact ih.step hok hstep

def updateBesideReplicas : Bool → RingCall
  | true => .updateNodes
  | false => .replicas

theorem announced_update_steps :
    ∃ s, Reached Unnested (fun b => (updateBesideReplicas b).program) s ∧ s true = [acquire, unlock] ∧
      ∃ i s', Step s i s' := by
  have h : Reached Unnested (fun b => (updateBesideReplicas b).program)
      (Function.update _ true [acquire, unlock]) :=
    .step .start (fun _ => by decide) ⟨lock, _, rfl, trivial, rfl⟩
  exact ⟨_, h, rfl, calls_step_of_unnested _ h ⟨true, by simp⟩⟩

theorem replicas_and_update_stuck :
    ∃ s, Reached (fun _ _ => True) (fun b => (updateBesideReplicas b).program) s ∧
      (∀ b, s b ≠ []) ∧ ¬ ∃ b s', Step s b s' := by
  have h : Reached (fun _ _ => True) (fun b => (updateBesideReplicas b).program)
      (Function.update _ false nested) :=
    .step .start trivial ⟨rLock, _, rfl, show ∀ _, _ by decide, rfl⟩
  refine ⟨_, h.step (i := true) trivial ⟨lock, [acquire, unlock], rfl, trivial, rfl⟩, by decide, ?_⟩
  rintro ⟨_ | _, s', op, rest, hs, hready, -⟩
  · cases hs
    exact (hready true).1 (by decide)
  · cases hs
    exact (hready false).1 (by decide)

end Momo.RingLocks

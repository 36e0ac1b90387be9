import Momo.Common.Base

/-! @momo src/metrics/metrics.go | scheme:controller loop over readings

    The loop of the metrics daemon. It walks an index over the configured replication modes, up when
    memory or CPU is above the upper threshold, down when both are below the lower one or when
    nothing has changed for the fallback interval, and pushes the mode at each new index. -/

namespace Momo.Metrics

def replicationNone : Int := 0

/-- The comparisons of `float64` percentages; nothing is assumed of them. -/
class Percent (F : Type) where
  ge : F → F → Bool
  lt : F → F → Bool

/-- What the loop reads of the configuration; the thresholds are the percentages it computes. -/
structure Config (F : Type) where
  polymorphicSystem : Bool
  interval : Int
  maxThreshPercent : F
  minThreshPercent : F
  fallbackDuration : Int
  replicationOrder : List Int
  replicationFactor : Int
  minimumDurabilityFactor : Int
  /-- `len(cfg.Daemons)`. -/
  clusterSize : Int

structure Tick (F : Type) where
  memory : Except Err F
  cpu : Except Err (List F)
  afterSwitch : Int
  now : Int
  afterFallback : Int

structure LoopState where
  currentIndex : Int
  start : Int
  pushed : List Int
  deriving DecidableEq

section Functions

variable {F : Type} [Percent F]

def checkMetricsAndSwap (tick : Tick F) (currentIndex : Int) (replicationOrder : List Int)
    (maxThreshPercent minThreshPercent : F) : Int × Bool :=
  let up : Int × Bool :=
    if currentIndex < replicationOrder.length - 1 then (currentIndex + 1, true)
    else (currentIndex, false)
  if currentIndex = -1 then (currentIndex, false)
  else
    match tick.memory with
    | .error _ => (currentIndex, false)
    | .ok memUsed =>
      -- the CPU is not asked when memory alone is above the threshold
      if Percent.ge memUsed maxThreshPercent then up
      else
        match tick.cpu with
        | .error _ | .ok [] => (currentIndex, false)
        | .ok (cpuUsed :: _) =>
          if Percent.ge cpuUsed maxThreshPercent then up
          else if Percent.lt memUsed minThreshPercent ∧ Percent.lt cpuUsed minThreshPercent then
            if 0 < currentIndex then (currentIndex - 1, true) else (currentIndex, false)
          else (currentIndex, false)

def effectiveModeDurability (mode replicationFactor clusterSize : Int) : Int :=
  if mode = replicationNone then 1
  else
    let clusterSize := if clusterSize < 1 then 1 else clusterSize
    if replicationFactor < clusterSize then replicationFactor else clusterSize

def modeAt (replicationOrder : List Int) (i : Int) : Option Int :=
  if i < 0 then none else replicationOrder[i.toNat]?

def shouldSwitchMode (minFloor : Int) (replicationOrder : List Int)
    (newIdx replicationFactor clusterSize : Int) : Bool :=
  if minFloor ≤ 0 then true
  else
    match modeAt replicationOrder newIdx with
    | some mode => minFloor ≤ effectiveModeDurability mode replicationFactor clusterSize
    | none => true

def push (cfg : Config F) (l : LoopState) (i : Int) (start : Int) : Option LoopState :=
  (modeAt cfg.replicationOrder i).map fun mode => ⟨i, start, l.pushed ++ [mode]⟩

/-- `shouldSwitchMode` for this configuration. -/
def maySwitch (cfg : Config F) (i : Int) : Bool :=
  shouldSwitchMode cfg.minimumDurabilityFactor cfg.replicationOrder i cfg.replicationFactor
    cfg.clusterSize

def onReadings (cfg : Config F) (l : LoopState) (tick : Tick F) : Option LoopState :=
  match checkMetricsAndSwap tick l.currentIndex cfg.replicationOrder cfg.maxThreshPercent
      cfg.minThreshPercent with
  | (newIndex, changed) =>
    if changed ∧ maySwitch cfg newIndex then push cfg l newIndex tick.afterSwitch else some l

def onFallback (cfg : Config F) (l : LoopState) (tick : Tick F) : Option LoopState :=
  if cfg.fallbackDuration < tick.now - l.start then
    if 0 < l.currentIndex then
      if maySwitch cfg (l.currentIndex - 1) then push cfg l (l.currentIndex - 1) tick.afterFallback
      else some { l with start := tick.afterFallback }
    else some l
  else some l

def onTick (cfg : Config F) (l : LoopState) (tick : Tick F) : Option LoopState :=
  (onReadings cfg l tick).bind fun l => onFallback cfg l tick

/-- `GetMetrics` until the context ends: the modes it pushes, `none` if it panics. -/
def getMetrics (cfg : Config F) (serverId start : Int) (ticks : List (Tick F)) :
    Option (List Int) :=
  if serverId ≠ 0 ∨ ¬ cfg.polymorphicSystem ∨ cfg.interval ≤ 0 then some []
  else do
    let l ← push cfg ⟨0, start, []⟩ 0 start
    let l ← ticks.foldlM (onTick cfg) l
    return l.pushed

end Functions

/-! ### The durability floor -/

section Floor

variable {F : Type} {cfg : Config F} {l l' : LoopState} {tick : Tick F} {i : Int}

def Meets (cfg : Config F) (mode : Int) : Prop :=
  cfg.minimumDurabilityFactor ≤
    effectiveModeDurability mode cfg.replicationFactor cfg.clusterSize

instance (cfg : Config F) (mode : Int) : Decidable (Meets cfg mode) :=
  inferInstanceAs (Decidable (_ ≤ _))

def Sensible (cfg : Config F) : Prop :=
  0 < cfg.minimumDurabilityFactor ∨ cfg.minimumDurabilityFactor ≤ cfg.replicationFactor

instance (cfg : Config F) : Decidable (Sensible cfg) := inferInstanceAs (Decidable (_ ∨ _))

def InRange (cfg : Config F) (i : Int) : Prop := 0 ≤ i ∧ i < cfg.replicationOrder.length

theorem modeAt_of_inRange (h : InRange cfg i) : ∃ mode, modeAt cfg.replicationOrder i = some mode := by
  obtain ⟨hlo, hhi⟩ := h
  exact ⟨_, by rw [modeAt, if_neg (by omega), List.getElem?_eq_getElem (by omega)]⟩

theorem meets_of_maySwitch (hcfg : Sensible cfg) {mode : Int}
    (hmode : modeAt cfg.replicationOrder i = some mode) (hmay : maySwitch cfg i = true) :
    Meets cfg mode := by
  unfold maySwitch shouldSwitchMode at hmay
  rw [hmode] at hmay
  by_cases hoff : cfg.minimumDurabilityFactor ≤ 0
  · -- a floor that is off is no more than one copy, nor than the replication factor
    have hfactor : cfg.minimumDurabilityFactor ≤ cfg.replicationFactor := by
      rcases hcfg with h | h
      · omega
      · exact h
    simp only [Meets, effectiveModeDurability]
    split_ifs <;> omega
  · rw [if_neg hoff] at hmay
    exact of_decide_eq_true hmay

/-- What holds of the loop in every round: the index is one of the order, and every mode pushed
    meets the floor. -/
structure Good (cfg : Config F) (l : LoopState) : Prop where
  index : InRange cfg l.currentIndex
  pushed : ∀ mode ∈ l.pushed, Meets cfg mode

theorem Good.push (hcfg : Sensible cfg) (hl : Good cfg l) (hi : InRange cfg i)
    (hmay : maySwitch cfg i = true) (start : Int) :
    ∃ l', push cfg l i start = some l' ∧ Good cfg l' := by
  obtain ⟨mode, hmode⟩ := modeAt_of_inRange hi
  refine ⟨⟨i, start, l.pushed ++ [mode]⟩, by rw [Metrics.push, hmode]; rfl, hi, fun m hm => ?_⟩
  rcases List.mem_append.mp hm with hm | hm
  · exact hl.pushed m hm
  · rw [List.mem_singleton.mp hm]
    exact meets_of_maySwitch hcfg hmode hmay

variable [Percent F]

theorem checkMetricsAndSwap_inRange (hi : InRange cfg i) :
    InRange cfg (checkMetricsAndSwap tick i cfg.replicationOrder cfg.maxThreshPercent
      cfg.minThreshPercent).1 := by
  obtain ⟨hlo, hhi⟩ := hi
  unfold checkMetricsAndSwap InRange
  repeat' split
  all_goals simp only
  all_goals omega

/-- Step: a round of the loop does not panic and keeps what holds. -/
theorem onTick_good (hcfg : Sensible cfg) (tick : Tick F) (hl : Good cfg l) :
    ∃ l', onTick cfg l tick = some l' ∧ Good cfg l' := by
  have hreadings : ∃ l₁, onReadings cfg l tick = some l₁ ∧ Good cfg l₁ := by
    unfold onReadings
    simp only
    split_ifs with hswitch
    · exact hl.push hcfg (checkMetricsAndSwap_inRange hl.index) hswitch.2 _
    · exact ⟨l, rfl, hl⟩
  obtain ⟨l₁, hl₁, hgood⟩ := hreadings
  rw [onTick, hl₁, Option.bind_some, onFallback]
  split_ifs with htimeout hpos hmay
  · obtain ⟨hlo, hhi⟩ := hgood.index
    exact hgood.push hcfg ⟨by omega, by omega⟩ hmay _
  · exact ⟨_, rfl, hgood.index, hgood.pushed⟩
  · exact ⟨l₁, rfl, hgood⟩
  · exact ⟨l₁, rfl, hgood⟩

theorem ticks_good (hcfg : Sensible cfg) (ticks : List (Tick F)) (hl : Good cfg l) :
    ∃ l', ticks.foldlM (onTick cfg) l = some l' ∧ Good cfg l' := by
  induction ticks generalizing l with
  | nil => exact ⟨l, rfl, hl⟩
  | cons tick ticks ih =>
    obtain ⟨l₁, hl₁, hgood⟩ := onTick_good hcfg tick hl
    rw [List.foldlM_cons, hl₁]
    exact ih hgood

theorem onTick_pushed (h : onTick cfg l tick = some l') : l.pushed <+: l'.pushed := by
  have hpush : ∀ {l l' : LoopState} {i start : Int}, push cfg l i start = some l' → l.pushed <+: l'.pushed := by
    intro l l' i start h
    obtain ⟨mode, -, rfl⟩ := Option.map_eq_some_iff.mp h
    exact List.prefix_append _ _
  obtain ⟨l₁, h₁, h₂⟩ := Option.bind_eq_some_iff.mp h
  have hreadings : l.pushed <+: l₁.pushed := by
    unfold onReadings at h₁
    simp only at h₁
    split_ifs at h₁
    · exact hpush h₁
    · cases h₁
      exact List.prefix_rfl
  refine hreadings.trans ?_
  unfold onFallback at h₂
  split_ifs at h₂
  · exact hpush h₂
  all_goals
    cases h₂
    exact List.prefix_rfl

theorem ticks_pushed {ticks : List (Tick F)} (h : ticks.foldlM (onTick cfg) l = some l') :
    l.pushed <+: l'.pushed := by
  induction ticks generalizing l with
  | nil =>
    cases h
    exact List.prefix_rfl
  | cons tick ticks ih =>
    rw [List.foldlM_cons] at h
    obtain ⟨l₁, h₁, hrest⟩ := Option.bind_eq_some_iff.mp h
    exact (onTick_pushed h₁).trans (ih hrest)

def Started (cfg : Config F) (serverId : Int) : Prop :=
  serverId = 0 ∧ cfg.polymorphicSystem = true ∧ 0 < cfg.interval

def FirstMeets (cfg : Config F) : Prop := ∀ mode ∈ cfg.replicationOrder.head?, Meets cfg mode

omit [Percent F] in
theorem push_first {m : Int} {ms : List Int} (h : cfg.replicationOrder = m :: ms) (start : Int) :
    push cfg ⟨0, start, []⟩ 0 start = some ⟨0, start, [m]⟩ := by
  unfold push modeAt
  rw [h]
  rfl

/-- CORRECT: a controller whose first mode meets the floor never pushes one that does not; one whose
    first mode does not meet it pushes that one. -/
theorem pushed_modes_meet_floor (cfg : Config F) (hsome : ∃ m ∈ cfg.replicationOrder, Meets cfg m)
    (serverId start : Int) (ticks : List (Tick F)) :
    (Sensible cfg → FirstMeets cfg → ∃ pushed, getMetrics cfg serverId start ticks = some pushed ∧
      ∀ mode ∈ pushed, Meets cfg mode) ∧
    (Started cfg serverId → ∀ pushed, getMetrics cfg serverId start ticks = some pushed →
      (∀ mode ∈ pushed, Meets cfg mode) → FirstMeets cfg) := by
  obtain ⟨m, ms, horder⟩ : ∃ m ms, cfg.replicationOrder = m :: ms := by
    obtain ⟨m, hm, -⟩ := hsome
    exact List.exists_cons_of_ne_nil (List.ne_nil_of_mem hm)
  have hfirst : FirstMeets cfg ↔ Meets cfg m := by simp [FirstMeets, horder]
  rw [hfirst, getMetrics]
  refine ⟨fun hcfg hm => ?_, fun hstarted pushed hrun hall => ?_⟩
  · split_ifs with hoff
    · exact ⟨[], rfl, by simp⟩
    · have hgood : Good cfg ⟨0, start, [m]⟩ :=
        ⟨⟨le_refl _, by simp [horder]⟩, fun mode hmode => List.mem_singleton.mp hmode ▸ hm⟩
      obtain ⟨l', hrun, hgood'⟩ := ticks_good hcfg ticks hgood
      refine ⟨l'.pushed, ?_, hgood'.pushed⟩
      rw [push_first horder]
      simp only [Option.bind_eq_bind, Option.bind_some, hrun]
      rfl
  · obtain ⟨hid, hpoly, hinterval⟩ := hstarted
    rw [if_neg (by simp [hid, hpoly, hinterval]), push_first horder] at hrun
    simp only [Option.bind_eq_bind, Option.bind_some] at hrun
    obtain ⟨l', hticks, hpushed⟩ := Option.bind_eq_some_iff.mp hrun
    cases hpushed
    exact hall m ((ticks_pushed hticks).subset (List.mem_singleton_self m))

end Floor

/-! ### Concrete runs -/

instance wholePercent : Percent ℕ where
  ge x y := y ≤ x
  lt x y := x < y

def floorConfig (order : List Int) : Config ℕ where
  polymorphicSystem := true
  interval := 1000
  maxThreshPercent := 80
  minThreshPercent := 20
  fallbackDuration := 5000
  replicationOrder := order
  replicationFactor := 3
  minimumDurabilityFactor := 2
  clusterSize := 3

def floorTicks : List (Tick ℕ) :=
  [⟨.ok 90, .ok [], 1, 1, 1⟩, ⟨.error (.text "no meminfo"), .ok [5], 2, 2, 2⟩,
    ⟨.ok 90, .ok [], 3, 3, 3⟩, ⟨.ok 10, .ok [5], 4, 4, 4⟩]

theorem floor_holds_from_replicated_start :
    getMetrics (floorConfig [3, 1, 0]) 0 0 floorTicks = some [3, 1, 3] ∧
      ∃ pushed, getMetrics (floorConfig [3, 1, 0]) 0 0 floorTicks = some pushed ∧
        ∀ mode ∈ pushed, Meets (floorConfig [3, 1, 0]) mode :=
  ⟨by decide, (pushed_modes_meet_floor (floorConfig [3, 1, 0]) ⟨3, by decide, by decide⟩ 0 0
    floorTicks).1 (by decide) (by simp [FirstMeets, floorConfig]; decide)⟩

theorem first_push_below_floor :
    Meets (floorConfig [0, 3]) 3 ∧ getMetrics (floorConfig [0, 3]) 0 0 [] = some [0] ∧
      ¬ Meets (floorConfig [0, 3]) 0 := by
  decide

end Momo.Metrics

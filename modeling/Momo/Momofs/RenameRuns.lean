import Momo.Momofs.Rename

/-! @momo src/momofs/momofs.go | scheme:invariant over runs with renames

    Requests and renames from a fresh file system on, each state beside the tree it should show.
    `Reached` says what counts as a step: a rename that returns nil where `Movable` held, and one that
    fails where `Safe` and `Room` held and the store did not fail. Along such runs the tree is shown
    in every state (`Reached.shows`), so a movable rename moves the subtree and a safe one that fails
    changes nothing. -/

namespace Momo.Momofs

open ManifestJSON

/-! ### What a request does is determined -/

theorem Effect.unique {now : Int} {t t₁ t₂ : Tree} {r : Request} (h₁ : Effect now t r t₁)
    (h₂ : Effect now t r t₂) : t₁ = t₂ := by
  have hlast : ∀ {p q : Path} {k j : Bytes}, p ++ [k] = q ++ [j] → p = q ∧ k = j := fun h => by
    simpa using List.append_inj' h rfl
  refine PathTree.ext ?_
  cases h₁ with
  | reads hr =>
    cases h₂ with
    | reads _ => rfl
    | mkdir | create | remove | link | setAttr => exact hr.elim
  | @mkdir p k mode hp hnew =>
    generalize hr : Request.mkdir (p ++ [k]) mode = r at h₂
    cases h₂ with
    | reads h => subst hr; exact h.elim
    | mkdir =>
      injection hr with hpath hmode
      obtain ⟨rfl, rfl⟩ := hlast hpath
      subst hmode
      rfl
    | create | remove | link | setAttr => cases hr
  | @create p k mode content hp hfile hnot hwhole =>
    generalize hr : Request.create (p ++ [k]) mode content = r at h₂
    cases h₂ with
    | reads h => subst hr; exact h.elim
    | create =>
      injection hr with hpath hmode hcontent
      obtain ⟨rfl, rfl⟩ := hlast hpath
      subst hmode hcontent
      rfl
    | mkdir | remove | link | setAttr => cases hr
  | remove hp hthere hleaf =>
    cases h₂ with
    | reads h => exact h.elim
    | remove => rfl
  | @link src p k attr c hsrc hp hnew hbelow =>
    generalize hr : Request.link src (p ++ [k]) = r at h₂
    cases h₂ with
    | reads h => subst hr; exact h.elim
    | link hsrc' =>
      injection hr with hpath hpath'
      obtain ⟨rfl, rfl⟩ := hlast hpath'
      subst hpath
      rw [hsrc] at hsrc'
      cases hsrc'
      rfl
    | mkdir | create | remove | setAttr => cases hr
  | @setAttr p k mode uid gid mtime v hp hv hkind =>
    generalize hr : Request.setAttr (p ++ [k]) mode uid gid mtime = r at h₂
    cases h₂ with
    | reads h => subst hr; exact h.elim
    | setAttr hp' hv' =>
      injection hr with hpath h₁ h₂ h₃ h₄
      obtain ⟨rfl, rfl⟩ := hlast hpath
      subst h₁ h₂ h₃ h₄
      rw [hv] at hv'
      cases hv'
      rfl
    | mkdir | create | remove | link => cases hr

/-! ### Runs -/

section Runs

variable [Sha256] [ManifestJSON] {β : Type} [BlobStore β]

def execRename (now : Int) (fuel : ℕ) (f : FS β) (src dst : Path) :
    Option (Except Err Unit × FS β) :=
  rename now fuel (render src) (render dst) { f with log := [] }

/-- A rename on paths of `P`, the new ones included, that hands over contents of `U`. -/
structure Sane (U : Bytes → Prop) (P : Path → Prop) (t : Tree) (src dst : Path) (f' : FS β) : Prop where
  source : P src
  target : P dst
  below : ∀ r, t.node (src ++ r) ≠ none → P (dst ++ r)
  known : ∀ x ∈ f'.log, x.Known U

inductive Reached (U : Bytes → Prop) (P : Path → Prop) (f₀ : FS β) (t₀ : Tree) : FS β → Tree → Prop
  | start : Reached U P f₀ t₀ f₀ t₀
  | served {f f' : FS β} {t t' : Tree} {now : Int} {r : Request} (h : Reached U P f₀ t₀ f t)
      (hfits : Fits U P f (now, r)) (hexec : exec now f r = (.ok (), f'))
      (heffect : Effect now t r t') : Reached U P f₀ t₀ f' t'
  | failed {f f' : FS β} {t : Tree} {now : Int} {r : Request} {e : Err} (h : Reached U P f₀ t₀ f t)
      (hfits : Fits U P f (now, r)) (hexec : exec now f r = (.error e, f')) : Reached U P f₀ t₀ f' t
  | renamed {f f' : FS β} {t t' : Tree} {now : Int} {fuel : ℕ} {src dst : Path}
      (h : Reached U P f₀ t₀ f t) (hsane : Sane U P t src dst f') (hmovable : Movable t src dst)
      (hrename : execRename now fuel f src dst = some (.ok (), f'))
      (htree : t'.node = PathTree.moved t.node src dst) : Reached U P f₀ t₀ f' t'
  | refused {f f' : FS β} {t : Tree} {now : Int} {fuel : ℕ} {src dst : Path} {e : Err}
      (h : Reached U P f₀ t₀ f t) (hsane : Sane U P t src dst f') (hsafe : Safe t src dst)
      (hroom : Room { f with log := [] } (render src) (render dst))
      (hrename : execRename now fuel f src dst = some (.error e, f'))
      (hstore : ∀ e, .failed e ∉ f'.log) : Reached U P f₀ t₀ f' t

variable [MapBackend β] {U : Bytes → Prop} {P : Path → Prop} {f f' : FS β} {t : Tree} {src dst : Path}
  {now : Int} {fuel : ℕ}

theorem Shows.renamed (hU : Distinct U) (hP : Scope P) (h : Shows U P f t)
    (hsane : Sane U P t src dst f') (hmovable : Movable t src dst)
    (hrename : execRename now fuel f src dst = some (.ok (), f')) :
    ∃ t' : Tree, t'.node = PathTree.moved t.node src dst ∧ Shows U P f' t' := by
  obtain ⟨a, hs, hl⟩ : Shows U P { f with log := [] } t := h.frame rfl rfl
  exact rename_ends hU hP hs hl hsane.source hsane.target hsane.below (fun _ => hmovable) hrename
    hsane.known

theorem Shows.refused (hU : Distinct U) (hP : Scope P) (h : Shows U P f t)
    (hsane : Sane U P t src dst f') (hsafe : Safe t src dst)
    (hroom : Room { f with log := [] } (render src) (render dst)) {e : Err}
    (hrename : execRename now fuel f src dst = some (.error e, f')) (hstore : ∀ e, .failed e ∉ f'.log) :
    Shows U P f' t := by
  obtain ⟨a, hs, hl⟩ : Shows U P { f with log := [] } t := h.frame rfl rfl
  have hends := rename_ends hU hP hs hl hsane.source hsane.target hsane.below
    (fun hthere => hsafe.movable hthere) hrename hsane.known
  rcases hends ⟨hsafe, hroom⟩ with hshows | ⟨e', he'⟩
  · exact hshows
  · exact absurd he' (hstore e')

theorem Reached.shows (hU : Distinct U) (hP : Scope P) {f₀ : FS β} {t₀ : Tree}
    (h₀ : Shows U P f₀ t₀) (h : Reached U P f₀ t₀ f t) : Shows U P f t := by
  induction h with
  | start => exact h₀
  | served _ hfits hexec heffect ih =>
    have hkept := exec_kept hU hP ih _ hfits.1 hfits.2
    rw [hexec] at hkept
    obtain ⟨t', heffect', hshows⟩ := hkept
    rwa [heffect.unique heffect']
  | failed _ hfits hexec ih =>
    have hkept := exec_kept hU hP ih _ hfits.1 hfits.2
    rwa [hexec] at hkept
  | renamed _ hsane hmovable hrename htree ih =>
    obtain ⟨t', htree', hshows⟩ := ih.renamed hU hP hsane hmovable hrename
    rwa [PathTree.ext (htree.trans htree'.symm)]
  | refused _ hsane hsafe hroom hrename hstore ih =>
    exact ih.refused hU hP hsane hsafe hroom hrename hstore

/-- CORRECT: a movable rename that returns nil moves the subtree, in every state reached. -/
theorem movable_rename_moves (hU : Distinct U) (hP : Scope P) {cfg : CASConfig}
    (hb : CASStore.BarrierOk cfg) (b : β) (rootMode : UInt32)
    (h : Reached U P (mounted cfg b rootMode) (emptyTree rootMode) f t)
    (hsane : Sane U P t src dst f') (hmovable : Movable t src dst)
    (hrename : execRename now fuel f src dst = some (.ok (), f')) :
    Agrees P f t ∧ ∃ t' : Tree, t'.node = PathTree.moved t.node src dst ∧ Agrees P f' t' := by
  have hshows := h.shows hU hP (shows_mounted hP hb b rootMode)
  obtain ⟨t', htree, hshows'⟩ := hshows.renamed hU hP hsane hmovable hrename
  exact ⟨hshows.agrees hU hP, t', htree, hshows'.agrees hU hP⟩

/-- CORRECT: a safe rename that fails while the store does not leaves the tree as it was. -/
theorem safe_rename_fails_clean (hU : Distinct U) (hP : Scope P) {cfg : CASConfig}
    (hb : CASStore.BarrierOk cfg) (b : β) (rootMode : UInt32)
    (h : Reached U P (mounted cfg b rootMode) (emptyTree rootMode) f t)
    (hsane : Sane U P t src dst f') (hsafe : Safe t src dst)
    (hroom : Room { f with log := [] } (render src) (render dst)) {e : Err}
    (hrename : execRename now fuel f src dst = some (.error e, f')) (hstore : ∀ e, .failed e ∉ f'.log) :
    Agrees P f t ∧ Agrees P f' t := by
  have hshows := h.shows hU hP (shows_mounted hP hb b rootMode)
  exact ⟨hshows.agrees hU hP, (hshows.refused hU hP hsane hsafe hroom hrename hstore).agrees hU hP⟩

theorem Reached.run (hU : Distinct U) (hP : Scope P) {f₀ : FS β} {t₀ : Tree} (h₀ : Shows U P f₀ t₀)
    (h : Reached U P f₀ t₀ f t) {rs : List (Int × Request)} (hfits : Guarded serve (Fits U P) f rs) :
    ∃ t', Reached U P f₀ t₀ (Momo.run serve f rs) t' := by
  induction rs generalizing f t with
  | nil => exact ⟨t, h⟩
  | cons x rs ih =>
    obtain ⟨now, r⟩ := x
    have hkept := exec_kept hU hP (h.shows hU hP h₀) now hfits.1.1 hfits.1.2
    rcases hexec : exec now f r with ⟨res, f'⟩
    have hserve : serve f (now, r) = f' := congrArg Prod.snd hexec
    rw [hexec] at hkept
    have hrest := hfits.2
    rw [hserve] at hrest
    rw [run_cons, hserve]
    cases res with
    | ok u =>
      obtain ⟨t₁, heffect, -⟩ := hkept
      exact ih (.served h hfits.1 hexec heffect) hrest
    | error e => exact ih (.failed h hfits.1 hexec) hrest

omit [MapBackend β] in
theorem Agrees.dirAt_iff (h : Agrees P f t) {p : Path} {k : Bytes} (hp : P (p ++ [k])) :
    DirAt t.node (p ++ [k]) ↔
      (Momofs.lookup 0 (render (p ++ [k])) f).1.toOption.map Entry.type = some .dir := by
  rw [h.lookup 0 p k hp]
  simp [DirAt, type_eq_dir_iff]

end Runs

/-! ### Concrete runs -/

section Decide

variable [Sha256] [ManifestJSON] {β : Type} [BlobStore β]

instance (f : FS β) (src dst : Bytes) : Decidable (Room f src dst) :=
  inferInstanceAs (Decidable (∀ sm ∈ _, ∀ dm ∈ _, ∀ e ∈ _, _))

end Decide

section Concrete

local instance renameSha : Sha256 := polySha

local instance renameJSON : ManifestJSON := sampleManifestJSON

def sentBytes (log : List Sent) : List Bytes :=
  log.filterMap fun s => match s with
    | .content c => some c
    | .manifest data => some data
    | .failed _ => none

def renameSetup : List (Int × Request) :=
  [(1, .mkdir [[100]] 7), (2, .create [[100], [120]] 6 ⟨[104, 105], none⟩), (3, .mkdir [[101]] 7),
    (4, .create [[102]] 6 ⟨[104], none⟩)]

def renameStart : FS LocalBlobStore := run serve freshFS renameSetup

def opensWith (p : Path) (c : Bytes) (f : FS LocalBlobStore) : Bool :=
  match (openFile 9 (render p) f).1 with
  | .ok (rc, _) => rc.readAll = (c, none)
  | .error _ => false

def renameThen (src dst : Path) (check : FS LocalBlobStore → Bool) : Option (Bool × Bool) :=
  (execRename 5 9 renameStart src dst).map fun r => (r.1.isOk, check r.2)

def renamePaths : List Path :=
  [[], [[100]], [[100], [120]], [[101]], [[102]], [[101], [110]], [[101], [110], [120]]]

def renameBytes : List Bytes :=
  handed freshFS renameSetup ++
    (((execRename 5 9 renameStart [[100]] [[101], [110]]).map fun r => sentBytes r.2.log).getD [])

theorem renamePaths_scope : Scope (· ∈ renamePaths) :=
  scope_of_list (by decide +kernel) (by decide +kernel) (by decide +kernel) (by decide +kernel)
    (by decide +kernel)

def hasFailed (log : List Sent) : Bool :=
  log.any fun x => match x with
    | .failed _ => true
    | _ => false

theorem renameStart_facts :
    (∀ c ∈ renameBytes, ∀ c' ∈ renameBytes, hashBytes c = hashBytes c' → c = c') ∧
      Guarded serve (Fits (· ∈ renameBytes) (· ∈ renamePaths)) freshFS renameSetup ∧
      opensWith [[102]] [104] renameStart = true ∧ opensWith [[100], [120]] [104, 105] renameStart = true ∧
      (lookup 0 (render [[101], [110]]) renameStart).1.toOption = none ∧
      (lookup 0 (render [[102]]) renameStart).1.toOption.map Entry.type = some .file := by
  decide +kernel

theorem rename_outcomes :
    (∀ r ∈ execRename 5 9 renameStart [[100]] [[101], [110]],
        ∀ x ∈ r.2.log, x.Known (· ∈ renameBytes)) ∧
      (∀ r ∈ execRename 5 9 renameStart [[102]] [[101]], r.2.log = []) ∧
      renameThen [[100]] [[101], [110]] (fun _ => true) = some (true, true) ∧
      renameThen [[102]] [[101]] (fun _ => true) = some (false, true) ∧
      renameThen [[102]] [[102]] (opensWith [[102]] [104]) = some (true, false) ∧
      renameThen [[100]] [[100]] (opensWith [[100], [120]] [104, 105]) = some (true, false) ∧
      renameThen [[100]] [[101]] (opensWith [[101], [120]] [104, 105]) = some (true, false) ∧
      renameThen [[102]] [[103], [104]] (fun f => opensWith [[102]] [104] f || hasFailed f.log) =
        some (false, false) ∧
      renameThen [[100]] [[102]] (fun f => opensWith [[100], [120]] [104, 105] f || hasFailed f.log) =
        some (false, false) ∧
      renameThen [[100]] [[100], [103]]
        (fun f => opensWith [[100], [120]] [104, 105] f || hasFailed f.log) = some (false, false) := by
  decide +kernel

theorem renameBytes_distinct : Distinct (· ∈ renameBytes) :=
  fun c c' hc hc' => renameStart_facts.1 c hc c' hc'

theorem renameStart_reached : ∃ t, Reached (· ∈ renameBytes) (· ∈ renamePaths) freshFS
    (emptyTree 0o755) renameStart t ∧ Shows (· ∈ renameBytes) (· ∈ renamePaths) renameStart t := by
  have hshows : Shows (· ∈ renameBytes) (· ∈ renamePaths) freshFS (emptyTree 0o755) :=
    shows_mounted renamePaths_scope (by rintro commit ⟨⟩) ({} : LocalBlobStore) 0o755
  obtain ⟨t, ht⟩ := Reached.run renameBytes_distinct renamePaths_scope hshows .start
    renameStart_facts.2.1
  exact ⟨t, ht, ht.shows renameBytes_distinct renamePaths_scope hshows⟩

theorem execRename_of_renameThen {src dst : Path} {x y : Bool}
    (h : renameThen src dst (fun _ => x) = some (y, x)) :
    ∃ r f', execRename 5 9 renameStart src dst = some (r, f') ∧ r.isOk = y := by
  unfold renameThen at h
  obtain ⟨⟨r, f'⟩, hr, hy⟩ := Option.map_eq_some_iff.mp h
  exact ⟨r, f', hr, congrArg Prod.fst hy⟩

theorem directory_moved_below_another : ∃ t t' f',
    Reached (· ∈ renameBytes) (· ∈ renamePaths) freshFS (emptyTree 0o755) renameStart t ∧
      execRename 5 9 renameStart [[100]] [[101], [110]] = some (.ok (), f') ∧
      t'.node = PathTree.moved t.node [[100]] [[101], [110]] ∧ Agrees (· ∈ renamePaths) f' t' := by
  obtain ⟨t, ht, hshows⟩ := renameStart_reached
  have hagrees := hshows.agrees renameBytes_distinct renamePaths_scope
  obtain ⟨r, f', hrename, hok⟩ := execRename_of_renameThen rename_outcomes.2.2.1
  obtain _ | _ := r
  · cases hok
  have hpaths : ∀ x ∈ renamePaths, [[100]] <+: x → [[101], [110]] ++ x.drop 1 ∈ renamePaths := by
    decide
  have hsane : Sane (· ∈ renameBytes) (· ∈ renamePaths) t [[100]] [[101], [110]] f' := by
    refine ⟨by decide, by decide, fun r hr => ?_, rename_outcomes.1 _ hrename⟩
    obtain ⟨a, -, hl⟩ := hshows
    exact hpaths _ (hl.scope _ hr).1 (List.prefix_append _ _)
  have hmovable : Movable t [[100]] [[101], [110]] := by
    refine ⟨by decide, fun h => ?_⟩
    have hlook := (hagrees.dirAt_iff (p := [[101]]) (k := [110]) (by decide)).mp h.2
    have hnone : (lookup 0 (render [[101], [110]]) renameStart).1.toOption = none :=
      renameStart_facts.2.2.2.2.1
    simp only [List.singleton_append, hnone] at hlook
    cases hlook
  obtain ⟨-, t', htree, hagrees'⟩ := movable_rename_moves renameBytes_distinct renamePaths_scope
    (by rintro commit ⟨⟩) ({} : LocalBlobStore) 0o755 ht hsane hmovable hrename
  exact ⟨t, t', f', ht, hrename, htree, hagrees'⟩

theorem renames_that_lose_a_file :
    Guarded serve (Fits (· ∈ renameBytes) (· ∈ renamePaths)) freshFS renameSetup ∧
      opensWith [[102]] [104] renameStart = true ∧ opensWith [[100], [120]] [104, 105] renameStart = true ∧
      renameThen [[102]] [[102]] (opensWith [[102]] [104]) = some (true, false) ∧
      renameThen [[100]] [[100]] (opensWith [[100], [120]] [104, 105]) = some (true, false) ∧
      renameThen [[100]] [[101]] (opensWith [[101], [120]] [104, 105]) = some (true, false) := by
  obtain ⟨-, hfits, hfile, hbelow, -⟩ := renameStart_facts
  obtain ⟨-, -, -, -, hself, hdirSelf, hdirDir, -⟩ := rename_outcomes
  exact ⟨hfits, hfile, hbelow, hself, hdirSelf, hdirDir⟩

theorem file_onto_directory_refused : ∃ t f' e,
    Reached (· ∈ renameBytes) (· ∈ renamePaths) freshFS (emptyTree 0o755) renameStart t ∧
      execRename 5 9 renameStart [[102]] [[101]] = some (.error e, f') ∧
      Agrees (· ∈ renamePaths) renameStart t ∧ Agrees (· ∈ renamePaths) f' t := by
  obtain ⟨t, ht, hshows⟩ := renameStart_reached
  have hagrees := hshows.agrees renameBytes_distinct renamePaths_scope
  obtain ⟨r, f', hrename, hok⟩ := execRename_of_renameThen rename_outcomes.2.2.2.1
  obtain e | _ := r
  swap
  · cases hok
  have hlog : f'.log = [] := rename_outcomes.2.1 _ hrename
  have hfile : ¬ DirAt t.node [[102]] := by
    intro h
    have hlook := (hagrees.dirAt_iff (p := []) (k := [102]) (by decide)).mp h
    have hkind : (lookup 0 (render [[102]]) renameStart).1.toOption.map Entry.type = some .file :=
      renameStart_facts.2.2.2.2.2
    rw [List.nil_append, hkind] at hlook
    cases hlook
  have hsane : Sane (· ∈ renameBytes) (· ∈ renamePaths) t [[102]] [[101]] f' := by
    refine ⟨by decide, by decide, fun r hr => ?_, by rw [hlog]; simp⟩
    by_cases hnil : r = []
    · subst hnil
      decide
    · exact absurd (t.none_below (leaf_of_not_dirAt hfile) hnil) hr
  have hsafe : Safe t [[102]] [[101]] := by
    obtain ⟨a, -, hl⟩ := hshows
    exact fun _ => ⟨by decide, hl.root, fun h => absurd h hfile⟩
  obtain ⟨-, hagrees'⟩ := safe_rename_fails_clean renameBytes_distinct renamePaths_scope
    (by rintro commit ⟨⟩) ({} : LocalBlobStore) 0o755 ht hsane hsafe (by decide +kernel) hrename
    (by rw [hlog]; simp)
  exact ⟨t, f', e, ht, hrename, hagrees, hagrees'⟩

/-- A file to a missing directory, a directory onto a file and one into itself: an error although the
    store did not fail, and the file no longer opens. -/
theorem failed_renames_that_lose_a_file :
    Guarded serve (Fits (· ∈ renameBytes) (· ∈ renamePaths)) freshFS renameSetup ∧
      opensWith [[102]] [104] renameStart = true ∧ opensWith [[100], [120]] [104, 105] renameStart = true ∧
      renameThen [[102]] [[103], [104]] (fun f => opensWith [[102]] [104] f || hasFailed f.log) =
        some (false, false) ∧
      renameThen [[100]] [[102]] (fun f => opensWith [[100], [120]] [104, 105] f || hasFailed f.log) =
        some (false, false) ∧
      renameThen [[100]] [[100], [103]]
        (fun f => opensWith [[100], [120]] [104, 105] f || hasFailed f.log) = some (false, false) := by
  obtain ⟨-, hfits, hfile, hbelow, -⟩ := renameStart_facts
  exact ⟨hfits, hfile, hbelow, rename_outcomes.2.2.2.2.2.2.2⟩

end Concrete

end Momo.Momofs

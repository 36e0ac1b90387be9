import Momo.Transport.SigV4

/-! @momo src/transport/sigv4.go | scheme:unambiguous text

    What a signature of version 4 binds. The canonical request is a concatenation of pieces an
    attacker chooses; it can be read back because each separator is missing from the piece before it
    or from the piece after it. -/

namespace Momo.SigV4

/-! ### Escaped text -/

theorem unreserved_upperHex : ∀ n : Fin 16, unreserved (upperHex n) = true := by decide

theorem upperHex_injective : ∀ m n : Fin 16, upperHex m = upperHex n → m = n := by decide

variable {encodeSlash : Bool}

theorem mem_escapeByte {c b : UInt8} (h : b ∈ escapeByte encodeSlash c) :
    unreserved b = true ∨ (encodeSlash = false ∧ b = 47) ∨ b = 37 := by
  have hc := c.toNat_lt
  unfold escapeByte at h
  split_ifs at h with hkeep
  · rw [List.mem_singleton] at h
    subst h
    simpa [or_assoc] using Or.imp_right Or.inl (by simpa using hkeep)
  · simp only [List.mem_cons, List.not_mem_nil, or_false] at h
    rcases h with rfl | rfl | rfl
    · exact .inr (.inr rfl)
    · exact .inl (unreserved_upperHex ⟨c.toNat / 16, by omega⟩)
    · exact .inl (unreserved_upperHex ⟨c.toNat % 16, by omega⟩)

theorem notMem_escape {b : UInt8} (hb : unreserved b = false) (hslash : b ≠ 47) (hpercent : b ≠ 37)
    (s : Bytes) : b ∉ s.flatMap (escapeByte encodeSlash) := by
  intro h
  obtain ⟨c, -, hc⟩ := List.mem_flatMap.mp h
  rcases mem_escapeByte hc with h | h | h
  · rw [hb] at h
    cases h
  · exact hslash h.2
  · exact hpercent h

theorem escapeByte_append {c d : UInt8} {x y : Bytes}
    (h : escapeByte encodeSlash c ++ x = escapeByte encodeSlash d ++ y) : c = d ∧ x = y := by
  have hc := c.toNat_lt
  have hd := d.toNat_lt
  have hpercent : (unreserved 37 || (!encodeSlash && decide ((37 : UInt8) = 47))) = false := by
    simp [show unreserved 37 = false by decide]
  unfold escapeByte at h
  split_ifs at h with hkeep hkeep' hkeep'
  · exact List.cons.inj h
  · obtain ⟨rfl, -⟩ := List.cons.inj h
    rw [hpercent] at hkeep
    cases hkeep
  · obtain ⟨rfl, -⟩ := List.cons.inj h
    rw [hpercent] at hkeep'
    cases hkeep'
  · simp only [List.cons_append, List.nil_append, List.cons.injEq, true_and] at h
    obtain ⟨hhigh, hlow, hrest⟩ := h
    have hhigh := upperHex_injective ⟨c.toNat / 16, by omega⟩ ⟨d.toNat / 16, by omega⟩ hhigh
    have hlow := upperHex_injective ⟨c.toNat % 16, by omega⟩ ⟨d.toNat % 16, by omega⟩ hlow
    simp only [Fin.mk.injEq] at hhigh hlow
    exact ⟨UInt8.toNat_inj.mp (by omega), hrest⟩

/-- CORRECT: escaping loses nothing. -/
theorem escape_injective (encodeSlash : Bool) :
    Function.Injective fun s : Bytes => s.flatMap (escapeByte encodeSlash) := by
  have hne : ∀ c x, escapeByte encodeSlash c ++ x ≠ [] := by
    intro c x
    unfold escapeByte
    split_ifs <;> simp
  intro s t h
  induction s generalizing t with
  | nil =>
    cases t with
    | nil => rfl
    | cons d t => exact absurd h.symm (hne d _)
  | cons c s ih =>
    cases t with
    | nil => exact absurd h (hne c _)
    | cons d t =>
      obtain ⟨rfl, hrest⟩ := escapeByte_append h
      rw [ih hrest]

variable {t : Bytes}

theorem sigV4Escape_ok {s : Bytes} (h : sigV4Escape s encodeSlash = .ok t) :
    t = s.flatMap (escapeByte encodeSlash) := by
  unfold sigV4Escape at h
  split_ifs at h
  exact (Except.ok.inj h).symm

theorem mapM_cons_ok {α β : Type} {g : α → Except Err β} {a : α} {l : List α} {r : List β}
    (h : (a :: l).mapM g = .ok r) : ∃ b bs, g a = .ok b ∧ l.mapM g = .ok bs ∧ r = b :: bs := by
  rw [List.mapM_cons] at h
  rcases hb : g a with e | b
  · rw [hb] at h
    cases h
  · rcases hbs : l.mapM g with e | bs
    · simp only [bind, Except.bind, hb, hbs] at h
      cases h
    · simp only [bind, Except.bind, hb, hbs] at h
      cases h
      exact ⟨b, bs, rfl, rfl, rfl⟩

theorem map_of_mapM {α β : Type} {g : α → Except Err β} {f : α → β} :
    ∀ {l : List α} {r : List β}, (∀ a ∈ l, ∀ b, g a = .ok b → b = f a) → l.mapM g = .ok r → r = l.map f
  | [], r, _, h => by
    rw [List.mapM_nil] at h
    cases h
    rfl
  | a :: l, r, hf, h => by
    obtain ⟨b, bs, hb, hbs, rfl⟩ := mapM_cons_ok h
    rw [List.map_cons, hf a List.mem_cons_self b hb,
      map_of_mapM (fun a' ha' => hf a' (List.mem_cons_of_mem _ ha')) hbs]

/-! ### The canonical query -/

/-- The text `key=value`. -/
def pairText (p : Bytes × Bytes) : Bytes :=
  p.1.flatMap (escapeByte true) ++ 61 :: p.2.flatMap (escapeByte true)

def queryPairs (values : OMap Bytes (List Bytes)) : List (Bytes × Bytes) :=
  (values.del signatureParam).entries.flatMap fun e => e.2.map (Prod.mk e.1)

theorem canonicalEntry_ok {e : Bytes × List Bytes} {parts : List Bytes} (hne : e.2 ≠ [])
    (h : canonicalEntry e = .ok parts) : parts = (e.2.map (Prod.mk e.1)).map pairText := by
  unfold canonicalEntry at h
  rcases hkey : sigV4Escape e.1 true with err | encodedKey
  · rw [hkey] at h
    cases h
  · rw [hkey] at h
    simp only [bind, Except.bind, if_neg hne] at h
    have hparts := map_of_mapM (f := fun v => pairText (e.1, v)) (fun v _ b hb => ?_) h
    · rw [hparts, List.map_map]
      rfl
    · rcases hval : sigV4Escape v true with err | encodedVal
      · rw [hval] at hb
        cases hb
      · rw [hval] at hb
        cases hb
        rw [sigV4Escape_ok hkey, sigV4Escape_ok hval]
        rfl

theorem buildCanonicalQueryString_ok {values : OMap Bytes (List Bytes)}
    (hne : ∀ e ∈ values.entries, e.2 ≠ []) (h : buildCanonicalQueryString values = .ok t) :
    t = List.intercalate [38] ((queryPairs values).map pairText) := by
  unfold buildCanonicalQueryString at h
  rcases hparts : (values.del signatureParam).entries.mapM canonicalEntry with err | parts
  · rw [hparts] at h
    cases h
  · rw [hparts] at h
    cases h
    have hmap : parts = (values.del signatureParam).entries.map
        fun e => (e.2.map (Prod.mk e.1)).map pairText :=
      map_of_mapM (fun e he b hb => canonicalEntry_ok (hne e (List.mem_of_mem_filter he)) hb) hparts
    rw [hmap, queryPairs, List.map_flatMap, List.flatMap_def]

theorem pairText_injective : Function.Injective pairText := by
  rintro ⟨k, v⟩ ⟨k', v'⟩ h
  have hequals : ∀ s : Bytes, 61 ∉ s.flatMap (escapeByte true) :=
    notMem_escape (by decide) (by decide) (by decide)
  obtain ⟨hkey, hval⟩ := Delimited.cut_first (hequals k) (hequals k') h
  exact Prod.ext (escape_injective true hkey) (escape_injective true hval)

theorem pairText_no_amp (l : List (Bytes × Bytes)) : ∀ t ∈ l.map pairText, 38 ∉ t := by
  intro t ht
  obtain ⟨p, -, rfl⟩ := List.mem_map.mp ht
  have hescape : ∀ s : Bytes, 38 ∉ s.flatMap (escapeByte true) :=
    notMem_escape (by decide) (by decide) (by decide)
  simp only [pairText, List.mem_append, List.mem_cons, not_or]
  exact ⟨hescape _, by decide, hescape _⟩

theorem queryPairs_of_text {l l' : List (Bytes × Bytes)}
    (h : List.intercalate [38] (l.map pairText) = List.intercalate [38] (l'.map pairText)) :
    l = l' := by
  have hcons : ∀ (p : Bytes × Bytes) (l : List (Bytes × Bytes)),
      List.intercalate [38] ((p :: l).map pairText) ≠ [] := by
    intro p l hnil
    have hsplit := List.splitOn_intercalate 38 (pairText_no_amp (p :: l)) (by simp)
    rw [hnil, List.splitOn_nil] at hsplit
    have hhead := (List.cons.inj hsplit).1
    simp [pairText] at hhead
  rcases l with _ | ⟨p, l⟩ <;> rcases l' with _ | ⟨p', l'⟩
  · rfl
  · exact absurd h.symm (hcons p' l')
  · exact absurd h (hcons p l)
  · have hsplit := List.splitOn_intercalate 38 (pairText_no_amp (p :: l)) (by simp)
    rw [h, List.splitOn_intercalate 38 (pairText_no_amp (p' :: l')) (by simp)] at hsplit
    exact (List.map_injective_iff.mpr pairText_injective hsplit).symm

theorem values_of_pairs (k : Bytes) : ∀ {l : List (Bytes × List Bytes)},
    l.Pairwise (fun a b => a.1 < b.1) →
    ((l.flatMap fun e => e.2.map (Prod.mk e.1)).filter (·.1 = k)).map Prod.snd =
      (OMap.lookup k l).getD []
  | [], _ => rfl
  | e :: l, h => by
    obtain ⟨he, hl⟩ := List.pairwise_cons.mp h
    have ih := values_of_pairs k hl
    rw [List.flatMap_cons, List.filter_append, List.map_append, ih, OMap.lookup]
    by_cases hk : e.1 = k
    · have hnone : OMap.lookup k l = none := by
        rcases hlook : OMap.lookup k l with _ | vs
        · rfl
        · have hmem := (OMap.mem_iff_lookup hl).mpr hlook
          exact absurd (he _ hmem) (hk ▸ lt_irrefl _)
      have hall : (e.2.map (Prod.mk e.1)).filter (·.1 = k) = e.2.map (Prod.mk e.1) :=
        List.filter_eq_self.mpr fun p hp => by
          obtain ⟨v, -, rfl⟩ := List.mem_map.mp hp
          exact decide_eq_true hk
      rw [hall, hnone, if_pos hk, List.map_map]
      simp [Function.comp_def]
    · have hno : (e.2.map (Prod.mk e.1)).filter (·.1 = k) = [] :=
        List.filter_eq_nil_iff.mpr fun p hp => by
          obtain ⟨v, -, rfl⟩ := List.mem_map.mp hp
          simpa using hk
      rw [hno, if_neg hk]
      rfl

theorem query_one_line {q : OMap Bytes (List Bytes)} (hne : ∀ e ∈ q.entries, e.2 ≠ [])
    (h : buildCanonicalQueryString q = .ok t) : 10 ∉ t := by
  rw [buildCanonicalQueryString_ok hne h]
  intro hten
  rcases hpairs : queryPairs q with _ | ⟨p, l⟩
  · rw [hpairs] at hten
    cases hten
  · obtain ⟨part, hpart, hten⟩ := Delimited.exists_mem_splitOn (d := 38) (by decide) hten
    rw [List.splitOn_intercalate 38 (pairText_no_amp _) (by simp [hpairs])] at hpart
    obtain ⟨p', -, rfl⟩ := List.mem_map.mp hpart
    have hescape : ∀ s : Bytes, 10 ∉ s.flatMap (escapeByte true) :=
      notMem_escape (by decide) (by decide) (by decide)
    simp only [pairText, List.mem_append, List.mem_cons] at hten
    rcases hten with hten | hten | hten
    · exact hescape _ hten
    · cases hten
    · exact hescape _ hten

theorem query_determined {q q' : OMap Bytes (List Bytes)} (hne : ∀ e ∈ q.entries, e.2 ≠ [])
    (hne' : ∀ e ∈ q'.entries, e.2 ≠ []) (h : buildCanonicalQueryString q = .ok t)
    (h' : buildCanonicalQueryString q' = .ok t) {k : Bytes} (hk : k ≠ signatureParam) :
    q.get k = q'.get k := by
  have hpairs : queryPairs q = queryPairs q' := queryPairs_of_text
    ((buildCanonicalQueryString_ok hne h).symm.trans (buildCanonicalQueryString_ok hne' h'))
  have hget : ∀ {m : OMap Bytes (List Bytes)}, (∀ e ∈ m.entries, e.2 ≠ []) →
      ∃ vs, vs = ((queryPairs m).filter (·.1 = k)).map Prod.snd ∧
        m.get k = if vs = [] then none else some vs := by
    intro m hm
    refine ⟨_, rfl, ?_⟩
    rw [queryPairs, values_of_pairs k (m.del signatureParam).sorted]
    change m.get k = if ((m.del signatureParam).get k).getD [] = [] then none
      else some (((m.del signatureParam).get k).getD [])
    rw [OMap.get_del_ne m hk]
    rcases hget : m.get k with _ | vs
    · rfl
    · have hvs : vs ≠ [] := hm _ (m.mem_entries.mpr hget)
      rw [Option.getD_some, if_neg hvs]
  obtain ⟨vs, hvs, hq⟩ := hget hne
  obtain ⟨vs', hvs', hq'⟩ := hget hne'
  rw [hq, hq', hvs, hvs', hpairs]

/-! ### The signed headers -/

theorem lowerByte_eq_newline : ∀ a : UInt8, lowerByte a = 10 → a = 10 := by
  decide +kernel

theorem equalFold_one_line : ∀ {k h : Bytes}, equalFold k h = true → 10 ∉ k → 10 ∉ h
  | [], h, hfold, _ => by
    rw [equalFold, decide_eq_true_iff] at hfold
    simp [hfold]
  | a :: k, [], _, _ => List.not_mem_nil
  | a :: k, b :: h, hfold, hk => by
    obtain ⟨ha, hk⟩ := not_or.mp (List.mem_cons.not.mp hk)
    rw [equalFold] at hfold
    split_ifs at hfold with hsame hs hkelvin
    · have hb : (10 : UInt8) ≠ b := by
        rintro rfl
        exact ha (lowerByte_eq_newline a hsame).symm
      exact List.mem_cons.not.mpr (not_or.mpr ⟨hb, equalFold_one_line hfold hk⟩)
    · obtain ⟨-, rfl, hhead⟩ := hs
      have hrest := equalFold_one_line hfold hk
      obtain ⟨t, rfl⟩ := List.head?_eq_some_iff.mp hhead
      simpa using hrest
    · obtain ⟨-, rfl, htake⟩ := hkelvin
      have hrest := equalFold_one_line hfold hk
      rw [← List.take_append_drop 2 h, htake]
      simpa using hrest

variable {req : Request}

theorem getCanonicalHeaderValue_line {h v : Bytes} (hv : getCanonicalHeaderValue req h = .ok v) :
    10 ∉ h ∧ 10 ∉ v := by
  unfold getCanonicalHeaderValue at hv
  split_ifs at hv with hhost hlong
  · cases hv
    exact ⟨hhost ▸ by decide +kernel, req.host_line⟩
  · rcases hfind : req.header.find? fun e => equalFold e.1 h with _ | ⟨k, vs⟩
    · rw [hfind] at hv
      cases hv
    · rw [hfind] at hv
      have hmem := List.mem_of_find?_eq_some hfind
      have hfold : equalFold k h = true := by simpa using List.find?_some hfind
      refine ⟨equalFold_one_line hfold (req.name_line _ hmem), ?_⟩
      rcases vs with _ | ⟨v', vs⟩
      · cases hv
        exact List.not_mem_nil
      · simp only at hv
        split_ifs at hv
        cases hv
        exact req.value_line _ hmem v List.mem_cons_self

theorem canonicalHeaders_ok {names lines : List Bytes}
    (h : names.mapM (canonicalHeader req) = .ok lines) :
    ∃ vals : List Bytes, List.Forall₂ (fun n v => getCanonicalHeaderValue req n = .ok v) names vals ∧
      lines = List.zipWith headerLine names (vals.map trimSpace) := by
  induction names generalizing lines with
  | nil =>
    rw [List.mapM_nil] at h
    cases h
    exact ⟨[], .nil, rfl⟩
  | cons n names ih =>
    obtain ⟨line, rest, hline, hrest, rfl⟩ := mapM_cons_ok h
    obtain ⟨vals, hvals, rfl⟩ := ih hrest
    unfold canonicalHeader at hline
    rcases hv : getCanonicalHeaderValue req n with e | v
    · rw [hv] at hline
      cases hline
    · rw [hv] at hline
      cases hline
      exact ⟨v :: vals, .cons hv hvals, rfl⟩

theorem lines_determined {names vals vals' : List Bytes} (hlen : vals.length = names.length)
    (hlen' : vals'.length = names.length) (hvals : ∀ v ∈ vals, 10 ∉ v) (hvals' : ∀ v ∈ vals', 10 ∉ v)
    (h : (List.zipWith headerLine names vals).flatten = (List.zipWith headerLine names vals').flatten) :
    vals = vals' := by
  induction names generalizing vals vals' with
  | nil => rw [List.eq_nil_of_length_eq_zero hlen, List.eq_nil_of_length_eq_zero hlen']
  | cons n names ih =>
    obtain ⟨v, vals, rfl⟩ := List.exists_cons_of_length_eq_add_one hlen
    obtain ⟨v', vals', rfl⟩ := List.exists_cons_of_length_eq_add_one hlen'
    rw [List.zipWith_cons_cons, List.zipWith_cons_cons, List.flatten_cons, List.flatten_cons] at h
    simp only [headerLine, List.append_assoc, List.cons_append, List.append_cancel_left_eq,
      List.cons.injEq, true_and, List.nil_append] at h
    obtain ⟨rfl, hrest⟩ := Delimited.cut_first (hvals v List.mem_cons_self)
      (hvals' v' List.mem_cons_self) h
    have hrest : (List.zipWith headerLine names vals).flatten =
        (List.zipWith headerLine names vals').flatten := by
      simpa only [headerLine, List.append_assoc, List.cons_append] using hrest
    rw [ih (by simpa using hlen) (by simpa using hlen')
      (fun w hw => hvals w (List.mem_cons_of_mem _ hw))
      (fun w hw => hvals' w (List.mem_cons_of_mem _ hw)) hrest]

theorem exists_of_forall₂ {α β : Type} {R : α → β → Prop} {l : List α} {l' : List β}
    (h : List.Forall₂ R l l') {a : α} (ha : a ∈ l) : ∃ b ∈ l', R a b := by
  induction h with
  | nil => cases ha
  | cons hab _ ih =>
    rcases List.mem_cons.mp ha with rfl | ha
    · exact ⟨_, List.mem_cons_self, hab⟩
    · obtain ⟨b, hb, hR⟩ := ih ha
      exact ⟨b, List.mem_cons_of_mem _ hb, hR⟩

theorem agree_of_forall₂ {α β γ : Type} {R R' : α → β → Prop} {f : β → γ} {names : List α}
    {vals vals' : List β} (h : List.Forall₂ R names vals) (h' : List.Forall₂ R' names vals')
    (heq : vals.map f = vals'.map f) : ∀ n ∈ names, ∃ v v', R n v ∧ R' n v' ∧ f v = f v' := by
  induction h generalizing vals' with
  | nil => intro n hn; cases hn
  | cons hab _ ih =>
    cases h' with
    | cons hab' htail =>
      obtain ⟨hv, hvs⟩ := List.cons.inj heq
      intro n hn
      rcases List.mem_cons.mp hn with rfl | hn
      · exact ⟨_, _, hab, hab', hv⟩
      · exact ih htail hvs n hn

def sortedNames (signedHeaders : Bytes) : List Bytes :=
  (signedNames signedHeaders).insertionSort (· ≤ ·)

theorem buildCanonicalHeaders_ok {signedHeaders : Bytes}
    (h : buildCanonicalHeaders req signedHeaders = .ok t) :
    10 ∉ signedHeaders ∧ ∃ vals : List Bytes,
      List.Forall₂ (fun n v => getCanonicalHeaderValue req n = .ok v) (sortedNames signedHeaders) vals ∧
      t = (List.zipWith headerLine (sortedNames signedHeaders) (vals.map trimSpace)).flatten := by
  unfold buildCanonicalHeaders parseSignedHeaders at h
  split_ifs at h with hcap
  · cases h
  · rcases hlines : (sortedNames signedHeaders).mapM (canonicalHeader req) with e | lines
    · rw [sortedNames] at hlines
      simp only [bind, Except.bind, hlines] at h
      cases h
    · obtain ⟨vals, hvals, rfl⟩ := canonicalHeaders_ok hlines
      rw [sortedNames] at hlines
      simp only [bind, Except.bind, hlines] at h
      cases h
      refine ⟨fun hmem => ?_, vals, hvals, rfl⟩
      obtain ⟨part, hpart, hten⟩ := Delimited.exists_mem_splitOn (d := 59) (by decide) hmem
      have hname : part ∈ sortedNames signedHeaders := by
        rw [sortedNames, List.mem_insertionSort, signedNames, List.mem_filter]
        exact ⟨hpart, decide_eq_true (List.ne_nil_of_mem hten)⟩
      obtain ⟨v, -, hv⟩ := exists_of_forall₂ hvals hname
      exact (getCanonicalHeaderValue_line hv).1 hten

/-! ### The canonical request and the string to sign -/

theorem buildCanonicalRequest_ok {signedHeaders payloadHash : Bytes}
    (h : buildCanonicalRequest req signedHeaders payloadHash = .ok t) :
    ∃ query headers, buildCanonicalQueryString req.query = .ok query ∧
      buildCanonicalHeaders req signedHeaders = .ok headers ∧
      t = req.method ++ 10 :: ((canonicalPath req.path).flatMap (escapeByte false) ++
        10 :: (query ++ 10 :: (headers ++ 10 :: (signedHeaders ++ 10 :: payloadHash)))) := by
  unfold buildCanonicalRequest at h
  rcases huri : sigV4Escape (canonicalPath req.path) false with e | uri
  · rw [huri] at h
    cases h
  · rcases hquery : buildCanonicalQueryString req.query with e | query
    · simp only [bind, Except.bind, huri, hquery] at h
      cases h
    · rcases hheaders : buildCanonicalHeaders req signedHeaders with e | headers
      · simp only [bind, Except.bind, huri, hquery, hheaders] at h
        cases h
      · simp only [bind, Except.bind, huri, hquery, hheaders] at h
        cases h
        refine ⟨query, headers, rfl, rfl, ?_⟩
        rw [sigV4Escape_ok huri]
        simp only [List.append_assoc, List.cons_append]

structure SameSigned (req req' : Request) (c c' : Components) : Prop where
  method : req.method = req'.method
  path : canonicalPath req.path = canonicalPath req'.path
  query : ∀ k, k ≠ signatureParam → req.query.get k = req'.query.get k
  signedHeaders : c.signedHeaders = c'.signedHeaders
  header : ∀ name ∈ signedNames c.signedHeaders, ∃ v v', getCanonicalHeaderValue req name = .ok v ∧
    getCanonicalHeaderValue req' name = .ok v' ∧ trimSpace v = trimSpace v'

theorem canonicalRequest_determined {req' : Request} {c c' : Components} {p p' : Bytes}
    (h : buildCanonicalRequest req c.signedHeaders p = .ok t)
    (h' : buildCanonicalRequest req' c'.signedHeaders p' = .ok t) (hp : 10 ∉ p) (hp' : 10 ∉ p') :
    SameSigned req req' c c' ∧ p = p' := by
  obtain ⟨query, headers, hquery, hheaders, htext⟩ := buildCanonicalRequest_ok h
  obtain ⟨query', headers', hquery', hheaders', htext'⟩ := buildCanonicalRequest_ok h'
  obtain ⟨hline, vals, hvals, hlines⟩ := buildCanonicalHeaders_ok hheaders
  obtain ⟨hline', vals', hvals', hlines'⟩ := buildCanonicalHeaders_ok hheaders'
  -- the first three lines, from the front
  have hescape : ∀ s : Bytes, 10 ∉ s.flatMap (escapeByte false) :=
    notMem_escape (by decide) (by decide) (by decide)
  obtain ⟨hmethod, hafter⟩ := Delimited.cut_first req.method_line req'.method_line
    (htext.symm.trans htext')
  obtain ⟨hpath, hafter⟩ := Delimited.cut_first (hescape _) (hescape _) hafter
  obtain ⟨hq, hafter⟩ := Delimited.cut_first (query_one_line req.query_values hquery)
    (query_one_line req'.query_values hquery') hafter
  -- the last two, from the back
  have hback : (headers ++ 10 :: c.signedHeaders) ++ 10 :: p =
      (headers' ++ 10 :: c'.signedHeaders) ++ 10 :: p' := by
    simpa only [List.append_assoc, List.cons_append] using hafter
  obtain ⟨hfront, hpayload⟩ := Delimited.cut_last hp hp' hback
  obtain ⟨hheads, hnames⟩ := Delimited.cut_last hline hline' hfront
  refine ⟨⟨hmethod, escape_injective false hpath, fun k hk => ?_, hnames, fun name hname => ?_⟩,
    hpayload⟩
  · exact query_determined req.query_values req'.query_values hquery (hq ▸ hquery') hk
  · rw [← hnames] at hvals' hlines'
    rw [hlines, hlines'] at hheads
    have hlen := hvals.length_eq
    have hlen' := hvals'.length_eq
    have hone : ∀ {r : Request} {ns vs : List Bytes},
        List.Forall₂ (fun n v => getCanonicalHeaderValue r n = .ok v) ns vs →
        ∀ v ∈ vs.map trimSpace, 10 ∉ v := by
      intro r ns vs hvs w hw hten
      obtain ⟨v, hv, rfl⟩ := List.mem_map.mp hw
      obtain ⟨n, -, hn⟩ := exists_of_forall₂ hvs.flip hv
      exact (getCanonicalHeaderValue_line hn).2 (mem_of_mem_trimSpace hten)
    have hvalues := lines_determined (by simp [hlen]) (by simp [hlen']) (hone hvals) (hone hvals') hheads
    refine agree_of_forall₂ hvals hvals' hvalues name ?_
    rwa [sortedNames, List.mem_insertionSort]

section Signing

variable [Sha256] [HmacSha256]

omit [HmacSha256] in
theorem hashBytes_one_line (b : Bytes) : 10 ∉ hashBytes b := by
  intro h
  obtain ⟨n, hn⟩ := mem_hexEncode h
  revert n
  decide

omit [HmacSha256] in
theorem stringToSign_determined {r r' date date' stamp stamp' region region' : Bytes}
    (hdate : 10 ∉ date) (hdate' : 10 ∉ date')
    (h : buildStringToSign r date stamp region = buildStringToSign r' date' stamp' region') :
    date = date' ∧ credentialScope stamp region = credentialScope stamp' region' ∧
      Sha256.sum256 r = Sha256.sum256 r' := by
  simp only [buildStringToSign, List.append_assoc, List.cons_append, List.append_cancel_left_eq] at h
  obtain ⟨hd, hafter⟩ := Delimited.cut_first hdate hdate' h
  obtain ⟨hscope, hhash⟩ := Delimited.cut_last (hashBytes_one_line r) (hashBytes_one_line r') hafter
  exact ⟨hd, hscope, hexEncode_injective hhash⟩

variable [DateParser]

/-! ### What a signature binds -/

def components (req : Request) (authHeader : Bytes) : Option Components :=
  if isPresignedSigV4 req then parseSigV4QueryAuth req
  else (parseSigV4AuthHeader authHeader).toOption.map fun c =>
    { c with amzDate := req.headerGet (lit "X-Amz-Date") }

def payloadHashes (req : Request) : List Bytes :=
  let payloadHash := req.headerGet (lit "X-Amz-Content-Sha256")
  if payloadHash ≠ [] then [payloadHash]
  else if isPresignedSigV4 req then [s3UnsignedPayload, emptyStringSHA256]
  else [emptyStringSHA256]

omit [Sha256] [HmacSha256] [DateParser] in
theorem mem_of_lookup {key : Bytes} {vs : List Bytes} : ∀ {l : List (Bytes × List Bytes)},
    OMap.lookup key l = some vs → (key, vs) ∈ l
  | [], h => by cases h
  | e :: l, h => by
    rw [OMap.lookup] at h
    split_ifs at h with hk
    · cases h
      exact hk ▸ List.mem_cons_self
    · exact List.mem_cons_of_mem _ (mem_of_lookup h)

omit [Sha256] [HmacSha256] [DateParser] in
theorem headerGet_one_line (req : Request) (key : Bytes) : 10 ∉ req.headerGet key := by
  unfold Request.headerGet
  rcases hlook : OMap.lookup key req.header with _ | vs
  · exact List.not_mem_nil
  · rcases vs with _ | ⟨v, vs⟩
    · exact List.not_mem_nil
    · exact req.value_line _ (mem_of_lookup hlook) v List.mem_cons_self

variable {req : Request}

omit [HmacSha256] [DateParser] in
theorem payloadHash_one_line {p : Bytes} (h : p ∈ payloadHashes req) : 10 ∉ p := by
  unfold payloadHashes at h
  simp only at h
  split_ifs at h
  · rw [List.mem_singleton.mp h]
    exact headerGet_one_line req _
  · simp only [List.mem_cons, List.not_mem_nil, or_false] at h
    rcases h with rfl | rfl
    · decide +kernel
    · exact hashBytes_one_line []
  · rw [List.mem_singleton.mp h]
    exact hashBytes_one_line []

variable {now : Int} {c : Components}

omit [Sha256] [HmacSha256] in
theorem expiry_one_line (hc : parseSigV4QueryAuth req = some c)
    (h : verifySigV4Expiry now req = true) : 10 ∉ c.amzDate := by
  have hdate : c.amzDate = req.queryGet (lit "X-Amz-Date") := by
    unfold parseSigV4QueryAuth at hc
    split_ifs at hc
    rcases hcred : parseCredentialScope (req.queryGet (lit "X-Amz-Credential")) with e | ⟨a, d, r⟩
    · rw [hcred] at hc
      cases hc
    · rw [hcred] at hc
      simp only at hc
      split_ifs at hc
      cases hc
      rfl
  rw [hdate]
  unfold verifySigV4Expiry at h
  simp only at h
  split_ifs at h
  rcases hparse : DateParser.parse (req.queryGet (lit "X-Amz-Date")) with _ | t
  · rw [hparse] at h
    cases h
  · exact DateParser.one_line _ t hparse

variable {authHeader secretKey : Bytes}

theorem verifySigV4Signature_cases (h : verifySigV4Signature now req authHeader secretKey = true) :
    ∃ c, components req authHeader = some c ∧ 10 ∉ c.amzDate ∧
      ∃ p ∈ payloadHashes req, verifySigV4SignatureWithPayload req c secretKey p = true := by
  unfold verifySigV4Signature at h
  by_cases hpre : isPresignedSigV4 req = true
  · simp only [hpre, if_true] at h
    rcases hc : parseSigV4QueryAuth req with _ | c
    · rw [hc] at h
      cases h
    · rw [hc] at h
      simp only at h
      split_ifs at h with hexpiry hpayload
      · refine ⟨c, by rw [components, if_pos hpre, hc], expiry_one_line hc hexpiry, _, ?_, h⟩
        rw [payloadHashes, if_pos hpayload]
        exact List.mem_singleton_self _
      · have hhashes : payloadHashes req = [s3UnsignedPayload, emptyStringSHA256] := by
          simp only [payloadHashes, if_neg hpayload, hpre, if_true]
        have hor := (Bool.or_eq_true _ _).mp h
        refine ⟨c, by rw [components, if_pos hpre, hc], expiry_one_line hc hexpiry, ?_⟩
        rw [hhashes]
        rcases hor with h | h
        · exact ⟨_, List.mem_cons_self, h⟩
        · exact ⟨_, List.mem_cons_of_mem _ List.mem_cons_self, h⟩
  · have hfalse := Bool.eq_false_iff.mpr hpre
    simp only [hfalse, Bool.false_eq_true, if_false] at h
    rcases hc : parseSigV4AuthHeader authHeader with e | c
    · rw [hc] at h
      cases h
    · rw [hc] at h
      simp only at h
      by_cases hdate : req.headerGet (lit "X-Amz-Date") = []
      · rw [if_pos hdate] at h
        cases h
      · rw [if_neg hdate] at h
        split_ifs at h with hstamp hpayload
        all_goals
          refine ⟨_, by rw [components, if_neg hpre, hc]; rfl, headerGet_one_line req _, _, ?_, h⟩
          simp [payloadHashes, hfalse, hpayload]

theorem date_one_line (h : verifySigV4Signature now req authHeader secretKey = true)
    (hc : components req authHeader = some c) : 10 ∉ c.amzDate := by
  obtain ⟨c', hc', hdate, -⟩ := verifySigV4Signature_cases h
  rwa [Option.some.inj (hc.symm.trans hc')]

structure Signing where
  key : Bytes
  stringToSign : Bytes
  canonicalRequest : Bytes

def signings (secretKey : Bytes) (req : Request) (authHeader : Bytes) : List Signing :=
  match components req authHeader with
  | none => []
  | some c => (payloadHashes req).filterMap fun p =>
    (buildCanonicalRequest req c.signedHeaders p).toOption.map fun r =>
      ⟨deriveSigningKey secretKey c.dateStamp c.region,
        buildStringToSign r c.amzDate c.dateStamp c.region, r⟩

def CollisionFree (ss : List Signing) : Prop :=
  ∀ s ∈ ss, ∀ t ∈ ss,
    (HmacSha256.mac s.key s.stringToSign = HmacSha256.mac t.key t.stringToSign →
      s.stringToSign = t.stringToSign) ∧
    (Sha256.sum256 s.canonicalRequest = Sha256.sum256 t.canonicalRequest →
      s.canonicalRequest = t.canonicalRequest)

instance (ss : List Signing) : Decidable (CollisionFree ss) :=
  inferInstanceAs (Decidable (∀ s ∈ ss, ∀ t ∈ ss, (_ → _) ∧ (_ → _)))

omit [DateParser] in
theorem signing_of_verify {p : Bytes} (hc : components req authHeader = some c)
    (hp : p ∈ payloadHashes req) (h : verifySigV4SignatureWithPayload req c secretKey p = true) :
    ∃ s ∈ signings secretKey req authHeader,
      buildCanonicalRequest req c.signedHeaders p = .ok s.canonicalRequest ∧
      s.stringToSign = buildStringToSign s.canonicalRequest c.amzDate c.dateStamp c.region ∧
      hexEncode (HmacSha256.mac s.key s.stringToSign) = c.signature := by
  unfold verifySigV4SignatureWithPayload at h
  rcases hr : buildCanonicalRequest req c.signedHeaders p with e | r
  · rw [hr] at h
    cases h
  · rw [hr] at h
    refine ⟨⟨deriveSigningKey secretKey c.dateStamp c.region,
      buildStringToSign r c.amzDate c.dateStamp c.region, r⟩, ?_, rfl, rfl, of_decide_eq_true h⟩
    rw [signings, hc]
    exact List.mem_filterMap.mpr ⟨p, hp, by rw [hr]; rfl⟩

end Signing

section Runs

local instance signedSha : Sha256 := polySha

local instance signedMac : HmacSha256 where
  mac _ message := (message.reverse ++ List.replicate 32 0).take 32
  length_mac := length_tailOf

local instance oneDate : DateParser where
  parse s := if s = lit "20130524T000000Z" then some 0 else none
  one_line s t h := by
    split_ifs at h with hs
    rw [hs]
    decide +kernel

def rootRequest (path : Bytes) : Request where
  method := lit "GET"
  host := lit "h"
  path := path
  query := OMap.empty
  header := [(lit "X-Amz-Date", [lit "20130524T000000Z"])]
  method_line := by decide +kernel
  host_line := by decide +kernel
  name_line := by decide +kernel
  value_line := by decide +kernel
  query_values := by decide

def rootSignature : Bytes :=
  match buildCanonicalRequest (rootRequest []) (lit "host;x-amz-date") emptyStringSHA256 with
  | .error _ => []
  | .ok r => computeSignature (deriveSigningKey (lit "secret") (lit "20130524") (lit "us-east-1"))
    (buildStringToSign r (lit "20130524T000000Z") (lit "20130524") (lit "us-east-1"))

def rootAuth : Bytes :=
  lit "AWS4-HMAC-SHA256 Credential=AK/20130524/us-east-1/s3/aws4_request, " ++
    lit "SignedHeaders=host;x-amz-date, Signature=" ++ rootSignature

end Runs

end Momo.SigV4

import Stoker.Worker.Remainders

/-!
# What the rewritten engine supplies

In eps mode the agent lets the engine produce somewhat more than the share, by the overdrive factor,
and paces it with the token bucket. The factor is applied before the product is rounded to the whole
number of events that the stanzas get for a second, each of them one at least. So what the engine
supplies is the sum of the parts of that number, with one for every part below one; for small shares
this can be less than the share.
-/

open List

namespace Stoker

namespace ConfRewrite

/-! ### The weights -/

variable {q : ℚ}

lemma add_eq_num {x y : PyFloat} (h : x.add y = .num q) :
    ∃ a b, x = .num a ∧ y = .num b ∧ a + b = q := by
  cases x with
  | num a =>
    cases y with
    | num b => exact ⟨a, b, rfl, rfl, PyFloat.num.inj h⟩
    | inf | negInf | nan => cases h
  | inf | negInf | nan => cases y <;> cases h

variable {weights : List PyFloat}

/-- A finite sum is one of finite numbers. -/
lemma sum_eq_num (h : PyFloat.sum weights = .num q) :
    ∃ values : List ℚ, weights = values.map .num ∧ values.sum = q := by
  have hfold : ∀ (l : List PyFloat) (acc : PyFloat), l.foldl PyFloat.add acc = .num q →
      ∃ (a : ℚ) (values : List ℚ), acc = .num a ∧ l = values.map .num ∧ a + values.sum = q := by
    intro l
    induction l with
    | nil => exact fun acc hacc => ⟨q, [], hacc, rfl, by simp⟩
    | cons w l ih =>
      intro acc hacc
      obtain ⟨c, values, hc, rfl, hsum⟩ := ih (acc.add w) hacc
      obtain ⟨a, b, rfl, rfl, rfl⟩ := add_eq_num hc
      exact ⟨a, b :: values, rfl, rfl, by rw [sum_cons, ← add_assoc, hsum]⟩
  obtain ⟨a, values, ha, rfl, hsum⟩ := hfold weights (.num 0) h
  obtain rfl : 0 = a := PyFloat.num.inj ha
  exact ⟨values, rfl, by rw [← hsum, zero_add]⟩

lemma largestRemainder_of_unusable (total : ℤ) (hne : weights ≠ [])
    (h : ∀ q, PyFloat.sum weights = .num q → q ≤ 0) :
    largestRemainder total weights =
      largestRemainder total ((replicate weights.length 1).map .num) := by
  have hpos : 0 < (replicate weights.length (1 : ℚ)).sum :=
    sum_replicate_pos one_pos (length_pos_iff.2 hne)
  have hequal : usableWeights weights =
      usableWeights ((replicate weights.length 1).map .num) := by
    rw [usableWeights_num hpos, usableWeights]
    simp only [map_replicate, sum_replicate, nsmul_eq_mul, mul_one]
    cases hs : PyFloat.sum weights with
    | num q => exact if_pos (h q hs)
    | inf | negInf | nan => rfl
  unfold largestRemainder
  rw [hequal, length_map, length_replicate]

/-- Whatever the weights, there is a whole part for each. -/
theorem largestRemainder_ok (total : ℕ) (hne : weights ≠ []) :
    ∃ counts : List ℤ, largestRemainder total weights = .ok counts ∧
      counts.length = weights.length := by
  -- for weights with a positive sum these are the parts of the quotas
  have husable : ∀ values : List ℚ, 0 < values.sum → ∃ counts : List ℤ,
      largestRemainder total (values.map .num) = .ok counts ∧ counts.length = values.length := by
    intro values hpos
    exact ⟨_, largestRemainder_eq hpos, by simp⟩
  by_cases h : ∃ q, PyFloat.sum weights = .num q ∧ 0 < q
  · obtain ⟨q, hq, hpos⟩ := h
    obtain ⟨values, rfl, rfl⟩ := sum_eq_num hq
    obtain ⟨counts, hok, hlen⟩ := husable values hpos
    exact ⟨counts, hok, by rw [hlen, length_map]⟩
  · have hunusable : ∀ q, PyFloat.sum weights = .num q → q ≤ 0 :=
      fun q hq => not_lt.1 fun hpos => h ⟨q, hq, hpos⟩
    obtain ⟨counts, hok, hlen⟩ := husable _ (sum_replicate_pos one_pos (length_pos_iff.2 hne))
    rw [largestRemainder_of_unusable total hne hunusable]
    exact ⟨counts, hok, by rw [hlen, length_replicate]⟩

/-! ### The eps rewrite -/

/-- The events per second that a stanza is set to. -/
def stanzaRate (host : ConfHost) (p : Parser) (name : Text) : ℚ :=
  match p.getFloat host name countKey, p.getFloat host name intervalKey with
  | some (.num count), some (.num interval) => count / interval
  | _, _ => 0

/-- What the engine supplies: the sum over the paced stanzas. -/
def supply (host : ConfHost) (p : Parser) : ℚ := ((pacedNames host p).map (stanzaRate host p)).sum

section

variable {host : ConfHost} {p : Parser}

lemma float_intText {z : ℤ} (hz : 0 ≤ z) : host.float (intText z) = some (.num z) := by
  obtain ⟨n, rfl⟩ := Int.eq_ofNat_of_zero_le hz
  exact host.float_digits n

/-- The rate maps go, and nothing else. -/
lemma stripRateMaps_of_given (host : ConfHost) (h : ModesGiven p) :
    ∃ flat, stripRateMaps host p = .ok flat ∧ flat.names = p.names ∧
      ∀ name key, isRateMap key = false → flat.get name key = p.get name key := by
  set flat := p.filterDefaults (!isRateMap ·) with hflat
  have hdefaults : ∀ name key, isRateMap key = false → flat.get name key = p.get name key :=
    fun name key hkey => Parser.get_filterDefaults (by simp [hkey])
  have hmodes : ModesGiven flat := h.congr rfl fun name => hdefaults name modeKey (by decide)
  have hreplays : filterNames (isReplay host flat) flat.names =
      .ok (flat.names.filter (replays host flat)) :=
    filterNames_of_ok fun name hname => isReplay_of_given (hmodes name hname)
  have hrun : stripRateMaps host p = .ok (flat.update fun name own =>
      if name ∈ flat.names.filter (replays host flat) then own else own.filter (!isRateMap ·)) := by
    unfold stripRateMaps
    dsimp only
    rw [hreplays]
    rfl
  refine ⟨_, hrun, Parser.names_update, fun name key hkey => ?_⟩
  rw [Parser.get_update_of, hdefaults name key hkey]
  intro o
  split_ifs
  · rfl
  · exact Options.get_filter (by simp [hkey])

variable {names : List Text} {q : Parser} {share : ℚ} {counts : List ℤ}

/-- In eps mode the stanzas get their counts after the rate maps are gone. -/
lemma rewriteShare_eps {r : RewriteRequest} {flat : Parser} (hm : r.mode = .eps)
    (hs : r.shareValue = some share) (hpos : 0 < share) (hflat : stripRateMaps host p = .ok flat)
    (hne : names ≠ []) (hq : rewriteEps host names share r.overdrive r.weights flat = .ok q) :
    rewriteShare host r names p = .ok q := by
  have hfilter : r.shareValue.filter (0 < ·) = some share := by
    rw [hs]
    exact Option.filter_some_pos (by simpa using hpos)
  unfold rewriteShare
  rw [hm]
  rw [hfilter]
  rw [hflat]
  change (if names.isEmpty = true then _ else _) = _
  rw [if_neg (by simpa using hne)]
  exact hq

lemma get_setCount_count (count : ℤ) (o : Options) :
    (setCount count o).get countKey = some (some (intText (max 1 count))) := by
  rw [setCount, Options.get_remove (by decide), Options.get_set, if_pos rfl]

lemma get_setCount_interval (count : ℤ) (o : Options) :
    (setCount count o).get intervalKey = some (some "1".toList) := by
  rw [setCount, Options.get_remove (by decide), Options.get_set, if_neg (by decide),
    Options.get_set, if_pos rfl]

lemma get_setCount_mode (count : ℤ) (o : Options) :
    (setCount count o).get modeKey = o.get modeKey := by
  rw [setCount, Options.get_remove (by decide), Options.get_set, if_neg (by decide),
    Options.get_set, if_neg (by decide)]

/-- A stanza that was given a count produces it every second, and one event at least. -/
lemma stanzaRate_setEach {name : Text} {count : ℤ} (hname : name ∈ p.names)
    (hcount : (names.zip counts).lookup name = some count) :
    stanzaRate host (setEach names counts setCount p) name = max 1 (count : ℚ) := by
  have hread : (setEach names counts setCount p).getFloat host name countKey =
      some (.num ((max 1 count : ℤ) : ℚ)) := by
    rw [Parser.getFloat, get_setEach_set (t := fun c => intText (max 1 c)) hname hcount
      (get_setCount_count count)]
    exact float_intText (by omega)
  have hone : (setEach names counts setCount p).getFloat host name intervalKey = some (.num 1) := by
    rw [Parser.getFloat, get_setEach_set (t := fun _ => "1".toList) hname hcount
      (get_setCount_interval count)]
    exact host.float_digits 1
  rw [stanzaRate, hread, hone]
  push_cast
  rw [div_one]

/-- What the engine supplies after every paced stanza was given a count. -/
lemma supply_setEach (hlen : counts.length = (pacedNames host p).length) :
    supply host (setEach (pacedNames host p) counts setCount p) =
      (counts.map fun (c : ℤ) => max 1 (c : ℚ)).sum := by
  have hsame : pacedNames host (setEach (pacedNames host p) counts setCount p) =
      pacedNames host p :=
    pacedNames_congr names_setEach fun _ => get_setEach_of get_setCount_mode
  have hrates : (pacedNames host p).map
      (stanzaRate host (setEach (pacedNames host p) counts setCount p)) =
      ((pacedNames host p).map fun name => ((pacedNames host p).zip counts).lookup name).map
        fun count => max 1 ((count.getD 0 : ℤ) : ℚ) := by
    rw [map_map]
    refine map_congr_left fun name hname => ?_
    obtain ⟨count, _, hcount⟩ := exists_lookup_zip nodup_pacedNames hlen hname
    rw [stanzaRate_setEach (mem_names_of_paced hname) hcount, Function.comp_apply, hcount]
    rfl
  rw [supply, hsame, hrates, map_lookup_zip nodup_pacedNames hlen, map_map]
  rfl

lemma pyRound_nonneg {q : ℚ} (h : 0 ≤ q) : 0 ≤ pyRound q := by
  have hfloor : 0 ≤ ⌊q⌋ := Int.floor_nonneg.2 h
  unfold pyRound
  dsimp only
  split_ifs <;> omega

lemma declaredEpsWeights_congr
    (h : ∀ name key, key = countKey ∨ key = intervalKey → q.get name key = p.get name key) :
    declaredEpsWeights host q names = declaredEpsWeights host p names := by
  have hcount : ∀ name, q.getFloat host name countKey = p.getFloat host name countKey :=
    fun name => by rw [Parser.getFloat, h name _ (.inl rfl), Parser.getFloat]
  have hinterval : ∀ name, q.getFloat host name intervalKey = p.getFloat host name intervalKey :=
    fun name => by rw [Parser.getFloat, h name _ (.inr rfl), Parser.getFloat]
  simp only [declaredEpsWeights, hcount, hinterval]

/-- Without weights of its own, the eps rewrite gives the stanzas their parts of the overdriven
share once that is rounded. -/
lemma rewriteEps_declared (host : ConfHost) (p : Parser) (hne : names ≠ []) {overdrive : ℚ}
    (hprod : 0 ≤ share * overdrive) :
    ∃ counts : List ℤ,
      rewriteEps host names share overdrive none p = .ok (setEach names counts setCount p) ∧
      counts.length = names.length ∧
      largestRemainder (pyRound (share * overdrive)) (declaredEpsWeights host p names) =
        .ok counts := by
  have hlen : (declaredEpsWeights host p names).length = names.length := by
    simp [declaredEpsWeights]
  have hweights : weightsFor host p names none = .ok (declaredEpsWeights host p names) :=
    if_neg (by simp [declaredEpsWeights])
  obtain ⟨total, htotal⟩ := Int.eq_ofNat_of_zero_le (pyRound_nonneg hprod)
  obtain ⟨counts, hcounts, hcountsLen⟩ := largestRemainder_ok total
    (by simpa [declaredEpsWeights] using hne : declaredEpsWeights host p names ≠ [])
  rw [← htotal] at hcounts
  refine ⟨counts, ?_, hcountsLen.trans hlen, hcounts⟩
  change (weightsFor host p names none >>= _) = _
  rw [hweights]
  change (largestRemainder (pyRound (share * overdrive)) _ >>= _) = _
  rw [hcounts]
  rfl

end

end ConfRewrite

open ConfRewrite

/-- What the agent asks for in eps mode, without a backfill. -/
def epsRequest (share overdrive : ℚ) (sampleDir : Text) (slot totalWorkers : ℕ) :
    RewriteRequest where
  mode := .eps
  shareValue := some share
  overdrive := overdrive
  sampleDir := sampleDir
  slot := slot
  totalWorkers := totalWorkers

/-- After the eps rewrite the engine supplies the share exactly if the share is at most the sum of
the parts that the stanzas get of the overdriven share when that is rounded, each counted as one at
least. -/
theorem engine_keeps_up_iff (host : ConfHost) (p : Parser) (hmodes : ModesGiven p)
    (hpaced : pacedNames host p ≠ []) {share overdrive : ℚ} (hshare : 0 < share)
    (hover : 1 ≤ overdrive) (sampleDir : Text) (slot totalWorkers : ℕ) :
    ∃ (counts : List ℤ) (q : Parser),
      ConfRewrite.largestRemainder (pyRound (share * overdrive))
        (declaredEpsWeights host p (pacedNames host p)) = .ok counts ∧
      rewrite host (epsRequest share overdrive sampleDir slot totalWorkers) p = .ok q ∧
      pacedNames host q = pacedNames host p ∧
      (share ≤ supply host q ↔ share ≤ (counts.map fun (c : ℤ) => max 1 (c : ℚ)).sum) := by
  set r := epsRequest share overdrive sampleDir slot totalWorkers
  -- neither the output side nor the rate maps say which stanzas are paced, or how much each
  -- declares
  obtain ⟨flat, hflat, hflatNames, hflatGet⟩ := stripRateMaps_of_given host (hmodes.owned r)
  have hflatPaced : pacedNames host flat = pacedNames host p := by
    rw [pacedNames_congr hflatNames fun name => hflatGet name modeKey (by decide), pacedNames_owned]
  have hdeclared : declaredEpsWeights host flat (pacedNames host p) =
      declaredEpsWeights host p (pacedNames host p) := by
    refine declaredEpsWeights_congr ?_
    rintro name _ (rfl | rfl)
    · rw [hflatGet name countKey (by decide), get_owned r (by decide) (by decide)]
    · rw [hflatGet name intervalKey (by decide), get_owned r (by decide) (by decide)]
  rw [← hdeclared]
  rw [← hflatPaced] at hpaced ⊢
  set names := pacedNames host flat
  obtain ⟨counts, hcounts, hlen, hparts⟩ := rewriteEps_declared host flat hpaced
    (mul_nonneg hshare.le (by linarith : (0 : ℚ) ≤ overdrive))
  have hrewrite : rewrite host r p = .ok (setEach names counts setCount flat) := by
    apply rewrite_of_share hmodes rfl
    rw [← hflatPaced]
    exact rewriteShare_eps rfl rfl hshare hflat hpaced hcounts
  refine ⟨counts, _, hparts, hrewrite, ?_, ?_⟩
  · exact pacedNames_congr names_setEach fun _ => get_setEach_of get_setCount_mode
  · rw [supply_setEach hlen]

/-- A conf with one stanza that declares nothing. -/
def bareConf : Parser where
  defaults := { entries := [], nodup := nodup_nil }
  sections := [("web.log", { entries := [], nodup := nodup_nil })]
  distinct := by decide

/-- With the overdrive of the agent, one stanza and a share of ten events per second. -/
theorem engine_keeps_up_at_ten :
    ∃ q, rewrite digitsHost (epsRequest 10 (23 / 20) [] 0 1) bareConf = .ok q ∧
      10 ≤ supply digitsHost q := by
  obtain ⟨counts, q, hparts, hq, _, hsupply⟩ := engine_keeps_up_iff digitsHost bareConf (by decide)
    (by decide) (by norm_num : (0 : ℚ) < 10) (by norm_num : (1 : ℚ) ≤ 23 / 20) [] 0 1
  have htwelve : ConfRewrite.largestRemainder (pyRound (10 * (23 / 20)))
      (declaredEpsWeights digitsHost bareConf (pacedNames digitsHost bareConf)) = .ok [12] := by
    decide +kernel
  cases hparts.symm.trans htwelve
  exact ⟨q, hq, hsupply.2 (by norm_num)⟩

/-- With the same overdrive, a share of 1.2 events per second is rewritten to one event per
second. -/
theorem engine_falls_behind :
    ¬ ∀ (host : ConfHost) (p q : Parser) (share overdrive : ℚ), ModesGiven p →
      pacedNames host p ≠ [] →
      0 < share → 1 ≤ overdrive → rewrite host (epsRequest share overdrive [] 0 1) p = .ok q →
      share ≤ supply host q := by
  intro h
  have hrun : (rewrite digitsHost (epsRequest (6 / 5) (23 / 20) [] 0 1) bareConf).toOption.map
      (supply digitsHost) = some 1 := by decide +kernel
  cases hq : rewrite digitsHost (epsRequest (6 / 5) (23 / 20) [] 0 1) bareConf with
  | error e =>
    rw [hq] at hrun
    cases hrun
  | ok q =>
    rw [hq] at hrun
    have hsupply : supply digitsHost q = 1 := Option.some.inj hrun
    have hle := h digitsHost bareConf q (6 / 5) (23 / 20) (by decide) (by decide) (by norm_num)
      (by norm_num) hq
    rw [hsupply] at hle
    norm_num at hle

end Stoker

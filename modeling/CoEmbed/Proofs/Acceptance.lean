import CoEmbed.Proofs.Run

/-!
# Accepted Settings

A configuration is accepted exactly if its settings pass every check, and it then holds the
settings as they were given, but for the name of the metric.

* `Settings.Accepted` — all that the checks say.
* `Config.ofSettings_eq_ok_iff` — settings are accepted exactly if they say it.
* `Settings.Accepted.settings_of_ne` — what an accepted configuration holds.
* `Settings.Accepted.withRate` — the rate is not looked at.

## Name convention

A metric may be given under any of its names. What is kept is its proper name.
-/

namespace CoEmbed

variable {α : Type} [Numeral α]

/-- A metric is found under **its proper name**. -/
theorem Metric.ofSetting_name (metric : Metric) :
    Metric.ofSetting (Setting.text (α := α) metric.name) = .ok metric := by
  have hname : Metric.ofName? metric.name = some metric := by cases metric <;> decide
  simp only [Metric.ofSetting, Setting.shown, hname]

/-- Settings that **pass every check**, and the configuration that is made of them. -/
structure Settings.Accepted (s : Settings α) (c : Config α) : Prop where
  factor : (s .factor).atMost 0 = .ok false
  iterations : (s .iterations).below 1 = .ok false
  share : (s .validationShare).isShare = .ok true
  biases : ((s .updateGlobalBias).holds && !(s .useBias).holds) = false
  confidences : s.negativeConfidence = .ok false
  ridges : ∃ least, s.leastRidge = .ok least ∧ Scalar.lt least 0 = false
  negatives : (s .negatives).below 1 = .ok false
  shift : (s .shift).atMost 0 = .ok false
  metric : Metric.ofSetting (s .metric) = .ok c.metric
  init : s.vectorInit = .ok c.init
  settings : c.settings = s.set .metric (.text c.metric.name)

/-- Settings are **accepted** exactly if they pass every check. -/
theorem Config.ofSettings_eq_ok_iff {s : Settings α} {c : Config α} :
    Config.ofSettings s = .ok c ↔ s.Accepted c := by
  constructor
  · intro h
    obtain ⟨factor, hfactor, h⟩ := bind_eq_ok_iff.1 h
    obtain ⟨_, hfactor', h⟩ := bind_eq_ok_iff.1 h
    obtain ⟨iterations, hiterations, h⟩ := bind_eq_ok_iff.1 h
    obtain ⟨_, hiterations', h⟩ := bind_eq_ok_iff.1 h
    obtain ⟨share, hshare, h⟩ := bind_eq_ok_iff.1 h
    obtain ⟨_, hshare', h⟩ := bind_eq_ok_iff.1 h
    obtain ⟨_, hbiases, h⟩ := bind_eq_ok_iff.1 h
    obtain ⟨negative, hnegative, h⟩ := bind_eq_ok_iff.1 h
    obtain ⟨_, hnegative', h⟩ := bind_eq_ok_iff.1 h
    obtain ⟨least, hleast, h⟩ := bind_eq_ok_iff.1 h
    obtain ⟨_, hleast', h⟩ := bind_eq_ok_iff.1 h
    obtain ⟨few, hfew, h⟩ := bind_eq_ok_iff.1 h
    obtain ⟨_, hfew', h⟩ := bind_eq_ok_iff.1 h
    obtain ⟨shift, hshift, h⟩ := bind_eq_ok_iff.1 h
    obtain ⟨_, hshift', h⟩ := bind_eq_ok_iff.1 h
    obtain ⟨metric, hmetric, h⟩ := bind_eq_ok_iff.1 h
    obtain ⟨init, hinit, h⟩ := bind_eq_ok_iff.1 h
    obtain rfl := Except.ok.inj h
    obtain rfl := refuseIf_eq_ok_iff.1 hfactor'
    obtain rfl := refuseIf_eq_ok_iff.1 hiterations'
    obtain rfl : share = true := by simpa using refuseIf_eq_ok_iff.1 hshare'
    obtain rfl := refuseIf_eq_ok_iff.1 hnegative'
    obtain rfl := refuseIf_eq_ok_iff.1 hfew'
    obtain rfl := refuseIf_eq_ok_iff.1 hshift'
    exact {
      factor := hfactor
      iterations := hiterations
      share := hshare
      biases := refuseIf_eq_ok_iff.1 hbiases
      confidences := hnegative
      ridges := ⟨least, hleast, refuseIf_eq_ok_iff.1 hleast'⟩
      negatives := hfew
      shift := hshift
      metric := hmetric
      init := hinit
      settings := rfl }
  · intro h
    obtain ⟨least, hleast, hleast'⟩ := h.ridges
    obtain ⟨settings, metric, init⟩ := c
    obtain rfl : settings = s.set .metric (.text metric.name) := h.settings
    refine bind_eq_ok_iff.2 ⟨false, h.factor, bind_eq_ok_iff.2 ⟨(), rfl, ?_⟩⟩
    refine bind_eq_ok_iff.2 ⟨false, h.iterations, bind_eq_ok_iff.2 ⟨(), rfl, ?_⟩⟩
    refine bind_eq_ok_iff.2 ⟨true, h.share, bind_eq_ok_iff.2 ⟨(), rfl, ?_⟩⟩
    refine bind_eq_ok_iff.2 ⟨(), refuseIf_eq_ok_iff.2 h.biases, ?_⟩
    refine bind_eq_ok_iff.2 ⟨false, h.confidences, bind_eq_ok_iff.2 ⟨(), rfl, ?_⟩⟩
    refine bind_eq_ok_iff.2 ⟨least, hleast, ?_⟩
    refine bind_eq_ok_iff.2 ⟨(), refuseIf_eq_ok_iff.2 hleast', ?_⟩
    refine bind_eq_ok_iff.2 ⟨false, h.negatives, bind_eq_ok_iff.2 ⟨(), rfl, ?_⟩⟩
    refine bind_eq_ok_iff.2 ⟨false, h.shift, bind_eq_ok_iff.2 ⟨(), rfl, ?_⟩⟩
    exact bind_eq_ok_iff.2 ⟨metric, h.metric, bind_eq_ok_iff.2 ⟨init, h.init, rfl⟩⟩

/-- The configuration with another **rate**. -/
def Config.withRate {α : Type} (c : Config α) (v : Setting α) : Config α :=
  { c with settings := c.settings.set .convergenceRate v }

/-- The initial model does not depend on the rate. -/
theorem Recommender.newModel_withRate (c : Config α) (v : Setting α) :
    newModel (c.withRate v) = newModel c := rfl

namespace Settings.Accepted

variable {s : Settings α} {c : Config α}

/-- An accepted configuration holds **what was given**, but for the name of the metric. -/
theorem settings_of_ne (h : s.Accepted c) {p : Hyperparameter} (hp : p ≠ .metric) :
    c.settings p = s p := by
  rw [h.settings]
  exact if_neg hp

/-- What is held in the place of the metric names the **same metric**. -/
theorem ofSetting_metric (h : s.Accepted c) : Metric.ofSetting (c.settings .metric)
    = .ok c.metric := by
  rw [h.settings]
  exact Metric.ofSetting_name c.metric

/-- Settings that agree in what vectors are drawn from have the same **scheme**. -/
theorem init_eq {s' : Settings α} {c' : Config α} (h : s.Accepted c) (h' : s'.Accepted c')
    (hfactor : s .factor = s' .factor) (hname : s .initialisation = s' .initialisation)
    (hbound : s .initialBound = s' .initialBound) (hstddev : s .initialStddev = s' .initialStddev) :
    c.init = c'.init := by
  have hinit := h.init
  rw [vectorInit, hfactor, hname, hbound, hstddev] at hinit
  exact Except.ok.inj (hinit.symm.trans h'.init)

/-- Settings are accepted **whatever the rate** is below which a decrease is not worth a sweep. -/
theorem withRate (h : s.Accepted c) (v : Setting α) :
    (s.set .convergenceRate v).Accepted (c.withRate v) where
  factor := h.factor
  iterations := h.iterations
  share := h.share
  biases := h.biases
  confidences := h.confidences
  ridges := h.ridges
  negatives := h.negatives
  shift := h.shift
  metric := h.metric
  init := h.init
  settings := by
    funext p
    rw [Config.withRate, h.settings]
    cases p <;> rfl

end Settings.Accepted

end CoEmbed

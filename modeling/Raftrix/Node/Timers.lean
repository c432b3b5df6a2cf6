import Raftrix.Model.Config

/-!
# The timers of an accepted configuration

`validate` compares the three intervals pairwise: the heartbeat is below the minimum, and the minimum
below the maximum. The timers should then be `Sound`: `resetElectionTimer` does not panic, no result of the
64-bit arithmetic leaves its range, and every timeout it can draw is positive, from the minimum up and
below the maximum, and longer than the heartbeat interval, which is positive too.

Nothing bounds the intervals from below or above. **`timers_sound_iff`**: it is enough that the heartbeat
is positive and the longest timeout still fits in 64 bits of nanoseconds (`InRange`), and it is also needed
where the multiplication of `resetHeartbeatTimer` stays in range (`HeartbeatFits`): a heartbeat so negative
that the product wraps around would count as positive. `accepted_config_breaks_timers`: configurations that
are accepted and break the timers.
-/

namespace Raftrix

namespace RaftConfig

variable {cfg : RaftConfig} {n a b : Int64} {seed : Nat}

/-- The integer is in the range of an `int`, from `-2^63` up and below `2^63`. -/
def Fits (x : Int) : Prop := -9223372036854775808 ≤ x ∧ x < 9223372036854775808

instance (x : Int) : Decidable (Fits x) := inferInstanceAs (Decidable (_ ∧ _))

/-- The timers work. -/
structure Sound (cfg : RaftConfig) : Prop where
  noPanic : ∀ seed, (cfg.electionTimeout seed).isSome = true
  /-- `max-min`, `min+rand.Intn(max-min)` and the multiplication by `time.Millisecond`. -/
  span : Fits (cfg.electionTimeoutMaxMs.toInt - cfg.electionTimeoutMinMs.toInt)
  draw : ∀ seed, ∀ r ∈ intn (cfg.electionTimeoutMaxMs - cfg.electionTimeoutMinMs) seed,
    Fits (cfg.electionTimeoutMinMs.toInt + r.toInt) ∧
      Fits ((cfg.electionTimeoutMinMs.toInt + r.toInt) * 1000000)
  timeout : ∀ seed, ∀ d ∈ cfg.electionTimeout seed,
    0 < d.toInt ∧ cfg.electionTimeoutMinMs.toInt * 1000000 ≤ d.toInt ∧
      d.toInt < cfg.electionTimeoutMaxMs.toInt * 1000000 ∧ cfg.heartbeatInterval.toInt < d.toInt
  heartbeat : 0 < cfg.heartbeatInterval.toInt

/-- The multiplication of `resetHeartbeatTimer` does not overflow. -/
def HeartbeatFits (cfg : RaftConfig) : Prop := Fits (cfg.heartbeatIntervalMs.toInt * 1000000)

/-- The heartbeat is positive, and the longest timeout fits in 64 bits. -/
def InRange (cfg : RaftConfig) : Prop :=
  0 < cfg.heartbeatIntervalMs.toInt ∧
    (cfg.electionTimeoutMaxMs.toInt - 1) * 1000000 < 9223372036854775808

instance (cfg : RaftConfig) : Decidable cfg.InRange := inferInstanceAs (Decidable (_ ∧ _))

/-! ## The arithmetic -/

theorem bmod_of_fits {x : Int} {m : Nat} (hm : m = 18446744073709551616) (h : Fits x) :
    x.bmod m = x := by
  obtain ⟨hlo, hhi⟩ := h
  exact Int.bmod_eq_of_le (by omega) (by omega)

theorem fits_toInt (a : Int64) : Fits a.toInt := ⟨Int64.le_toInt a, Int64.toInt_lt a⟩

theorem toInt_sub_of_fits (h : Fits (a.toInt - b.toInt)) : (a - b).toInt = a.toInt - b.toInt := by
  rw [Int64.toInt_sub, bmod_of_fits rfl h]

theorem toInt_add_of_fits (h : Fits (a.toInt + b.toInt)) : (a + b).toInt = a.toInt + b.toInt := by
  rw [Int64.toInt_add, bmod_of_fits rfl h]

theorem toInt_millisecond (h : Fits (a.toInt * 1000000)) :
    (a * millisecond).toInt = a.toInt * 1000000 := by
  rw [Int64.toInt_mul, show millisecond.toInt = 1000000 from rfl, bmod_of_fits rfl h]

/-- What `rand.Intn` can return. -/
theorem intn_cases (hn : 0 < n.toInt) (seed : Nat) :
    ∃ r : Int64, intn n seed = some r ∧ r.toInt = seed % n.toInt := by
  have hpos : ¬ n ≤ 0 := by
    rw [Int64.le_iff_toInt_le]
    exact Int.not_le.mpr hn
  refine ⟨_, if_neg hpos, ?_⟩
  have hlo := Int.emod_nonneg (seed : Int) (Int.ne_of_gt hn)
  have hhi := Int.emod_lt_of_pos (seed : Int) hn
  have hlt := (fits_toInt n).2
  rw [Int64.toInt_ofInt]
  exact bmod_of_fits rfl ⟨by omega, by omega⟩

/-- Sound timers have a positive heartbeat, if its product is exact, and the last timeout fits. -/
theorem Sound.inRange (h : cfg.Sound) (hexact : cfg.HeartbeatFits)
    (hlt : cfg.electionTimeoutMinMs.toInt < cfg.electionTimeoutMaxMs.toInt) : cfg.InRange := by
  have hbeat := h.heartbeat
  rw [heartbeatInterval, toInt_millisecond hexact] at hbeat
  -- the last number that can be drawn
  have hspan := toInt_sub_of_fits h.span
  obtain ⟨r, hr, hval⟩ := intn_cases (n := cfg.electionTimeoutMaxMs - cfg.electionTimeoutMinMs)
    (by omega) (cfg.electionTimeoutMaxMs.toInt - cfg.electionTimeoutMinMs.toInt - 1).toNat
  have hlast : r.toInt = cfg.electionTimeoutMaxMs.toInt - cfg.electionTimeoutMinMs.toInt - 1 := by
    rw [hval, hspan, Int.toNat_of_nonneg (by omega), Int.emod_eq_of_lt (by omega) (by omega)]
  have hfits := (h.draw _ r hr).2.2
  exact ⟨by omega, by omega⟩

/-- And that is enough. -/
theorem InRange.sound (h : cfg.InRange)
    (hmin : cfg.heartbeatIntervalMs.toInt < cfg.electionTimeoutMinMs.toInt)
    (hlt : cfg.electionTimeoutMinMs.toInt < cfg.electionTimeoutMaxMs.toInt) :
    cfg.Sound ∧ cfg.HeartbeatFits := by
  obtain ⟨hbeat, hmax⟩ := h
  have hfits : Fits (cfg.electionTimeoutMaxMs.toInt - cfg.electionTimeoutMinMs.toInt) :=
    ⟨by omega, by omega⟩
  have hspan := toInt_sub_of_fits hfits
  have hpos : 0 < (cfg.electionTimeoutMaxMs - cfg.electionTimeoutMinMs).toInt := by omega
  -- every number drawn is between zero and the span
  have hdraw : ∀ seed, ∃ r, intn (cfg.electionTimeoutMaxMs - cfg.electionTimeoutMinMs) seed = some r ∧
      0 ≤ r.toInt ∧ cfg.electionTimeoutMinMs.toInt + r.toInt < cfg.electionTimeoutMaxMs.toInt := by
    intro seed
    obtain ⟨r, hr, hval⟩ := intn_cases hpos seed
    have hlo := Int.emod_nonneg (seed : Int) (Int.ne_of_gt hpos)
    have hhi := Int.emod_lt_of_pos (seed : Int) hpos
    exact ⟨r, hr, by omega, by omega⟩
  have hbeatFits : Fits (cfg.heartbeatIntervalMs.toInt * 1000000) := ⟨by omega, by omega⟩
  have hinterval : cfg.heartbeatInterval.toInt = cfg.heartbeatIntervalMs.toInt * 1000000 :=
    toInt_millisecond hbeatFits
  refine ⟨⟨fun seed => ?_, hfits, fun seed r hr => ?_, fun seed d hd => ?_, by omega⟩, hbeatFits⟩
  · obtain ⟨r, hr, _⟩ := hdraw seed
    rw [electionTimeout, hr]
    rfl
  · obtain ⟨r', hr', hlo, hhi⟩ := hdraw seed
    obtain rfl : r' = r := Option.some.inj (hr'.symm.trans hr)
    exact ⟨⟨by omega, by omega⟩, ⟨by omega, by omega⟩⟩
  · obtain ⟨r, hr, hlo, hhi⟩ := hdraw seed
    rw [electionTimeout, hr, Option.map_some] at hd
    obtain rfl := Option.some.inj hd
    have hsum : (cfg.electionTimeoutMinMs + r).toInt = cfg.electionTimeoutMinMs.toInt + r.toInt :=
      toInt_add_of_fits ⟨by omega, by omega⟩
    have hprod : ((cfg.electionTimeoutMinMs + r) * millisecond).toInt =
        (cfg.electionTimeoutMinMs.toInt + r.toInt) * 1000000 := by
      rw [toInt_millisecond (by rw [hsum]; exact ⟨by omega, by omega⟩), hsum]
    rw [hprod, hinterval]
    refine ⟨by omega, by omega, by omega, by omega⟩

end RaftConfig

/-- A configuration that `validate` accepts has its intervals in order. -/
theorem Config.validate_eq_none {cfg : Config} (h : cfg.validate = none) :
    cfg.raft.heartbeatIntervalMs.toInt < cfg.raft.electionTimeoutMinMs.toInt ∧
      cfg.raft.electionTimeoutMinMs.toInt < cfg.raft.electionTimeoutMaxMs.toInt := by
  unfold Config.validate at h
  split at h
  · cases h
  · split at h
    · cases h
    · split at h
      · cases h
      · rename_i hmin
        split at h
        · cases h
        · rename_i hbeat
          rw [ge_iff_le, Int64.le_iff_toInt_le] at hmin hbeat
          exact ⟨Int.not_le.mp hbeat, Int.not_le.mp hmin⟩

/-- `Load` returns what `validate` accepts. -/
theorem Config.load_eq (cfg : Config) (h : cfg.applyDefaults.validate = none) :
    cfg.load = .ok cfg.applyDefaults := by
  rw [load, h]

/-- **The timers of an accepted configuration are sound if the heartbeat is positive and the longest
timeout fits in 64 bits**, and only then as long as the product of the heartbeat does not overflow, which
it then does not. For every configuration that `Load` accepts, its defaults filled in. -/
theorem timers_sound_iff {cfg cfg' : Config} (h : cfg.load = .ok cfg') :
    (cfg'.raft.InRange → cfg'.raft.Sound ∧ cfg'.raft.HeartbeatFits) ∧
      (cfg'.raft.Sound → cfg'.raft.HeartbeatFits → cfg'.raft.InRange) := by
  have hvalid : cfg'.validate = none := by
    unfold Config.load at h
    split at h
    · cases h
    · rename_i hnone
      cases h
      exact hnone
  obtain ⟨hbeat, hlt⟩ := Config.validate_eq_none hvalid
  exact ⟨fun hrange => hrange.sound hbeat hlt, fun hsound hexact => hsound.inRange hexact hlt⟩

/-- A configuration with the given intervals and nothing else that is optional. -/
def Config.withIntervals (min max heartbeat : Int64) : Config where
  node := ⟨"node-1", ":9001"⟩
  peers := []
  raft := ⟨min, max, heartbeat, 0⟩
  storage := ⟨"", ""⟩
  server := ⟨""⟩

theorem timers_sound_defaults :
    (Config.withIntervals 0 0 0).load = .ok (Config.withIntervals 0 0 0).applyDefaults ∧
      (Config.withIntervals 0 0 0).applyDefaults.raft.Sound :=
  ⟨Config.load_eq _ (by decide),
    ((timers_sound_iff (Config.load_eq _ (by decide))).1 (by decide)).1⟩

/-- **Accepted configurations break the timers.** With negative intervals a timeout is negative and so is
the heartbeat; with the widest ones `rand.Intn` panics; and a timeout of 300 years overflows. -/
theorem accepted_config_breaks_timers :
    let negative := Config.withIntervals (-5) 5 (-10)
    let widest := Config.withIntervals (-9223372036854775807) 9223372036854775807 (-9223372036854775808)
    let long := Config.withIntervals 9460800000000 9460800000001 50
    negative.load = .ok negative.applyDefaults ∧
      negative.applyDefaults.raft.electionTimeout 0 = some (-5000000) ∧
      negative.applyDefaults.raft.heartbeatInterval = -10000000 ∧
    widest.load = .ok widest.applyDefaults ∧ widest.applyDefaults.raft.electionTimeout 0 = none ∧
    long.load = .ok long.applyDefaults ∧
      (∃ d ∈ long.applyDefaults.raft.electionTimeout 0, d < 0) := by
  exact ⟨Config.load_eq _ (by decide), by decide, by decide, Config.load_eq _ (by decide), by decide,
    Config.load_eq _ (by decide), _, rfl, by decide⟩

end Raftrix

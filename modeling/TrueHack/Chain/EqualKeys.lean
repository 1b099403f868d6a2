-- SUMMARY: Equal keys that miss each other: the text of a key shows the zones its times were written in.
import TrueHack.Chain.Cache

/-!
# Equal keys

`CacheKey.equal` compares instants, and the cache compares texts, in which a time
stands with its offset and its abbreviation. So equal keys find each other's
answers only if their times are in the same zones.
-/

namespace Chain

open Go

variable {k₁ k₂ : CacheKey} {loc : Location}

/-- Equal times in one zone are the same. -/
theorem time_eq_of_equal {t u : Time} (h : t.equal u = true) (hzone : t.zone = u.zone) : t = u := by
  obtain ⟨hunix, hnsec⟩ := Time.equal_iff.mp h
  cases t
  cases u
  cases hunix
  cases hnsec
  cases hzone
  rfl

/-- Equal keys whose times are in the same zones have one text. -/
theorem string_eq_of_zones (hequal : k₁.equal k₂ = true)
    (hstart : k₁.startTime.zone = k₂.startTime.zone) (hend : k₁.endTime.zone = k₂.endTime.zone) :
    k₁.string = k₂.string := by
  obtain ⟨hquestion, hstart', hend', hmetrics⟩ := CacheKey.equal_iff.mp hequal
  have hkeys : k₁ = k₂ := by
    cases k₁
    cases k₂
    cases hquestion
    cases hmetrics
    cases time_eq_of_equal hstart' hstart
    cases time_eq_of_equal hend' hend
    rfl
  rw [hkeys]

/-- A value stored under a key is found under every key with its text until it expires. -/
theorem get_set_of_string_eq {V : Type} (cache : Cache V) (value : V) {setAt now : ℤ}
    (htext : k₁.string = k₂.string) (hnow : now ≤ setAt + cache.ttl) :
    ((cache.set k₁ value setAt).get k₂ now).1 = some value := by
  rw [Cache.get_fst, Cache.stored_set, ← htext, Function.update_self, Expiry.live_some,
    if_pos hnow]
  rfl

/-- Equal keys with parsed times have one text, and find each other's values, exactly when
    their start times are in one zone and their end times are. -/
theorem equal_hits_iff (V : Type) (loc : Location) (k₁ k₂ : CacheKey) (h₁ : k₁.Parsed loc)
    (h₂ : k₂.Parsed loc) (hequal : k₁.equal k₂ = true) :
    (k₁.string = k₂.string ∧ ∀ (cache : Cache V) (value : V) (setAt now : ℤ),
      now ≤ setAt + cache.ttl → ((cache.set k₁ value setAt).get k₂ now).1 = some value) ↔
    k₁.startTime.zone = k₂.startTime.zone ∧ k₁.endTime.zone = k₂.endTime.zone := by
  constructor
  · intro ⟨htext, _⟩
    have hquestion := (CacheKey.equal_iff.mp hequal).1
    obtain ⟨hstart, hend, _⟩ := CacheKey.times_eq_of_string_eq h₁ h₂ hquestion htext
    rw [hstart, hend]
    exact ⟨rfl, rfl⟩
  · intro ⟨hstart, hend⟩
    have htext := string_eq_of_zones hequal hstart hend
    exact ⟨htext, fun cache value setAt now hnow => get_set_of_string_eq cache value htext hnow⟩

/-- A key about the first second of 1970, with its times in `zone`. -/
def zonedKey (zone : Zone) : CacheKey :=
  ⟨"cpu?", ⟨0, 0, zone, zero_lt_second⟩, ⟨1, 0, zone, zero_lt_second⟩, ["up"]⟩

theorem zonedKey_utc_parsed : (zonedKey .utc).Parsed .ofUTC := by
  have hstart : parseRFC3339 .ofUTC "1970-01-01T00:00:00.0Z" = some (zonedKey .utc).startTime := by
    decide
  have hend : parseRFC3339 .ofUTC "1970-01-01T00:00:01Z" = some (zonedKey .utc).endTime := by
    decide
  exact ⟨⟨_, hstart⟩, ⟨_, hend⟩⟩

theorem zonedKey_fixed_parsed : (zonedKey (.fixed 3600)).Parsed .ofUTC := by
  have hstart : parseRFC3339 .ofUTC "1970-01-01T01:00:00+01:00" =
      some (zonedKey (.fixed 3600)).startTime := by
    decide
  have hend : parseRFC3339 .ofUTC "1970-01-01T01:00:01+01:00" =
      some (zonedKey (.fixed 3600)).endTime := by
    decide
  exact ⟨⟨_, hstart⟩, ⟨_, hend⟩⟩

/-- With both requests at the same offset, the second one finds the first one's answer. -/
theorem equal_hits_same_zone :
    (((Cache.new 10).set (zonedKey (.fixed 3600)) "fine" 0).get (zonedKey (.fixed 3600)) 10).1 =
      some "fine" := by
  have hiff := equal_hits_iff String .ofUTC _ _ zonedKey_fixed_parsed zonedKey_fixed_parsed
    (by decide)
  exact (hiff.mpr ⟨rfl, rfl⟩).2 (.new 10) "fine" 0 10 (by decide)

/-- The same instants at an offset of one hour are another text. -/
theorem equal_misses : ¬∀ k₁ k₂ : CacheKey, k₁.Parsed .ofUTC → k₂.Parsed .ofUTC →
    k₁.equal k₂ = true → k₁.string = k₂.string := by
  intro h
  have htext := h (zonedKey .utc) (zonedKey (.fixed 3600)) zonedKey_utc_parsed
    zonedKey_fixed_parsed (by decide)
  exact absurd htext (by decide)

end Chain

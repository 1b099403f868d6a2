-- SUMMARY: Ranking names by a fuzzy match: a stable sort, downwards, so the farthest match comes first.
import TrueHack.Base.Buckets

/-!
# Ranking by best match

`findBestMatch` sorts names by rank. A rank is a distance, or −1 for a name that
does not match, and the ranks are walked from the largest down: names that do not
match come last, as they should, and among those that match the closest comes
last.
-/

namespace Chain

variable (rank : String → String → ℤ)

/-- The map `matches` after the first loop of `findBestMatch`. -/
def rankMatches (userQuery : String) (data : List String) : GoMap ℤ (List String) :=
  Buckets.fill (rank userQuery) data

/-- `findBestMatch`, where `ranks` are the keys of `matches` as they were collected. -/
def findBestMatch (userQuery : String) (data : List String)
    (ranks : (rankMatches rank userQuery data).KeyOrder) : List String :=
  Buckets.drain (rankMatches rank userQuery data) ranks

/-- The result has the names of the input, each as often; names of one rank keep their
    order, the ranks go down, and the order of the map does not matter. -/
theorem findBestMatch_stable (userQuery : String) (data : List String)
    (ranks : (rankMatches rank userQuery data).KeyOrder) :
    (findBestMatch rank userQuery data ranks).Perm data ∧
    (∀ r, (findBestMatch rank userQuery data ranks).filter (fun name => rank userQuery name = r) =
      data.filter fun name => rank userQuery name = r) ∧
    (findBestMatch rank userQuery data ranks).Pairwise
      (fun name name' => rank userQuery name' ≤ rank userQuery name) ∧
    ∀ ranks', findBestMatch rank userQuery data ranks' = findBestMatch rank userQuery data ranks :=
  ⟨Buckets.drain_perm ranks, Buckets.drain_stable ranks, Buckets.drain_sorted ranks,
    fun ranks' => Buckets.drain_order ranks' ranks⟩

/-! ## Ranks that are distances -/

variable (distance : String → String → Option ℕ)

/-- `fuzzy.RankMatchNormalizedFold`: the distance of a name that matches, otherwise −1. -/
def rankMatch (source target : String) : ℤ :=
  match distance source target with
  | some d => d
  | none => -1

/-- Names that match come before those that do not, and of two names that match the
    closer one does not come after the farther. -/
structure BestFirst (userQuery : String) (names : List String) : Prop where
  matching : names.Pairwise fun name name' =>
    (distance userQuery name').isSome → (distance userQuery name).isSome
  closest : names.Pairwise fun name name' => ∀ d d', distance userQuery name = some d →
    distance userQuery name' = some d' → d ≤ d'

/-- If both names match, they are equally far. -/
def SameDistance (userQuery name name' : String) : Prop :=
  ∀ d d', distance userQuery name = some d → distance userQuery name' = some d' → d = d'

instance (userQuery : String) : Std.Symm (SameDistance distance userQuery) where
  symm _ _ h d d' hd hd' := (h d' d hd' hd).symm

/-- All names that match are equally far. -/
def EquallyFar (userQuery : String) (data : List String) : Prop :=
  ∀ name ∈ data, ∀ name' ∈ data, SameDistance distance userQuery name name'

variable {distance} {userQuery : String} {data : List String}
  {ranks : (rankMatches (rankMatch distance) userQuery data).KeyOrder}

/-- Of two names with falling ranks, the second matches only if the first does, and it is
    no farther. -/
theorem rankMatch_le {name name' : String}
    (h : rankMatch distance userQuery name' ≤ rankMatch distance userQuery name) {d' : ℕ}
    (hmatch : distance userQuery name' = some d') :
    ∃ d, distance userQuery name = some d ∧ d' ≤ d := by
  simp only [rankMatch, hmatch] at h
  cases hname : distance userQuery name with
  | none =>
      simp only [hname] at h
      omega
  | some d =>
      simp only [hname] at h
      exact ⟨d, rfl, Int.ofNat_le.mp h⟩

/-- Whatever the ranks are, names that match come first. -/
theorem findBestMatch_matching : (findBestMatch (rankMatch distance) userQuery data ranks).Pairwise
    fun name name' => (distance userQuery name').isSome → (distance userQuery name).isSome := by
  apply (Buckets.drain_sorted ranks).imp
  intro name name' hle hmatch
  obtain ⟨d', hd'⟩ := Option.isSome_iff_exists.mp hmatch
  obtain ⟨d, hd, _⟩ := rankMatch_le hle hd'
  simp [hd]

/-- The best match comes first exactly where all matches are equally good. -/
theorem bestFirst_iff (distance : String → String → Option ℕ) (userQuery : String)
    (data : List String) (ranks : (rankMatches (rankMatch distance) userQuery data).KeyOrder) :
    BestFirst distance userQuery (findBestMatch (rankMatch distance) userQuery data ranks) ↔
      EquallyFar distance userQuery data := by
  have hperm : (findBestMatch (rankMatch distance) userQuery data ranks).Perm data :=
    Buckets.drain_perm ranks
  constructor
  · intro hbest
    have hequal : (findBestMatch (rankMatch distance) userQuery data ranks).Pairwise
        (SameDistance distance userQuery) := by
      apply (hbest.closest.and (Buckets.drain_sorted ranks)).imp
      intro name name' ⟨hclosest, hle⟩ d d' hd hd'
      obtain ⟨e, he, hge⟩ := rankMatch_le hle hd'
      cases hd.symm.trans he
      exact le_antisymm (hclosest d d' hd hd') hge
    intro name hname name' hname'
    apply hequal.forall_of_forall
    · intro name _ d d' hd hd'
      exact Option.some.inj (hd.symm.trans hd')
    · exact hperm.mem_iff.mpr hname
    · exact hperm.mem_iff.mpr hname'
  · intro hequal
    constructor
    · exact findBestMatch_matching
    · refine List.pairwise_of_forall_mem_list ?_
      intro name hname name' hname' d d' hd hd'
      exact (hequal name (hperm.mem_iff.mp hname) name' (hperm.mem_iff.mp hname') d d' hd hd').le

/-- The distance of a name in lower case from a query in lower case: the query's
    characters are found one after the other, and the rest of the name is counted. -/
def skipped : List Char → List Char → Option ℕ
  | [], target => some target.length
  | _ :: _, [] => none
  | c :: source, d :: target =>
      if c = d then skipped source target else (skipped (c :: source) target).map (· + 1)

def plainDistance (source target : String) : Option ℕ := skipped source.toList target.toList

/-- An exact match comes after a name that merely contains the query. -/
theorem exact_match_last : ¬∀ userQuery data ranks, BestFirst plainDistance userQuery
    (findBestMatch (rankMatch plainDistance) userQuery data ranks) := by
  intro h
  let ranks : (rankMatches (rankMatch plainDistance) "cpu" ["cpu", "cpu_load"]).KeyOrder :=
    ⟨[0, 5], by decide⟩
  have hresult : findBestMatch (rankMatch plainDistance) "cpu" ["cpu", "cpu_load"] ranks =
      ["cpu_load", "cpu"] := by
    have hsorted : ranks.keys.mergeSort (· ≤ ·) = ranks.keys :=
      List.mergeSort_of_pairwise (by decide)
    rw [findBestMatch, Buckets.drain, hsorted]
    decide
  have hclosest := (h "cpu" ["cpu", "cpu_load"] ranks).closest
  rw [hresult] at hclosest
  have hle : 5 ≤ 0 := (List.pairwise_pair.mp hclosest) 5 0 (by decide) (by decide)
  exact absurd hle (by decide)

end Chain

-- SUMMARY: Go maps as finite maps: entries, values in no particular order, and deletion while ranging.
import Mathlib.Data.Finmap
import Mathlib.Data.List.Perm.Basic

/-!
# Go maps

A Go map is a finite map whose iteration order is up to the runtime. `Finmap`
has the map operations; this file adds what a program learns by ranging over a
map: its values as a multiset, and the loop that deletes entries as it goes.
-/

/-- `map[K]V`. -/
abbrev GoMap (K V : Type) := Finmap fun _ : K => V

namespace GoMap

/-- The keys of a map in the order in which one `range` over it meets them. -/
structure KeyOrder {K V : Type} (m : GoMap K V) where
  keys : List K
  complete : (keys : Multiset K) = m.keys.val

variable {K V : Type} [DecidableEq K] {m : GoMap K V} {k : K} {v : V}

theorem mem_entries : (⟨k, v⟩ : (_ : K) × V) ∈ m.entries ↔ m.lookup k = some v := by
  induction m using Finmap.induction_on with
  | H a => exact (Option.mem_def.symm.trans AList.mem_lookup_iff).symm

/-! ## Values -/

/-- The values a `range` over the map meets, each as often as it is stored. -/
def values (m : GoMap K V) : Multiset V := m.entries.map Sigma.snd

/-- If every value names its own key, the names of the values are the keys of the
    map, each once. -/
theorem map_values_eq_keys {name : V → K} (h : ∀ k v, m.lookup k = some v → name v = k) :
    m.values.map name = m.keys.val := by
  have hkeys : m.keys.val = m.entries.map Sigma.fst := rfl
  rw [hkeys, values, Multiset.map_map]
  refine Multiset.map_congr rfl ?_
  rintro ⟨k, v⟩ hmem
  exact h k v (mem_entries.mp hmem)

/-- The values belong to the keys, and a list that holds all values comes from walking the
    keys in some order. -/
theorem coe_eq_values_iff {l : List V} : (l : Multiset V) = m.values ↔
    ∃ keys : List K, keys.Nodup ∧ (∀ k, k ∈ keys ↔ (m.lookup k).isSome = true) ∧
      keys.map m.lookup = l.map some := by
  obtain ⟨es, hes⟩ := Quotient.exists_rep m.entries
  have hentries : m.entries = (es : Multiset _) := hes.symm
  have hvalues : m.values = ((es.map Sigma.snd : List V) : Multiset V) := by
    rw [values, hentries, Multiset.map_coe]
  have hnodup : (es.map Sigma.fst).Nodup := Multiset.coe_nodupKeys.mp (hentries ▸ m.nodupKeys)
  have hmem (e : (_ : K) × V) : e ∈ es ↔ m.lookup e.1 = some e.2 := by
    rw [← mem_entries, hentries, Multiset.mem_coe]
  have hkeys (k : K) : k ∈ es.map Sigma.fst ↔ (m.lookup k).isSome = true := by
    rw [List.mem_map, Option.isSome_iff_exists]
    constructor
    · rintro ⟨e, he, rfl⟩
      exact ⟨e.2, (hmem e).mp he⟩
    · rintro ⟨v, hv⟩
      exact ⟨⟨k, v⟩, (hmem ⟨k, v⟩).mpr hv, rfl⟩
  have hlookup : (es.map Sigma.fst).map m.lookup = (es.map Sigma.snd).map some := by
    rw [List.map_map, List.map_map]
    exact List.map_congr_left fun e he => (hmem e).mp he
  constructor
  · intro h
    have hperm : l.Perm (es.map Sigma.snd) := Multiset.coe_eq_coe.mp (h.trans hvalues)
    -- the order of the values is one of the entries
    have hcomp : Relation.Comp (· = List.map Sigma.snd ·) List.Perm l es := by
      rw [List.eq_map_comp_perm]
      exact hperm
    obtain ⟨es', hl, hes'⟩ := hcomp
    have hkeys' := hes'.map Sigma.fst
    refine ⟨es'.map Sigma.fst, hkeys'.nodup_iff.mpr hnodup, fun k => ?_, ?_⟩
    · rw [hkeys'.mem_iff, hkeys]
    · rw [hl, List.map_map, List.map_map]
      exact List.map_congr_left fun e he => (hmem e).mp (hes'.mem_iff.mp he)
  · rintro ⟨keys, hkeysNodup, hall, hl⟩
    have hperm : keys.Perm (es.map Sigma.fst) :=
      (List.perm_ext_iff_of_nodup hkeysNodup hnodup).mpr fun k => (hall k).trans (hkeys k).symm
    have hvaluesPerm := hperm.map m.lookup
    rw [hl, hlookup] at hvaluesPerm
    rw [hvalues]
    exact Multiset.coe_eq_coe.mpr
      ((List.map_perm_map_iff (Option.some_injective V)).mp hvaluesPerm)

/-! ## Deleting while ranging -/

/-- The loop body `if drop(v) { delete(m, k) }`. -/
private def dropEntry (drop : V → Bool) (rest : GoMap K V) (k : K) (v : V) : GoMap K V :=
  if drop v then rest.erase k else rest

private theorem dropEntry_comm (drop : V → Bool) (rest : GoMap K V) (k₁ : K) (v₁ : V)
    (k₂ : K) (v₂ : V) :
    dropEntry drop (dropEntry drop rest k₁ v₁) k₂ v₂ =
      dropEntry drop (dropEntry drop rest k₂ v₂) k₁ v₁ := by
  unfold dropEntry
  split <;> split <;> simp only [Finmap.erase_erase]

/-- `for k, v := range m { if drop(v) { delete(m, k) } }`. The deletions commute,
    so the result does not depend on the order of iteration. -/
def deleteWhere (drop : V → Bool) (m : GoMap K V) : GoMap K V :=
  m.foldl (dropEntry drop) (dropEntry_comm drop) m

private theorem lookup_dropEntry_of_kept {drop : V → Bool} {k' : K}
    (h : k = k' → drop v = false) : (dropEntry drop m k' v).lookup k = m.lookup k := by
  unfold dropEntry
  split
  · rename_i hd
    exact Finmap.lookup_erase_ne fun hk => by simp [h hk] at hd
  · rfl

private theorem lookup_dropEntry_none {drop : V → Bool} {k' : K} (h : m.lookup k = none) :
    (dropEntry drop m k' v).lookup k = none := by
  by_cases hk : k = k'
  · subst hk
    unfold dropEntry
    split
    · exact Finmap.lookup_erase k m
    · exact h
  · rw [lookup_dropEntry_of_kept fun hkk => absurd hkk hk, h]

/-- The loop leaves a key alone if it drops none of the key's entries. -/
private theorem foldl_lookup_of_kept {drop : V → Bool} (es : List ((_ : K) × V))
    (h : ∀ v, ⟨k, v⟩ ∈ es → drop v = false) (rest : GoMap K V) :
    (es.foldl (fun rest e => dropEntry drop rest e.1 e.2) rest).lookup k = rest.lookup k := by
  induction es generalizing rest with
  | nil => rfl
  | cons e es ih =>
      rw [List.foldl_cons, ih fun v hv => h v (List.mem_cons_of_mem _ hv)]
      refine lookup_dropEntry_of_kept fun hk => ?_
      subst hk
      exact h e.2 List.mem_cons_self

private theorem foldl_lookup_of_none {drop : V → Bool} (es : List ((_ : K) × V))
    (rest : GoMap K V) (h : rest.lookup k = none) :
    (es.foldl (fun rest e => dropEntry drop rest e.1 e.2) rest).lookup k = none := by
  induction es generalizing rest with
  | nil => exact h
  | cons e es ih => exact ih _ (lookup_dropEntry_none h)

/-- The loop removes a key one of whose entries it drops. -/
private theorem foldl_lookup_of_dropped {drop : V → Bool} {es : List ((_ : K) × V)}
    (hmem : ⟨k, v⟩ ∈ es) (hd : drop v = true) (rest : GoMap K V) :
    (es.foldl (fun rest e => dropEntry drop rest e.1 e.2) rest).lookup k = none := by
  induction es generalizing rest with
  | nil => cases hmem
  | cons e es ih =>
      rcases List.mem_cons.mp hmem with rfl | hmem
      · refine foldl_lookup_of_none es _ ?_
        simp [dropEntry, hd]
      · exact ih hmem _

/-- After the loop a key is bound to what it was bound to, unless that was to be
    dropped. -/
theorem lookup_deleteWhere {drop : V → Bool} :
    (m.deleteWhere drop).lookup k = (m.lookup k).filter fun v => !drop v := by
  induction m using Finmap.induction_on with
  | H a =>
      have hmem : ∀ v, (⟨k, v⟩ : (_ : K) × V) ∈ a.entries ↔ a.lookup k = some v := fun v =>
        (Option.mem_def.symm.trans AList.mem_lookup_iff).symm
      change (a.entries.foldl (fun rest e => dropEntry drop rest e.1 e.2) a.toFinmap).lookup k =
        (a.lookup k).filter fun v => !drop v
      cases hlookup : a.lookup k with
      | none =>
          rw [foldl_lookup_of_none _ _ (by rw [Finmap.lookup_toFinmap, hlookup])]
          rfl
      | some v =>
          cases hd : drop v with
          | true =>
              rw [foldl_lookup_of_dropped ((hmem v).mpr hlookup) hd]
              simp [Option.filter, hd]
          | false =>
              rw [foldl_lookup_of_kept _ fun v' hv' => ?_, Finmap.lookup_toFinmap, hlookup]
              · simp [Option.filter, hd]
              · obtain rfl := Option.some.inj (hlookup.symm.trans ((hmem v').mp hv'))
                exact hd

end GoMap

-- SUMMARY: What becomes of a selection under a budget when more of the items are vital.
import Mathlib.Data.List.Nodup
import Mathlib.Data.List.Pairwise
import TrueHack.Base.Budget

/-!
# More vital items

An item that becomes vital goes in front, and is taken even if it does not fit. The
selection stays the same if that changes nothing: nothing has been taken when the
item comes, and it fits.
-/

namespace Budget

variable {α : Type} (cap : ℕ) (weight : α → ℕ) (f : α → Bool)

/-- The items that `f` holds of are vital as well. -/
def promote (o : Offer α) : Offer α := ⟨o.vital || o.item.any f, o.item⟩

/-- The offer becomes vital. -/
def Promoted (o : Offer α) : Prop := o.vital = false ∧ ∃ a ∈ o.item, f a = true

/-- Nothing is taken of the offer, even if nothing has been taken before. -/
def Passed (o : Offer α) : Prop := ∀ a ∈ o.item, o.vital = false ∧ cap < weight a

/-- What becomes vital fits, and comes before anything is taken. -/
structure PromotedFirst (offers : List (Offer α)) : Prop where
  fits : ∀ o ∈ offers, Promoted f o → ∀ a ∈ o.item, weight a ≤ cap
  first : offers.Pairwise fun o o' => Promoted f o' → Passed cap weight o

variable {cap weight f} {offers : List (Offer α)} {o : Offer α} {a : α} {total : ℕ}

theorem promote_eq_iff : promote f o = o ↔ ¬Promoted f o := by
  obtain ⟨vital, item⟩ := o
  cases item with
  | none => simp [promote, Promoted]
  | some a => cases vital <;> simp [promote, Promoted]

/-- If nothing becomes vital, the offers are as before. -/
theorem map_promote (h : ∀ o ∈ offers, ¬Promoted f o) : offers.map (promote f) = offers := by
  have hsame : offers.map (promote f) = offers.map id :=
    List.map_congr_left fun o ho => promote_eq_iff.mpr (h o ho)
  rw [hsame, List.map_id]

theorem items_promote (offers : List (Offer α)) :
    items (offers.map (promote f)) = items offers := by
  rw [items, List.filterMap_map]
  rfl

theorem mem_items : a ∈ items offers ↔ ∃ o ∈ offers, o.item = some a := List.mem_filterMap

/-- An item that is offered once is offered by one offer. -/
theorem eq_of_item {o' : Offer α} (hnodup : (items offers).Nodup) (ho : o ∈ offers)
    (ho' : o' ∈ offers) (hitem : o.item = some a) (hitem' : o'.item = some a) : o = o' := by
  by_contra hne
  have hapart : offers.Pairwise fun o o' =>
      ∀ b, o.item = some b → ∀ b', o'.item = some b' → b ≠ b' := List.pairwise_filterMap.mp hnodup
  have : Std.Symm fun o o' : Offer α =>
      ∀ b, o.item = some b → ∀ b', o'.item = some b' → b ≠ b' :=
    ⟨fun o o' h b hb b' hb' => (h b' hb' b hb).symm⟩
  exact hapart.forall ho ho' hne a hitem a hitem' rfl

/-- The vital items show what has become vital. -/
theorem vitals_promote_iff (hnodup : (items offers).Nodup) :
    vitals (offers.map (promote f)) = vitals offers ↔ ∀ o ∈ offers, ¬Promoted f o := by
  constructor
  · intro heq o ho hpromoted
    obtain ⟨hvital, a, hitem, hf⟩ := hpromoted
    have hnow : a ∈ vitals (offers.map (promote f)) := by
      have hany : (promote f o).vital = true := by simp [promote, Option.mem_def.mp hitem, hf]
      exact mem_vitals.mpr ⟨_, List.mem_map_of_mem ho, hany, hitem⟩
    rw [heq] at hnow
    obtain ⟨o', ho', hvital', hitem'⟩ := mem_vitals.mp hnow
    obtain rfl := eq_of_item hnodup ho ho' hitem hitem'
    rw [hvital] at hvital'
    cases hvital'
  · intro h
    rw [map_promote h]

/-- What is taken when `total` is already spent: vital items in front, the latest first. -/
def taken (cap : ℕ) (weight : α → ℕ) (total : ℕ) (offers : List (Offer α)) : List α :=
  (vitals offers).reverse ++ accepted cap weight total offers

theorem mem_taken (h : a ∈ taken cap weight total offers) : a ∈ items offers := by
  rw [mem_items]
  rcases List.mem_append.mp h with hvital | haccepted
  · obtain ⟨o, ho, _, hitem⟩ := mem_vitals.mp (List.mem_reverse.mp hvital)
    exact ⟨o, ho, hitem⟩
  · exact mem_accepted haccepted

/-- An item that is taken parts the vital items behind it from the others. -/
theorem taken_cons {vital : Bool} (h : vital = true ∨ total + weight a ≤ cap) :
    taken cap weight total (⟨vital, some a⟩ :: offers) =
      (vitals offers).reverse ++ a :: accepted cap weight (total + weight a) offers := by
  cases vital with
  | true =>
      have hvitals : (vitals (⟨true, some a⟩ :: offers)).reverse = (vitals offers).reverse ++ [a] :=
        List.reverse_cons
      rw [taken, hvitals, List.append_assoc]
      rfl
  | false =>
      have hfits : total + weight a ≤ cap := h.resolve_left Bool.false_ne_true
      have haccepted : accepted cap weight total (⟨false, some a⟩ :: offers) =
          a :: accepted cap weight (total + weight a) offers := if_pos hfits
      rw [taken, haccepted]
      rfl

theorem taken_skipped (h : ¬total + weight a ≤ cap) :
    taken cap weight total (⟨false, some a⟩ :: offers) = taken cap weight total offers := by
  have haccepted : accepted cap weight total (⟨false, some a⟩ :: offers) =
      accepted cap weight total offers := if_neg h
  rw [taken, haccepted]
  rfl

theorem taken_none {vital : Bool} :
    taken cap weight total (⟨vital, none⟩ :: offers) = taken cap weight total offers := by
  rw [taken, vitals_cons_none]
  rfl

/-- Behind an item that is taken, everything is taken as before exactly if nothing more
    becomes vital. -/
theorem parted_promote_iff (hnodup : (items offers).Nodup) (ha : a ∉ items offers) :
    (vitals (offers.map (promote f))).reverse ++
        a :: accepted cap weight total (offers.map (promote f)) =
      (vitals offers).reverse ++ a :: accepted cap weight total offers ↔
    ∀ o ∈ offers, ¬Promoted f o := by
  have hnot : a ∉ taken cap weight total (offers.map (promote f)) := by
    intro hmem
    exact ha (items_promote offers ▸ mem_taken hmem)
  obtain ⟨hvitals, haccepted⟩ := not_or.mp (mt List.mem_append.mpr hnot)
  rw [List.append_cons_inj_of_notMem hvitals haccepted, List.reverse_inj]
  constructor
  · intro ⟨hsame, _⟩
    exact (vitals_promote_iff hnodup).mp hsame
  · intro h
    rw [map_promote h]
    exact ⟨rfl, rfl, rfl⟩

theorem promotedFirst_cons : PromotedFirst cap weight f (o :: offers) ↔
    (Promoted f o → ∀ a ∈ o.item, weight a ≤ cap) ∧
      (∀ o' ∈ offers, Promoted f o' → Passed cap weight o) ∧
      PromotedFirst cap weight f offers := by
  constructor
  · intro ⟨hfits, hfirst⟩
    obtain ⟨hhead, htail⟩ := List.pairwise_cons.mp hfirst
    exact ⟨hfits o List.mem_cons_self, hhead,
      fun o' ho' => hfits o' (List.mem_cons_of_mem o ho'), htail⟩
  · intro ⟨hfits, hhead, hrest⟩
    refine ⟨fun o' ho' => ?_, List.pairwise_cons.mpr ⟨hhead, hrest.first⟩⟩
    rcases List.mem_cons.mp ho' with rfl | ho'
    · exact hfits
    · exact hrest.fits o' ho'

/-- Behind an offer that is passed over, the rest decides. -/
theorem promotedFirst_passed (hpassed : Passed cap weight o) (hnot : ¬Promoted f o) :
    PromotedFirst cap weight f (o :: offers) ↔ PromotedFirst cap weight f offers := by
  rw [promotedFirst_cons]
  constructor
  · exact fun h => h.2.2
  · exact fun h => ⟨fun hpromoted => absurd hpromoted hnot, fun _ _ _ => hpassed, h⟩

/-- Behind an offer that is not passed over, nothing may become vital. -/
theorem promotedFirst_taken (htaken : ¬Passed cap weight o) :
    PromotedFirst cap weight f (o :: offers) ↔
      (Promoted f o → ∀ a ∈ o.item, weight a ≤ cap) ∧ ∀ o' ∈ offers, ¬Promoted f o' := by
  rw [promotedFirst_cons]
  constructor
  · intro ⟨hfits, hhead, _⟩
    exact ⟨hfits, fun o' ho' hpromoted => htaken (hhead o' ho' hpromoted)⟩
  · intro ⟨hfits, hnone⟩
    refine ⟨hfits, fun o' ho' hpromoted => absurd hpromoted (hnone o' ho'),
      fun o' ho' hpromoted => absurd hpromoted (hnone o' ho'), ?_⟩
    exact List.pairwise_of_forall_mem_list fun o' _ o'' ho'' hpromoted =>
      absurd hpromoted (hnone o'' ho'')

/-- The same is taken, in the same order, exactly if what becomes vital comes before
    anything is taken, and fits. -/
theorem pick_promote_iff (hnodup : (items offers).Nodup) :
    (pick cap weight (offers.map (promote f))).all = (pick cap weight offers).all ↔
      PromotedFirst cap weight f offers := by
  rw [pick_all, pick_all]
  change taken cap weight 0 (offers.map (promote f)) = taken cap weight 0 offers ↔ _
  induction offers with
  | nil => exact iff_of_true rfl ⟨nofun, .nil⟩
  | cons o offers ih =>
      obtain ⟨vital, item⟩ := o
      cases item with
      | none =>
          rw [promotedFirst_passed nofun (by simp [Promoted]), List.map_cons, promote, taken_none,
            taken_none]
          exact ih hnodup
      | some a =>
          obtain ⟨ha, hrest⟩ := List.nodup_cons.mp hnodup
          have hzero : 0 + weight a = weight a := Nat.zero_add _
          rw [List.map_cons, promote]
          by_cases htaken : vital = true ∨ 0 + weight a ≤ cap
          · -- the item is taken, now and before
            have hnow : (vital || (some a).any f) = true ∨ 0 + weight a ≤ cap :=
              htaken.imp_left fun hvital => by rw [hvital, Bool.true_or]
            have hpassed : ¬Passed cap weight ⟨vital, some a⟩ := by
              intro hpassed
              obtain ⟨hordinary, hover⟩ := hpassed a rfl
              rcases htaken with hvital | hfits
              · exact Bool.false_ne_true (hordinary.symm.trans hvital)
              · omega
            rw [taken_cons hnow, taken_cons htaken, parted_promote_iff hrest ha,
              promotedFirst_taken hpassed, and_iff_right]
            intro hpromoted b hb
            obtain rfl := Option.some.inj hb
            rcases htaken with hvital | hfits
            · exact absurd (hpromoted.1.symm.trans hvital) Bool.false_ne_true
            · rwa [← hzero]
          · obtain ⟨hordinary, hover⟩ := not_or.mp htaken
            obtain rfl := Bool.eq_false_iff.mpr hordinary
            rw [taken_skipped hover]
            cases hf : f a with
            | true =>
                -- the item is taken only now
                have hmem : a ∈ taken cap weight 0
                    (⟨false || (some a).any f, some a⟩ :: offers.map (promote f)) := by
                  rw [taken_cons (.inl (by simp [hf]))]
                  simp
                refine iff_of_false (fun heq => ha (mem_taken (heq ▸ hmem))) fun h => hover ?_
                rw [hzero]
                exact h.fits _ List.mem_cons_self ⟨rfl, a, rfl, hf⟩ a rfl
            | false =>
                have hpassed : Passed cap weight ⟨false, some a⟩ := by
                  intro b hb
                  obtain rfl := Option.some.inj hb
                  exact ⟨rfl, by omega⟩
                rw [promotedFirst_passed hpassed (by simp [Promoted, hf]), ← ih hrest,
                  Option.any_some, hf, Bool.or_false, taken_skipped hover]

end Budget

-- SUMMARY: Selection under a budget in one pass, with vital items that are always taken.
import Mathlib.Algebra.BigOperators.Group.List.Basic
import Mathlib.Algebra.GroupWithZero.Nat

/-!
# Selection under a budget

Offers come one at a time. A vital item is taken whatever it weighs; any other
item is taken if it still fits. The vital items can so push the total over the
budget, and `LeavesRoom` says exactly when they do not.
-/

namespace Budget

variable {α : Type}

/-- What a position offers: an item or nothing, vital or not. -/
structure Offer (α : Type) where
  vital : Bool
  item : Option α

/-- What has been taken: vital items, the latest first, and the others in order. -/
structure Pick (α : Type) where
  front : List α
  back : List α
  total : ℕ

def Pick.empty : Pick α := ⟨[], [], 0⟩

/-- Everything taken, vital items in front. -/
def Pick.all (p : Pick α) : List α := p.front ++ p.back

variable (cap : ℕ) (weight : α → ℕ)

/-- Decide about one offer. -/
def visit (p : Pick α) (o : Offer α) : Pick α :=
  match o.item with
  | none => p
  | some a =>
      if o.vital then { p with front := a :: p.front, total := p.total + weight a }
      else if p.total + weight a ≤ cap then
        { p with back := p.back ++ [a], total := p.total + weight a }
      else p

/-- Decide about all offers in order. -/
def pick (offers : List (Offer α)) : Pick α := offers.foldl (visit cap weight) .empty

/-- The weight of a vital item, and zero for anything else. -/
def vitalWeight (o : Offer α) : ℕ :=
  match o.item with
  | none => 0
  | some a => if o.vital then weight a else 0

/-- The weight of all vital items together. -/
def vitalTotal (offers : List (Offer α)) : ℕ := (offers.map (vitalWeight weight)).sum

/-- With `room` left of the budget, every other item that fits also leaves room for the
    vital items that are still to come. -/
def LeavesRoom (room : ℕ) : List (Offer α) → Prop
  | [] => True
  | o :: offers =>
      match o.item with
      | none => LeavesRoom room offers
      | some a =>
          if o.vital then LeavesRoom (room - weight a) offers
          else if weight a ≤ room then
            weight a + vitalTotal weight offers ≤ room ∧ LeavesRoom (room - weight a) offers
          else LeavesRoom room offers

instance LeavesRoom.decidable : (room : ℕ) → (offers : List (Offer α)) →
    Decidable (LeavesRoom weight room offers)
  | _, [] => inferInstanceAs (Decidable True)
  | room, ⟨_, none⟩ :: offers => LeavesRoom.decidable room offers
  | room, ⟨true, some a⟩ :: offers => LeavesRoom.decidable (room - weight a) offers
  | room, ⟨false, some a⟩ :: offers =>
      have := LeavesRoom.decidable (room - weight a) offers
      have := LeavesRoom.decidable room offers
      inferInstanceAs (Decidable (if weight a ≤ room then
        weight a + vitalTotal weight offers ≤ room ∧ LeavesRoom weight (room - weight a) offers
        else LeavesRoom weight room offers))

variable {cap weight} {offers : List (Offer α)} {p : Pick α} {o : Offer α}

theorem vitalTotal_cons : vitalTotal weight (o :: offers) =
    vitalWeight weight o + vitalTotal weight offers := by
  simp [vitalTotal]

/-! ## Items under another name -/

section Map

variable {β : Type} (f : α → β)

def Offer.map (o : Offer α) : Offer β := ⟨o.vital, o.item.map f⟩

def Pick.map (p : Pick α) : Pick β := ⟨p.front.map f, p.back.map f, p.total⟩

theorem Pick.map_all (p : Pick α) : (p.map f).all = p.all.map f := List.map_append.symm

variable {f} {weight' : β → ℕ}

theorem visit_map : visit cap weight' (p.map f) (o.map f) =
    (visit cap (weight' ∘ f) p o).map f := by
  obtain ⟨vital, item⟩ := o
  cases item with
  | none => rfl
  | some a =>
      cases vital with
      | true => rfl
      | false =>
          by_cases hfits : p.total + weight' (f a) ≤ cap
          · simp [visit, Offer.map, Pick.map, hfits]
          · simp [visit, Offer.map, Pick.map, hfits]

/-- What is taken depends on the weights alone. -/
theorem pick_map (offers : List (Offer α)) :
    pick cap weight' (offers.map (Offer.map f)) = (pick cap (weight' ∘ f) offers).map f := by
  have hfold (p : Pick α) : (offers.map (Offer.map f)).foldl (visit cap weight') (p.map f) =
      (offers.foldl (visit cap (weight' ∘ f)) p).map f := by
    induction offers generalizing p with
    | nil => rfl
    | cons o offers ih => rw [List.map_cons, List.foldl_cons, visit_map, ih, List.foldl_cons]
  exact hfold .empty

end Map

/-- Whether an offer without an item is vital makes no difference. -/
theorem pick_congr {offers' : List (Offer α)}
    (h : List.Forall₂ (fun o o' => o.item = o'.item ∧ (o.item ≠ none → o.vital = o'.vital))
      offers offers') : pick cap weight offers = pick cap weight offers' := by
  have hfold (p : Pick α) : offers.foldl (visit cap weight) p =
      offers'.foldl (visit cap weight) p := by
    induction h generalizing p with
    | nil => rfl
    | @cons o o' offers offers' hsame _ ih =>
        obtain ⟨vital, item⟩ := o
        obtain ⟨vital', item'⟩ := o'
        obtain ⟨hitem, hvital⟩ := hsame
        cases hitem
        rw [List.foldl_cons, List.foldl_cons, ih]
        cases item with
        | none => rfl
        | some a =>
            cases hvital nofun
            rfl
  exact hfold .empty

/-! ## Totals -/

theorem visit_total_le : p.total + vitalWeight weight o ≤ (visit cap weight p o).total := by
  unfold visit vitalWeight
  split
  · simp
  · split
    · simp
    · split <;> simp

/-- All vital items count. -/
theorem total_le_foldl (p : Pick α) (offers : List (Offer α)) :
    p.total + vitalTotal weight offers ≤ (offers.foldl (visit cap weight) p).total := by
  induction offers generalizing p with
  | nil => simp [vitalTotal]
  | cons o offers ih =>
      rw [List.foldl_cons, vitalTotal_cons]
      have hvisit : p.total + vitalWeight weight o ≤ (visit cap weight p o).total := visit_total_le
      have hrest := ih (visit cap weight p o)
      omega

theorem visit_sum (h : p.total = (p.all.map weight).sum) :
    (visit cap weight p o).total = ((visit cap weight p o).all.map weight).sum := by
  unfold visit
  split
  · exact h
  · split
    · simp only [Pick.all, List.cons_append, List.map_cons, List.sum_cons] at h ⊢
      omega
    · split
      · simp only [Pick.all, List.map_append, List.sum_append, List.map_cons, List.map_nil,
          List.sum_cons, List.sum_nil] at h ⊢
        omega
      · exact h

/-- The total is the weight of what was taken. -/
theorem pick_total (offers : List (Offer α)) :
    (pick cap weight offers).total = ((pick cap weight offers).all.map weight).sum := by
  have hfold (p : Pick α) (h : p.total = (p.all.map weight).sum) :
      (offers.foldl (visit cap weight) p).total =
        ((offers.foldl (visit cap weight) p).all.map weight).sum := by
    induction offers generalizing p with
    | nil => exact h
    | cons o offers ih => exact ih _ (visit_sum h)
  exact hfold .empty rfl

/-- A full selection takes no item that is not vital. -/
theorem visit_full (hpos : ∀ a, 0 < weight a) (hfull : cap ≤ p.total) (hordinary : o.vital = false) :
    visit cap weight p o = p := by
  unfold visit
  split
  · rfl
  · rename_i a _
    have ha := hpos a
    rw [hordinary, if_neg Bool.false_ne_true, if_neg (by omega)]

/-! ## What is taken -/

/-- All vital items, in order. -/
def vitals (offers : List (Offer α)) : List α :=
  offers.filterMap fun o => if o.vital then o.item else none

variable (cap weight) in
/-- The other items that are taken when `total` is already spent. -/
def accepted (total : ℕ) : List (Offer α) → List α
  | [] => []
  | o :: offers =>
      match o.item with
      | none => accepted total offers
      | some a =>
          if o.vital then accepted (total + weight a) offers
          else if total + weight a ≤ cap then a :: accepted (total + weight a) offers
          else accepted total offers

theorem vitals_cons_none {vital : Bool} : vitals (⟨vital, none⟩ :: offers) = vitals offers := by
  cases vital <;> rfl

/-- Where nothing is offered, nothing is taken. -/
theorem vitals_of_none (h : ∀ o ∈ offers, o.item = none) : vitals offers = [] := by
  refine List.filterMap_eq_nil_iff.mpr fun o ho => ?_
  rw [h o ho]
  split <;> rfl

theorem accepted_of_none {total : ℕ} (h : ∀ o ∈ offers, o.item = none) :
    accepted cap weight total offers = [] := by
  induction offers with
  | nil => rfl
  | cons o offers ih =>
      simp only [accepted, h o List.mem_cons_self]
      exact ih fun o' ho' => h o' (List.mem_cons_of_mem _ ho')

theorem foldl_visit (p : Pick α) (offers : List (Offer α)) :
    (offers.foldl (visit cap weight) p).front = (vitals offers).reverse ++ p.front ∧
      (offers.foldl (visit cap weight) p).back =
        p.back ++ accepted cap weight p.total offers := by
  induction offers generalizing p with
  | nil => simp [vitals, accepted]
  | cons o offers ih =>
      obtain ⟨vital, item⟩ := o
      cases item with
      | none => simpa [visit, vitals_cons_none, accepted] using ih p
      | some a =>
          cases vital with
          | true => simpa [visit, vitals, accepted] using ih _
          | false =>
              by_cases hfits : p.total + weight a ≤ cap
              · simpa [visit, vitals, accepted, hfits] using
                  ih ⟨p.front, p.back ++ [a], p.total + weight a⟩
              · simpa [visit, vitals, accepted, hfits] using ih p

/-- The vital items come out in reverse order, in front of the others in theirs. -/
theorem pick_all (offers : List (Offer α)) :
    (pick cap weight offers).all = (vitals offers).reverse ++ accepted cap weight 0 offers := by
  obtain ⟨hfront, hback⟩ : (pick cap weight offers).front = _ ∧ (pick cap weight offers).back = _ :=
    foldl_visit .empty offers
  rw [Pick.all, hfront, hback]
  simp [Pick.empty]

theorem mem_accepted {a : α} {total : ℕ} (h : a ∈ accepted cap weight total offers) :
    ∃ o ∈ offers, o.item = some a := by
  induction offers generalizing total with
  | nil => cases h
  | cons o offers ih =>
      have hlater {total : ℕ} (h : a ∈ accepted cap weight total offers) :
          ∃ o' ∈ o :: offers, o'.item = some a := by
        obtain ⟨o', hmem, hitem⟩ := ih h
        exact ⟨o', List.mem_cons_of_mem _ hmem, hitem⟩
      unfold accepted at h
      split at h
      · exact hlater h
      · rename_i b hitem
        split at h
        · exact hlater h
        · split at h
          · cases h with
            | head => exact ⟨o, List.mem_cons_self, hitem⟩
            | tail _ h => exact hlater h
          · exact hlater h

theorem mem_vitals {a : α} :
    a ∈ vitals offers ↔ ∃ o ∈ offers, o.vital = true ∧ o.item = some a := by
  unfold vitals
  rw [List.mem_filterMap]
  simp

/-- Everything taken was offered. -/
theorem mem_pick {a : α} (h : a ∈ (pick cap weight offers).all) :
    ∃ o ∈ offers, o.item = some a := by
  rw [pick_all, List.mem_append, List.mem_reverse] at h
  cases h with
  | inl hvital =>
      obtain ⟨o, hmem, _, hitem⟩ := mem_vitals.mp hvital
      exact ⟨o, hmem, hitem⟩
  | inr haccepted => exact mem_accepted haccepted

/-- The other items fit into what was left. -/
theorem accepted_sum_le (total : ℕ) (offers : List (Offer α)) :
    ((accepted cap weight total offers).map weight).sum ≤ cap - total := by
  induction offers generalizing total with
  | nil => simp [accepted]
  | cons o offers ih =>
      obtain ⟨vital, item⟩ := o
      cases item with
      | none => exact ih total
      | some a =>
          cases vital with
          | true =>
              have hrest := ih (total + weight a)
              simp only [accepted, if_true]
              omega
          | false =>
              simp only [accepted, Bool.false_eq_true, if_false]
              split
              · have hrest := ih (total + weight a)
                simp only [List.map_cons, List.sum_cons]
                omega
              · exact ih total

theorem foldl_total_le_iff {room : ℕ} (hroom : p.total + room = cap)
    (hvital : vitalTotal weight offers ≤ room) :
    (offers.foldl (visit cap weight) p).total ≤ cap ↔ LeavesRoom weight room offers := by
  induction offers generalizing p room with
  | nil =>
      simp only [List.foldl_nil, LeavesRoom, iff_true]
      omega
  | cons o offers ih =>
      obtain ⟨vital, item⟩ := o
      rw [vitalTotal_cons] at hvital
      cases item with
      | none =>
          simp only [vitalWeight] at hvital
          exact ih hroom (by omega)
      | some a =>
          cases vital with
          | true =>
              simp only [vitalWeight, if_true] at hvital
              simp only [List.foldl_cons, visit, LeavesRoom, if_true]
              exact ih (by simp only; omega) (by omega)
          | false =>
              simp only [vitalWeight, Bool.false_eq_true, if_false, Nat.zero_add] at hvital
              simp only [List.foldl_cons, visit, LeavesRoom, Bool.false_eq_true, if_false]
              by_cases hfits : weight a ≤ room
              · rw [if_pos (show p.total + weight a ≤ cap by omega), if_pos hfits]
                let taken : Pick α := ⟨p.front, p.back ++ [a], p.total + weight a⟩
                change (offers.foldl (visit cap weight) taken).total ≤ cap ↔ _
                by_cases hleaves : weight a + vitalTotal weight offers ≤ room
                · have hrest : (offers.foldl (visit cap weight) taken).total ≤ cap ↔
                      LeavesRoom weight (room - weight a) offers :=
                    ih (by simp only [taken]; omega) (by omega)
                  simp [hrest, hleaves]
                · have htotal : taken.total + vitalTotal weight offers ≤
                      (offers.foldl (visit cap weight) taken).total := total_le_foldl taken offers
                  simp only [hleaves, false_and, iff_false]
                  simp only [taken] at htotal ⊢
                  omega
              · rw [if_neg (show ¬p.total + weight a ≤ cap by omega), if_neg hfits]
                exact ih hroom hvital

/-- If the vital items fit on their own, the pass keeps the budget exactly when it
    leaves room for them. -/
theorem pick_total_le_iff (hvital : vitalTotal weight offers ≤ cap) :
    (pick cap weight offers).total ≤ cap ↔ LeavesRoom weight cap offers :=
  foldl_total_le_iff (by simp [Pick.empty]) hvital

/-! ## Leaving nothing out -/

/-- All items that are offered, in order. -/
def items (offers : List (Offer α)) : List α := offers.filterMap Offer.item

variable (cap weight) in
/-- With `total` already spent, every item that is not vital fits beside all items before it. -/
def Fits (total : ℕ) : List (Offer α) → Prop
  | [] => True
  | o :: offers =>
      match o.item with
      | none => Fits total offers
      | some a => (o.vital = false → total + weight a ≤ cap) ∧ Fits (total + weight a) offers

instance Fits.decidable : (total : ℕ) → (offers : List (Offer α)) →
    Decidable (Fits cap weight total offers)
  | _, [] => inferInstanceAs (Decidable True)
  | total, ⟨_, none⟩ :: offers => Fits.decidable total offers
  | total, ⟨vital, some a⟩ :: offers =>
      have := Fits.decidable (total + weight a) offers
      inferInstanceAs (Decidable ((vital = false → total + weight a ≤ cap) ∧
        Fits cap weight (total + weight a) offers))

/-- Either every item fits and all are taken, or one does not and fewer are. -/
theorem fits_or_fewer (total : ℕ) (offers : List (Offer α)) :
    (Fits cap weight total offers ∧
      (vitals offers ++ accepted cap weight total offers).Perm (items offers)) ∨
    (¬Fits cap weight total offers ∧
      (vitals offers ++ accepted cap weight total offers).length < (items offers).length) := by
  induction offers generalizing total with
  | nil => exact .inl ⟨trivial, .nil⟩
  | cons o offers ih =>
      obtain ⟨vital, item⟩ := o
      cases item with
      | none => simpa [vitals_cons_none, accepted, items, Fits] using ih total
      | some a =>
          have hitems : items (⟨vital, some a⟩ :: offers) = a :: items offers := rfl
          rw [hitems]
          cases vital with
          | true =>
              have htaken : vitals (⟨true, some a⟩ :: offers) ++
                  accepted cap weight total (⟨true, some a⟩ :: offers) =
                  a :: (vitals offers ++ accepted cap weight (total + weight a) offers) := rfl
              rw [htaken]
              rcases ih (total + weight a) with ⟨hfits, hperm⟩ | ⟨hnot, hlt⟩
              · exact .inl ⟨⟨nofun, hfits⟩, hperm.cons a⟩
              · exact .inr ⟨fun h => hnot h.2, Nat.succ_lt_succ hlt⟩
          | false =>
              have hvitals : vitals (⟨false, some a⟩ :: offers) = vitals offers := rfl
              rw [hvitals]
              by_cases hfits : total + weight a ≤ cap
              · have htaken : accepted cap weight total (⟨false, some a⟩ :: offers) =
                    a :: accepted cap weight (total + weight a) offers := if_pos hfits
                rw [htaken, List.perm_middle.congr_left, List.perm_middle.length_eq]
                rcases ih (total + weight a) with ⟨hrest, hperm⟩ | ⟨hnot, hlt⟩
                · exact .inl ⟨⟨fun _ => hfits, hrest⟩, hperm.cons a⟩
                · exact .inr ⟨fun h => hnot h.2, Nat.succ_lt_succ hlt⟩
              · have htaken : accepted cap weight total (⟨false, some a⟩ :: offers) =
                    accepted cap weight total offers := if_neg hfits
                rw [htaken]
                refine .inr ⟨fun h => hfits (h.1 rfl), ?_⟩
                rcases ih total with ⟨_, hperm⟩ | ⟨_, hlt⟩
                · exact Nat.lt_succ_of_le (Nat.le_of_eq hperm.length_eq)
                · exact Nat.lt_succ_of_lt hlt

/-- Nothing is left out exactly when every item that is not vital fits beside those before. -/
theorem pick_perm_iff (offers : List (Offer α)) :
    (pick cap weight offers).all.Perm (items offers) ↔ Fits cap weight 0 offers := by
  rw [pick_all, ((List.reverse_perm (vitals offers)).append_right _).congr_left]
  rcases fits_or_fewer 0 offers with ⟨hfits, hperm⟩ | ⟨hnot, hlt⟩
  · exact iff_of_true hperm hfits
  · exact iff_of_false (fun hperm => absurd hperm.length_eq (Nat.ne_of_lt hlt)) hnot

end Budget

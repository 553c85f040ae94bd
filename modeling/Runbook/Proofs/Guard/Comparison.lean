import Runbook.Guard.Expression

/-!
# The laws of comparison

Two values are equal when comparisons see the same of them (`Value.same_iff`), so equality is an
equivalence relation, and no operator tells equal values apart (`toOption_holds_congr`,
`Value.toOption_subset_congr`).  The order of values is partial: where it relates two values it does
so from both sides (`Value.toOption_order_swap`), it is equality where it is not strict
(`Value.order_eq_iff`), and strict order is transitive (`Value.order_lt_trans`).

Values nest through lists only, so an induction over them has two cases (`Value.induction`): a value
that is no list, and a list whose items have the property.
-/

namespace Runbook.Guard

/-! ## Induction over values -/

/-- **Values are lists of values, or no lists.** -/
@[elab_as_elim]
theorem Value.induction {P : Value → Prop} (atom : ∀ v, (∀ items, v ≠ .list items) → P v)
    (list : ∀ items, (∀ v ∈ items, P v) → P (.list items)) (v : Value) : P v := by
  refine Value.rec (motive_2 := fun items => ∀ v ∈ items, P v) ?_ ?_ ?_ ?_ ?_ ?_ ?_ v
  · exact atom .nothing nofun
  · exact fun b => atom (.boolean b) nofun
  · exact fun x => atom (.number x) nofun
  · exact fun s => atom (.text s) nofun
  · exact list
  · exact nofun
  · exact fun _ _ hv hrest => List.forall_mem_cons.mpr ⟨hv, hrest⟩

/-! ## Equality -/

/-- **What comparisons see of a value**: numbers and truth values by their place in the order of
numbers, texts by their characters, lists item by item. -/
inductive Comparand
  | nothing
  | number (place : Int)
  | text (value : String)
  | list (items : List Comparand)

namespace Value

mutual

/-- What comparisons see of a value. -/
def comparand : Value → Comparand
  | nothing => .nothing
  | boolean true => .number Binary64.one.key
  | boolean false => .number Binary64.zero.key
  | number x => .number x.key
  | text s => .text s
  | list items => .list (comparands items)

/-- What comparisons see of the items of a list. -/
def comparands : List Value → List Comparand
  | [] => []
  | v :: rest => v.comparand :: comparands rest

end

theorem comparands_eq_map (items : List Value) : comparands items = items.map comparand := by
  induction items with
  | nil => rfl
  | cons v rest ih => rw [comparands, ih, List.map_cons]

mutual

/-- **Equality of values is equality of what is seen of them.** -/
theorem same_iff : (v w : Value) → (v.same w = true ↔ v.comparand = w.comparand)
  | nothing, w => by
    rcases w with _ | (_ | _) | _ | _ | _ <;> simp [same, comparand, number?]
  | boolean b, w => by
    cases b <;> rcases w with _ | (_ | _) | _ | _ | _ <;>
      simp [same, comparand, number?, Binary64.same]
  | number x, w => by
    rcases w with _ | (_ | _) | _ | _ | _ <;> simp [same, comparand, number?, Binary64.same]
  | text s, w => by
    rcases w with _ | (_ | _) | _ | _ | _ <;> simp [same, comparand, number?]
  | list xs, w => by
    rcases w with _ | (_ | _) | _ | _ | ys
    case list => simpa [same, comparand] using sameItems_iff xs ys
    all_goals simp [same, comparand, number?]

theorem sameItems_iff : (xs ys : List Value) →
    (sameItems xs ys = true ↔ comparands xs = comparands ys)
  | [], [] => by simp [sameItems]
  | [], _ :: _ => by simp [sameItems, comparands]
  | _ :: _, [] => by simp [sameItems, comparands]
  | x :: xs, y :: ys => by
    rw [sameItems, Bool.and_eq_true, same_iff x y, sameItems_iff xs ys, comparands, comparands,
      List.cons.injEq]

end

theorem same_equivalence : Equivalence fun v w : Value => v.same w = true where
  refl v := (same_iff v v).mpr rfl
  symm h := (same_iff _ _).mpr ((same_iff _ _).mp h).symm
  trans h h' := (same_iff _ _).mpr (((same_iff _ _).mp h).trans ((same_iff _ _).mp h'))

/-! ## Order -/

theorem orderChars_eq_compare (s t : List Char) :
    orderChars s t = compare (s.map Char.toNat) (t.map Char.toNat) := by
  fun_induction orderChars s t with
  | case1 => rfl
  | case2 => rfl
  | case3 => rfl
  | case4 a s b t ih => rw [ih, List.map_cons, List.map_cons, List.compare_cons_cons]

theorem orderChars_swap (s t : List Char) : orderChars t s = (orderChars s t).swap := by
  rw [orderChars_eq_compare, orderChars_eq_compare]
  exact Std.OrientedOrd.eq_swap

theorem orderChars_eq_iff {s t : List Char} : orderChars s t = .eq ↔ s = t := by
  rw [orderChars_eq_compare, Std.LawfulEqOrd.compare_eq_iff_eq]
  exact List.map_inj_right fun _ _ => Char.toNat_inj.mp

theorem orderChars_lt_trans {s t u : List Char} (h : orderChars s t = .lt)
    (h' : orderChars t u = .lt) : orderChars s u = .lt := by
  rw [orderChars_eq_compare] at h h' ⊢
  exact Std.TransCmp.lt_trans h h'

/-- **What the order relates**: numbers or truth values, texts, and lists. -/
theorem order_cases {v w : Value} {o : Ordering} (h : v.order w = .ok o) :
    (∃ a b, v.number? = some a ∧ w.number? = some b ∧ a.order b = o) ∨
      (∃ s t, v = text s ∧ w = text t ∧ orderChars s.toList t.toList = o) ∨
      ∃ xs ys, v = list xs ∧ w = list ys ∧ orderItems xs ys = .ok o := by
  unfold order at h
  split at h
  · rename_i s t
    exact .inr (.inl ⟨s, t, rfl, rfl, Except.ok.inj h⟩)
  · rename_i xs ys
    exact .inr (.inr ⟨xs, ys, rfl, rfl, h⟩)
  · split at h
    · rename_i a b ha hb
      exact .inl ⟨a, b, ha, hb, Except.ok.inj h⟩
    · cases h

/-- **Induction over what the order relates.** -/
theorem order_induction {P : Value → Value → Ordering → Prop}
    (number : ∀ v w a b, v.number? = some a → w.number? = some b → P v w (a.order b))
    (text : ∀ s t, P (.text s) (.text t) (orderChars s.toList t.toList))
    (list : ∀ xs ys o, (∀ x ∈ xs, ∀ y o, x.order y = .ok o → P x y o) →
      orderItems xs ys = .ok o → P (.list xs) (.list ys) o)
    {v w : Value} {o : Ordering} (h : v.order w = .ok o) : P v w o := by
  induction v using Value.induction generalizing w o with
  | atom v hv =>
    rcases order_cases h with ⟨a, b, ha, hb, rfl⟩ | ⟨s, t, rfl, rfl, rfl⟩ | ⟨xs, ys, hxs, _⟩
    · exact number v w a b ha hb
    · exact text s t
    · exact absurd hxs (hv xs)
  | list xs ih =>
    rcases order_cases h with ⟨a, b, ha, hb, rfl⟩ | ⟨s, t, hs, _⟩ | ⟨xs', ys, hxs, rfl, hys⟩
    · cases ha
    · cases hs
    · obtain rfl := Value.list.inj hxs
      exact list xs ys o (fun x hx y o hxy => ih x hx hxy) hys

theorem order_of_number {v w : Value} {a b : Binary64} (hv : v.number? = some a)
    (hw : w.number? = some b) : v.order w = .ok (a.order b) := by
  unfold order
  split
  · cases hv
  · cases hv
  · rw [hv, hw]

theorem comparand_of_number {v : Value} {a : Binary64} (h : v.number? = some a) :
    v.comparand = .number a.key := by
  rcases v with _ | (_ | _) | _ | _ | _ <;> cases h <;> rfl

theorem exists_number {v : Value} {place : Int} (h : v.comparand = .number place) :
    ∃ a, v.number? = some a ∧ a.key = place := by
  rcases v with _ | (_ | _) | x | _ | _ <;> cases h
  · exact ⟨.zero, rfl, rfl⟩
  · exact ⟨.one, rfl, rfl⟩
  · exact ⟨x, rfl, rfl⟩

section Items
variable {x y : Value} (xs ys : List Value)

theorem orderItems_of_same (h : x.comparand = y.comparand) :
    orderItems (x :: xs) (y :: ys) = orderItems xs ys := by
  rw [orderItems, if_pos ((same_iff x y).mpr h)]

theorem orderItems_of_ne (h : x.comparand ≠ y.comparand) :
    orderItems (x :: xs) (y :: ys) = x.order y := by
  rw [orderItems, if_neg (mt (same_iff x y).mp h)]

end Items

/-! ### Both sides -/

theorem orderItems_swap {xs ys : List Value} {o : Ordering}
    (ih : ∀ x ∈ xs, ∀ y o, x.order y = .ok o → y.order x = .ok o.swap)
    (h : orderItems xs ys = .ok o) : orderItems ys xs = .ok o.swap := by
  induction xs generalizing ys with
  | nil => cases ys <;> cases h <;> rfl
  | cons x xs hrest =>
    obtain ⟨hx, hxs⟩ := List.forall_mem_cons.mp ih
    cases ys with
    | nil => cases h; rfl
    | cons y ys =>
      by_cases hsame : x.comparand = y.comparand
      · rw [orderItems_of_same xs ys hsame] at h
        rw [orderItems_of_same ys xs hsame.symm]
        exact hrest hxs h
      · rw [orderItems_of_ne xs ys hsame] at h
        rw [orderItems_of_ne ys xs (Ne.symm hsame)]
        exact hx y o h

theorem order_swap {v w : Value} {o : Ordering} (h : v.order w = .ok o) :
    w.order v = .ok o.swap := by
  refine order_induction (P := fun v w o => w.order v = .ok o.swap) ?_ ?_ ?_ h
  · intro v w a b ha hb
    rw [order_of_number hb ha]
    exact congrArg Except.ok Std.OrientedOrd.eq_swap
  · intro s t
    exact congrArg Except.ok (orderChars_swap s.toList t.toList)
  · intro xs ys o ih h
    exact orderItems_swap ih h

/-- **The order from the other side** is the reverse, and exists as well. -/
theorem toOption_order_swap (v w : Value) :
    (w.order v).toOption = (v.order w).toOption.map Ordering.swap := by
  cases h : v.order w with
  | ok o => rw [order_swap h]; rfl
  | error fault =>
    cases h' : w.order v with
    | ok o => rw [order_swap h'] at h; cases h
    | error fault' => rfl

/-! ### Order and equality -/

theorem orderItems_eq_iff {xs ys : List Value} {o : Ordering}
    (ih : ∀ x ∈ xs, ∀ y o, x.order y = .ok o → (o = .eq ↔ x.comparand = y.comparand))
    (h : orderItems xs ys = .ok o) : o = .eq ↔ comparands xs = comparands ys := by
  induction xs generalizing ys with
  | nil => cases ys <;> cases h <;> simp [comparands]
  | cons x xs hrest =>
    obtain ⟨hx, hxs⟩ := List.forall_mem_cons.mp ih
    cases ys with
    | nil => cases h; simp [comparands]
    | cons y ys =>
      rw [comparands, comparands, List.cons.injEq]
      by_cases hsame : x.comparand = y.comparand
      · rw [orderItems_of_same xs ys hsame] at h
        simp only [hsame, true_and]
        exact hrest hxs h
      · rw [orderItems_of_ne xs ys hsame] at h
        simp only [hsame, false_and, iff_false]
        exact fun ho => hsame ((hx y o h).mp ho)

theorem order_eq_iff {v w : Value} {o : Ordering} (h : v.order w = .ok o) :
    o = .eq ↔ v.comparand = w.comparand := by
  refine order_induction (P := fun v w o => o = .eq ↔ v.comparand = w.comparand) ?_ ?_ ?_ h
  · intro v w a b ha hb
    rw [comparand_of_number ha, comparand_of_number hb, Comparand.number.injEq]
    exact Std.LawfulEqOrd.compare_eq_iff_eq
  · intro s t
    rw [orderChars_eq_iff, comparand, comparand, Comparand.text.injEq, String.toList_inj]
  · intro xs ys o ih h
    rw [comparand, comparand, Comparand.list.injEq]
    exact orderItems_eq_iff ih h

/-! ### Equal operands -/

theorem orderItems_congr {xs xs' ys : List Value} {o : Ordering}
    (ih : ∀ x ∈ xs, ∀ y o, x.order y = .ok o →
      ∀ x' : Value, x'.comparand = x.comparand → x'.order y = .ok o)
    (h : orderItems xs ys = .ok o) (hxs : comparands xs' = comparands xs) :
    orderItems xs' ys = .ok o := by
  induction xs generalizing xs' ys with
  | nil =>
    cases xs' with
    | nil => exact h
    | cons x' xs' => cases hxs
  | cons x xs hrest =>
    obtain ⟨hx, hih⟩ := List.forall_mem_cons.mp ih
    cases xs' with
    | nil => cases hxs
    | cons x' xs' =>
      obtain ⟨hx', hxs'⟩ := List.cons.inj hxs
      cases ys with
      | nil => cases h; rfl
      | cons y ys =>
        by_cases hsame : x.comparand = y.comparand
        · rw [orderItems_of_same xs ys hsame] at h
          rw [orderItems_of_same xs' ys (hx'.trans hsame)]
          exact hrest hih h hxs'
        · rw [orderItems_of_ne xs ys hsame] at h
          rw [orderItems_of_ne xs' ys (hx' ▸ hsame)]
          exact hx y o h x' hx'

theorem order_congr {v v' w : Value} {o : Ordering} (h : v.order w = .ok o)
    (hv : v'.comparand = v.comparand) : v'.order w = .ok o := by
  refine order_induction
    (P := fun v w o => ∀ v', v'.comparand = v.comparand → v'.order w = .ok o) ?_ ?_ ?_ h v' hv
  · intro v w a b ha hb v' hv
    obtain ⟨a', ha', hkey⟩ := exists_number (hv.trans (comparand_of_number ha))
    rw [order_of_number ha' hb, Binary64.order, Binary64.order, hkey]
  · intro s t v' hv
    rcases v' with _ | (_ | _) | _ | s' | _ <;> cases hv
    rfl
  · intro xs ys o ih h v' hv
    rcases v' with _ | (_ | _) | _ | _ | xs'
    case list => exact orderItems_congr ih h (Comparand.list.inj hv)
    all_goals cases hv

theorem order_congr_right {v w w' : Value} {o : Ordering} (h : v.order w = .ok o)
    (hw : w'.comparand = w.comparand) : v.order w' = .ok o := by
  have hswap := order_swap (order_congr (order_swap h) hw)
  rwa [Ordering.swap_swap] at hswap

/-! ### Transitivity -/

theorem orderItems_lt_trans {xs ys zs : List Value}
    (ih : ∀ x ∈ xs, ∀ y o, x.order y = .ok o → o = .lt → ∀ z, y.order z = .ok .lt →
      x.order z = .ok .lt)
    (h : orderItems xs ys = .ok .lt) (h' : orderItems ys zs = .ok .lt) :
    orderItems xs zs = .ok .lt := by
  induction xs generalizing ys zs with
  | nil =>
    cases zs with
    | nil => cases ys <;> cases h'
    | cons z zs => rfl
  | cons x xs hrest =>
    obtain ⟨hx, hxs⟩ := List.forall_mem_cons.mp ih
    cases ys with
    | nil => cases h
    | cons y ys =>
      cases zs with
      | nil => cases h'
      | cons z zs =>
        by_cases hxy : x.comparand = y.comparand
        · rw [orderItems_of_same xs ys hxy] at h
          by_cases hyz : y.comparand = z.comparand
          · rw [orderItems_of_same ys zs hyz] at h'
            rw [orderItems_of_same xs zs (hxy.trans hyz)]
            exact hrest hxs h h'
          · rw [orderItems_of_ne ys zs hyz] at h'
            rw [orderItems_of_ne xs zs (hxy ▸ hyz)]
            exact order_congr h' hxy
        · rw [orderItems_of_ne xs ys hxy] at h
          by_cases hyz : y.comparand = z.comparand
          · rw [orderItems_of_ne xs zs (hyz ▸ hxy)]
            exact order_congr_right h hyz.symm
          · rw [orderItems_of_ne ys zs hyz] at h'
            have hlt : x.order z = .ok .lt := hx y .lt h rfl z h'
            have hxz : x.comparand ≠ z.comparand := mt (order_eq_iff hlt).mpr nofun
            rw [orderItems_of_ne xs zs hxz, hlt]

theorem order_lt_trans {u v w : Value} (h : u.order v = .ok .lt) (h' : v.order w = .ok .lt) :
    u.order w = .ok .lt := by
  refine order_induction
    (P := fun u v o => o = .lt → ∀ w, v.order w = .ok .lt → u.order w = .ok .lt) ?_ ?_ ?_ h rfl w h'
  · intro u v a b ha hb hlt w h'
    rcases order_cases h' with ⟨b', c, hb', hc, hlt'⟩ | ⟨s, t, rfl, _⟩ | ⟨xs, ys, rfl, _⟩
    · obtain rfl := Option.some.inj (hb.symm.trans hb')
      have hac : compare a.key c.key = .lt := Std.TransCmp.lt_trans hlt hlt'
      rw [order_of_number ha hc]
      exact congrArg Except.ok hac
    · cases hb
    · cases hb
  · intro s t hlt w h'
    rcases order_cases h' with ⟨b, c, hb, _⟩ | ⟨t', r, ht, rfl, hlt'⟩ | ⟨xs, ys, hxs, _⟩
    · cases hb
    · obtain rfl := Value.text.inj ht
      exact congrArg Except.ok (orderChars_lt_trans hlt hlt')
    · cases hxs
  · intro xs ys o ih h hlt w h'
    rcases order_cases h' with ⟨b, c, hb, _⟩ | ⟨s, t, hs, _⟩ | ⟨ys', zs, hys, rfl, hlt'⟩
    · cases hb
    · cases hs
    · obtain rfl := Value.list.inj hys
      subst hlt
      exact orderItems_lt_trans ih h hlt'

/-! ## Membership -/

theorem any_same_iff {items : List Value} {v : Value} :
    items.any (·.same v) = true ↔ v.comparand ∈ items.map comparand := by
  simp [same_iff]

theorem containsAll_list (items ws : List Value) :
    containsAll (.list items) ws = .ok (ws.all fun w => items.any (·.same w)) := by
  induction ws with
  | nil => rfl
  | cons w rest ih =>
    rw [containsAll]
    show (if items.any (·.same w) = true then containsAll (.list items) rest else .ok false) = _
    rw [List.all_cons]
    by_cases hw : items.any (·.same w) = true
    · rw [if_pos hw, ih, hw, Bool.true_and]
    · rw [if_neg hw, Bool.eq_false_iff.mpr hw, Bool.false_and]

theorem subset_list_iff {xs ys : List Value} :
    (list xs).subset (list ys) = .ok true ↔ ∀ c ∈ xs.map comparand, c ∈ ys.map comparand := by
  show containsAll (list ys) xs = .ok true ↔ _
  rw [containsAll_list, Except.ok.injEq, List.all_eq_true, List.forall_mem_map]
  exact forall₂_congr fun w _ => any_same_iff

/-! ## Equal operands of every operator -/

section Equal
variable {c c' v v' l l' r r' : Value}

theorem eq_text {s : String} (h : (text s).comparand = v.comparand) : v = text s := by
  rcases v with _ | (_ | _) | _ | _ | _ <;> cases h
  rfl

theorem exists_list {items : List Value} (h : (list items).comparand = v.comparand) :
    ∃ items', v = list items' ∧ comparands items = comparands items' := by
  rcases v with _ | (_ | _) | _ | _ | items'
  case list => exact ⟨items', rfl, Comparand.list.inj h⟩
  all_goals cases h

theorem toOption_contains_of_ne_text (h : ∀ s, v ≠ text s) (hay : String) :
    ((text hay).contains v).toOption = none := by
  cases v with
  | text s => exact absurd rfl (h s)
  | _ => rfl

theorem toOption_contains_congr (hc : c.comparand = c'.comparand)
    (hv : v.comparand = v'.comparand) : (c.contains v).toOption = (c'.contains v').toOption := by
  cases c with
  | list items =>
    obtain ⟨items', rfl, hitems⟩ := exists_list hc
    rw [comparands_eq_map, comparands_eq_map] at hitems
    have hsame : items.any (·.same v) = items'.any (·.same v') := by
      rw [Bool.eq_iff_iff, any_same_iff, any_same_iff, hitems, hv]
    exact congrArg some hsame
  | text hay =>
    obtain rfl := eq_text hc
    by_cases htext : ∃ s, v = text s
    · obtain ⟨s, rfl⟩ := htext
      rw [eq_text hv]
    · have htext' : ∀ s, v' ≠ text s := by
        rintro s rfl
        exact htext ⟨s, eq_text hv.symm⟩
      rw [toOption_contains_of_ne_text (fun s hs => htext ⟨s, hs⟩),
        toOption_contains_of_ne_text htext']
  | nothing => rcases c' with _ | (_ | _) | _ | _ | _ <;> first | rfl | cases hc
  | boolean b => cases b <;> rcases c' with _ | (_ | _) | _ | _ | _ <;> first | rfl | cases hc
  | number x => rcases c' with _ | (_ | _) | _ | _ | _ <;> first | rfl | cases hc

theorem toOption_containsAll_cons (c item : Value) (rest : List Value) :
    (containsAll c (item :: rest)).toOption = (c.contains item).toOption.bind fun found =>
      if found = true then (containsAll c rest).toOption else some false := by
  rw [containsAll]
  cases c.contains item with
  | error fault => rfl
  | ok found => cases found <;> rfl

theorem toOption_containsAll_congr (hc : c.comparand = c'.comparand) {items items' : List Value}
    (hitems : comparands items = comparands items') :
    (containsAll c items).toOption = (containsAll c' items').toOption := by
  induction items generalizing items' with
  | nil =>
    cases items' with
    | nil => rfl
    | cons item' rest' => cases hitems
  | cons item rest ih =>
    cases items' with
    | nil => cases hitems
    | cons item' rest' =>
      obtain ⟨hitem, hrest⟩ := List.cons.inj hitems
      rw [toOption_containsAll_cons, toOption_containsAll_cons, toOption_contains_congr hc hitem,
        ih hrest]

/-- **The subset relation does not tell equal values apart.** -/
theorem toOption_subset_congr (hl : l.comparand = l'.comparand) (hr : r.comparand = r'.comparand) :
    (l.subset r).toOption = (l'.subset r').toOption := by
  cases l with
  | list items =>
    obtain ⟨items', rfl, hitems⟩ := exists_list hl
    exact toOption_containsAll_congr hr hitems
  | nothing => rcases l' with _ | (_ | _) | _ | _ | _ <;> first | rfl | cases hl
  | boolean b => cases b <;> rcases l' with _ | (_ | _) | _ | _ | _ <;> first | rfl | cases hl
  | number x => rcases l' with _ | (_ | _) | _ | _ | _ <;> first | rfl | cases hl
  | text s => rw [eq_text hl]; rfl

theorem toOption_order_congr (hl : l.comparand = l'.comparand) (hr : r.comparand = r'.comparand) :
    (l.order r).toOption = (l'.order r').toOption := by
  cases h : l.order r with
  | ok o => rw [order_congr_right (order_congr h hl.symm) hr.symm]
  | error fault =>
    cases h' : l'.order r' with
    | ok o => rw [order_congr_right (order_congr h' hl) hr] at h; cases h
    | error fault' => rfl

end Equal

end Value

theorem toOption_map {α β : Type} (f : α → β) (result : Except TypeError α) :
    (result.map f).toOption = result.toOption.map f := by
  cases result <;> rfl

/-- **No comparison tells equal values apart.** -/
theorem Comparison.toOption_holds_congr {l l' r r' : Value} (op : Comparison)
    (hl : l.comparand = l'.comparand) (hr : r.comparand = r'.comparand) :
    (op.holds l r).toOption = (op.holds l' r').toOption := by
  have hsame : l.same r = l'.same r' := by
    rw [Bool.eq_iff_iff, Value.same_iff, Value.same_iff, hl, hr]
  have hcontains := Value.toOption_contains_congr hr hl
  have horder := Value.toOption_order_congr hl hr
  cases op with
  | equal => exact congrArg some hsame
  | notEqual => exact congrArg (fun b => some (!b)) hsame
  | memberOf => exact hcontains
  | notMemberOf => simp only [holds, toOption_map, hcontains]
  | less => simp only [holds, toOption_map, horder]
  | atMost => simp only [holds, toOption_map, horder]
  | greater => simp only [holds, toOption_map, horder]
  | atLeast => simp only [holds, toOption_map, horder]

/-- **The comparison operators are consistent with each other.**  Equality is an equivalence
relation; the order exists from both sides or from neither, and from the other side it is reversed;
it is the equal one exactly for equal values; strict order is transitive; equal operands have the
same result with every operator, or no result; and between lists the subset relation is reflexive
and transitive. -/
theorem comparisons_consistent :
    (Equivalence fun v w : Value => v.same w = true) ∧
      (∀ l r : Value, (r.order l).toOption = (l.order r).toOption.map Ordering.swap) ∧
      (∀ (l r : Value) (o : Ordering), l.order r = .ok o → (o = .eq ↔ l.same r = true)) ∧
      (∀ a b c : Value, a.order b = .ok .lt → b.order c = .ok .lt → a.order c = .ok .lt) ∧
      (∀ l l' r r' : Value, l.same l' = true → r.same r' = true →
        (∀ op : Comparison, (op.holds l r).toOption = (op.holds l' r').toOption) ∧
          (l.subset r).toOption = (l'.subset r').toOption) ∧
      (∀ xs : List Value, (Value.list xs).subset (.list xs) = .ok true) ∧
      ∀ xs ys zs : List Value, (Value.list xs).subset (.list ys) = .ok true →
        (Value.list ys).subset (.list zs) = .ok true →
        (Value.list xs).subset (.list zs) = .ok true := by
  refine ⟨Value.same_equivalence, Value.toOption_order_swap, ?_, fun _ _ _ => Value.order_lt_trans,
    ?_, ?_, ?_⟩
  · intro l r o h
    rw [Value.same_iff]
    exact Value.order_eq_iff h
  · intro l l' r r' hl hr
    rw [Value.same_iff] at hl hr
    exact ⟨fun op => op.toOption_holds_congr hl hr, Value.toOption_subset_congr hl hr⟩
  · intro xs
    exact Value.subset_list_iff.mpr fun c hc => hc
  · intro xs ys zs h h'
    rw [Value.subset_list_iff] at h h' ⊢
    exact fun c hc => h' c (h c hc)

/-- Lists that begin alike, the first item of one being a number and that of the others a truth
value, are ordered by their second items. -/
theorem comparisons_consistent_of_mixedLists :
    (Value.list [.number .one, .text "a"]).order (.list [.boolean true, .text "c"]) = .ok .lt ∧
      (Comparison.less.holds (.list [.boolean true, .text "a"])
        (.list [.boolean true, .text "c"])).toOption = some true := by
  obtain ⟨-, -, -, htrans, hcongr, -⟩ := comparisons_consistent
  have hlt : (Value.list [.number .one, .text "a"]).order (.list [.boolean true, .text "c"]) =
      .ok .lt :=
    htrans _ (.list [.boolean true, .text "b"]) _ rfl rfl
  refine ⟨hlt, ?_⟩
  have hsame := hcongr (.list [.boolean true, .text "a"]) (.list [.number .one, .text "a"])
    (.list [.boolean true, .text "c"]) (.list [.boolean true, .text "c"]) (by decide) (by decide)
  rw [hsame.1 .less]
  exact congrArg (fun order => (order.map (·.isLT)).toOption) hlt

end Runbook.Guard

import Runbook.Proofs.Guard.Cut

/-!
# How high expressions are

Chains of connectives and comparisons, however long, stand beside each other in an expression: only
brackets, negations and minus signs make it higher, and each of them by five levels at most
(`rowHeight_disjunction_le`).  So an expression that is read has at most 325 levels
(`height_le_of_read`), and its evaluation never has more calls open at once
(`evaluateWithin_eq`).
-/

namespace Runbook.Guard

/-! ## Height -/

namespace Expression

mutual

/-- **The height of an expression**: the most expressions that stand inside each other. -/
def height : Expression → Nat
  | literal _ => 1
  | list items => rowHeight items + 1
  | negative operand => operand.height + 1
  | compare _ left right => max left.height right.height + 1
  | subset left right => max left.height right.height + 1
  | all terms => rowHeight terms + 1
  | any terms => rowHeight terms + 1
  | not operand => operand.height + 1

/-- The height of the highest of these expressions. -/
def rowHeight : List Expression → Nat
  | [] => 0
  | e :: rest => max e.height (rowHeight rest)

end

/-! ## Calls that are open at once -/

/-- An evaluation that may call too deep to have a result. -/
abbrev Within (α : Type) := ExceptT TypeError Option α

/-- An evaluation that has a result. -/
def within {α : Type} (result : Except TypeError α) : Within α :=
  ExceptT.mk (some result)

mutual

/-- **The evaluation of an expression with at most so many calls open at once**; it has no result if
it needs more. -/
def evaluateWithin : Nat → Expression → Within Value
  | 0, _ => ExceptT.mk none
  | _ + 1, literal v => within (.ok v)
  | calls + 1, list items => do
    let vs ← itemsWithin calls items
    return .list vs
  | calls + 1, negative operand => do
    let v ← evaluateWithin calls operand
    within v.negated
  | calls + 1, compare op left right => do
    let l ← evaluateWithin calls left
    let r ← evaluateWithin calls right
    within ((op.holds l r).map .boolean)
  | calls + 1, subset left right => do
    let l ← evaluateWithin calls left
    let r ← evaluateWithin calls right
    within ((l.subset r).map .boolean)
  | calls + 1, all terms => allWithin calls (.boolean true) terms
  | calls + 1, any terms => anyWithin calls (.boolean false) terms
  | calls + 1, not operand => do
    let v ← evaluateWithin calls operand
    return .boolean (!v.truthy)

/-- The values of the items of a list, one call after another. -/
def itemsWithin (calls : Nat) : List Expression → Within (List Value)
  | [] => return []
  | item :: rest => do
    let v ← evaluateWithin calls item
    let vs ← itemsWithin calls rest
    return v :: vs

/-- The first value that does not hold, else the last one. -/
def allWithin (calls : Nat) (last : Value) : List Expression → Within Value
  | [] => return last
  | term :: rest => do
    let v ← evaluateWithin calls term
    if v.truthy then allWithin calls v rest else return v

/-- The first value that holds, else the last one. -/
def anyWithin (calls : Nat) (last : Value) : List Expression → Within Value
  | [] => return last
  | term :: rest => do
    let v ← evaluateWithin calls term
    if v.truthy then return v else anyWithin calls v rest

end

@[simp] theorem within_bind {α β : Type} (result : Except TypeError α)
    (f : α → Except TypeError β) :
    (within result >>= fun a => within (f a)) = within (result.bind f) := by
  cases result <;> rfl

mutual

/-- **The height of an expression bounds the calls that are open at once.** -/
theorem evaluateWithin_eq : (e : Expression) → {calls : Nat} → e.height ≤ calls →
    evaluateWithin calls e = within e.evaluate
  | e, 0, h => by cases e <;> simp [height] at h
  | literal _, _ + 1, _ => rfl
  | list items, calls + 1, h => by
    have hitems := itemsWithin_eq items (Nat.le_of_succ_le_succ h)
    show (itemsWithin calls items >>= fun vs => within (.ok (Value.list vs))) = _
    rw [hitems, within_bind]
    show _ = within ((evaluateItems items).map Value.list)
    cases evaluateItems items <;> rfl
  | negative operand, calls + 1, h => by
    have hoperand := evaluateWithin_eq operand (Nat.le_of_succ_le_succ h)
    show (evaluateWithin calls operand >>= fun v => within v.negated) = _
    rw [hoperand, within_bind]
    rfl
  | compare op left right, calls + 1, h => by
    obtain ⟨hl, hr⟩ := Nat.max_le.mp (Nat.le_of_succ_le_succ h)
    show (evaluateWithin calls left >>= fun l => evaluateWithin calls right >>= fun r =>
      within ((op.holds l r).map Value.boolean)) = _
    simp only [evaluateWithin_eq left hl, evaluateWithin_eq right hr, within_bind]
    rfl
  | subset left right, calls + 1, h => by
    obtain ⟨hl, hr⟩ := Nat.max_le.mp (Nat.le_of_succ_le_succ h)
    show (evaluateWithin calls left >>= fun l => evaluateWithin calls right >>= fun r =>
      within ((l.subset r).map Value.boolean)) = _
    simp only [evaluateWithin_eq left hl, evaluateWithin_eq right hr, within_bind]
    rfl
  | all terms, calls + 1, h => allWithin_eq (.boolean true) terms (Nat.le_of_succ_le_succ h)
  | any terms, calls + 1, h => anyWithin_eq (.boolean false) terms (Nat.le_of_succ_le_succ h)
  | not operand, calls + 1, h => by
    have hoperand := evaluateWithin_eq operand (Nat.le_of_succ_le_succ h)
    show (evaluateWithin calls operand >>= fun v => within (.ok (Value.boolean (!v.truthy)))) = _
    rw [hoperand, within_bind]
    show _ = within (operand.evaluate.map fun v => Value.boolean (!v.truthy))
    cases operand.evaluate <;> rfl

theorem itemsWithin_eq : (items : List Expression) → {calls : Nat} → rowHeight items ≤ calls →
    itemsWithin calls items = within (evaluateItems items)
  | [], _, _ => rfl
  | item :: rest, calls, h => by
    obtain ⟨hitem, hrest⟩ := Nat.max_le.mp h
    show (evaluateWithin calls item >>= fun v => itemsWithin calls rest >>= fun vs =>
      within (.ok (v :: vs))) = _
    simp only [evaluateWithin_eq item hitem, itemsWithin_eq rest hrest, within_bind]
    rfl

theorem allWithin_eq (last : Value) : (terms : List Expression) → {calls : Nat} →
    rowHeight terms ≤ calls → allWithin calls last terms = within (evaluateAll last terms)
  | [], _, _ => rfl
  | term :: rest, calls, h => by
    obtain ⟨hterm, hrest⟩ := Nat.max_le.mp h
    show (evaluateWithin calls term >>= fun v =>
      if v.truthy then allWithin calls v rest else within (.ok v)) = _
    have hnext : ∀ v : Value, (if v.truthy then allWithin calls v rest else within (.ok v)) =
        within (if v.truthy then evaluateAll v rest else .ok v) := by
      intro v
      rw [allWithin_eq v rest hrest]
      split <;> rfl
    simp only [evaluateWithin_eq term hterm, hnext, within_bind]
    rfl

theorem anyWithin_eq (last : Value) : (terms : List Expression) → {calls : Nat} →
    rowHeight terms ≤ calls → anyWithin calls last terms = within (evaluateAny last terms)
  | [], _, _ => rfl
  | term :: rest, calls, h => by
    obtain ⟨hterm, hrest⟩ := Nat.max_le.mp h
    show (evaluateWithin calls term >>= fun v =>
      if v.truthy then within (.ok v) else anyWithin calls v rest) = _
    have hnext : ∀ v : Value, (if v.truthy then within (.ok v) else anyWithin calls v rest) =
        within (if v.truthy then .ok v else evaluateAny v rest) := by
      intro v
      rw [anyWithin_eq v rest hrest]
      split <;> rfl
    simp only [evaluateWithin_eq term hterm, hnext, within_bind]
    rfl

end

end Expression

/-! ## The height of what is derived -/

open Grammar Expression

theorem height_joined_le {connective : List Expression → Expression} {n : Nat}
    (h : ∀ terms, (connective terms).height = rowHeight terms + 1) {terms : List Expression}
    (hterms : rowHeight terms ≤ n) : (joined connective terms).height ≤ n + 1 := by
  unfold joined
  split
  · rename_i only
    exact Nat.le_succ_of_le (Nat.le_trans (Nat.le_max_left only.height 0) hterms)
  · rw [h]
    exact Nat.succ_le_succ hterms

theorem height_chained_le {operand : Expression} {links : List Expression} {n : Nat}
    (hoperand : operand.height ≤ n) (hlinks : rowHeight links ≤ n) :
    (chained operand links).height ≤ n + 1 := by
  cases links with
  | nil => exact Nat.le_succ_of_le hoperand
  | cons link rest => exact height_joined_le (fun _ => rfl) hlinks

theorem height_negated_le {operand : Expression} {n : Nat} (h : operand.height ≤ n) :
    (negated operand).height ≤ n + 1 := by
  unfold negated
  split
  · exact Nat.succ_le_succ (Nat.zero_le n)
  · exact Nat.succ_le_succ h

theorem height_brackets_le (b : Brackets) {items : List Expression} {n : Nat} (comma : Bool)
    (h : rowHeight items ≤ n) : (b.denoted items comma).height ≤ n + 1 := by
  unfold Brackets.denoted
  split
  · rename_i only
    exact Nat.le_succ_of_le (Nat.le_trans (Nat.le_max_left only.height 0) h)
  · exact Nat.succ_le_succ h

theorem height_operator (operator : Operator) (left right : Expression) :
    (operator.denoted left right).height = max left.height right.height + 1 := by
  cases operator <;> rfl

theorem rowHeight_cons_le {e : Expression} {rest : List Expression} {n : Nat} (he : e.height ≤ n)
    (hrest : rowHeight rest ≤ n) : rowHeight (e :: rest) ≤ n :=
  Nat.max_le.mpr ⟨he, hrest⟩

-- The five levels of a depth, from below: what encloses or negates the rest, links, chains and
-- negations, conjunctions, disjunctions.
mutual

/-- **Terms beside each other do not make a disjunction higher**: each has five levels for what
encloses it, and four of its own. -/
theorem rowHeight_disjunction_le : (d : Disjunction) → {n : Nat} → d.nesting ≤ n →
    rowHeight d.terms ≤ 5 * n + 4
  | .one term, n, h => by
    have hterm := rowHeight_conjunction_le term h
    exact rowHeight_cons_le (height_joined_le (fun _ => rfl) hterm) (Nat.zero_le _)
  | .more term _ rest, n, h => by
    obtain ⟨hn, hrest⟩ := Nat.max_le.mp h
    have hterm := rowHeight_conjunction_le term hn
    have hmore := rowHeight_disjunction_le rest hrest
    exact rowHeight_cons_le (height_joined_le (fun _ => rfl) hterm) hmore

theorem rowHeight_conjunction_le : (c : Conjunction) → {n : Nat} → c.nesting ≤ n →
    rowHeight c.terms ≤ 5 * n + 3
  | .one term, _, h => rowHeight_cons_le (height_negation_le term h) (Nat.zero_le _)
  | .more term _ rest, _, h =>
    have hboth := Nat.max_le.mp h
    rowHeight_cons_le (height_negation_le term hboth.1) (rowHeight_conjunction_le rest hboth.2)

theorem height_negation_le : (g : Negation) → {n : Nat} → g.nesting ≤ n →
    g.denoted.height ≤ 5 * n + 3
  | .not _ operand, n + 1, h => by
    have hoperand := height_negation_le operand (Nat.le_of_succ_le_succ h)
    show operand.denoted.height + 1 ≤ _
    omega
  | .chain chain, _, h => height_chain_le chain h

theorem height_chain_le : (c : Chain) → {n : Nat} → c.nesting ≤ n → c.denoted.height ≤ 5 * n + 3
  | .mk first links, n, h => by
    obtain ⟨hn, hlinks⟩ := Nat.max_le.mp h
    have hfirst := height_signed_le first hn
    exact height_chained_le (Nat.le_succ_of_le hfirst) (rowHeight_links_le links hfirst hlinks)

theorem rowHeight_links_le {left : Expression} : (l : Links) → {n : Nat} →
    left.height ≤ 5 * n + 1 → l.nesting ≤ n → rowHeight (l.terms left) ≤ 5 * n + 2
  | .none, _, _, _ => Nat.zero_le _
  | .more operator operand rest, n, hleft, h => by
    obtain ⟨hn, hrest⟩ := Nat.max_le.mp h
    have hoperand := height_signed_le operand hn
    refine rowHeight_cons_le ?_ (rowHeight_links_le rest hoperand hrest)
    rw [height_operator]
    exact Nat.succ_le_succ (Nat.max_le.mpr ⟨hleft, hoperand⟩)

theorem height_signed_le : (s : Signed) → {n : Nat} → s.nesting ≤ n → s.denoted.height ≤ 5 * n + 1
  | .minus operand, n + 1, h => by
    have hoperand := height_negated_le (height_signed_le operand (Nat.le_of_succ_le_succ h))
    show (negated operand.denoted).height ≤ _
    omega
  | .primary primary, _, h => height_primary_le primary h

theorem height_primary_le : (p : Primary) → {n : Nat} → p.nesting ≤ n →
    p.denoted.height ≤ 5 * n + 1
  | .number _, _, _ => Nat.succ_le_succ (Nat.zero_le _)
  | .text _, _, _ => Nat.succ_le_succ (Nat.zero_le _)
  | .constant _ _ _, _, _ => Nat.succ_le_succ (Nat.zero_le _)
  | .bracketed brackets content, _ + 1, h =>
    have hcontent := rowHeight_content_le content (Nat.le_of_succ_le_succ h)
    height_brackets_le brackets content.trailingComma hcontent

theorem rowHeight_content_le : (c : Content) → {n : Nat} → c.nesting ≤ n →
    rowHeight c.expressions ≤ 5 * n + 5
  | .empty, _, _ => Nat.zero_le _
  | .items items, _, h => rowHeight_items_le items h

theorem rowHeight_items_le : (i : Items) → {n : Nat} → i.nesting ≤ n →
    rowHeight i.expressions ≤ 5 * n + 5
  | .last item _, _, h =>
    have hitem := rowHeight_disjunction_le item h
    rowHeight_cons_le (height_joined_le (fun _ => rfl) hitem) (Nat.zero_le _)
  | .more item rest, _, h =>
    have hboth := Nat.max_le.mp h
    have hitem := rowHeight_disjunction_le item hboth.1
    rowHeight_cons_le (height_joined_le (fun _ => rfl) hitem) (rowHeight_items_le rest hboth.2)

end

/-- **What is read is not high**: five levels for each depth. -/
theorem height_le_of_read {source : String} {e : Expression} (h : read source = .ok e) :
    e.height ≤ 5 * (maxNesting + 1) := by
  obtain ⟨_, d, _, _, hnesting, rfl⟩ := exists_derivation_of_read h
  exact height_joined_le (fun _ => rfl) (rowHeight_disjunction_le d hnesting)

end Runbook.Guard

import Runbook.Json.Reader

/-!
# A text is shorter than what spells it

A JSON text that spells a text has two quotes, and a character at least for each character between
them, so it is longer by two than the text that is read (`length_of_read?`).  For this the text that
is read has to come from a single token: once an array or an object is open, nothing but an array or
an object can be the result (`Encloses`).
-/

namespace Runbook.Json

/-! ## Tokens -/

namespace Token

theorem length_of_map_pieces? {rest tail : List Char} {piece : Piece} {ps : List Piece}
    (ih : ∀ {ps tail}, pieces? rest = some (ps, tail) → ps.length + tail.length < rest.length)
    (h : (pieces? rest).map (fun r => (piece :: r.1, r.2)) = some (ps, tail)) :
    ps.length + tail.length < rest.length + 1 := by
  obtain ⟨⟨more, tail'⟩, hmore, heq⟩ := Option.map_eq_some_iff.mp h
  cases heq
  have := ih hmore
  simp only [List.length_cons]
  omega

/-- A piece takes a character at least. -/
theorem length_of_pieces? {cs tail : List Char} {ps : List Piece}
    (h : pieces? cs = some (ps, tail)) : ps.length + tail.length < cs.length := by
  fun_induction pieces? cs generalizing ps tail with
  | case1 => cases h
  | case2 rest =>
    cases h
    simp
  | case3 a b c d rest ih =>
    obtain ⟨n, -, hrest⟩ := Option.bind_eq_some_iff.mp h
    have := length_of_map_pieces? ih hrest
    simp only [List.length_cons]
    omega
  | case4 c rest _ ih =>
    obtain ⟨e, -, hrest⟩ := Option.bind_eq_some_iff.mp h
    have := length_of_map_pieces? ih hrest
    simp only [List.length_cons]
    omega
  | case5 => cases h
  | case6 c rest _ _ _ _ ih => exact length_of_map_pieces? ih h

theorem length_of_map_spelled? {rest : List Piece} {c : Char} {cs : List Char}
    (ih : ∀ {cs}, spelled? rest = some cs → cs.length ≤ rest.length)
    (h : (spelled? rest).map (c :: ·) = some cs) : cs.length ≤ rest.length + 1 := by
  obtain ⟨more, hmore, rfl⟩ := Option.map_eq_some_iff.mp h
  exact Nat.succ_le_succ (ih hmore)

/-- A character takes a piece at least, and some take two. -/
theorem length_of_spelled? {ps : List Piece} {cs : List Char} (h : spelled? ps = some cs) :
    cs.length ≤ ps.length := by
  fun_induction spelled? ps generalizing cs with
  | case1 => cases h; exact Nat.le_refl _
  | case2 c rest ih => exact length_of_map_spelled? ih h
  | case3 first second rest _ _ code =>
    rename_i ih
    exact Nat.le_succ_of_le (length_of_map_spelled? ih h)
  | case4 => cases h
  | case5 => cases h
  | case6 first second rest _ _ ih => exact length_of_map_spelled? ih h
  | case7 => cases h
  | case8 n rest _ _ ih => exact length_of_map_spelled? ih h

/-- The characters that a text takes at least; of other tokens nothing is said. -/
def quotedLength : Token → Nat
  | text (some s) => s.length + 2
  | scalar (some (.text s)) => s.length + 2
  | _ => 0

theorem length_of_next? {cs tail : List Char} {token : Token} (h : next? cs = some (token, tail)) :
    token.quotedLength + tail.length ≤ cs.length := by
  unfold next? at h
  split at h
  case h_7 rest =>
    obtain ⟨⟨ps, tail'⟩, hpieces, heq⟩ := Option.map_eq_some_iff.mp h
    cases heq
    have hps := length_of_pieces? hpieces
    cases hspelled : spelled? ps with
    | none => simp [quotedLength]; omega
    | some s =>
      have hs := length_of_spelled? hspelled
      simp [quotedLength]
      omega
  case h_11 =>
    dsimp only at h
    split at h
    · cases h
      have hdrop := (List.dropWhile_suffix (l := cs) isNumberChar).length_le
      cases number? (cs.takeWhile isNumberChar) <;> simpa [quotedLength] using hdrop
    · cases h
  all_goals
    cases h
    simp [quotedLength]
    try omega

theorem length_of_scanSteps {fuel : Nat} {cs : List Char} {ts : List Token}
    (h : scanSteps fuel cs = some ts) : ∀ token ∈ ts, token.quotedLength ≤ cs.length := by
  induction fuel generalizing cs ts with
  | zero =>
    cases cs with
    | nil => cases h; nofun
    | cons c rest => cases h
  | succ fuel ih =>
    cases cs with
    | nil => cases h; nofun
    | cons c rest =>
      unfold scanSteps at h
      split at h
      · exact fun token hmem => Nat.le_succ_of_le (ih h token hmem)
      · obtain ⟨⟨token, tail⟩, hnext, hrest⟩ := Option.bind_eq_some_iff.mp h
        obtain ⟨more, hmore, heq⟩ := Option.bind_eq_some_iff.mp hrest
        cases heq
        have hlength := length_of_next? hnext
        refine List.forall_mem_cons.mpr ⟨by omega, fun other hother => ?_⟩
        have := ih hmore other hother
        omega

end Token

/-! ## What the tokens amount to -/

namespace Reading

/-- **An array or an object is open, or was read**: nothing else can be the result. -/
def Encloses (r : Reading) : Prop :=
  match r.expect with
  | .finish d => ∀ v, d ≠ .leaf (some v)
  | _ => r.frames ≠ []

theorem encloses_supply {frames : List Frame} {d : Draft} {r : Reading}
    (h : frames ≠ [] ∨ ∀ v, d ≠ .leaf (some v)) (hr : supply frames d = some r) : r.Encloses := by
  unfold supply at hr
  split at hr
  · cases hr
    exact h.resolve_left fun hne => hne rfl
  · cases hr
    exact List.cons_ne_nil _ _
  · cases hr
    exact List.cons_ne_nil _ _
  · cases hr

theorem nested_ne_leaf {outer : List Frame} {d : Draft} (h : ∀ v, d ≠ .leaf (some v)) (v : Json) :
    nested outer d ≠ .leaf (some v) := by
  unfold nested
  split
  · exact nofun
  · exact h v

theorem encloses_closeArray {frames : List Frame} {r : Reading}
    (hr : closeArray frames = some r) : r.Encloses := by
  unfold closeArray at hr
  split at hr
  · rename_i items outer
    have hitems : ∀ v, Draft.array items.reverse ≠ .leaf (some v) := nofun
    exact encloses_supply (Or.inr (nested_ne_leaf hitems)) hr
  · cases hr

theorem encloses_closeObject {frames : List Frame} {r : Reading}
    (hr : closeObject frames = some r) : r.Encloses := by
  unfold closeObject at hr
  split at hr
  · rename_i members outer
    have hmembers : ∀ v, Draft.object members.reverse ≠ .leaf (some v) := nofun
    exact encloses_supply (Or.inr (nested_ne_leaf hmembers)) hr
  · cases hr

theorem encloses_value {frames : List Frame} {token : Token} {r : Reading} (h : frames ≠ [])
    (hr : value frames token = some r) : r.Encloses := by
  unfold value at hr
  split at hr
  · exact encloses_supply (Or.inl h) hr
  · exact encloses_supply (Or.inl h) hr
  · cases hr
    exact List.cons_ne_nil _ _
  · cases hr
    exact List.cons_ne_nil _ _
  · cases hr

theorem encloses_name {frames : List Frame} {token : Token} {r : Reading}
    (hr : name frames token = some r) : r.Encloses := by
  unfold name at hr
  split at hr
  · cases hr
    exact List.cons_ne_nil _ _
  · cases hr

theorem encloses_separator {frames : List Frame} {token : Token} {r : Reading}
    (hr : separator frames token = some r) : r.Encloses := by
  unfold separator at hr
  split at hr
  · exact encloses_closeArray hr
  · exact encloses_closeObject hr
  · split at hr
    · cases hr
      exact List.cons_ne_nil _ _
    · cases hr
      exact List.cons_ne_nil _ _
    · cases hr
  · cases hr

/-- **A token further, an array or an object encloses the place still**, or it was the result. -/
theorem Encloses.step {r r' : Reading} {token : Token} (h : r.Encloses)
    (hr : r.step token = some r') : r'.Encloses := by
  obtain ⟨frames, expect⟩ := r
  unfold Reading.step at hr
  cases expect with
  | value => exact encloses_value h hr
  | firstItem =>
    dsimp only at hr
    split at hr
    · exact encloses_closeArray hr
    · exact encloses_value h hr
  | name => exact encloses_name hr
  | firstName =>
    dsimp only at hr
    split at hr
    · exact encloses_closeObject hr
    · exact encloses_name hr
  | colon =>
    dsimp only at hr
    split at hr
    · cases hr
      exact h
    · cases hr
  | separator => exact encloses_separator hr
  | finish d => cases hr

theorem Encloses.run {r r' : Reading} {tokens : List Token} (h : r.Encloses)
    (hr : r.run tokens = some r') : r'.Encloses := by
  induction tokens generalizing r with
  | nil =>
    cases hr
    exact h
  | cons token rest ih =>
    obtain ⟨next, hnext, hrest⟩ := Option.bind_eq_some_iff.mp hr
    exact ih (h.step hnext) hrest

theorem Encloses.result?_ne_leaf {r : Reading} (h : r.Encloses) (v : Json) :
    r.result? ≠ some (.leaf (some v)) := by
  obtain ⟨frames, expect⟩ := r
  cases expect with
  | finish d => exact fun heq => h v (Option.some.inj heq)
  | _ => exact nofun

end Reading

open Reading in
/-- **A text is read from its token alone**: it is not said by tokens of another kind. -/
theorem mem_of_ofTokens? {tokens : List Token} {s : String}
    (h : Draft.ofTokens? tokens = some (.leaf (some (.text s)))) :
    .text (some s) ∈ tokens ∨ .scalar (some (.text s)) ∈ tokens := by
  obtain ⟨r, hrun, hresult⟩ := Option.bind_eq_some_iff.mp h
  cases tokens with
  | nil =>
    cases hrun
    cases hresult
  | cons token rest =>
    obtain ⟨next, hnext, hrest⟩ := Option.bind_eq_some_iff.mp hrun
    -- What the first token opens is the result; a whole value has to be the only token.
    have hfinish (d : Draft) (hd : next = ⟨[], .finish d⟩) : d = .leaf (some (.text s)) := by
      subst hd
      cases rest with
      | nil =>
        cases hrest
        exact Option.some.inj hresult
      | cons other more => cases hrest
    have hopen (hencloses : next.Encloses) : False :=
      (hencloses.run hrest).result?_ne_leaf _ hresult
    cases token with
    | text value =>
      have heq := hfinish (.leaf (value.map .text)) (Option.some.inj hnext).symm
      obtain ⟨t, rfl, ht⟩ := Option.map_eq_some_iff.mp (Draft.leaf.inj heq)
      exact Or.inl (Json.text.inj ht ▸ List.mem_cons_self)
    | scalar value =>
      have heq := hfinish (.leaf value) (Option.some.inj hnext).symm
      exact Or.inr (Draft.leaf.inj heq ▸ List.mem_cons_self)
    | openArray =>
      cases hnext
      exact (hopen (List.cons_ne_nil _ _)).elim
    | openObject =>
      cases hnext
      exact (hopen (List.cons_ne_nil _ _)).elim
    | _ => cases hnext

theorem eq_leaf_of_value? {d : Draft} {s : String} (h : d.value? = some (.text s)) :
    d = .leaf (some (.text s)) := by
  cases d with
  | leaf v => exact congrArg Draft.leaf h
  | array items =>
    obtain ⟨_, -, heq⟩ := Option.map_eq_some_iff.mp h
    cases heq
  | object members =>
    obtain ⟨_, -, heq⟩ := Option.map_eq_some_iff.mp h
    cases heq

theorem eq_text_of_merged {v : Json} {s : String} (h : v.merged = .text s) : v = .text s := by
  cases v with
  | text t => exact h
  | _ => cases h

/-- **What spells a text is longer than the text**, by its two quotes at least. -/
theorem length_of_read? {s t : String} (h : read? s = some (.text t)) :
    t.length + 2 ≤ s.length := by
  obtain ⟨v, hdocument, hmerged⟩ := Option.map_eq_some_iff.mp h
  obtain rfl := eq_text_of_merged hmerged
  obtain ⟨d, hdraft, hvalue⟩ := Option.bind_eq_some_iff.mp hdocument
  obtain rfl := eq_leaf_of_value? hvalue
  obtain ⟨tokens, hscan, htokens⟩ := Option.bind_eq_some_iff.mp hdraft
  have hlength := Token.length_of_scanSteps hscan
  rw [← String.length_toList]
  rcases mem_of_ofTokens? htokens with hmem | hmem
  · exact hlength _ hmem
  · exact hlength _ hmem

end Runbook.Json

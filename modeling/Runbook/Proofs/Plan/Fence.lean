import Mathlib.Data.List.TakeWhile
import Runbook.Plan.Step

/-!
# Fenced blocks

What is read of a plan text with a fenced block in it: all that stands between the first opener and
the last fence of the text (`Document.unfence_block`), without the empty lines and fence lines
around it, and with a line feed for every line end.

A body that has fences in it is read as it stands, if no fence comes after its block
(`Document.block_is_read_as_written`).  A fence that does come after it moves the end of the block,
so what follows a plan counts for nothing only as long as it has no fence
(`Document.block_ends_at_last_fence`).
-/

namespace Runbook

/-! ## Ends of texts and lines -/

namespace Text
variable {p : Char → Bool} {c : Char} {cs : List Char}

/-! A character that is cut off counts for nothing at the ends of a text. -/

theorem trimWhile_cons (hc : p c = true) : trimWhile p (c :: cs) = trimWhile p cs := by
  unfold trimWhile
  rw [List.dropWhile_cons_of_pos hc]

theorem trimWhile_concat (hc : p c = true) : trimWhile p (cs ++ [c]) = trimWhile p cs := by
  unfold trimWhile
  rw [List.dropWhile_append]
  by_cases hnil : cs.dropWhile p = []
  · rw [hnil, List.dropWhile_cons_of_pos hc]
    rfl
  · rw [if_neg (by rwa [List.isEmpty_iff])]
    unfold dropEndWhile
    rw [List.reverse_concat, List.dropWhile_cons_of_pos hc]

/-- What is left does not end with a character that is cut off. -/
theorem getLast?_trimWhile_ne (hc : p c = true) : (trimWhile p cs).getLast? ≠ some c := by
  unfold trimWhile dropEndWhile
  rw [List.getLast?_reverse]
  intro hhead
  have hnot := List.head?_dropWhile_not p (cs.dropWhile p).reverse
  rw [hhead] at hnot
  exact Bool.false_ne_true (hnot.symm.trans hc)

/-- **A text with a line feed for every line end.** -/
def lineFeeds : List Char → List Char
  | [] => []
  | '\r' :: '\n' :: rest => '\n' :: lineFeeds rest
  | c :: rest => c :: lineFeeds rest

theorem joinLines_consLine (c : Char) (ls : List (List Char)) :
    joinLines (consLine c ls) = c :: joinLines ls := by
  unfold joinLines
  match ls with
  | [] => rfl
  | [_] => rfl
  | _ :: _ :: _ => rfl

theorem lines_ne_nil (h : cs ≠ []) : lines cs ≠ [] := by
  fun_cases lines cs with
  | case1 => exact absurd rfl h
  | case2 => exact List.cons_ne_nil _ _
  | case3 => exact List.cons_ne_nil _ _
  | case4 c rest => cases lines rest <;> exact List.cons_ne_nil _ _

theorem joinLines_nil_cons (h : cs ≠ []) :
    joinLines ([] :: lines cs) = '\n' :: joinLines (lines cs) :=
  List.intercalate_cons_of_ne_nil (lines_ne_nil h)

/-- **The lines of a text, joined,** are the text with a line feed for every line end.  A line end
at the very end would be lost, as no line comes after it. -/
theorem joinLines_lines (h : cs.getLast? ≠ some '\n') : joinLines (lines cs) = lineFeeds cs := by
  have htail : ∀ {c : Char} {rest : List Char}, (c :: rest).getLast? ≠ some '\n' →
      rest.getLast? ≠ some '\n' := by
    intro c rest hlast hrest
    rw [List.getLast?_cons, hrest] at hlast
    exact hlast rfl
  fun_induction lines cs with
  | case1 => rfl
  | case2 rest ih =>
    have hne : rest ≠ [] := fun hnil => h (by rw [hnil]; rfl)
    rw [joinLines_nil_cons hne, ih (htail h)]
    rfl
  | case3 rest ih =>
    have hne : rest ≠ [] := fun hnil => h (by rw [hnil]; rfl)
    rw [joinLines_nil_cons hne, ih (htail (htail h))]
    rfl
  | case4 c rest hfeed hreturn ih =>
    rw [joinLines_consLine, ih (htail h), lineFeeds.eq_3 c rest hreturn]

end Text

namespace Plan.Document

/-! ## Searching for marks -/

section Search
variable {mark before rest cs : List Char}

/-- A mark is found where its first character first stands. -/
theorem afterFirst?_append {c : Char} {more : List Char} (hbefore : c ∉ before) :
    afterFirst? (c :: more) (before ++ (c :: more) ++ rest) = some rest := by
  induction before with
  | nil =>
    have hprefix : (c :: more).isPrefixOf (c :: more ++ rest) = true :=
      List.isPrefixOf_iff_prefix.mpr (List.prefix_append _ _)
    show (if (c :: more).isPrefixOf (c :: more ++ rest) then _ else _) = _
    rw [if_pos hprefix]
    exact congrArg some List.drop_left
  | cons x before ih =>
    have hne : c ≠ x := fun heq => hbefore (heq ▸ List.mem_cons_self)
    have hno : (c :: more).isPrefixOf (x :: (before ++ (c :: more) ++ rest)) = false := by
      simp [List.isPrefixOf, hne]
    show (if (c :: more).isPrefixOf (x :: (before ++ (c :: more) ++ rest)) then _ else _) = _
    rw [hno]
    exact ih fun hmem => hbefore (List.mem_cons_of_mem x hmem)

theorem afterFirst?_eq_none {c : Char} {more : List Char} (h : c ∉ cs) :
    afterFirst? (c :: more) cs = none := by
  induction cs with
  | nil => rfl
  | cons x cs ih =>
    have hne : c ≠ x := fun heq => h (heq ▸ List.mem_cons_self)
    have hno : (c :: more).isPrefixOf (x :: cs) = false := by
      simp [List.isPrefixOf, hne]
    unfold afterFirst?
    rw [hno]
    exact ih fun hmem => h (List.mem_cons_of_mem x hmem)

/-- **A mark is found from the end** wherever it stands. -/
theorem beforeLast?_eq_none_iff (hmark : mark ≠ []) :
    beforeLast? mark cs = none ↔ ¬ mark <:+: cs := by
  induction cs with
  | nil =>
    unfold beforeLast?
    simp [hmark]
  | cons c cs ih =>
    unfold beforeLast?
    rw [List.infix_cons_iff, not_or, ← ih, ← List.isPrefixOf_iff_prefix]
    cases beforeLast? mark cs <;> simp

/-- A mark is found from the end where it stands, if it does not also start further on. -/
theorem beforeLast?_append (hmark : mark ≠ []) (hlast : ¬ mark <:+: (mark ++ rest).tail) :
    beforeLast? mark (before ++ mark ++ rest) = some before := by
  induction before with
  | nil =>
    obtain ⟨c, more, rfl⟩ := List.exists_cons_of_ne_nil hmark
    have hprefix : (c :: more).isPrefixOf (c :: more ++ rest) = true :=
      List.isPrefixOf_iff_prefix.mpr (List.prefix_append _ _)
    have hnone : beforeLast? (c :: more) (more ++ rest) = none :=
      (beforeLast?_eq_none_iff hmark).mpr hlast
    show beforeLast? (c :: more) (c :: (more ++ rest)) = _
    unfold beforeLast?
    rw [hnone]
    exact if_pos hprefix
  | cons x before ih =>
    show beforeLast? mark (x :: (before ++ mark ++ rest)) = _
    unfold beforeLast?
    rw [ih]

/-- **A mark that stands in a text stands there for the last time somewhere.** -/
theorem exists_last (hmark : mark ≠ []) (h : mark <:+: cs) :
    ∃ before rest, cs = before ++ mark ++ rest ∧ ¬ mark <:+: (mark ++ rest).tail := by
  induction cs with
  | nil => exact absurd (List.eq_nil_of_infix_nil h) hmark
  | cons c cs ih =>
    by_cases hin : mark <:+: cs
    · obtain ⟨before, rest, rfl, hlast⟩ := ih hin
      exact ⟨c :: before, rest, rfl, hlast⟩
    · obtain ⟨rest, hrest⟩ := (List.infix_cons_iff.mp h).resolve_right hin
      refine ⟨[], rest, hrest.symm, ?_⟩
      rwa [hrest]

end Search

/-! ## Blocks -/

section Blocks
variable {before inner rest cs : List Char} {ls : List (List Char)}

/-- **What is inside a block** is all up to the last fence. -/
theorem unfence_block (hbefore : '\x60' ∉ before) (hlast : ¬ fence <:+: (fence ++ rest).tail) :
    unfence (before ++ (fence ++ "yaml".toList) ++ (inner ++ fence ++ rest)) = inner := by
  have hopened : afterFirst? (fence ++ "yaml".toList)
      (before ++ (fence ++ "yaml".toList) ++ (inner ++ fence ++ rest)) =
        some (inner ++ fence ++ rest) := afterFirst?_append hbefore
  have hblock : block? (fence ++ "yaml".toList)
      (before ++ (fence ++ "yaml".toList) ++ (inner ++ fence ++ rest)) = some inner := by
    unfold block?
    rw [hopened]
    exact beforeLast?_append (List.cons_ne_nil _ _) hlast
  unfold unfence openers
  rw [List.findSome?_cons, hblock]
  rfl

/-- A text without grave accents is its own inside. -/
theorem unfence_plain (h : '\x60' ∉ cs) : unfence cs = cs := by
  have hblock : ∀ more : List Char, block? ('\x60' :: more) cs = none := by
    intro more
    unfold block?
    rw [afterFirst?_eq_none h]
    rfl
  have hnone : (openers.findSome? fun opener => block? opener cs) = none := by
    rw [List.findSome?_eq_none_iff]
    intro opener hopener
    obtain ⟨more, rfl⟩ : ∃ more, opener = '\x60' :: more := by
      simp only [openers, fence, List.mem_cons, List.not_mem_nil, or_false] at hopener
      rcases hopener with rfl | rfl | rfl <;> exact ⟨_, rfl⟩
    exact hblock more
  unfold unfence
  rw [hnone]
  rfl

/-- A fence is the last one if none comes after it and it is not made longer. -/
theorem last_of_not_infix (hhead : rest.head? ≠ some '\x60') (h : ¬ fence <:+: rest) :
    ¬ fence <:+: (fence ++ rest).tail := by
  have hprefix : ∀ more : List Char, ¬ '\x60' :: more <+: rest := by
    rintro more ⟨tail, rfl⟩
    exact hhead rfl
  intro hin
  rcases List.infix_cons_iff.mp hin with hat | hin
  · exact hprefix [] (List.cons_prefix_cons.mp (List.cons_prefix_cons.mp hat).2).2
  · rcases List.infix_cons_iff.mp hin with hat | hin
    · exact hprefix ['\x60'] (List.cons_prefix_cons.mp hat).2
    · exact h hin

theorem last_of_not_mem (h : '\x60' ∉ rest) : ¬ fence <:+: (fence ++ rest).tail := by
  refine last_of_not_infix (fun hhead => h (List.mem_of_head? hhead)) fun hin => ?_
  exact h (hin.subset List.mem_cons_self)

/-- What is read of the inside of a block. -/
def inside (cs : List Char) : List Char :=
  Text.joinLines (dropFenceLines (Text.lines (Text.trimWhile (· == '\n') cs)))

theorem body_eq (cs : List Char) : body cs = inside (unfence cs) := rfl

theorem dropWhile_of_head {α : Type} {p : α → Bool} {l : List α}
    (h : ∀ a ∈ l.head?, p a = false) : l.dropWhile p = l := by
  cases l with
  | nil => rfl
  | cons a l => rw [List.dropWhile_cons, h a rfl]; rfl

/-- Lines that neither start nor end with a fence line are kept. -/
theorem dropFenceLines_eq (hfirst : ∀ line ∈ ls.head?, isFenceLine line = false)
    (hlast : ∀ line ∈ ls.getLast?, isFenceLine line = false) : dropFenceLines ls = ls := by
  unfold dropFenceLines
  rw [dropWhile_of_head hfirst, dropWhile_of_head (by rwa [List.head?_reverse]),
    List.reverse_reverse]

end Blocks

/-! ## Texts with a block -/

/-- **A text with a block of YAML**: what stands before it, a plan on lines of its own, and what
stands after it. -/
def withBlock (before plan after : String) : String :=
  before ++ "```yaml\n" ++ plan ++ "\n```" ++ after

/-- The lines of a plan, without the empty ones around it. -/
def planLines (plan : String) : List (List Char) :=
  Text.lines (Text.trimWhile (· == '\n') plan.toList)

/-- The records of a text that is read as it stands. -/
def ofYaml (s : String) : Except Error (List Record) :=
  (Yaml.read? s).elim (.error .malformedText) records

theorem ofText_eq (s : String) :
    ofText s = ofYaml (String.ofList (inside (unfence s.toList))) := by
  unfold ofText ofYaml
  rw [body_eq]
  cases Yaml.read? (String.ofList (inside (unfence s.toList))) <;> rfl

/-! Line feeds around the inside of a block count for nothing. -/

theorem inside_cons_feed (cs : List Char) : inside ('\n' :: cs) = inside cs := by
  unfold inside
  rw [Text.trimWhile_cons rfl]

theorem inside_concat_feed (cs : List Char) : inside (cs ++ ['\n']) = inside cs := by
  unfold inside
  rw [Text.trimWhile_concat rfl]

theorem toList_withBlock (before plan after : String) : (withBlock before plan after).toList =
    before.toList ++ (fence ++ "yaml".toList) ++
      (('\n' :: plan.toList ++ ['\n']) ++ fence ++ after.toList) := by
  simp [withBlock, fence]

section WithBlock
variable {before plan after : String} (hbefore : '\x60' ∉ before.toList)
include hbefore

/-- **The plan in a block is read** if its fence is the last one. -/
theorem inside_withBlock (hlast : ¬ fence <:+: (fence ++ after.toList).tail) :
    inside (unfence (withBlock before plan after).toList) = inside plan.toList := by
  rw [toList_withBlock, unfence_block hbefore hlast, inside_concat_feed, inside_cons_feed]

/-- **A block is read as it is written**, whatever fences its plan has in it, if there are none
around it: what is read are the lines of the plan, which is the plan with a line feed for every line
end. -/
theorem block_is_read_as_written (hafter : '\x60' ∉ after.toList)
    (hfirst : ∀ line ∈ (planLines plan).head?, isFenceLine line = false)
    (hlast : ∀ line ∈ (planLines plan).getLast?, isFenceLine line = false) :
    body (withBlock before plan after).toList = Text.joinLines (planLines plan) ∧
      Text.joinLines (planLines plan) =
        Text.lineFeeds (Text.trimWhile (· == '\n') plan.toList) ∧
      ofText (withBlock before plan after) =
        ofYaml (String.ofList (Text.joinLines (planLines plan))) := by
  have hread : inside (unfence (withBlock before plan after).toList) =
      Text.joinLines (planLines plan) := by
    rw [inside_withBlock hbefore (last_of_not_mem hafter)]
    exact congrArg Text.joinLines (dropFenceLines_eq hfirst hlast)
  refine ⟨hread, Text.joinLines_lines (Text.getLast?_trimWhile_ne rfl), ?_⟩
  rw [ofText_eq, hread]

/-- A plan with a fenced block in one of its texts, and with both kinds of line ends. -/
def fencedPrompt : String :=
  "- name: a\r\n  prompt: |\n    ```sh\n    ls\n    ```\n  toolname: t\n\n"

omit hbefore in
theorem block_is_read_as_written_of_fencedPrompt :
    let text := withBlock "Plan:\n" fencedPrompt " Done."
    body text.toList = Text.joinLines (planLines fencedPrompt) ∧
      ofText text = ofYaml (String.ofList (Text.joinLines (planLines fencedPrompt))) ∧
      ((ofText text).toOption.any fun records =>
        records.map (Step.textField · "prompt") == ["```sh\nls\n```\n"]) = true := by
  obtain ⟨hbody, -, hread⟩ := @block_is_read_as_written "Plan:\n" fencedPrompt " Done." (by decide)
     (by decide) (by decide +kernel) (by decide +kernel)
  exact ⟨hbody, hread, by decide +kernel⟩

/-- **A block ends at the last fence of its text.**  What stands after it counts for nothing if it
has no fence; if it has one, all up to its last fence is read as part of the plan. -/
theorem block_ends_at_last_fence (hplan : '\x60' ∉ plan.toList) (after : String) :
    (¬ fence <:+: after.toList → ofText (withBlock before plan ("\n" ++ after)) = ofText plan) ∧
    (fence <:+: after.toList → ∃ between rest, after.toList = between ++ fence ++ rest ∧
      ¬ fence <:+: (fence ++ rest).tail ∧
      ofText (withBlock before plan ("\n" ++ after)) =
        ofYaml (String.ofList (inside (plan.toList ++ "\n```\n".toList ++ between)))) := by
  have hfeed : ("\n" ++ after).toList = '\n' :: after.toList := String.toList_append
  constructor
  · intro hnone
    have hlast : ¬ fence <:+: (fence ++ ("\n" ++ after).toList).tail := by
      rw [hfeed]
      refine last_of_not_infix (by simp) fun hin => ?_
      rcases List.infix_cons_iff.mp hin with hat | hin
      · exact absurd (List.cons_prefix_cons.mp hat).1 (by decide)
      · exact hnone hin
    rw [ofText_eq, ofText_eq, inside_withBlock hbefore hlast, unfence_plain hplan]
  · intro hsome
    obtain ⟨between, rest, hsplit, hlast⟩ := exists_last (List.cons_ne_nil _ _) hsome
    refine ⟨between, rest, hsplit, hlast, ?_⟩
    have hinner : (withBlock before plan ("\n" ++ after)).toList =
        before.toList ++ (fence ++ "yaml".toList) ++
          (('\n' :: plan.toList ++ "\n```\n".toList ++ between) ++ fence ++ rest) := by
      rw [toList_withBlock, hfeed, hsplit]
      simp [fence]
    rw [ofText_eq, hinner, unfence_block hbefore hlast, List.cons_append, List.cons_append,
      inside_cons_feed]

end WithBlock

/-- What to do with a plan, with a block of its own. -/
def laterBlock : String := "Run it:\n```sh\nls\n```\n"

theorem block_ends_at_last_fence_of_laterBlock :
    ofText (withBlock "Plan:\n" "- name: a" ("\n" ++ "Run `ls`.\n")) = ofText "- name: a" ∧
      ∃ between rest, laterBlock.toList = between ++ fence ++ rest ∧
        ¬ fence <:+: (fence ++ rest).tail ∧
        ofText (withBlock "Plan:\n" "- name: a" ("\n" ++ laterBlock)) =
          ofYaml (String.ofList (inside ("- name: a".toList ++ "\n```\n".toList ++ between))) := by
  have hends := @block_ends_at_last_fence "Plan:\n" "- name: a" (by decide) (by decide)
  exact ⟨(hends _).1 (by decide +kernel), (hends laterBlock).2 (by decide +kernel)⟩

/-- **A block after the one with the plan spoils it**: what is read then is no document, though the
plan alone is. -/
theorem plan_spoiled_by_later_block :
    (∃ records, ofText "- name: a" = .ok records ∧
      records.map (Step.textField · "name") = ["a"]) ∧
    ofText (withBlock "Plan:\n" "- name: a" ("\n" ++ laterBlock)) = .error .malformedText := by
  have halone : ((ofText "- name: a").toOption.any fun records =>
      records.map (Step.textField · "name") == ["a"]) = true := by
    decide +kernel
  have hboth : (Yaml.read? (String.ofList (inside (unfence
      (withBlock "Plan:\n" "- name: a" ("\n" ++ laterBlock)).toList)))).isNone = true := by
    decide +kernel
  constructor
  · cases hread : ofText "- name: a" with
    | error e =>
      rw [hread] at halone
      cases halone
    | ok records =>
      rw [hread] at halone
      exact ⟨records, rfl, eq_of_beq halone⟩
  · rw [ofText_eq, ofYaml, Option.isNone_iff_eq_none.mp hboth]
    rfl

end Plan.Document

end Runbook

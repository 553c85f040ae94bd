import Mathlib.Data.List.Chain
import Runbook.Proofs.Guard.Boundary

/-!
# Line breaks between the tokens of a guard

Line breaks are taken out of a guard before it is read.  Between two tokens a break so means what a
blank means, but for two tokens that are one without anything between them: a word and what goes on
with words, or a number and what goes on with numbers (`RunTogether`, `holds_of_break`).  The signs
`<`, `>` and `!` would be other signs with an equals sign behind them.  No guard has an equality there,
though, neither behind the sign nor behind the other one (`not_equality_of_awaitsOperand`).
-/

namespace Runbook.Guard

open Grammar

/-! ## What follows a token that awaits an operand -/

/-- If the first token awaits an operand, the second begins one. -/
def Follows (token next : Token) : Prop :=
  token.awaitsOperand = true → beginsDisjunction next = true

/-- **No operand is missing** behind any of the tokens. -/
structure Fits (tokens : List Token) : Prop where
  /-- Behind each token there is what it awaits. -/
  follows : tokens.IsChain Follows
  /-- The last token awaits nothing. -/
  ends : ∀ token ∈ tokens.getLast?, token.awaitsOperand = false

namespace Fits
variable {front back rest : List Token}

theorem nil : Fits [] :=
  ⟨.nil, nofun⟩

theorem append (hfront : Fits front) (hback : Fits back) : Fits (front ++ back) where
  follows := hfront.follows.append hback.follows fun token htoken _ _ hawaits => by
    rw [hfront.ends token htoken] at hawaits
    cases hawaits
  ends := by
    intro token htoken
    rw [List.getLast?_append] at htoken
    cases hlast : back.getLast? with
    | none =>
      rw [hlast] at htoken
      exact hfront.ends token htoken
    | some last =>
      rw [hlast] at htoken
      cases htoken
      exact hback.ends token hlast

theorem one {token : Token} (h : token.awaitsOperand = false) : Fits [token] where
  follows := .singleton token
  ends := by
    intro last hlast
    cases hlast
    exact h

/-- Any token may stand before what begins an operand. -/
theorem before (token : Token) (hbegin : Begin beginsDisjunction rest) (h : Fits rest) :
    Fits (token :: rest) := by
  obtain ⟨next, tail, rfl, hnext⟩ := hbegin
  refine ⟨.cons_cons (fun _ => hnext) h.follows, fun last hlast => h.ends last ?_⟩
  rwa [List.getLast?_cons_cons] at hlast

end Fits

theorem beginsDisjunction_of_beginsChain {token : Token} (h : beginsChain token = true) :
    beginsDisjunction token = true := by
  rw [beginsDisjunction, h, Bool.or_true]

theorem fits_operator (operator : Operator) {operand : List Token}
    (hbegin : Begin beginsChain operand) (h : Fits operand) : Fits (operator.tokens ++ operand) := by
  have hone : ∀ token, Fits (token :: operand) := fun token =>
    h.before token (hbegin.mono fun _ => beginsDisjunction_of_beginsChain)
  cases operator with
  | notMemberOf => exact (Fits.one rfl).append (hone (.word "in"))
  | _ => exact hone _

theorem fits_brackets (b : Brackets) {content : List Token} (h : Fits content) :
    Fits (b.opening :: content ++ [b.closing]) := by
  have hopening : Fits [b.opening] := .one (by cases b <;> rfl)
  have hclosing : Fits [b.closing] := .one (by cases b <;> rfl)
  exact (hopening.append h).append hclosing

mutual

/-- **No operand is missing in a derivation.** -/
theorem fits_disjunction : (d : Disjunction) → Fits d.tokens
  | .one term => fits_conjunction term
  | .more term spelling rest => (fits_conjunction term).append
      ((fits_disjunction rest).before spelling.orToken (begin_disjunction rest))

theorem fits_conjunction : (c : Conjunction) → Fits c.tokens
  | .one term => fits_negation term
  | .more term spelling rest => (fits_negation term).append
      ((fits_conjunction rest).before spelling.andToken (begin_conjunction rest))

theorem fits_negation : (g : Negation) → Fits g.tokens
  | .not spelling operand =>
    (fits_negation operand).before spelling.notToken (begin_negation operand)
  | .chain chain => fits_chain chain

theorem fits_chain : (c : Chain) → Fits c.tokens
  | .mk first links => (fits_signed first).append (fits_links links)

theorem fits_links : (l : Links) → Fits l.tokens
  | .none => .nil
  | .more operator operand rest =>
    (fits_operator operator (begin_signed operand) (fits_signed operand)).append (fits_links rest)

theorem fits_signed : (s : Signed) → Fits s.tokens
  | .minus operand => (fits_signed operand).before .minus
      ((begin_signed operand).mono fun _ => beginsDisjunction_of_beginsChain)
  | .primary primary => fits_primary primary

theorem fits_primary : (p : Primary) → Fits p.tokens
  | .number _ => .one rfl
  | .text _ => .one rfl
  | .constant _ _ _ => .one rfl
  | .bracketed brackets content => fits_brackets brackets (fits_content content)

theorem fits_content : (c : Content) → Fits c.tokens
  | .empty => .nil
  | .items items => fits_items items

theorem fits_items : (i : Items) → Fits i.tokens
  | .last item true => (fits_disjunction item).append (.one rfl)
  | .last item false => (fits_disjunction item).append .nil
  | .more item rest => (fits_disjunction item).append
      ((fits_items rest).before .comma (begin_items rest))

end

/-- **No equality stands behind a token that awaits an operand.** -/
theorem not_equality_of_awaitsOperand (d : Disjunction) {before after : List Token} {token : Token}
    (h : token.awaitsOperand = true) :
    d.tokens ≠ before ++ token :: .comparison .equal :: after := by
  intro htokens
  have hfollows := (fits_disjunction d).follows
  rw [htokens, List.isChain_append_cons_cons] at hfollows
  cases hfollows.2.1 h

/-! ## Guards with the same tokens -/

/-- **A guard holds** when its tokens, without line breaks, are derived, and what that denotes
holds. -/
theorem holds_iff_cut {source : String} :
    holds source = true ↔ ∃ d : Disjunction, Cut (withoutBreaks source).toList d.tokens ∧
      d.nesting ≤ maxNesting ∧ ∃ v, d.denoted.evaluate = .ok v ∧ v.truthy = true := by
  constructor
  · intro h
    cases hread : read (withoutBreaks source) with
    | error fault =>
      rw [holds, hread] at h
      cases h
    | ok e =>
      obtain ⟨ls, d, hls, htokens, hn, rfl⟩ := exists_derivation_of_read hread
      refine ⟨d, ?_, hn, (holds_iff hread).mp h⟩
      rw [htokens]
      exact cut_of_lexemesFrom hls
  · rintro ⟨d, hcut, hn, hvalue⟩
    exact (holds_iff (read_of_cut hcut hn)).mpr hvalue

/-- Guards hold alike that are cut into the same tokens, where these are derived. -/
theorem holds_congr {s t : String}
    (h : ∀ d : Disjunction,
      Cut (withoutBreaks s).toList d.tokens ↔ Cut (withoutBreaks t).toList d.tokens) :
    holds s = holds t := by
  rw [Bool.eq_iff_iff, holds_iff_cut, holds_iff_cut]
  exact exists_congr fun d => and_congr_left' (h d)

/-! ## A blank between two tokens -/

/-- The token at the start of a text, behind its blanks. -/
def firstToken? : List Char → Option Token
  | [] => none
  | c :: rest => if Text.isBlank c then firstToken? rest else (Piece.next c rest).outcome.toOption

/-- **Two tokens meet**: the text before is cut into tokens, of which `before` is the last, and
`after` is cut off the text behind. -/
structure Meet (front : String) (before after : Token) (back : String) : Prop where
  /-- The tokens before end with `before`. -/
  front_cut : ∃ earlier, Cut front.toList (earlier ++ [before])
  /-- The tokens behind begin with `after`. -/
  back_begins : firstToken? back.toList = some after

/-- **Two tokens run together** once nothing is between them: the one before reaches to the end of
its text and swallows the first character behind. -/
def RunTogether (front : String) (before : Token) (back : String) : Prop :=
  (∃ c ∈ front.toList.getLast?, Text.isBlank c = false) ∧
    ∃ c ∈ back.toList.head?, before.swallows c = true

/-- What an equals sign begins is an equality, or no token. -/
theorem eq_equality_of_next {rest : List Char} {token : Token}
    (h : (Piece.next '=' rest).outcome = .ok token) :
    token = .comparison .equal ∧ ∃ tail, rest = '=' :: tail := by
  cases rest with
  | nil => cases h
  | cons c tail =>
    by_cases hc : c = '='
    · subst hc
      exact ⟨(Except.ok.inj h).symm, tail, rfl⟩
    · have hshort : Piece.next '=' (c :: tail) =
          ⟨.error (.unexpectedCharacter '='), ['='], c :: tail⟩ := if_neg hc
      rw [hshort] at h
      cases h

theorem exists_equality_of_cut {rest : List Char} {tokens : List Token}
    (h : Cut ('=' :: rest) tokens) : ∃ more, tokens = .comparison .equal :: more := by
  cases hok : (Piece.next '=' rest).outcome with
  | error fault =>
    obtain ⟨ls, hls, -⟩ := h 0
    rw [lexemesFrom_cons, if_neg (by decide), hok] at hls
    cases hls
  | ok token =>
    obtain ⟨more, -, rfl⟩ := (cut_cons_of_ok rfl hok).mp h
    exact ⟨more, congrArg (· :: more) (eq_equality_of_next hok).1⟩

/-- No guard has an equality behind the last of these tokens, if that awaits an operand. -/
theorem not_cut_of_equality {before : Token} (hawaits : before.awaitsOperand = true) {rest : List Char}
    {more : List Token} (hmore : Cut ('=' :: rest) more) (d : Disjunction) (earlier : List Token) :
    d.tokens ≠ earlier ++ [before] ++ more := by
  obtain ⟨tail, rfl⟩ := exists_equality_of_cut hmore
  rw [List.append_assoc]
  exact not_equality_of_awaitsOperand d hawaits

/-- **A sign and an equality with nothing between them** are not in a guard: the sign becomes another
one, behind which the rest of the equality is none. -/
theorem not_cut_of_joined {front rest : List Char} {earlier : List Token} {before after : Token}
    (hfront : Cut front (earlier ++ [before])) (hnext : (Piece.next '=' rest).outcome = .ok after)
    (hgo : before.goesOn '=' = true) (hnot : before.swallows '=' = false) (d : Disjunction) :
    ¬ Cut (front ++ '=' :: rest) d.tokens := by
  intro hcut
  have hawaits := (Token.awaitsOperand_of_goesOn hgo hnot).1
  -- Where the sign reaches to the end, it takes the first equals sign, and a lone one is left.
  obtain ⟨ls, hls, htokens⟩ := hfront 0
  obtain ⟨first, last, ending, hend, hsplit, -, hsettled⟩ := exists_ending hls
  obtain ⟨more, hmore, hd⟩ := (hsettled _ _).mp hcut
  rw [htokens] at hsplit
  cases hend with
  | nothing =>
    rw [List.append_nil] at hsplit
    rw [← hsplit] at hd
    exact not_cut_of_equality hawaits hmore d earlier hd
  | @token c rest' token hc hwhole =>
    obtain ⟨rfl, hlast⟩ := List.append_inj' hsplit rfl
    obtain rfl : before = token := List.singleton_inj.mp hlast
    obtain ⟨long, hlong, hjoined⟩ := Piece.exists_joined hwhole hgo hnot rest
    have hok : (Piece.next c (rest' ++ '=' :: rest)).outcome = .ok long := by rw [hjoined]
    obtain ⟨tail, htail, rfl⟩ := (cut_cons_of_ok hc hok).mp hmore
    rw [hjoined] at htail
    obtain ⟨rest, rfl⟩ := (eq_equality_of_next hnext).2
    refine not_cut_of_equality hlong htail d earlier ?_
    rw [hd, List.append_assoc]
    rfl

/-- **A blank between two tokens that do not run together** means nothing. -/
theorem cut_blank_iff {front back : String} {before after : Token} {c : Char}
    (hc : Text.isBlank c = true) (hmeet : Meet front before after back)
    (hapart : ¬ RunTogether front before back) (d : Disjunction) :
    Cut (front.toList ++ c :: back.toList) d.tokens ↔
      Cut (front.toList ++ back.toList) d.tokens := by
  obtain ⟨⟨earlier, hfront⟩, hbegins⟩ := hmeet
  have hblank : Apart front.toList (earlier ++ [before]) (c :: back.toList) := by
    intro token _ _ _ _ x hx
    cases hx
    exact token.goesOn_of_isBlank hc
  rw [cut_append_iff hfront hblank]
  simp only [cut_cons_of_isBlank hc]
  by_cases hstops : Apart front.toList (earlier ++ [before]) back.toList
  · rw [cut_append_iff hfront hstops]
  · -- The last token would be another sign, with an equals sign behind it.
    simp only [Apart, Token.Stops, not_forall, Bool.not_eq_false] at hstops
    obtain ⟨token, htoken, x, hx, hnot, y, hy, hgo⟩ := hstops
    rw [List.getLast?_concat] at htoken
    obtain rfl : before = token := Option.some.inj htoken
    have hswallows : before.swallows y = false :=
      Bool.eq_false_iff.mpr fun h => hapart ⟨⟨x, hx, hnot⟩, y, hy, h⟩
    obtain ⟨hawaits, rfl⟩ := Token.awaitsOperand_of_goesOn hgo hswallows
    obtain ⟨rest, hrest⟩ := List.head?_eq_some_iff.mp hy
    rw [hrest] at hbegins ⊢
    constructor
    · rintro ⟨more, hmore, hd⟩
      exact absurd hd (not_cut_of_equality hawaits hmore d earlier)
    · intro hcut
      have hnext : (Piece.next '=' rest).outcome.toOption = some after := hbegins
      exact absurd hcut
        (not_cut_of_joined hfront (eq_ok_of_toOption hnext) hgo hswallows d)

/-! ## A line break between two tokens -/

/-- The text consists of line breaks. -/
def IsBreak (s : String) : Prop :=
  ∀ c ∈ s.toList, c = '\n' ∨ c = '\r'

instance (s : String) : Decidable (IsBreak s) :=
  List.decidableBAll _ s.toList

theorem withoutBreaks_of_isBreak {s : String} (h : IsBreak s) : withoutBreaks s = "" := by
  have hdropped : s.toList.filter (fun c => c != '\n' && c != '\r') = [] := by
    refine List.filter_eq_nil_iff.mpr fun c hc => ?_
    rcases h c hc with rfl | rfl <;> decide
  rw [withoutBreaks, hdropped]

/-- **A line break between two tokens is taken out**, so it means what nothing means there; and what a
blank means, unless the two tokens run together. -/
theorem holds_of_break {front back lineBreak : String} {blank : Char} {before after : Token}
    (hbreak : IsBreak lineBreak) (hblank : Text.isBlank blank = true)
    (hmeet : Meet (withoutBreaks front) before after (withoutBreaks back)) :
    holds (front ++ lineBreak ++ back) = holds (front ++ back) ∧
      (¬ RunTogether (withoutBreaks front) before (withoutBreaks back) →
        holds (front ++ lineBreak ++ back) = holds (front ++ String.singleton blank ++ back)) := by
  have hnone : withoutBreaks (front ++ lineBreak ++ back) =
      withoutBreaks front ++ withoutBreaks back := by
    rw [withoutBreaks_append, withoutBreaks_append, withoutBreaks_of_isBreak hbreak,
      String.append_empty]
  constructor
  · rw [holds, holds, hnone, withoutBreaks_append]
  · intro hapart
    refine holds_congr fun d => ?_
    rw [hnone, withoutBreaks_append, withoutBreaks_append, String.toList_append,
      String.toList_append, String.toList_append, List.append_assoc]
    by_cases hkept : (blank != '\n' && blank != '\r') = true
    · have hsingle : (withoutBreaks (String.singleton blank)).toList = [blank] := by
        simp [withoutBreaks, hkept]
      rw [hsingle, List.singleton_append]
      exact (cut_blank_iff hblank hmeet hapart d).symm
    · have hsingle : (withoutBreaks (String.singleton blank)).toList = [] := by
        simp [withoutBreaks, hkept]
      rw [hsingle, List.nil_append]

theorem cut_not : Cut "not".toList [.word "not"] := by
  have hls : lexemesFrom 0 "not".toList = .ok [⟨0, .word "not"⟩] :=
    eq_ok_of_toOption (by decide +kernel)
  exact cut_of_lexemesFrom hls

/-- With a bracket behind it, a word ends. -/
theorem holds_of_break_of_bracket :
    holds "not\r\n(null)" = holds "not(null)" ∧ holds "not\r\n(null)" = holds "not (null)" := by
  have hfront : withoutBreaks "not" = "not" := withoutBreaks_eq_self (by decide)
  have hback : withoutBreaks "(null)" = "(null)" := withoutBreaks_eq_self (by decide)
  have hmeet : Meet (withoutBreaks "not") (.word "not") .openParen (withoutBreaks "(null)") := by
    rw [hfront, hback]
    exact ⟨⟨[], cut_not⟩, by decide +kernel⟩
  have hapart : ¬ RunTogether (withoutBreaks "not") (.word "not") (withoutBreaks "(null)") := by
    have hhead : "(null)".toList.head? = some '(' := by decide +kernel
    rw [hback]
    rintro ⟨-, c, hc, hswallows⟩
    rw [hhead] at hc
    cases hc
    revert hswallows
    decide
  have hbreak : IsBreak "\r\n" := by decide
  have hblank : Text.isBlank ' ' = true := rfl
  obtain ⟨hnothing, hsame⟩ := holds_of_break hbreak hblank hmeet
  exact ⟨hnothing, hsame hapart⟩

/-- **Words and numbers run together**: `not` and `null` are two tokens with a blank between them, and
one word that means nothing with a break between them; likewise two numbers become one. -/
theorem break_joins_tokens :
    Meet "not" (.word "not") (.word "null") "null" ∧ IsBreak "\n" ∧
      holds ("not" ++ String.singleton ' ' ++ "null") = true ∧
      holds ("not" ++ "\n" ++ "null") = false ∧
      holds ("1" ++ String.singleton ' ' ++ "5") = false ∧
      holds ("1" ++ "\n" ++ "5") = true := by
  refine ⟨⟨⟨[], cut_not⟩, ?_⟩, ?_, ?_, ?_, ?_, ?_⟩
  · decide +kernel
  · decide
  · decide +kernel
  · decide +kernel
  · decide +kernel
  · decide +kernel

end Runbook.Guard

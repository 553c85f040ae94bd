import Mathlib.Data.String.Basic
import Runbook.Proofs.Guard.Scan

/-!
# Where errors in guards stand

The loop that cuts a guard into tokens finds each of them where a character begins, and each behind
the one before (`Scan.Placed`).  A reader that fails says so at one of the lexemes that it was given,
or at the end of their text, and one that succeeds leaves an end of them (`Within`); so every offset
that is reported for a guard is one at which a character begins, or its length in bytes
(`lexer_advances_with_true_offsets`).
-/

namespace Runbook.Guard

/-! ## Where characters begin -/

/-- **A character of the text begins at this byte.** -/
def Begins (source : String) (offset : Nat) : Prop :=
  String.Pos.Raw.IsValid source ⟨offset⟩ ∧ offset < source.utf8ByteSize

theorem byteLength_eq (cs : List Char) : byteLength cs = (String.ofList cs).utf8ByteSize := by
  rw [String.utf8ByteSize_ofList]
  induction cs with
  | nil => rfl
  | cons c rest ih => rw [byteLength, ih, String.utf8Len_cons, Nat.add_comm]

theorem byteLength_toList (source : String) : byteLength source.toList = source.utf8ByteSize := by
  rw [byteLength_eq, String.ofList_toList]

theorem byteLength_pos {cs : List Char} (h : cs ≠ []) : 0 < byteLength cs := by
  cases cs with
  | nil => exact absurd rfl h
  | cons c rest => exact Nat.lt_of_lt_of_le c.utf8Size_pos (Nat.le_add_right _ _)

/-- Behind the characters before it, a character begins. -/
theorem begins_of_toList {source : String} {before after : List Char}
    (h : source.toList = before ++ after) (hne : after ≠ []) :
    Begins source (byteLength before) := by
  constructor
  · refine String.Pos.Raw.isValid_iff_exists_append.mpr
      ⟨String.ofList before, String.ofList after, ?_, ?_⟩
    · rw [← String.ofList_append, ← h, String.ofList_toList]
    · rw [byteLength_eq]
      rfl
  · rw [← byteLength_toList, h, byteLength_append]
    exact Nat.lt_add_of_pos_right (byteLength_pos hne)

/-! ## Where lexemes stand -/

namespace Scan
variable {source : String} {s next : Scan} {looks : Nat}

theorem begins_offset (h : s.ahead source ≠ []) : Begins source (s.offset source) :=
  begins_of_toList (List.take_append_drop s.taken source.toList).symm h

theorem Takes.ahead_ne_nil {span : List Char} (h : s.Takes source next span) :
    s.ahead source ≠ [] := by
  intro hnil
  have hspan := h.follows
  rw [hnil] at hspan
  exact h.ne_nil (List.prefix_nil.mp hspan)

theorem Takes.offset_lt {span : List Char} (h : s.Takes source next span) :
    s.offset source < next.offset source := by
  obtain ⟨after, hafter⟩ := h.follows
  rw [(ahead_and_offset next hafter.symm h.taken_eq).2]
  exact Nat.lt_add_of_pos_right (byteLength_pos h.ne_nil)

/-- **The lexemes that were found stand where characters begin**, one behind the other, and before
what is ahead. -/
structure Placed (source : String) (s : Scan) : Prop where
  /-- Each stands behind those before it. -/
  increasing : s.found.Pairwise fun l m => l.offset < m.offset
  /-- Each stands where a character begins. -/
  begins : ∀ l ∈ s.found, Begins source l.offset
  /-- All stand before the character that is looked at. -/
  before : ∀ l ∈ s.found, l.offset < s.offset source

theorem placed_start (source : String) : start.Placed source :=
  ⟨.nil, nofun, nofun⟩

theorem Placed.takes (hs : s.Placed source) {span : List Char} (h : s.Takes source next span) :
    next.Placed source := by
  rcases h.blank_or_token with ⟨c, -, -, hfound⟩ | ⟨token, -, hfound⟩
  · refine ⟨?_, ?_, ?_⟩
    · rw [hfound]
      exact hs.increasing
    · rw [hfound]
      exact hs.begins
    · rw [hfound]
      exact fun l hl => Nat.lt_trans (hs.before l hl) h.offset_lt
  · refine ⟨?_, ?_, ?_⟩
    · rw [hfound, List.pairwise_append]
      refine ⟨hs.increasing, List.pairwise_singleton _ _, fun l hl m hm => ?_⟩
      rw [List.mem_singleton.mp hm]
      exact hs.before l hl
    · rw [hfound]
      exact List.forall_mem_append.mpr
        ⟨hs.begins, List.forall_mem_singleton.mpr (begins_offset h.ahead_ne_nil)⟩
    · rw [hfound]
      exact List.forall_mem_append.mpr
        ⟨fun l hl => Nat.lt_trans (hs.before l hl) h.offset_lt,
          List.forall_mem_singleton.mpr h.offset_lt⟩

theorem Reached.placed (h : Reached source looks s) : s.Placed source := by
  induction h with
  | start => exact placed_start source
  | look hs hlook ih =>
    obtain ⟨span, htakes⟩ := exists_takes hlook
    exact ih.takes htakes

theorem eq_of_ends_ok {ls : List Lexeme} (h : s.look source = .ends (.ok ls)) : ls = s.found := by
  have houtcome := outcome_look source s
  rw [h] at houtcome
  cases houtcome
  rfl

theorem begins_of_ends_error {e : SyntaxError} (h : s.look source = .ends (.error e)) :
    Begins source e.offset := by
  have houtcome := outcome_look source s
  rw [h] at houtcome
  cases houtcome with
  | fault hahead hc herror =>
    refine begins_offset ?_
    rw [hahead]
    exact List.cons_ne_nil _ _

end Scan

theorem placed_of_lexemes {source : String} {ls : List Lexeme} (h : lexemes source = .ok ls) :
    ls.Pairwise (fun l m => l.offset < m.offset) ∧ ∀ l ∈ ls, Begins source l.offset := by
  have hstart : Scan.Reached source 0 .start := .start
  obtain ⟨looks, s, -, hs, hend⟩ := hstart.exists_end
  rw [h] at hend
  rw [Scan.eq_of_ends_ok hend]
  exact ⟨hs.placed.increasing, hs.placed.begins⟩

theorem begins_of_lexemes {source : String} {e : SyntaxError} (h : lexemes source = .error e) :
    Begins source e.offset := by
  have hstart : Scan.Reached source 0 .start := .start
  obtain ⟨looks, s, -, hs, hend⟩ := hstart.exists_end
  rw [h] at hend
  exact Scan.begins_of_ends_error hend

/-! ## Where readers fail -/

section Within
variable {α β : Type} {bound large stop : Nat} {input rest : List Lexeme}

/-- The offset is the end of the text, or one of these lexemes stands there. -/
def At (stop : Nat) (input : List Lexeme) (offset : Nat) : Prop :=
  offset = stop ∨ ∃ l ∈ input, l.offset = offset

/-- **A reader stays within its input**: an error stands at one of the lexemes or at the end of the
text, and what is left is an end of the input. -/
def Within (stop : Nat) (input : List Lexeme) : Except SyntaxError (Parsed α bound) → Prop
  | .ok p => p.rest <:+ input
  | .error e => At stop input e.offset

theorem At.mono {offset : Nat} (h : At stop rest offset) (hrest : rest <:+ input) :
    At stop input offset :=
  h.imp_right fun ⟨l, hl, he⟩ => ⟨l, hrest.subset hl, he⟩

theorem Within.rest_suffix {outcome : Except SyntaxError (Parsed α bound)}
    (h : Within stop input outcome) {p : Parsed α bound} (hp : outcome = .ok p) :
    p.rest <:+ input := by
  subst hp
  exact h

theorem Within.tail_suffix {outcome : Except SyntaxError (Parsed α bound)}
    (h : Within stop input outcome) {p : Parsed α bound} (hp : outcome = .ok p) {l : Lexeme}
    {tail : List Lexeme} (htail : p.rest = l :: tail) : tail <:+ input := by
  have hsuffix := h.rest_suffix hp
  rw [htail] at hsuffix
  exact (List.suffix_cons l tail).trans hsuffix

theorem Within.error_at {outcome : Except SyntaxError (Parsed α bound)}
    (h : Within stop input outcome) {e : SyntaxError} (he : outcome = .error e) :
    At stop input e.offset := by
  subst he
  exact h

theorem Within.mono {outcome : Except SyntaxError (Parsed α bound)} (h : Within stop rest outcome)
    (hrest : rest <:+ input) : Within stop input outcome := by
  cases outcome with
  | ok p => exact List.IsSuffix.trans h hrest
  | error e => exact At.mono h hrest

theorem Within.map {outcome : Except SyntaxError (Parsed α bound)} (h : Within stop input outcome)
    {f : Parsed α bound → Parsed β large} (hf : ∀ p, (f p).rest = p.rest) :
    Within stop input (outcome.map f) := by
  cases outcome with
  | ok p =>
    show (f p).rest <:+ input
    rw [hf]
    exact h
  | error e => exact h

end Within

/-- **The reader stays within every input.** -/
def Reader.Stays {α : Type} (stop : Nat) (reader : Reader α) : Prop :=
  ∀ input, Within stop input (reader input)

section Combinators
variable {stop : Nat}

theorem within_terms {term : Reader Expression} (h : term.Stays stop) (isLink : Token → Bool)
    (input : List Lexeme) : Within stop input (terms isLink term input) := by
  fun_induction terms isLink term input with
  | case1 input e he => exact (h input).error_at he
  | case2 input first hfirst hrest => exact (h input).rest_suffix hfirst
  | case3 input first hfirst l rest hrest shorter hlink e he ih =>
    exact (ih.error_at he).mono ((h input).tail_suffix hfirst hrest)
  | case4 input first hfirst l rest hrest shorter hlink more hmore ih =>
    exact (ih.rest_suffix hmore).trans ((h input).tail_suffix hfirst hrest)
  | case5 input first hfirst l rest hrest shorter hlink => exact (h input).rest_suffix hfirst

/-- The operator at the start of the input is taken off it. -/
theorem suffix_of_next? {input : List Lexeme} {link : Parsed Link input.length}
    (h : Link.next? input = some link) : link.rest <:+ input := by
  unfold Link.next? at h
  split at h
  · cases h
    exact List.suffix_cons _ _
  · cases h
    exact List.suffix_cons _ _
  · cases h
    exact List.suffix_cons _ _
  · cases h
    exact (List.suffix_cons _ _).trans (List.suffix_cons _ _)
  · cases h

theorem within_links {operand : Reader Expression} (h : operand.Stays stop) (left : Expression)
    (input : List Lexeme) : Within stop input (links operand left input) := by
  fun_induction links operand left input with
  | case1 left input hnone => exact List.suffix_refl input
  | case2 left input link hlink e he =>
    exact ((h link.rest).error_at he).mono (suffix_of_next? hlink)
  | case3 left input link hlink right hright e he ih =>
    exact (ih.error_at he).mono (((h link.rest).rest_suffix hright).trans (suffix_of_next? hlink))
  | case4 left input link hlink right hright more hmore ih =>
    exact (ih.rest_suffix hmore).trans
      (((h link.rest).rest_suffix hright).trans (suffix_of_next? hlink))

theorem stays_chain {operand : Reader Expression} (h : operand.Stays stop) :
    (chain operand).Stays stop := by
  intro input
  unfold chain
  split
  · rename_i e he
    exact (h input).error_at he
  · rename_i first hfirst
    have hsuffix := (h input).rest_suffix hfirst
    have hlinks := within_links h first.value first.rest
    split
    · rename_i e he
      exact (hlinks.error_at he).mono hsuffix
    · rename_i more hmore
      exact (hlinks.rest_suffix hmore).trans hsuffix

theorem within_sequence {item : Reader Expression} (h : item.Stays stop) (close : Token)
    (afterComma : Bool) (input : List Lexeme) :
    Within stop input (sequence stop item close afterComma input) := by
  fun_induction sequence stop item close afterComma input with
  | case1 =>
    cases hitem : item [] with
    | error e => exact (h []).error_at hitem
    | ok p => exact absurd p.shorter (Nat.not_lt_zero _)
  | case2 afterComma l rest hclose => exact List.suffix_cons l rest
  | case3 afterComma l rest hclose e he => exact (h (l :: rest)).error_at he
  | case4 => exact .inl rfl
  | case5 afterComma l rest hclose first hfirst l' tail htail shorter hcomma e he ih =>
    exact (ih.error_at he).mono ((h (l :: rest)).tail_suffix hfirst htail)
  | case6 afterComma l rest hclose first hfirst l' tail htail shorter hcomma more hmore ih =>
    exact (ih.rest_suffix hmore).trans ((h (l :: rest)).tail_suffix hfirst htail)
  | case7 afterComma l rest hclose first hfirst l' tail htail shorter hcomma hclose' =>
    exact (h (l :: rest)).tail_suffix hfirst htail
  | case8 afterComma l rest hclose first hfirst l' tail htail shorter hcomma hclose' =>
    have hsuffix := (h (l :: rest)).rest_suffix hfirst
    rw [htail] at hsuffix
    exact .inr ⟨l', hsuffix.subset List.mem_cons_self, rfl⟩

end Combinators

/-! ## The readers of a depth -/

/-- The readers of a depth stay within their inputs. -/
structure Levels.Stay (stop : Nat) (readers : Levels) : Prop where
  alternatives : readers.alternatives.Stays stop
  negation : readers.negation.Stays stop
  signed : readers.signed.Stays stop

section Depth
variable {stop : Nat} {deeper : Option Levels}

theorem within_nested (h : ∀ inner ∈ deeper, inner.Stay stop) {reader : Levels → Reader Expression}
    (hreader : ∀ inner : Levels, inner.Stay stop → (reader inner).Stays stop) (l : Lexeme)
    (rest : List Lexeme) : Within stop (l :: rest) (nested deeper l.offset reader rest) := by
  cases deeper with
  | none => exact .inr ⟨l, List.mem_cons_self, rfl⟩
  | some inner => exact (hreader inner (h inner rfl) rest).mono (List.suffix_cons l rest)

theorem within_bracketed (h : ∀ inner ∈ deeper, inner.Stay stop) (close : Token) (l : Lexeme)
    (rest : List Lexeme) :
    Within stop (l :: rest) (bracketed stop deeper l.offset close rest) := by
  cases deeper with
  | none => exact .inr ⟨l, List.mem_cons_self, rfl⟩
  | some inner =>
    have hwithin := within_sequence (h inner rfl).alternatives close false rest
    exact hwithin.mono (List.suffix_cons l rest)

theorem stays_primary (h : ∀ inner ∈ deeper, inner.Stay stop) :
    Reader.Stays stop (primary stop deeper) := by
  intro input
  cases input with
  | nil => exact .inl rfl
  | cons l rest =>
    obtain ⟨offset, token⟩ := l
    have hhere : At stop (⟨offset, token⟩ :: rest) offset := .inr ⟨_, List.mem_cons_self, rfl⟩
    have hsuffix : rest <:+ ⟨offset, token⟩ :: rest := List.suffix_cons _ rest
    cases token with
    | number x => exact hsuffix
    | text s => exact hsuffix
    | word w =>
      rw [primary]
      split
      · exact hsuffix
      · exact hhere
    | openParen => exact (within_bracketed h .closeParen ⟨offset, _⟩ rest).map fun _ => rfl
    | openBracket => exact (within_bracketed h .closeBracket ⟨offset, _⟩ rest).map fun _ => rfl
    | openBrace => exact (within_bracketed h .closeBrace ⟨offset, _⟩ rest).map fun _ => rfl
    | _ => exact hhere

theorem stays_signed (h : ∀ inner ∈ deeper, inner.Stay stop) :
    Reader.Stays stop (signed stop deeper) := by
  intro input
  unfold signed
  split
  · rename_i offset rest
    exact (within_nested h (fun _ hi => hi.signed) ⟨offset, .minus⟩ rest).map fun _ => rfl
  · exact stays_primary h input

theorem stays_negation (h : ∀ inner ∈ deeper, inner.Stay stop) :
    Reader.Stays stop (negation stop deeper) := by
  intro input
  cases input with
  | nil => exact stays_chain (stays_signed h) []
  | cons l rest =>
    rw [negation]
    split
    · exact (within_nested h (fun _ hi => hi.negation) l rest).map fun _ => rfl
    · exact stays_chain (stays_signed h) (l :: rest)

theorem stays_conjunction (h : ∀ inner ∈ deeper, inner.Stay stop) :
    Reader.Stays stop (conjunction stop deeper) := fun input =>
  (within_terms (stays_negation h) isConjunction input).map fun _ => rfl

theorem stays_disjunction (h : ∀ inner ∈ deeper, inner.Stay stop) :
    Reader.Stays stop (disjunction stop deeper) := fun input =>
  (within_terms (stays_conjunction h) isDisjunction input).map fun _ => rfl

theorem stay_over (h : ∀ inner ∈ deeper, inner.Stay stop) : (Levels.over stop deeper).Stay stop :=
  ⟨stays_disjunction h, stays_negation h, stays_signed h⟩

end Depth

/-- **The readers of every depth stay within their inputs.** -/
theorem stay_levels (stop n : Nat) : (levels stop n).Stay stop := by
  induction n with
  | zero => exact stay_over nofun
  | succ n ih =>
    refine stay_over fun inner hinner => ?_
    cases hinner
    exact ih

theorem at_of_ofLexemes {stop : Nat} {input : List Lexeme} (hne : input ≠ []) {e : SyntaxError}
    (h : ofLexemes stop input = .error e) : At stop input e.offset := by
  unfold ofLexemes at h
  split at h
  · exact absurd rfl hne
  · have hwithin := (stay_levels stop maxNesting).alternatives input
    split at h
    · rename_i hfailed
      cases h
      exact hwithin.error_at hfailed
    · cases h
    · rename_i l rest hshorter hread
      cases h
      exact .inr ⟨l, (hwithin.rest_suffix hread).subset List.mem_cons_self, rfl⟩

theorem begins_or_eq_of_read {source : String} {e : SyntaxError} (h : read source = .error e) :
    Begins source e.offset ∨ e.offset = source.utf8ByteSize := by
  unfold read at h
  cases hls : lexemes source with
  | error fault =>
    rw [hls] at h
    cases h
    exact .inl (begins_of_lexemes hls)
  | ok ls =>
    rw [hls] at h
    have hof : ofLexemes source.utf8ByteSize ls = .error e := h
    by_cases hne : ls = []
    · -- Without lexemes the error stands at the first byte, if there is one.
      subst hne
      cases hof
      by_cases hempty : source.toList = []
      · right
        rw [← byteLength_toList, hempty]
        rfl
      · exact .inl (begins_of_toList (List.nil_append source.toList).symm hempty)
    · rcases at_of_ofLexemes hne hof with heq | ⟨l, hl, heq⟩
      · exact .inr heq
      · rw [← heq]
        exact .inl ((placed_of_lexemes hls).2 l hl)

/-- **Reading a guard always advances, and reports true offsets.**  For every text, the loop over its
characters ends after no more looks than there are characters, and what it comes to are the lexemes of
the text.  Each look takes at least one character, right behind those that were taken before: a blank,
or the spelling of one token; where there is no error, all characters are taken in the end.  Lexemes
stand one behind the other at bytes where characters begin, so do the errors of the loop, and an error
in reading stands at such a byte or at the end of the text. -/
theorem lexer_advances_with_true_offsets (source : String) :
    (∃ looks s, looks ≤ source.length ∧ Scan.Reached source looks s ∧
        s.look source = .ends (lexemes source)) ∧
      (∀ looks s next, Scan.Reached source looks s → s.look source = .goesOn next →
        ∃ span, s.Takes source next span) ∧
      (∀ looks s ls, Scan.Reached source looks s → s.look source = .ends (.ok ls) →
        s.taken = source.length) ∧
      (∀ ls, lexemes source = .ok ls →
        ls.Pairwise (fun l m => l.offset < m.offset) ∧ ∀ l ∈ ls, Begins source l.offset) ∧
      (∀ e, lexemes source = .error e → Begins source e.offset) ∧
      ∀ e, read source = .error e →
        Begins source e.offset ∨ e.offset = source.utf8ByteSize := by
  refine ⟨?ends, ?takes, ?whole, fun ls => placed_of_lexemes, fun e => begins_of_lexemes,
    fun e => begins_or_eq_of_read⟩
  case ends =>
    have hstart : Scan.Reached source 0 .start := .start
    rw [← String.length_toList]
    exact hstart.exists_end
  case takes => exact fun looks s next hs hlook => Scan.exists_takes hlook
  case whole =>
    intro looks s ls hs hend
    rw [← String.length_toList]
    exact (hs.exact.result_eq hend).2 ls rfl

/-- A comparison that lacks its right operand, behind a character of two bytes. -/
def accented : String :=
  "'é' == "

theorem lexemes_accented :
    lexemes accented = .ok [⟨0, .text "é"⟩, ⟨5, .comparison .equal⟩] :=
  eq_ok_of_toOption (by decide +kernel)

theorem exists_error_accented : ∃ e, read accented = .error e ∧ e.offset = 8 := by
  have hoffset : (match read accented with
      | .ok _ => none
      | .error e => some e.offset) = some 8 := by decide +kernel
  cases hread : read accented with
  | ok value =>
    rw [hread] at hoffset
    cases hoffset
  | error e =>
    rw [hread] at hoffset
    exact ⟨e, rfl, Option.some.inj hoffset⟩

/-- Four characters of five bytes stand before the sign, and its right operand is missed at the end of
the text. -/
theorem lexer_advances_with_true_offsets_of_accented :
    (∃ looks s, looks ≤ 7 ∧ Scan.Reached accented looks s ∧
        s.look accented = .ends (lexemes accented)) ∧
      Begins accented 5 ∧ ∃ e, read accented = .error e ∧ e.offset = accented.utf8ByteSize := by
  obtain ⟨hends, -, -, hok, -, hread⟩ := lexer_advances_with_true_offsets accented
  refine ⟨hends, (hok _ lexemes_accented).2 ⟨5, .comparison .equal⟩ (by decide), ?_⟩
  obtain ⟨e, he, hoffset⟩ := exists_error_accented
  refine ⟨e, he, (hread e he).resolve_left fun hbegins => ?_⟩
  rw [hoffset] at hbegins
  exact absurd hbegins.2 (by decide)

end Runbook.Guard

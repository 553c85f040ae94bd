import Runbook.Proofs.Json.RoundTrip
import Runbook.Proofs.Log.Replay

/-!
# Reading a log undoes writing it

A line of a log is read as the line that was written, if its counts fit 64 bits and its durations
are read again from their texts (`decode?_compact`).  The text of a line has no line break, so a
file with these lines and any blank lines between them is read as the lines (`readLines_spaced`).
Appending makes such a file, and so what is read are the events that were appended
(`read_undoes_append`); but at least one has to be appended, and the log must not have been there
already (`append_detour`).
-/

namespace Runbook.Log

/-! ## Events that can be read again -/

/-- **What is counted fits 64 bits, and what is measured is read again from its text.** -/
def Event.Survives : Event → Prop
  | runStarted _ _ _ steps _ => steps < 18446744073709551616
  | stepCompleted _ _ _ seconds _ => (Json.Number.real seconds).Survives
  | stepSkipped _ _ _ => True
  | runCompleted _ executed skipped seconds =>
    executed < 18446744073709551616 ∧ skipped < 18446744073709551616 ∧
      (Json.Number.real seconds).Survives
  | runFailed _ _ => True

theorem legible_ofNat {n : Nat} (h : n < 18446744073709551616) : (Json.ofNat n).Legible :=
  Json.Number.legible_integer (by simp [Json.Number.fits]; omega)

theorem legible_toJson {l : Line} (h : l.event.Survives) : l.toJson.Legible := by
  obtain ⟨time, event⟩ := l
  cases event with
  | runStarted run planHash mode steps version =>
    exact ⟨trivial, trivial, trivial, trivial, trivial, legible_ofNat h, trivial, trivial⟩
  | stepCompleted run step tool seconds outputHash =>
    exact ⟨trivial, trivial, trivial, trivial, trivial, h.legible, trivial, trivial⟩
  | stepSkipped run step expression => exact ⟨trivial, trivial, trivial, trivial, trivial, trivial⟩
  | runCompleted run executed skipped seconds =>
    obtain ⟨hexecuted, hskipped, hseconds⟩ := h
    exact ⟨trivial, trivial, trivial, legible_ofNat hexecuted, legible_ofNat hskipped,
      hseconds.legible, trivial⟩
  | runFailed run error => exact ⟨trivial, trivial, trivial, trivial, trivial⟩

theorem nesting_toJson (l : Line) : l.toJson.nesting ≤ Json.maxNesting := by
  obtain ⟨time, event⟩ := l
  cases event with
  | _ => exact Nat.le_of_ble_eq_true rfl

/-! ## One line -/

theorem natural?_ofNat (n : Nat) : Json.natural? (.ofNat n) = some n := by
  show (if (0 : Int) ≤ (n : Int) then some (n : Int).toNat else none) = some n
  rw [if_pos (Int.natCast_nonneg n), Int.toNat_natCast]

theorem mode?_toJson (m : Run.Mode) : Event.mode? m.toJson = some m := by
  cases m <;> rfl

/-- **A line is read from its JSON value**: its time stamp and its kind are told apart from the
fields of its event. -/
theorem Line.read?_toJson (l : Line) : Line.read? l.toJson = some l := by
  obtain ⟨time, event⟩ := l
  cases event with
  | runStarted run planHash mode steps version =>
    show Option.map _ ((Event.mode? mode.toJson).bind fun mode =>
      (Json.natural? (.ofNat steps)).bind fun steps =>
        some (Event.runStarted run planHash mode steps version)) = _
    rw [mode?_toJson, natural?_ofNat]
    rfl
  | stepCompleted run step tool seconds outputHash => rfl
  | stepSkipped run step expression => rfl
  | runCompleted run executed skipped seconds =>
    show Option.map _ ((Json.natural? (.ofNat executed)).bind fun executed =>
      (Json.natural? (.ofNat skipped)).bind fun skipped =>
        some (Event.runCompleted run executed skipped seconds)) = _
    rw [natural?_ofNat, natural?_ofNat]
    rfl
  | runFailed run error => rfl

/-- **The text of a line is read as the line.** -/
theorem decode?_compact {l : Line} (h : l.event.Survives) :
    Json.decode? Line.read? (String.ofList l.toJson.chars) = some l := by
  unfold Json.decode?
  rw [String.toList_ofList, Json.document?_chars (legible_toJson h) (nesting_toJson l)]
  exact Line.read?_toJson l

/-! ## The lines of a text -/

theorem lines_cons {c : Char} {rest : List Char} (hfeed : c ≠ '\n')
    (hreturn : c = '\r' → rest.head? ≠ some '\n') :
    Text.lines (c :: rest) = Text.consLine c (Text.lines rest) := by
  rw [Text.lines.eq_4 c rest hfeed]
  rintro tail rfl rfl
  exact hreturn rfl rfl

/-- **A row of characters without a line feed** and the line feed after it are one line, which
consists of these characters, but for a carriage return at the end. -/
theorem lines_row {row : List Char} (h : '\n' ∉ row) (text : List Char) :
    ∃ line, Text.lines (row ++ '\n' :: text) = line :: Text.lines text ∧
      (∀ c ∈ line, c ∈ row) ∧ ('\r' ∉ row → line = row) := by
  induction row with
  | nil => exact ⟨[], rfl, fun _ h => h, fun _ => rfl⟩
  | cons c row ih =>
    have hc : c ≠ '\n' := fun heq => h (heq ▸ List.mem_cons_self)
    have hrow : '\n' ∉ row := fun hmem => h (List.mem_cons_of_mem c hmem)
    obtain ⟨line, hlines, hmem, heq⟩ := ih hrow
    by_cases hend : c = '\r' ∧ row = []
    · obtain ⟨rfl, rfl⟩ := hend
      exact ⟨[], rfl, List.forall_mem_nil _, fun hno => absurd List.mem_cons_self hno⟩
    · have hreturn : c = '\r' → (row ++ '\n' :: text).head? ≠ some '\n' := by
        intro hcr
        cases row with
        | nil => exact absurd ⟨hcr, rfl⟩ hend
        | cons d row =>
          intro hd
          exact hrow (Option.some.inj hd ▸ List.mem_cons_self)
      refine ⟨c :: line, ?_, ?_, ?_⟩
      · rw [List.cons_append, lines_cons hc hreturn, hlines]
        rfl
      · exact List.forall_mem_cons.2
          ⟨List.mem_cons_self, fun d hd => List.mem_cons_of_mem c (hmem d hd)⟩
      · intro hno
        rw [heq fun hr => hno (List.mem_cons_of_mem c hr)]

/-- **A text of lines with blank lines around them.** -/
inductive Spaced : List Line → List Char → Prop
  | nil : Spaced [] []
  | blank {ls : List Line} {text row : List Char} (hblank : row.all Text.isBlank = true)
    (hrow : '\n' ∉ row) (hrest : Spaced ls text) : Spaced ls (row ++ '\n' :: text)
  | line {ls : List Line} {text : List Char} (l : Line) (hrest : Spaced ls text) :
    Spaced (l :: ls) (l.toJson.chars ++ '\n' :: text)

/-- **The lines of a text are read**, and blank lines count for nothing. -/
theorem readLines_spaced {ls : List Line} {text : List Char} (h : Spaced ls text)
    (hs : ∀ l ∈ ls, l.event.Survives) (path : String) (number : Nat) :
    readLines path number ((Text.lines text).map some) = .ok ls := by
  induction h generalizing number with
  | nil => rfl
  | @blank ls text row hblank hrow _ ih =>
    obtain ⟨line, hlines, hmem, -⟩ := lines_row hrow text
    have hline : line.all Text.isBlank = true :=
      List.all_eq_true.2 fun c hc => List.all_eq_true.1 hblank c (hmem c hc)
    rw [hlines, List.map_cons, readLines, if_pos hline]
    exact ih hs (number + 1)
  | @line ls text l _ ih =>
    obtain ⟨hl, hs⟩ := List.forall_mem_cons.1 hs
    have hvisible := Json.visible_chars l.toJson (legible_toJson hl)
    have hfeed : '\n' ∉ l.toJson.chars := fun hmem => absurd (hvisible _ hmem) (by decide)
    have hreturn : '\r' ∉ l.toJson.chars := fun hmem => absurd (hvisible _ hmem) (by decide)
    obtain ⟨line, hlines, -, hline⟩ := lines_row hfeed text
    obtain rfl := hline hreturn
    have hnot : ¬l.toJson.chars.all Text.isBlank = true := fun hall =>
      absurd (List.all_eq_true.1 hall '\x7b' List.mem_cons_self) (by decide)
    rw [hlines, List.map_cons, readLines, if_neg hnot, decode?_compact hl, ih hs (number + 1)]

theorem spaced_flatMap (ls : List Line) :
    Spaced ls (ls.flatMap fun l => l.toJson.chars ++ ['\n']) := by
  induction ls with
  | nil => exact .nil
  | cons l ls ih =>
    have hl := ih.line l
    simpa using hl

/-! ## Appending and reading -/

theorem foldl_append_written (ls : List Line) (s : String) :
    (ls.map Line.written).foldl Files.Content.append (.text s) =
      .text (s ++ String.ofList (ls.flatMap fun l => l.toJson.chars ++ ['\n'])) := by
  induction ls generalizing s with
  | nil => simp
  | cons l ls ih =>
    show ((ls.map Line.written).foldl Files.Content.append (.text (s ++ l.written))) = _
    rw [ih]
    simp [Line.written, Json.compact, String.append_assoc]

theorem read_spaced {files : Files} {path : String} {ls : List Line} {text : List Char}
    (h : Spaced ls text) (hs : ∀ l ∈ ls, l.event.Survives)
    (hread : files.read path = .ok (.text (String.ofList text))) : read files path = .ok ls := by
  unfold read
  rw [hread]
  show readLines path 1 ((Text.lines (String.ofList text).toList).map some) = _
  rw [String.toList_ofList]
  exact readLines_spaced h hs path 1

theorem map_event_lines (clock : Clock) (number : Nat) (events : List Event) :
    (clock.lines number events).map Line.event = events := by
  induction events generalizing number with
  | nil => rfl
  | cons event events ih => exact congrArg (event :: ·) (ih (number + 1))

/-- **Reading a log undoes writing it.**  Where no log is found once its directories are made, and a
first event can be appended, all further events can be, and the log is read as these events, the
oldest first.  So is every file that has the same lines and blank lines around them. -/
theorem read_undoes_append (clock : Clock) {files next : Files} {path : String} {event : Event}
    {events : List Event}
    (hnone : ∀ made, files.makeDirectories ((Files.parent? path).getD "") = .ok made →
      made.read path = .error .notFound)
    (hfirst : append files path ⟨clock.stamp 0, event⟩ = .ok next)
    (hsurvives : ∀ e ∈ event :: events, e.Survives) :
    let ls := clock.lines 0 (event :: events)
    ls.map Line.event = event :: events ∧
    (∃ after, Appends clock path 0 files (event :: events) after ∧ read after path = .ok ls) ∧
    ∀ tree text, Spaced ls text → tree.read path = .ok (.text (String.ofList text)) →
      read tree path = .ok ls := by
  intro ls
  have hevents : ls.map Line.event = event :: events := map_event_lines clock 0 _
  have hs : ∀ l ∈ ls, l.event.Survives := fun l hl =>
    hsurvives l.event (hevents ▸ List.mem_map_of_mem hl)
  refine ⟨hevents, ?_, fun tree text htext hread => read_spaced htext hs hread⟩
  obtain ⟨after, happends⟩ := exists_appends_of_append clock 0 hfirst events
  obtain ⟨made, hmade, hread⟩ := happends.read_eq
  have hheld : made.held path = .text "" := by
    unfold Files.held
    rw [hnone made hmade]
  rw [hheld, foldl_append_written, String.empty_append] at hread
  exact ⟨after, happends, read_spaced (spaced_flatMap ls) hs hread⟩

/-- One half. -/
def half : Binary64 := ⟨false, 0x3FE0000000000000, by decide⟩

theorem survives_half : (Json.Number.real half).Survives :=
  Json.Number.Legible.survives
    ⟨List.all_eq_true.1 (by decide +kernel), by decide +kernel, by decide +kernel⟩

theorem read_empty_runJsonl : Files.empty.read "run.jsonl" = .error .notFound := by
  simp [Files.read, Files.entry, Files.resolve, names_runJsonl, Files.walk, Files.origin,
    Files.find?, Files.root, Files.empty]

/-- An event of each kind, with quotes, line breaks and controls in its texts. -/
def everyKind : List Event :=
  [.runStarted "r" "blake3:" .concurrent 2 version,
    .stepCompleted "r" "say \"hi\"" "line\nbreak" half "back\\slash",
    .stepSkipped "r" "\r\n" "1 == 2",
    .runCompleted "r" 1 1 half,
    .runFailed "r" "\x00\x1b\x7f 属于"]

theorem survives_everyKind : ∀ e ∈ everyKind, e.Survives := by
  simp only [everyKind, List.forall_mem_cons]
  have htwo : 2 < 18446744073709551616 := by decide
  have hone : 1 < 18446744073709551616 := by decide
  exact ⟨htwo, survives_half, trivial, ⟨hone, hone, survives_half⟩, trivial,
    List.forall_mem_nil _⟩

theorem read_undoes_append_of_everyKind :
    ∃ after ls, Appends plainClock "run.jsonl" 0 .empty everyKind after ∧
      read after "run.jsonl" = .ok ls ∧ ls.map Line.event = everyKind := by
  have hnone (made : Files) (h : Files.empty.makeDirectories
      ((Files.parent? "run.jsonl").getD "") = .ok made) :
      made.read "run.jsonl" = .error .notFound := by
    have hparent : Files.parent? "run.jsonl" = some "" := by decide +kernel
    rw [hparent] at h
    obtain rfl : Files.empty = made := Except.ok.inj h
    exact read_empty_runJsonl
  obtain ⟨next, hfirst⟩ := exists_append_empty _
  obtain ⟨hevents, ⟨after, happends, hread⟩, -⟩ :=
    read_undoes_append plainClock hnone hfirst survives_everyKind
  exact ⟨after, _, happends, hread, hevents⟩

/-! ## Where reading does not undo writing -/

/-- A directory with a log of one line. -/
def oneLine (l : Line) : Files :=
  ⟨[(["run.jsonl"], .file (.text l.written))]⟩

theorem names_detour : Files.names "x/../run.jsonl" = ["x", "..", "run.jsonl"] := by
  decide +kernel

/-- A path through a directory that is not there yet finds no log, but an append by that path does:
it makes the directory first. -/
theorem append_detour (l l' : Line) :
    (oneLine l).read "x/../run.jsonl" = .error .notFound ∧
      ∃ after, append (oneLine l) "x/../run.jsonl" l' = .ok after ∧
        after.read "x/../run.jsonl" = .ok (.text (l.written ++ l'.written)) := by
  have hparent : Files.parent? "x/../run.jsonl" = some "x/.." := by decide +kernel
  have hnames : Files.names "x/.." = ["x", ".."] := by decide +kernel
  constructor
  · simp [oneLine, Files.read, Files.entry, Files.resolve, names_detour, Files.walk, Files.origin,
      Files.find?, Files.root]
  · simp [append, hparent, hnames, oneLine, Files.makeDirectories, Files.makeAlong, Files.set,
      Files.append, Files.update, Files.resolve, names_detour, Files.walk, Files.origin,
      Files.find?, Files.root, Files.Content.append, Files.read, Files.entry]

/-- **What is read need not be what was appended.**  Appending nothing makes no log, and a log that
is not there cannot be read.  And where no log is found because a directory on the way to it is
missing, there may be one all the same, whose lines are read as well. -/
theorem read_is_not_appended :
    (Files.empty.read "run.jsonl" = .error .notFound ∧
      Appends plainClock "run.jsonl" 0 .empty [] .empty ∧
      read .empty "run.jsonl" = .error (.notOpened "run.jsonl" .notFound)) ∧
    ∃ after, (oneLine ⟨"", .runFailed "q" "no tool"⟩).read "x/../run.jsonl" = .error .notFound ∧
      Appends plainClock "x/../run.jsonl" 0 (oneLine ⟨"", .runFailed "q" "no tool"⟩)
        [.runFailed "r" "no plan"] after ∧
      read after "x/../run.jsonl" =
        .ok [⟨"", .runFailed "q" "no tool"⟩, ⟨"", .runFailed "r" "no plan"⟩] := by
  refine ⟨⟨read_empty_runJsonl, .nil, ?_⟩, ?_⟩
  · unfold read
    rw [read_empty_runJsonl]
  · let l : Line := ⟨"", .runFailed "q" "no tool"⟩
    let l' : Line := ⟨"", .runFailed "r" "no plan"⟩
    obtain ⟨hnone, after, happend, hread⟩ := append_detour l l'
    have hwritten := foldl_append_written [l, l'] ""
    rw [String.empty_append] at hwritten
    have hcontent : Files.Content.text (l.written ++ l'.written) = _ := hwritten
    rw [hcontent] at hread
    have hs : ∀ k ∈ [l, l'], k.event.Survives :=
      List.forall_mem_cons.2 ⟨trivial, List.forall_mem_singleton.2 trivial⟩
    exact ⟨after, hnone, .cons happend .nil, read_spaced (spaced_flatMap [l, l']) hs hread⟩

end Runbook.Log

import Runbook.Log.Report
import Runbook.Proofs.Files

/-!
# Appending to a log

When events are appended one after another and each can be written (`Appends`), the log holds what it
held before and then a line for each of them, in order (`Appends.read_eq`).  Only the first append can
fail: it makes the directories and the file, and those that come after it find them there
(`exists_appends_of_append`).
-/

namespace Runbook.Log

variable {clock : Clock} {path : String} {number : Nat} {files after : Files} {event : Event}
  {events : List Event}

/-- The lines that events are written as, numbered from `number` on. -/
def Clock.lines (clock : Clock) (number : Nat) : List Event → List Line
  | [] => []
  | event :: rest => ⟨clock.stamp number, event⟩ :: clock.lines (number + 1) rest

/-- **Every event can be appended**, one after another, which leads to these files. -/
inductive Appends (clock : Clock) (path : String) : Nat → Files → List Event → Files → Prop
  | nil {number : Nat} {files : Files} : Appends clock path number files [] files
  | cons {number : Nat} {files next after : Files} {event : Event} {rest : List Event}
    (hfirst : append files path ⟨clock.stamp number, event⟩ = .ok next)
    (hrest : Appends clock path (number + 1) next rest after) :
    Appends clock path number files (event :: rest) after

/-- A log whose directories and file are there. -/
structure Opened (files : Files) (path : String) (content : Files.Content) : Prop where
  made : files.makeDirectories ((Files.parent? path).getD "") = .ok files
  read_eq : files.read path = .ok content

/-- **An append** makes the directories of the log, and writes the line after what the log holds. -/
theorem opened_of_append {l : Line} (h : append files path l = .ok after) :
    ∃ made, files.makeDirectories ((Files.parent? path).getD "") = .ok made ∧
      Opened after path ((made.held path).append l.written) := by
  unfold append at h
  dsimp only at h
  split at h
  · cases h
  · rename_i made hmade
    split at h
    · cases h
    · rename_i written hwritten
      obtain rfl := Except.ok.inj h
      refine ⟨made, hmade, ?_, Files.read_update hwritten⟩
      exact Files.makeDirectories_again hmade (Files.keepsDirectories_update hwritten)

namespace Opened
variable {content : Files.Content}

theorem append {l : Line} (ho : Opened files path content)
    (h : Log.append files path l = .ok after) : Opened after path (content.append l.written) := by
  obtain ⟨made, hmade, hafter⟩ := opened_of_append h
  obtain rfl : files = made := Except.ok.inj (ho.made.symm.trans hmade)
  rwa [Files.held_of_read ho.read_eq] at hafter

/-- A log that is there can be appended to. -/
theorem exists_append (ho : Opened files path content) (l : Line) :
    ∃ after, Log.append files path l = .ok after := by
  obtain ⟨after, hafter⟩ := Files.exists_update_of_read ho.read_eq fun c => c.append l.written
  refine ⟨after, ?_⟩
  unfold Log.append
  dsimp only
  rw [ho.made]
  dsimp only
  rw [Files.append, hafter]

theorem exists_appends (ho : Opened files path content) (clock : Clock) (number : Nat)
    (events : List Event) : ∃ after, Appends clock path number files events after := by
  induction events generalizing number files content with
  | nil => exact ⟨files, .nil⟩
  | cons event rest ih =>
    obtain ⟨next, hfirst⟩ := ho.exists_append ⟨clock.stamp number, event⟩
    obtain ⟨after, hrest⟩ := ih (ho.append hfirst) (number + 1)
    exact ⟨after, .cons hfirst hrest⟩

theorem appends (ho : Opened files path content)
    (h : Appends clock path number files events after) :
    Opened after path
      (((clock.lines number events).map Line.written).foldl Files.Content.append content) := by
  induction h generalizing content with
  | nil => exact ho
  | cons hfirst _ ih => exact ih (ho.append hfirst)

end Opened

/-- **Only the first append can fail.** -/
theorem exists_appends_of_append {next : Files} (clock : Clock) (number : Nat)
    (h : append files path ⟨clock.stamp number, event⟩ = .ok next) (rest : List Event) :
    ∃ after, Appends clock path number files (event :: rest) after := by
  obtain ⟨made, -, hopened⟩ := opened_of_append h
  obtain ⟨after, hrest⟩ := hopened.exists_appends clock (number + 1) rest
  exact ⟨after, .cons h hrest⟩

theorem Appends.appendAll_eq (h : Appends clock path number files events after) :
    appendAll clock path number files events = after := by
  induction h with
  | nil => rfl
  | cons hfirst _ ih =>
    unfold appendAll
    rw [hfirst]
    exact ih

/-- **What a log holds** after events were appended: what it held when its directories were made, and
a line for each event. -/
theorem Appends.read_eq (h : Appends clock path number files (event :: events) after) :
    ∃ made, files.makeDirectories ((Files.parent? path).getD "") = .ok made ∧
      after.read path = .ok (((clock.lines number (event :: events)).map Line.written).foldl
        Files.Content.append (made.held path)) := by
  cases h with
  | cons hfirst hrest =>
    obtain ⟨made, hmade, hopened⟩ := opened_of_append hfirst
    exact ⟨made, hmade, (hopened.appends hrest).read_eq⟩

end Runbook.Log

import Runbook.Json.Source

/-!
# How a plan is run

The settings of a run, and its two modes: one step after another, or wave by wave.
-/

namespace Runbook.Run

/-- **How ready steps are handed out.** -/
inductive Mode
  /-- One step at a time. -/
  | sequential
  /-- All ready steps at once. -/
  | concurrent
deriving DecidableEq

namespace Mode

/-- The word for a mode. -/
def word : Mode → String
  | sequential => "sequential"
  | concurrent => "concurrent"

/-- The mode of a word. -/
def ofWord? : String → Option Mode
  | "sequential" => some sequential
  | "concurrent" => some concurrent
  | _ => none

/-- The mode as JSON. -/
def toJson (m : Mode) : Json :=
  .text m.word

/-- The mode that a JSON value names: its word, or an object with the word as its only member and
nothing as its value. -/
def read? : Json → Option Mode
  | .text s => ofWord? s
  | .object [(s, .null)] => ofWord? s
  | _ => none

end Mode

/-- **The settings of a run.** -/
structure Policy where
  /-- How many steps may run at once. -/
  workers : Nat
  /-- The step whose output is the answer. -/
  resultStep : Option String
  /-- Runs are concurrent unless asked otherwise. -/
  concurrent : Bool
deriving DecidableEq

namespace Policy

/-- The settings that nothing was said about. -/
def standard : Policy := ⟨5, none, true⟩

instance : Inhabited Policy := ⟨standard⟩

/-- The settings as JSON. -/
def toJson (p : Policy) : Json :=
  .object [("max_workers", .ofNat p.workers), ("result_node", .ofText? p.resultStep),
    ("concurrent", .boolean p.concurrent)]

/-- The settings that a datum gives. -/
def read {σ : Type} {m : Type → Type} [Monad m] [MonadExcept Unit m] [Source σ m] (d : σ) :
    m Policy := do
  match ← Source.fields ["max_workers", "result_node", "concurrent"] d with
  | [workers, resultStep, concurrent] =>
    let workers ← Source.withDefault standard.workers Source.natural workers
    let resultStep ← Source.orNothing Source.text resultStep
    let concurrent ← Source.withDefault standard.concurrent Source.flag concurrent
    return { workers, resultStep, concurrent }
  | _ => throw ()

end Policy

end Runbook.Run

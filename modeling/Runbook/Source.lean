import Runbook.Table

/-!
# Reading records from data

Settings are written in YAML, logs and saved plans in JSON, and the same record types are read
from both.  A `Source` is a kind of data that says, of each datum, what it is when a text, a flag,
a natural number or a mapping is wanted.  A record is read from a mapping, in which each of its
fields occurs at most once and other names count for nothing; some kinds of data may also list the
fields in order, and leave out the last ones (`Source.fields`).

Only what is wanted is read: what a name holds that no record knows, a source never looks at.
-/

namespace Runbook

/-- **A kind of data that records are read from.**  A reading is a computation in `m`, which fails
if the datum is not what is wanted. -/
class Source (σ : Type) (m : outParam (Type → Type)) where
  /-- The datum as a text. -/
  text : σ → m String
  /-- The datum as a truth value. -/
  flag : σ → m Bool
  /-- The datum as a natural number of at most 64 bits. -/
  natural : σ → m Nat
  /-- The datum as one that may be nothing. -/
  optional : σ → m (Option σ)
  /-- The datum as a mapping; names may repeat. -/
  members : σ → m (List (String × σ))
  /-- The fields in order, if the datum lists them without their names. -/
  inOrder? : σ → Option (List σ)

namespace Source

variable {σ α : Type} {m : Type → Type} [Monad m] [MonadExcept Unit m] [Source σ m]

/-- The only value of a name among members; `none` if the name repeats. -/
def only? (members : List (String × σ)) (name : String) : Option (Option σ) :=
  match members.filter fun m => m.1 == name with
  | [] => some none
  | [m] => some (some m.2)
  | _ => none

/-- What is there, or a failure. -/
def orFail : Option α → m α
  | some v => pure v
  | none => throw ()

/-- **The fields of a record**, in the order of their names; a missing one is `none`. -/
def fields (names : List String) (d : σ) : m (List (Option σ)) :=
  match inOrder? d with
  | some items =>
    if items.length ≤ names.length then
      pure (items.map some ++ List.replicate (names.length - items.length) none)
    else throw ()
  | none => do
    let members ← members d
    orFail (names.mapM (only? members))

/-- A field that has to be there. -/
def required (read : σ → m α) : Option σ → m α
  | none => throw ()
  | some d => read d

/-- A field that stands for `value` if it is missing. -/
def withDefault (value : α) (read : σ → m α) : Option σ → m α
  | none => pure value
  | some d => read d

/-- A field that may be missing or nothing. -/
def orNothing (read : σ → m α) : Option σ → m (Option α)
  | none => pure none
  | some d => do
    match ← optional d with
    | none => pure none
    | some d => some <$> read d

/-- A table of values; of a repeated name the last value counts. -/
def table (read : σ → m α) (d : σ) : m (Table α) := do
  let members ← members d
  let entries ← members.mapM fun (name, d) => do
    let v ← read d
    pure (name, v)
  pure (Table.ofEntries entries)

end Source

end Runbook

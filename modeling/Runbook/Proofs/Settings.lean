import Runbook.Proofs.Json.Distinct
import Runbook.Proofs.Tool.Registry
import Runbook.Settings

/-!
# Declared tools

Settings name each of their tools once, because a table that is read has each name once
(`Settings.nodup_of_ofText?`).  So no declaration is refused as a duplicate, and the registry of the
settings has the tools as they were declared and in that order (`Settings.registry_eq_ok`,
`Settings.names_registry`, `Settings.first?_declared`).
-/

namespace Runbook

/-! ## Tables that are read -/

namespace Yaml.Node

theorem run_bind_eq_some {α β : Type} {x : Expansion α} {f : α → Expansion β} {n m : Nat} {b : β} :
    (x >>= f).run n = some (b, m) ↔ ∃ a k, x.run n = some (a, k) ∧ (f a).run k = some (b, m) := by
  rw [StateT.run_bind, Option.bind_eq_bind, Option.bind_eq_some_iff]
  exact Prod.exists

/-- **A table that is read has each name once.** -/
theorem nodup_of_table {α : Type} {read : Linked → Expansion α} {d : Linked} {n m : Nat}
    {t : Table α} (h : (Source.table read d).run n = some (t, m)) : t.keys.Nodup := by
  obtain ⟨members, k, -, h⟩ := run_bind_eq_some.mp h
  obtain ⟨entries, k, -, h⟩ := run_bind_eq_some.mp h
  cases h
  exact Table.nodup_keys_ofEntries entries

theorem nodup_of_withDefault {α : Type} {read : Linked → Expansion α} {given : Option Linked}
    {n m : Nat} {t : Table α}
    (h : (Source.withDefault [] (Source.table read) given).run n = some (t, m)) :
    t.keys.Nodup := by
  cases given with
  | none =>
    cases h
    exact List.nodup_nil
  | some d => exact nodup_of_table h

end Yaml.Node

namespace Settings
open Yaml.Node

theorem nodup_of_read {d : Linked} {n m : Nat} {s : Settings} (h : (read d).run n = some (s, m)) :
    s.tools.keys.Nodup := by
  unfold read at h
  obtain ⟨fields, k, -, h⟩ := run_bind_eq_some.mp h
  split at h
  · obtain ⟨policy, k, -, h⟩ := run_bind_eq_some.mp h
    obtain ⟨tools, k, htools, h⟩ := run_bind_eq_some.mp h
    cases h
    exact nodup_of_withDefault htools
  · cases h

/-- **The settings of a text name each tool once.** -/
theorem nodup_of_ofText? {text : String} {s : Settings} (h : ofText? text = some s) :
    s.tools.keys.Nodup := by
  unfold ofText? at h
  split at h
  · cases h
    exact List.nodup_nil
  · unfold Yaml.decode? at h
    simp only [Option.bind_eq_bind, Option.bind_eq_some_iff] at h
    obtain ⟨document, -, ⟨_, m⟩, hread, h⟩ := h
    cases h
    exact nodup_of_read hread

/-! ## The registry of declared tools -/

theorem map_name_declared (tools : Table Declaration) :
    (declared tools).map (fun entry => entry.1.name) = tools.keys := by
  unfold declared Table.keys
  rw [List.map_map]
  rfl

/-- What is registered under a name is what was declared under it. -/
theorem first?_declared (tools : Table Declaration) (name : String) :
    Tool.Registry.first? (declared tools) name =
      (tools.get? name).map fun d => (d.spec name, Tool.Command.tool name d.command) := by
  induction tools with
  | nil => rfl
  | cons e rest ih =>
    obtain ⟨n, d⟩ := e
    by_cases hname : n = name
    · subst hname
      rw [Table.get?, if_pos rfl]
      exact List.find?_cons_of_pos (beq_self_eq_true n)
    · rw [Table.get?, if_neg hname, ← ih]
      exact List.find?_cons_of_neg (mt eq_of_beq hname)

variable {s : Settings}

/-- **Declared tools are all registered.** -/
theorem registry_eq_ok (h : s.tools.keys.Nodup) :
    s.registry = .ok (Tool.Registry.attempts (declared s.tools)) :=
  Tool.Registry.registerAll_eq_ok (map_name_declared s.tools ▸ h) fun _ _ => List.not_mem_nil

/-- … in order of declaration. -/
theorem names_registry (h : s.tools.keys.Nodup) :
    (Tool.Registry.attempts (declared s.tools)).names = s.tools.keys := by
  rw [(Tool.Registry.holdsFirst_attempts _).names_eq, map_name_declared, Plan.eraseDups_eq_self h]

end Settings

end Runbook

import Runbook.Files

/-!
# Writing to files

Giving a path an entry changes what that path leads to, and no path that leads elsewhere
(`Files.find?_set`).  Neither writing a file nor making directories takes a directory away
(`Files.KeepsDirectories`), so a path that could be followed still can be, to the same place.  So
what was written is read again (`Files.read_update`), and directories that were made need not be made
again (`Files.makeDirectories_again`).
-/

namespace Runbook.Files

variable {fs gs made : Files}

/-! ## What names lead to -/

theorem find?_entries_set (fs : Files) (at_ other : List String) (entry : Entry) :
    ((fs.set at_ entry).entries.find? fun e => e.1 == other) =
      if other = at_ then some (at_, entry) else fs.entries.find? fun e => e.1 == other := by
  unfold set
  cases hany : fs.entries.any fun e => e.1 == at_ with
  | false =>
    have hnone : (fs.entries.find? fun e => e.1 == at_) = none :=
      List.find?_eq_none.mpr fun e he => by simpa using List.any_eq_false.mp hany e he
    rw [List.find?_append]
    split
    · rename_i heq
      rw [heq, hnone]
      simp
    · rename_i hne
      have hne' : (at_ == other) = false := beq_false_of_ne fun heq => hne heq.symm
      simp [hne']
  | true =>
    -- the entry is replaced in place, so the same place is found
    have hsame : ((fun e : List String × Entry => e.1 == other) ∘
        fun e => if e.1 == at_ then (at_, entry) else e) = fun e => e.1 == other := by
      funext e
      by_cases heq : e.1 = at_
      · simp [heq]
      · simp [heq]
    show List.find? _ (fs.entries.map _) = _
    rw [List.find?_map, hsame]
    split
    · rename_i heq
      obtain ⟨e, he, hname⟩ := List.any_eq_true.mp hany
      have hfound : (fs.entries.find? fun e => e.1 == at_).isSome :=
        List.find?_isSome.mpr ⟨e, he, hname⟩
      obtain ⟨found, hfound⟩ := Option.isSome_iff_exists.mp hfound
      have hat := List.find?_some hfound
      rw [heq, hfound, Option.map_some, if_pos hat]
    · rename_i hne
      cases hfound : fs.entries.find? fun e => e.1 == other with
      | none => rfl
      | some found =>
        have hat : found.1 = other := by simpa using List.find?_some hfound
        simp [hat, hne]

/-- **What names lead to after an entry was set.** -/
theorem find?_set {at_ : List String} (h : fs.find? at_ ≠ some .directory) (entry : Entry)
    (other : List String) :
    (fs.set at_ entry).find? other = if other = at_ then some entry else fs.find? other := by
  unfold find? at h ⊢
  rw [find?_entries_set]
  by_cases heq : other = at_
  · subst heq
    split at h
    · exact absurd rfl h
    · rename_i hplace
      rw [if_neg hplace]
      simp
  · simp [heq]

/-- No directory of a tree is missing in another, or a file there. -/
def KeepsDirectories (fs gs : Files) : Prop :=
  ∀ at_, fs.find? at_ = some .directory → gs.find? at_ = some .directory

theorem KeepsDirectories.trans {hs : Files} (h : fs.KeepsDirectories gs)
    (h' : gs.KeepsDirectories hs) : fs.KeepsDirectories hs :=
  fun at_ hat => h' at_ (h at_ hat)

theorem keepsDirectories_set {at_ : List String} (h : fs.find? at_ ≠ some .directory)
    (entry : Entry) : fs.KeepsDirectories (fs.set at_ entry) := by
  intro other hother
  have hne : other ≠ at_ := fun heq => h (heq ▸ hother)
  rw [find?_set h, if_neg hne]
  exact hother

/-! ## Following paths -/

/-- Where a name leads from a directory. -/
def advance (here : List String) (name : String) : List String :=
  if name == "" || name == "." then here
  else if name == ".." then here.dropLast
  else here ++ [name]

theorem walk_cons {here : List String} (h : fs.find? here = some .directory) (name : String)
    (rest : List String) : fs.walk here (name :: rest) = fs.walk (advance here name) rest := by
  rw [walk, h]
  unfold advance
  dsimp only
  split
  · rfl
  · split <;> rfl

theorem find?_of_walk_cons {here rest target : List String} {name : String}
    (h : fs.walk here (name :: rest) = .ok target) : fs.find? here = some .directory := by
  unfold walk at h
  split at h
  · cases h
  · cases h
  · assumption

/-- A path that can be followed leads to the same place while its directories are there. -/
theorem KeepsDirectories.walk_eq (h : fs.KeepsDirectories gs) {here names target : List String}
    (hwalk : fs.walk here names = .ok target) : gs.walk here names = .ok target := by
  induction names generalizing here with
  | nil => exact hwalk
  | cons name rest ih =>
    have hhere := find?_of_walk_cons hwalk
    rw [walk_cons hhere] at hwalk
    rw [walk_cons (h here hhere)]
    exact ih hwalk

theorem KeepsDirectories.resolve_eq (h : fs.KeepsDirectories gs) {path : String}
    {target : List String} (hresolve : fs.resolve path = .ok target) :
    gs.resolve path = .ok target := by
  unfold resolve at hresolve ⊢
  by_cases hempty : path.isEmpty = true
  · rw [if_pos hempty] at hresolve
    cases hresolve
  · rw [if_neg hempty] at hresolve ⊢
    exact h.walk_eq hresolve

/-! ## Files -/

/-- **What a file holds**, an empty text if there is none. -/
def held (fs : Files) (path : String) : Content :=
  match fs.read path with
  | .ok content => content
  | .error _ => .text ""

theorem held_of_read {path : String} {content : Content} (h : fs.read path = .ok content) :
    fs.held path = content := by
  unfold held
  rw [h]

theorem read_eq {path : String} {at_ : List String} (h : fs.resolve path = .ok at_)
    {content : Content} (hfile : fs.find? at_ = some (.file content)) :
    fs.read path = .ok content := by
  unfold read entry
  rw [h]
  dsimp only
  rw [hfile]

/-- What an update does: it finds a place that is no directory, and sets a file there. -/
theorem update_eq_ok {path : String} {f : Content → Content} {after : Files}
    (h : fs.update path f = .ok after) :
    ∃ at_, fs.resolve path = .ok at_ ∧ fs.find? at_ ≠ some .directory ∧
      after = fs.set at_ (.file (f (fs.held path))) := by
  unfold update at h
  split at h
  · cases h
  · rename_i at_ hresolve
    split at h
    · cases h
    · rename_i content hfile
      refine ⟨at_, hresolve, by simp [hfile], ?_⟩
      rw [held_of_read (read_eq hresolve hfile)]
      exact (Except.ok.inj h).symm
    · rename_i hnone
      refine ⟨at_, hresolve, by simp [hnone], ?_⟩
      have hempty : fs.held path = .text "" := by
        unfold held read entry
        rw [hresolve]
        dsimp only
        rw [hnone]
      split at h
      · rw [hempty]
        exact (Except.ok.inj h).symm
      · cases h
      · cases h

theorem keepsDirectories_update {path : String} {f : Content → Content} {after : Files}
    (h : fs.update path f = .ok after) : fs.KeepsDirectories after := by
  obtain ⟨at_, -, hplace, rfl⟩ := update_eq_ok h
  exact keepsDirectories_set hplace _

/-- **What is written is read again.** -/
theorem read_update {path : String} {f : Content → Content} {after : Files}
    (h : fs.update path f = .ok after) : after.read path = .ok (f (fs.held path)) := by
  have hkeeps := keepsDirectories_update h
  obtain ⟨at_, hresolve, hplace, rfl⟩ := update_eq_ok h
  refine read_eq (hkeeps.resolve_eq hresolve) ?_
  rw [find?_set hplace, if_pos rfl]

/-- A file that can be read can be written. -/
theorem exists_update_of_read {path : String} {content : Content} (h : fs.read path = .ok content)
    (f : Content → Content) : ∃ after, fs.update path f = .ok after := by
  unfold read entry at h
  unfold update
  cases hresolve : fs.resolve path with
  | error fault =>
    rw [hresolve] at h
    cases h
  | ok at_ =>
    rw [hresolve] at h
    dsimp only at h ⊢
    cases hfound : fs.find? at_ with
    | none =>
      rw [hfound] at h
      cases h
    | some found =>
      rw [hfound] at h
      cases found with
      | directory => cases h
      | file content => exact ⟨_, rfl⟩

/-! ## Directories -/

theorem makeAlong_cons {here rest : List String} {name : String}
    (h : fs.makeAlong here (name :: rest) = .ok made) :
    ∃ next : Files, fs.KeepsDirectories next ∧ next.makeAlong (advance here name) rest = .ok made ∧
      ∀ gs : Files, next.KeepsDirectories gs →
        gs.makeAlong here (name :: rest) = gs.makeAlong (advance here name) rest := by
  unfold advance
  simp only [makeAlong] at h ⊢
  by_cases hidle : (name == "" || name == ".") = true
  · rw [if_pos hidle] at h
    simp only [if_pos hidle]
    exact ⟨fs, fun _ hat => hat, h, fun _ _ => trivial⟩
  · rw [if_neg hidle] at h
    simp only [if_neg hidle]
    by_cases hup : (name == "..") = true
    · rw [if_pos hup] at h
      simp only [if_pos hup]
      exact ⟨fs, fun _ hat => hat, h, fun _ _ => trivial⟩
    · rw [if_neg hup] at h
      simp only [if_neg hup]
      split at h
      · rename_i hfound
        refine ⟨fs, fun _ hat => hat, h, fun gs hgs => ?_⟩
        rw [hgs _ hfound]
      · cases h
      · rename_i hnone
        have hplace : fs.find? (here ++ [name]) ≠ some .directory := by simp [hnone]
        refine ⟨_, keepsDirectories_set hplace _, h, fun gs hgs => ?_⟩
        rw [hgs (here ++ [name]) (by rw [find?_set hplace, if_pos rfl])]

theorem keepsDirectories_makeAlong {here names : List String}
    (h : fs.makeAlong here names = .ok made) : fs.KeepsDirectories made := by
  induction names generalizing fs here with
  | nil =>
    obtain rfl : fs = made := Except.ok.inj h
    exact fun _ hat => hat
  | cons name rest ih =>
    obtain ⟨next, hkeeps, hrest, -⟩ := makeAlong_cons h
    exact hkeeps.trans (ih hrest)

/-- Directories along names that were made are found again. -/
theorem makeAlong_again {here names : List String} (h : fs.makeAlong here names = .ok made)
    (hkeeps : made.KeepsDirectories gs) : gs.makeAlong here names = .ok gs := by
  induction names generalizing fs here with
  | nil => rfl
  | cons name rest ih =>
    obtain ⟨next, -, hrest, hagain⟩ := makeAlong_cons h
    rw [hagain gs ((keepsDirectories_makeAlong hrest).trans hkeeps)]
    exact ih hrest

/-- **Directories that were made need not be made again.** -/
theorem makeDirectories_again {path : String} (h : fs.makeDirectories path = .ok made)
    (hkeeps : made.KeepsDirectories gs) : gs.makeDirectories path = .ok gs := by
  unfold makeDirectories at h ⊢
  by_cases hempty : path.isEmpty = true
  · rw [if_pos hempty]
  · rw [if_neg hempty] at h ⊢
    exact makeAlong_again h hkeeps

end Runbook.Files

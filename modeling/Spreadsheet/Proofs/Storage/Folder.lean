import Mathlib.Data.List.DropRight
import Spreadsheet.Storage.Folder

/-!
# Files that are written and read

A file is written at a place that its path leads to through folders only. A file
at that place takes none of these folders away, nor makes it a folder itself. So
the path still leads there: what was written is read, and the next text that is
written takes its place.
-/
namespace Spreadsheet.Folder

variable {f : Folder} {route place : Route} {content : ByteArray}

/-! ## A file at a place -/

theorem content?_put (f : Folder) (place route : Route) (content : ByteArray) :
    (f.put place content).content? route =
      if place = route then some content else f.content? route := by
  unfold content? put
  dsimp only
  by_cases hplace : place = route
  · rw [if_pos hplace, List.find?_cons_of_pos (by simp [hplace])]
    rfl
  · rw [if_neg hplace, List.find?_cons_of_neg (by simp [hplace]), List.find?_filter]
    refine congrArg (fun p => (f.files.find? p).map Prod.snd) (funext fun e => ?_)
    by_cases he : e.1 = route
    · simp [he, Ne.symm hplace]
    · simp [he]

theorem isFolder_put (h : f.isFolder route = true) :
    (f.put place content).isFolder route = true := by
  simp only [isFolder, put, Bool.or_eq_true, List.any_eq_true, List.mem_cons,
    List.mem_filter] at h ⊢
  refine h.imp_right ?_
  rintro ⟨e, he, hroute⟩
  by_cases hplace : e.1 = place
  · exact ⟨(place, content), .inl rfl, hplace ▸ hroute⟩
  · exact ⟨e, .inr ⟨he, by simpa using hplace⟩, hroute⟩

/-- No file makes a folder of its own place. -/
theorem isFolder_put_self (f : Folder) (place : Route) (content : ByteArray) :
    (f.put place content).isFolder place = f.isFolder place := by
  have hfilter : ∀ e : Route × ByteArray,
      ((e.1 != place) && (place.isPrefixOf e.1 && e.1 != place)) =
        (place.isPrefixOf e.1 && e.1 != place) := by
    intro e
    cases e.1 != place <;> simp
  simp [isFolder, put, List.any_filter, hfilter]

theorem node?_put_of_folder (h : f.node? route = some .folder) (hplace : f.isFolder place = false) :
    (f.put place content).node? route = some .folder := by
  unfold node? at h ⊢
  split at h
  · cases h
  · rename_i hnone
    have hfolder : f.isFolder route = true := by
      by_contra hroute
      rw [if_neg hroute] at h
      cases h
    have hne : place ≠ route := by
      rintro rfl
      rw [hplace] at hfolder
      cases hfolder
    rw [content?_put, if_neg hne, hnone, isFolder_put hfolder]
    rfl

/-! ## Names that are followed -/

/-- The place that one name leads to. -/
def step (f : Folder) (route : Route) (name : List Char) : Except FileFault Route :=
  match f.node? route with
  | none => .error .missing
  | some (.file _) => .error .notFolder
  | some .folder =>
    if name.isEmpty || name == ['.'] then .ok route
    else if isTooLong name then .error .nameTooLong
    else if name != ['.', '.'] then .ok (route ++ [name])
    else if route.isEmpty then .error .missing
    else .ok route.dropLast

theorem follow_cons (f : Folder) (route : Route) (name : List Char) (names : List (List Char)) :
    f.follow route (name :: names) = (f.step route name).bind fun r => f.follow r names := by
  rw [follow, step]
  cases f.node? route with
  | none => rfl
  | some node =>
    cases node with
    | file content => rfl
    | folder =>
      dsimp only
      split_ifs <;> rfl

theorem follow_append (f : Folder) (route : Route) (xs ys : List (List Char)) :
    f.follow route (xs ++ ys) = (f.follow route xs).bind fun r => f.follow r ys := by
  induction xs generalizing route with
  | nil => rfl
  | cons name xs ih =>
    rw [List.cons_append, follow_cons, follow_cons]
    cases f.step route name with
    | error fault => rfl
    | ok r => exact ih r

theorem step_put {name : List Char} {r : Route} (hplace : f.isFolder place = false)
    (h : f.step route name = .ok r) : (f.put place content).step route name = .ok r := by
  unfold step at h ⊢
  split at h
  · cases h
  · cases h
  · rename_i hfolder
    rw [node?_put_of_folder hfolder hplace]
    exact h

/-- Names that lead to a place lead there past a new file. -/
theorem follow_put (hplace : f.isFolder place = false) {names : List (List Char)} {r : Route}
    (h : f.follow route names = .ok r) : (f.put place content).follow route names = .ok r := by
  induction names generalizing route with
  | nil => exact h
  | cons name names ih =>
    rw [follow_cons] at h ⊢
    cases hstep : f.step route name with
    | error fault =>
      rw [hstep] at h
      cases h
    | ok next =>
      rw [hstep] at h
      rw [step_put hplace hstep]
      exact ih h

/-! ## The place of a file -/

/-- The place at which a path has a file written. -/
def destination (f : Folder) (path : String) : Except FileFault Route :=
  match names path with
  | .error fault => .error fault
  | .ok names => f.target (parted names).1 (parted names).2

theorem write_eq (f : Folder) (path : String) (content : ByteArray) :
    f.write path content = (f.destination path).map fun place => f.put place content := by
  unfold write destination
  cases names path with
  | error fault => rfl
  | ok names =>
    dsimp only
    cases f.target (parted names).1 (parted names).2 <;> rfl

theorem target_eq_ok {folder : List (List Char)} {name : List Char} :
    f.target folder name = .ok place ↔ ∃ route, f.follow [] folder = .ok route ∧
      f.node? route = some .folder ∧ isNoFileName name = false ∧
      f.isFolder (route ++ [name]) = false ∧ isTooLong name = false ∧ place = route ++ [name] := by
  unfold target
  constructor
  · intro h
    split at h
    · cases h
    · rename_i route hroute
      split at h
      · cases h
      · cases h
      · rename_i hnode
        split_ifs at h with hfolder hlong
        cases h
        rw [Bool.or_eq_true, not_or, Bool.not_eq_true, Bool.not_eq_true] at hfolder
        exact ⟨route, hroute, hnode, hfolder.1, hfolder.2, by simpa using hlong, rfl⟩
  · rintro ⟨route, hroute, hnode, hname, hfolder, hlong, rfl⟩
    rw [hroute]
    dsimp only
    rw [hnode]
    dsimp only
    rw [hname, hfolder, hlong]
    rfl

/-- The names in a path end with that of its file. -/
theorem eq_of_parted {names folder : List (List Char)} {name : List Char}
    (h : parted names = (folder, name)) (hname : isNoFileName name = false) :
    names = folder ++ [name] := by
  have hne : name ≠ [] := by
    rintro rfl
    cases hname
  rw [parted] at h
  split_ifs at h with hshort
  · exact absurd (Prod.mk.inj h).2.symm hne
  · obtain ⟨hfolder, hlast⟩ := Prod.mk.inj h
    -- No name was empty at the end, so that all of them are kept.
    have hkept : (names.reverse.dropWhile List.isEmpty).reverse = names := by
      have hprefix : List.rdropWhile List.isEmpty names <+: names := List.rdropWhile_prefix _ _
      exact hprefix.eq_of_length_le (Nat.le_of_not_lt hshort)
    rw [hkept] at hfolder hlast
    have hnames : names ≠ [] := by
      rintro rfl
      exact hne hlast.symm
    rw [← hfolder, ← hlast, List.getLastD_eq_getLast?, List.getLast?_eq_some_getLast hnames,
      Option.getD_some, List.dropLast_append_getLast]

theorem destination_eq_ok {path : String} : f.destination path = .ok place ↔
    ∃ folder name, names path = .ok (folder ++ [name]) ∧
      parted (folder ++ [name]) = (folder, name) ∧ f.target folder name = .ok place := by
  unfold destination
  constructor
  · intro h
    split at h
    · cases h
    · rename_i all hall
      rcases hparted : parted all with ⟨folder, name⟩
      rw [hparted] at h
      obtain ⟨_, _, _, hname, _⟩ := target_eq_ok.1 h
      have hnames := eq_of_parted hparted hname
      exact ⟨folder, name, hall.trans (congrArg Except.ok hnames), hnames ▸ hparted, h⟩
  · rintro ⟨folder, name, hall, hparted, h⟩
    rw [hall]
    dsimp only
    rwa [hparted]

/-- A file that is written does not change where its path leads. -/
theorem destination_put {path : String} (h : f.destination path = .ok place)
    (content : ByteArray) : (f.put place content).destination path = .ok place := by
  obtain ⟨folder, name, hall, hparted, h⟩ := destination_eq_ok.1 h
  obtain ⟨route, hroute, hnode, hname, hplace, hlong, rfl⟩ := target_eq_ok.1 h
  refine destination_eq_ok.2 ⟨folder, name, hall, hparted, target_eq_ok.2 ⟨route, ?_⟩⟩
  refine ⟨follow_put hplace hroute, node?_put_of_folder hnode hplace, hname, ?_, hlong, rfl⟩
  rw [isFolder_put_self, hplace]

theorem find_put {path : String} (h : f.destination path = .ok place) (content : ByteArray) :
    (f.put place content).find path = .ok (.file content) := by
  obtain ⟨folder, name, hall, _, h⟩ := destination_eq_ok.1 h
  obtain ⟨route, hroute, hnode, hname, hplace, hlong, rfl⟩ := target_eq_ok.1 h
  have hstep : (f.put (route ++ [name]) content).step route name = .ok (route ++ [name]) := by
    simp only [isNoFileName, Bool.or_eq_false_iff] at hname
    rw [step, node?_put_of_folder hnode hplace]
    dsimp only
    rw [hname.1.1, hname.1.2, hlong, bne, hname.2]
    rfl
  have hfollow : (f.put (route ++ [name]) content).follow [] (folder ++ [name]) =
      .ok (route ++ [name]) := by
    rw [follow_append, follow_put hplace hroute]
    change Folder.follow _ route [name] = _
    rw [follow_cons, hstep]
    rfl
  have hnode : (f.put (route ++ [name]) content).node? (route ++ [name]) =
      some (.file content) := by
    rw [node?, content?_put, if_pos rfl]
  rw [find, hall]
  dsimp only
  rw [hfollow]
  dsimp only
  rw [hnode]

theorem put_put (f : Folder) (place : Route) (first second : ByteArray) :
    (f.put place first).put place second = f.put place second := by
  simp [put, List.filter_filter]

/-- What was written is read. -/
theorem read_of_write {f' : Folder} {path : String} (h : f.write path content = .ok f') :
    f'.read path = .ok content := by
  rw [write_eq] at h
  cases hplace : f.destination path with
  | error fault =>
    rw [hplace] at h
    cases h
  | ok place =>
    rw [hplace] at h
    cases h
    rw [read, find_put hplace]

/-- A text that is written over another one leaves nothing of it. -/
theorem write_of_write {f' : Folder} {path : String} (h : f.write path content = .ok f')
    (next : ByteArray) : ∃ f'', f'.write path next = .ok f'' ∧ f.write path next = .ok f'' := by
  rw [write_eq] at h
  cases hplace : f.destination path with
  | error fault =>
    rw [hplace] at h
    cases h
  | ok place =>
    rw [hplace] at h
    cases h
    refine ⟨f.put place next, ?_, ?_⟩
    · rw [write_eq, destination_put hplace]
      exact congrArg Except.ok (put_put f place content next)
    · rw [write_eq, hplace]
      rfl

end Spreadsheet.Folder

import Mathlib.Data.List.TakeWhile
import Gazetteer.Files.Disk

/-!
# The path beside a path

The temporary path of a path leads the same way, up to the name at the end. Both are made of texts
only, so this is a matter of texts: of the parts between slashes, those that are empty or name the
place they are in lead nowhere, and the others are the same but for the last.
-/

namespace Gazetteer

/-! ## Pieces between separators -/

section
variable {sep : Char}

theorem splitAtEach_of_not_mem {cs : List Char} (h : sep ∉ cs) : splitAtEach sep cs = [cs] := by
  induction cs with
  | nil => rfl
  | cons c cs ih =>
    rw [List.mem_cons, not_or] at h
    rw [splitAtEach, if_neg (Ne.symm h.1), ih h.2]

theorem splitAtEach_append_cons (as bs : List Char) :
    splitAtEach sep (as ++ sep :: bs) = splitAtEach sep as ++ splitAtEach sep bs := by
  induction as with
  | nil => simp [splitAtEach]
  | cons a as ih =>
    rw [List.cons_append, splitAtEach, splitAtEach, ih]
    split
    · rfl
    · obtain ⟨piece, pieces, h⟩ := List.exists_cons_of_ne_nil (splitAtEach_ne_nil sep as)
      rw [h]
      rfl

end

/-! ## Ways -/

/-- Whether a part of a path leads anywhere: it is not empty, and does not name the place it is
in. -/
def leadsOn (part : String) : Bool := part ≠ "" ∧ part ≠ "."

/-- The parts of a path that lead anywhere. -/
def waysOf (cs : List Char) : List String :=
  ((splitAtEach '/' cs).map String.ofList).filter leadsOn

theorem waysOf_nil : waysOf [] = [] := by decide

theorem waysOf_append_slash (as bs : List Char) :
    waysOf (as ++ '/' :: bs) = waysOf as ++ waysOf bs := by
  rw [waysOf, splitAtEach_append_cons, List.map_append, List.filter_append]
  rfl

theorem waysOf_of_not_mem {cs : List Char} (h : '/' ∉ cs) (hlead : leadsOn (String.ofList cs) = true) :
    waysOf cs = [String.ofList cs] := by
  rw [waysOf, splitAtEach_of_not_mem h, List.map_singleton, List.filter_cons_of_pos hlead,
    List.filter_nil]

/-- What is dropped at the end of a path leads nowhere. -/
theorem waysOf_dropTrailing (cs : List Char) :
    waysOf (dropTrailing cs).reverse = waysOf cs.reverse := by
  fun_induction dropTrailing cs with
  | case1 rest ih => rw [ih, List.reverse_cons, waysOf_append_slash, waysOf_nil, List.append_nil]
  | case2 rest ih =>
    have hdot : waysOf ['.'] = [] := by decide
    rw [ih, List.reverse_cons, List.reverse_cons, List.append_assoc, List.singleton_append,
      waysOf_append_slash, hdot, List.append_nil]
  | case3 => rfl

/-! ## Starting at the root -/

theorem head?_append_of_ne_nil {as bs : List Char} (h : as ≠ []) :
    (as ++ bs).head? = as.head? := by
  obtain ⟨a, as, rfl⟩ := List.exists_cons_of_ne_nil h
  rfl

/-- What is dropped at the end of a path leaves its start, unless nothing is left. Then the path
started at the root. -/
theorem head?_reverse_dropTrailing (cs : List Char) (h : cs ≠ []) :
    (dropTrailing cs = [] ∧ cs.reverse.head? = some '/') ∨
      (dropTrailing cs ≠ [] ∧ (dropTrailing cs).reverse.head? = cs.reverse.head?) := by
  rw [List.head?_reverse, List.head?_reverse]
  fun_induction dropTrailing cs with
  | case1 rest ih =>
    by_cases hrest : rest = []
    · subst hrest
      exact .inl ⟨rfl, rfl⟩
    · rw [List.getLast?_cons_of_ne_nil hrest]
      exact ih hrest
  | case2 rest ih =>
    by_cases hrest : rest = []
    · subst hrest
      exact .inl ⟨rfl, rfl⟩
    · rw [List.getLast?_cons_of_ne_nil (List.cons_ne_nil _ _), List.getLast?_cons_of_ne_nil hrest]
      exact ih hrest
  | case3 => exact .inr ⟨h, rfl⟩

/-! ## Names and directories -/

/-- A path ends in the name in front of what is dropped, and a slash is before the name unless the
path begins with it. -/
theorem splitPath_spec (path : String) :
    '/' ∉ (splitPath path).1 ∧
    dropTrailing path.toList.reverse = (splitPath path).1 ++ (splitPath path).2 ∧
    ((splitPath path).2 = [] ∨ ∃ rest, (splitPath path).2 = '/' :: rest) := by
  dsimp only [splitPath]
  generalize dropTrailing path.toList.reverse = cs
  refine ⟨fun h => by simpa using List.mem_takeWhile_imp h, List.takeWhile_append_dropWhile.symm, ?_⟩
  cases h : cs.dropWhile (· ≠ '/') with
  | nil => exact .inl rfl
  | cons c rest =>
    have hc := List.head?_dropWhile_not (· ≠ '/') cs
    rw [h] at hc
    exact .inr ⟨rest, by simpa using hc⟩

theorem waysOf_path (path : String) : waysOf path.toList =
    waysOf (splitPath path).2.reverse ++ waysOf (splitPath path).1.reverse := by
  obtain ⟨-, hsplit, h⟩ := splitPath_spec path
  have hdrop := waysOf_dropTrailing path.toList.reverse
  rw [List.reverse_reverse, hsplit] at hdrop
  obtain h | ⟨rest, h⟩ := h
  · rw [← hdrop, h, List.append_nil, List.reverse_nil, waysOf_nil, List.nil_append]
  · rw [← hdrop, h, List.reverse_append, List.reverse_cons, List.append_assoc,
      List.singleton_append, waysOf_append_slash, waysOf_append_slash, waysOf_nil, List.append_nil]

theorem parentPath_of_nil {path : String} (h : (splitPath path).2 = []) : parentPath path = "" := by
  rw [parentPath, h]

theorem toList_parentPath {path : String} (h : (splitPath path).2 ≠ []) : (parentPath path).toList =
    if dropTrailing (splitPath path).2 = [] then ['/']
    else (dropTrailing (splitPath path).2).reverse := by
  unfold parentPath
  split
  · contradiction
  · split
    · next hnil => rw [if_pos hnil]; rfl
    · next hcons => rw [if_neg hcons, String.toList_ofList]

theorem waysOf_parentPath (path : String) :
    waysOf (parentPath path).toList = waysOf (splitPath path).2.reverse := by
  by_cases h : (splitPath path).2 = []
  · rw [parentPath_of_nil h, h]
    rfl
  · rw [toList_parentPath h, ← waysOf_dropTrailing]
    split
    · next hnil =>
      rw [hnil]
      decide
    · rfl

theorem waysOf_joinPath (directory name : String) : waysOf (joinPath directory name).toList =
    waysOf directory.toList ++ waysOf name.toList := by
  unfold joinPath
  split
  · next h =>
    obtain h | rfl := h
    · rw [String.isEmpty_iff.1 h]
      simp [waysOf_nil]
    · have hroot : waysOf "/".toList = waysOf [] := by decide
      rw [hroot, String.toList_append]
      exact waysOf_append_slash [] name.toList
  · rw [String.toList_append, String.toList_append]
    exact (congrArg waysOf (List.append_assoc ..)).trans (waysOf_append_slash ..)

theorem head?_joinPath {directory : String} (name : String) (h : directory ≠ "") :
    (joinPath directory name).toList.head? = directory.toList.head? := by
  have hne : directory.toList ≠ [] := by simpa using h
  unfold joinPath
  split
  · rw [String.toList_append, head?_append_of_ne_nil hne]
  · rw [String.toList_append, String.toList_append, List.append_assoc,
      head?_append_of_ne_nil hne]

theorem fileName?_eq_some {path name : String} (h : fileName? path = some name) :
    name = String.ofList (splitPath path).1.reverse ∧ name ≠ "" ∧ name ≠ "." ∧ name ≠ ".." := by
  simp only [fileName?] at h
  split at h
  · cases h
  · next hnot =>
    cases h
    exact ⟨rfl, by simpa using hnot⟩

/-! ## The temporary path -/

/-- A temporary name is longer than the parts that do not name anything. -/
theorem temporaryName_ne (name : String) {part : String} (h : part.length < 4) :
    name ++ ".tmp" ≠ part := by
  rintro rfl
  have htmp : ".tmp".length = 4 := by decide
  rw [String.length_append, htmp] at h
  omega

/-- A path begins at the root just if a path of the same directory does. -/
theorem head?_joinPath_parentPath {path name : String} (h : fileName? path = some name)
    (suffix : String) : (joinPath (parentPath path) (name ++ suffix)).toList.head? = some '/' ↔
      path.toList.head? = some '/' := by
  obtain ⟨rfl, hne, -, -⟩ := fileName?_eq_some h
  obtain ⟨hslash, hsplit, hbefore⟩ := splitPath_spec path
  have hname : (splitPath path).1.reverse ≠ [] := by simpa using hne
  -- Something is left of the path, so it starts as what is left.
  have hpath : path.toList.head? = (dropTrailing path.toList.reverse).reverse.head? := by
    have hleft : dropTrailing path.toList.reverse ≠ [] := by
      rw [hsplit]
      simpa using fun hnil => absurd (List.reverse_eq_nil_iff.2 hnil) hname
    have hsome : path.toList.reverse ≠ [] := by
      rintro hnil
      exact hleft (by rw [hnil]; rfl)
    obtain ⟨hnil, -⟩ | ⟨-, heq⟩ := head?_reverse_dropTrailing _ hsome
    · exact absurd hnil hleft
    · rw [heq, List.reverse_reverse]
  rw [hpath, hsplit, List.reverse_append]
  by_cases hnil : (splitPath path).2 = []
  · rw [parentPath_of_nil hnil, hnil, List.reverse_nil, List.nil_append]
    have hjoin : joinPath "" (String.ofList (splitPath path).1.reverse ++ suffix) =
        String.ofList (splitPath path).1.reverse ++ suffix := by simp [joinPath]
    rw [hjoin, String.toList_append, String.toList_ofList, head?_append_of_ne_nil hname]
  · rw [head?_append_of_ne_nil (by simpa using hnil)]
    have hparent := toList_parentPath hnil
    obtain ⟨hdrop, hhead⟩ | ⟨hdrop, hhead⟩ := head?_reverse_dropTrailing _ hnil
    · rw [if_pos hdrop] at hparent
      rw [head?_joinPath _ (by rintro h; simp [h] at hparent), hparent, hhead]
      rfl
    · rw [if_neg hdrop] at hparent
      rw [head?_joinPath _ (by rintro h; simp [h] at hparent; exact hdrop hparent), hparent, hhead]

/-- **A path and its temporary path lead the same way, up to the last name.** -/
theorem exists_ways_of_temporaryPath? {path temporary : String}
    (h : temporaryPath? path = some temporary) :
    ∃ name ways, fileName? path = some name ∧ name ≠ "." ∧ name ≠ ".." ∧
      waysOf path.toList = ways ++ [name] ∧ waysOf temporary.toList = ways ++ [name ++ ".tmp"] ∧
      (temporary.toList.head? = some '/' ↔ path.toList.head? = some '/') := by
  obtain ⟨name, hfile, rfl⟩ := Option.map_eq_some_iff.1 h
  obtain ⟨hname, hempty, hdot, hdots⟩ := fileName?_eq_some hfile
  have hslash : '/' ∉ name.toList := by simpa [hname] using (splitPath_spec path).1
  have hwhole : (splitPath path).1.reverse = name.toList := by rw [hname, String.toList_ofList]
  refine ⟨name, waysOf (splitPath path).2.reverse, hfile, hdot, hdots, ?_, ?_,
    head?_joinPath_parentPath hfile _⟩
  · have hlead : leadsOn (String.ofList name.toList) := by
      rw [String.ofList_toList]
      exact decide_eq_true ⟨hempty, hdot⟩
    rw [waysOf_path, hwhole, waysOf_of_not_mem hslash hlead, String.ofList_toList]
  · have hlead : leadsOn (String.ofList (name ++ ".tmp").toList) := by
      rw [String.ofList_toList]
      exact decide_eq_true ⟨temporaryName_ne name (by decide), temporaryName_ne name (by decide)⟩
    rw [waysOf_joinPath, waysOf_parentPath, waysOf_of_not_mem (by simpa using hslash) hlead,
      String.ofList_toList]

end Gazetteer

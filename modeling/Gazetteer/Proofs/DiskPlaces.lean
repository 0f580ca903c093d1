import Gazetteer.Files.Disk
import Gazetteer.Proofs.PathParts
import Gazetteer.Proofs.Steps

/-!
# Where paths lead on a disk

A path leads to a place by way of directories. So what else stands on the disk makes no difference,
and on two disks that are alike but for some files every path leads to the same place. A path and its
temporary path lead to different places in one directory.
-/

namespace Gazetteer

namespace Disk

variable {d d' d₁ d₂ : Disk} {path : String} {p q : List String} {e : DiskEntry}

/-! ## Entries -/

theorem lookup_filter (f : List String → Bool) (entries : List (List String × DiskEntry)) :
    (entries.filter fun x => f x.1).lookup q = if f q then entries.lookup q else none := by
  induction entries with
  | nil => simp
  | cons x entries ih =>
    obtain ⟨r, e⟩ := x
    rw [List.filter_cons]
    by_cases hq : q = r
    · subst hq
      cases hf : f q <;> simp [hf, ih]
    · have hbeq := beq_eq_false_iff_ne.2 hq
      cases hf : f r <;> simp [ih, List.lookup_cons, hbeq]

theorem entry?_put (hp : p ≠ []) : entry? (d.put p e) q = if q = p then some e else d.entry? q := by
  unfold entry? put
  by_cases hq : q = p
  · subst hq
    simp [hp]
  · rw [List.lookup_cons, beq_eq_false_iff_ne.2 hq, lookup_filter (fun r => r ≠ p), if_neg hq,
      if_pos (decide_eq_true hq)]

theorem entry?_erase (hp : p ≠ []) : entry? (d.erase p) q = if q = p then none else d.entry? q := by
  unfold entry? erase
  rw [lookup_filter (fun r => r ≠ p)]
  by_cases hq : q = p
  · subst hq
    simp [hp]
  · rw [if_neg hq, if_pos (decide_eq_true hq)]

theorem ne_nil_of_file {bytes : List UInt8} (h : d.entry? p = some (.file bytes)) : p ≠ [] := by
  rintro rfl
  cases h

/-! ## Where a path leads -/

theorem needDirectory_eq_ok : d.needDirectory p = .ok () ↔ d.entry? p = some .directory := by
  unfold needDirectory
  cases h : d.entry? p with
  | none => simp
  | some e => cases e <;> simp

/-- Each part is followed from a directory. -/
theorem enter_eq_ok {part : String} : d.enter p part = .ok q ↔ d.entry? p = some .directory ∧
    (part = "." ∧ q = p ∨ part ≠ "." ∧ part = ".." ∧ q = p.dropLast ∨
      part ≠ "." ∧ part ≠ ".." ∧ part.utf8ByteSize ≤ maxNameSize ∧ q = p ++ [part]) := by
  rw [← needDirectory_eq_ok]
  unfold enter
  rw [bind_eq_ok]
  constructor
  · rintro ⟨⟨⟩, hdir, h⟩
    refine ⟨hdir, ?_⟩
    split at h
    · next hdot => cases h; exact .inl ⟨hdot, rfl⟩
    · next hdot =>
      split at h
      · next hdots => cases h; exact .inr (.inl ⟨hdot, hdots, rfl⟩)
      · next hdots =>
        split at h
        · cases h
        · next hsize => cases h; exact .inr (.inr ⟨hdot, hdots, Nat.le_of_not_lt hsize, rfl⟩)
  · rintro ⟨hdir, ⟨rfl, rfl⟩ | ⟨hdot, rfl, rfl⟩ | ⟨hdot, hdots, hsize, rfl⟩⟩
    · exact ⟨(), hdir, rfl⟩
    · exact ⟨(), hdir, rfl⟩
    · refine ⟨(), hdir, ?_⟩
      rw [if_neg hdot, if_neg hdots, if_neg (Nat.not_lt.2 hsize)]
      rfl

theorem eq_append_of_enter {name : String} (h : d.enter p name = .ok q) (hdot : name ≠ ".")
    (hdots : name ≠ "..") : q = p ++ [name] := by
  obtain ⟨-, ⟨h, -⟩ | ⟨-, h, -⟩ | ⟨-, -, -, h⟩⟩ := enter_eq_ok.1 h
  · exact absurd h hdot
  · exact absurd h hdots
  · exact h

/-- A path leads to a place, where there need not be anything. -/
def LeadsTo (d : Disk) (path : String) (place : List String) : Prop :=
  ∃ r, route path = .ok r ∧ d.place r = .ok place

/-- What a path leads to: a file only if no slash is behind the path. -/
theorem find_eq_ok : d.find path = .ok (p, e) ↔ ∃ r, route path = .ok r ∧ d.place r = .ok p ∧
    d.entry? p = some e ∧ (e = .directory ∨ r.slashed = false) := by
  unfold find
  simp only [bind_eq_ok]
  refine exists_congr fun r => and_congr_right fun _ => ?_
  constructor
  · rintro ⟨p', hp, h⟩
    split at h
    · cases h
    · next hentry => cases h; exact ⟨hp, hentry, .inl rfl⟩
    · next hentry =>
      split at h
      · cases h
      · next hslashed => cases h; exact ⟨hp, hentry, .inr (by simpa using hslashed)⟩
  · rintro ⟨hp, hentry, h⟩
    refine ⟨p, hp, ?_⟩
    rw [hentry]
    cases e with
    | directory => rfl
    | file bytes =>
      obtain h | h := h
      · cases h
      · simp [h]

theorem findFile_eq_ok {bytes : List UInt8} :
    d.findFile path = .ok (p, bytes) ↔ d.find path = .ok (p, .file bytes) := by
  unfold findFile
  rw [bind_eq_ok]
  constructor
  · rintro ⟨⟨p', _ | _⟩, hfind, h⟩ <;> cases h
    exact hfind
  · exact fun h => ⟨_, h, rfl⟩

/-- Nothing is found where a path leads to a place without an entry. -/
theorem LeadsTo.find_eq_notFound (h : d.LeadsTo path p) (hnone : d.entry? p = none) :
    d.find path = .error .notFound := by
  obtain ⟨r, hr, hp⟩ := h
  rw [find, hr, ok_bind, hp, ok_bind, hnone]
  rfl

/-- The faults to come make no difference to what is found. -/
theorem findFile_faults (d : Disk) (faults : List (Option Fault)) :
    { d with faults := faults }.findFile path = d.findFile path := rfl

/-! ## Ways -/

theorem route_eq_ok {r : Route} (h : route path = .ok r) :
    r.parts.filter leadsOn = waysOf path.toList ∧ "" ∉ r.parts ∧
      (r.absolute = true ↔ path.toList.head? = some '/') := by
  simp only [route] at h
  split at h
  · cases h
  split at h
  · cases h
  split at h
  · cases h
  cases h
  refine ⟨?_, by simp, beq_iff_eq⟩
  rw [List.filter_filter]
  refine List.filter_congr fun part _ => ?_
  by_cases hpart : part = "" <;> simp [leadsOn, hpart]

/-- The last part is followed from where the others lead. -/
theorem foldlM_enter_append {parts : List String} {part : String} :
    (parts ++ [part]).foldlM d.enter p = .ok q ↔
      ∃ here, parts.foldlM d.enter p = .ok here ∧ d.enter here part = .ok q := by
  rw [List.foldlM_append, bind_eq_ok]
  simp only [List.foldlM_cons, List.foldlM_nil, bind_pure]

/-- Parts that name the place they are in may be left out. -/
theorem foldlM_enter_leadsOn {parts : List String} (hempty : "" ∉ parts)
    (h : parts.foldlM d.enter p = .ok q) : (parts.filter leadsOn).foldlM d.enter p = .ok q := by
  induction parts generalizing p with
  | nil => exact h
  | cons part parts ih =>
    rw [List.mem_cons, not_or] at hempty
    rw [List.foldlM_cons] at h
    obtain ⟨p', hp', hrest⟩ := bind_eq_ok.1 h
    rw [List.filter_cons]
    split
    · rw [List.foldlM_cons, hp', ok_bind]
      exact ih hempty.2 hrest
    · next hlead =>
      obtain rfl : part = "." := by simpa [leadsOn, Ne.symm hempty.1] using hlead
      obtain ⟨-, ⟨-, rfl⟩ | ⟨hdot, -⟩ | ⟨hdot, -⟩⟩ := enter_eq_ok.1 hp'
      · exact ih hempty.2 hrest
      · exact absurd rfl hdot
      · exact absurd rfl hdot

/-- The place where a path starts. -/
def start (d : Disk) (path : String) : List String :=
  if path.toList.head? = some '/' then [] else d.home

theorem LeadsTo.foldlM_waysOf (h : d.LeadsTo path p) :
    (waysOf path.toList).foldlM d.enter (d.start path) = .ok p := by
  obtain ⟨r, hr, hp⟩ := h
  obtain ⟨hways, hempty, habsolute⟩ := route_eq_ok hr
  rw [← hways]
  refine foldlM_enter_leadsOn hempty ?_
  simpa only [start, place, habsolute] using hp

/-- **A path and its temporary path lead to the same directory.** Only the names there differ. -/
theorem LeadsTo.beside {temporary : String} (htemp : temporaryPath? path = some temporary)
    (hp : d.LeadsTo path p) (hq : d.LeadsTo temporary q) : ∃ directory name,
      fileName? path = some name ∧ p = directory ++ [name] ∧ q = directory ++ [name ++ ".tmp"] := by
  obtain ⟨name, ways, hname, hdot, hdots, hpath, htemporary, hstart⟩ :=
    exists_ways_of_temporaryPath? htemp
  have hways := hp.foldlM_waysOf
  have hways' := hq.foldlM_waysOf
  have hsame : d.start temporary = d.start path := by simp only [start, hstart]
  rw [hpath] at hways
  rw [htemporary, hsame] at hways'
  obtain ⟨directory, hdir, hp'⟩ := foldlM_enter_append.1 hways
  obtain ⟨directory', hdir', hq'⟩ := foldlM_enter_append.1 hways'
  cases hdir.symm.trans hdir'
  exact ⟨directory, name, hname, eq_append_of_enter hp' hdot hdots, eq_append_of_enter hq'
    (temporaryName_ne name (by decide)) (temporaryName_ne name (by decide))⟩

theorem LeadsTo.ne_beside {temporary : String} (htemp : temporaryPath? path = some temporary)
    (hp : d.LeadsTo path p) (hq : d.LeadsTo temporary q) : p ≠ q := by
  obtain ⟨directory, name, -, rfl, rfl⟩ := hp.beside htemp hq
  intro h
  have hlast := (List.append_inj' h rfl).2
  simp only [List.cons.injEq, and_true] at hlast
  have hlength := congrArg String.length hlast
  rw [String.length_append] at hlength
  have htmp : ".tmp".length = 4 := by decide
  omega

/-! ## Disks that are alike -/

/-- A disk is like another but for what stands at some places: paths lead the same ways on both. -/
structure AlikeBut (d d' : Disk) (places : List String → Prop) : Prop where
  home : d'.home = d.home
  directories : ∀ p, d'.entry? p = some .directory ↔ d.entry? p = some .directory
  others : ∀ p, ¬ places p → d'.entry? p = d.entry? p

section
variable {places places' : List String → Prop}

theorem alikeBut_refl (d : Disk) (places : List String → Prop) : d.AlikeBut d places :=
  ⟨rfl, fun _ => Iff.rfl, fun _ _ => rfl⟩

theorem alikeBut_faults (d : Disk) (faults : List (Option Fault)) (places : List String → Prop) :
    d.AlikeBut { d with faults := faults } places :=
  ⟨rfl, fun _ => Iff.rfl, fun _ _ => rfl⟩

theorem AlikeBut.mono (h : d.AlikeBut d' places) (hplaces : ∀ p, places p → places' p) :
    d.AlikeBut d' places' :=
  ⟨h.home, h.directories, fun p hp => h.others p fun hold => hp (hplaces p hold)⟩

theorem AlikeBut.trans (h : d.AlikeBut d₁ places) (h' : d₁.AlikeBut d₂ places) :
    d.AlikeBut d₂ places where
  home := h'.home.trans h.home
  directories p := (h'.directories p).trans (h.directories p)
  others p hp := (h'.others p hp).trans (h.others p hp)

theorem alikeBut_put {bytes : List UInt8} (hp : p ≠ []) (hdir : d.entry? p ≠ some .directory) :
    d.AlikeBut (d.put p (.file bytes)) (· = p) where
  home := rfl
  directories q := by
    rw [entry?_put hp]
    split
    · next h =>
      subst h
      simp [hdir]
    · rfl
  others q hq := by rw [entry?_put hp, if_neg hq]

theorem alikeBut_erase {bytes : List UInt8} (h : d.entry? p = some (.file bytes)) :
    d.AlikeBut (d.erase p) (· = p) where
  home := rfl
  directories q := by
    rw [entry?_erase (ne_nil_of_file h)]
    split
    · next hq =>
      subst hq
      simp [h]
    · rfl
  others q hq := by rw [entry?_erase (ne_nil_of_file h), if_neg hq]

theorem AlikeBut.foldlM_enter (h : d.AlikeBut d' places) {parts : List String} :
    parts.foldlM d'.enter p = .ok q ↔ parts.foldlM d.enter p = .ok q := by
  induction parts generalizing p with
  | nil => rfl
  | cons part parts ih =>
    simp only [List.foldlM_cons, bind_eq_ok, enter_eq_ok, h.directories, ih]

/-- Paths lead the same ways. -/
theorem AlikeBut.place_eq_ok (h : d.AlikeBut d' places) {r : Route} :
    d'.place r = .ok p ↔ d.place r = .ok p := by
  unfold place
  rw [h.home]
  exact h.foldlM_enter

theorem AlikeBut.leadsTo (h : d.AlikeBut d' places) : d'.LeadsTo path p ↔ d.LeadsTo path p :=
  exists_congr fun _ => and_congr_right fun _ => h.place_eq_ok

/-- What stands at a path, and where. -/
def at? (d : Disk) (path : String) : Option (List String × DiskEntry) := (d.find path).toOption

theorem at?_eq_some : d.at? path = some (p, e) ↔ d.find path = .ok (p, e) := by
  unfold at?
  cases d.find path <;> simp [Except.toOption]

/-- What stands at a path that leads to none of the places is the same. -/
theorem AlikeBut.at?_eq (h : d.AlikeBut d' places) (hpath : ∀ p, d.LeadsTo path p → ¬ places p) :
    d'.at? path = d.at? path := by
  refine Option.ext fun ⟨p, e⟩ => ?_
  rw [at?_eq_some, at?_eq_some, find_eq_ok, find_eq_ok]
  refine exists_congr fun r => and_congr_right fun hr => ?_
  rw [h.place_eq_ok]
  exact and_congr_right fun hp => by rw [h.others p (hpath p ⟨r, hr, hp⟩)]

end

end Disk

end Gazetteer

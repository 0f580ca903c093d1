import Gazetteer.Proofs.DiskPlaces

/-!
# What a change does to a disk

A change to a file leaves the directories of a disk alone, so every path leads to the same place
before it and after it; and it leaves the entries at all other places alone. This holds of a change
that fails as well, and of one that breaks off after some of the bytes.
-/

namespace Gazetteer

namespace Disk

variable {d d' : Disk} {path : String} {p q : List String}

/-! ## Changes -/

/-- A path leads to a place where a file may stand: there is no directory, and no slash is behind
the path. -/
def MayHold (d : Disk) (path : String) (p : List String) : Prop :=
  (∃ r, route path = .ok r ∧ r.slashed = false ∧ d.place r = .ok p) ∧ p ≠ [] ∧
    d.entry? p ≠ some .directory

theorem MayHold.leadsTo (h : d.MayHold path p) : d.LeadsTo path p := by
  obtain ⟨⟨r, hr, -, hp⟩, -⟩ := h
  exact ⟨r, hr, hp⟩

theorem mayHold_of_findFile {bytes : List UInt8} (h : d.findFile path = .ok (p, bytes)) :
    d.MayHold path p ∧ d.entry? p = some (.file bytes) := by
  obtain ⟨r, hr, hp, hentry, hslashed⟩ := find_eq_ok.1 (findFile_eq_ok.1 h)
  have hslashed : r.slashed = false := hslashed.resolve_left (by simp)
  exact ⟨⟨⟨r, hr, hslashed, hp⟩, ne_nil_of_file hentry, by simp [hentry]⟩, hentry⟩

/-- What is put where a path may hold it is found there. -/
theorem MayHold.findFile_eq {places : List String → Prop} {bytes : List UInt8}
    (h : d.MayHold path p) (halike : d.AlikeBut d' places)
    (hentry : d'.entry? p = some (.file bytes)) : d'.findFile path = .ok (p, bytes) := by
  obtain ⟨⟨r, hr, hslashed, hp⟩, -⟩ := h
  exact findFile_eq_ok.2 (find_eq_ok.2 ⟨r, hr, halike.place_eq_ok.2 hp, hentry, .inr hslashed⟩)

/-- The end of a route, if it is a name, is where the route leads. -/
theorem place_of_ending {r : Route} {e : Ending} {name : String} (he : d.ending r = .ok e)
    (hname : e.name = some name) (hp : d.enter e.directory name = .ok p) :
    e.slashed = r.slashed ∧ d.place r = .ok p ∧ p ≠ [] := by
  unfold ending at he
  obtain ⟨directory, hdir, he⟩ := bind_eq_ok.1 he
  obtain ⟨⟨⟩, -, he⟩ := bind_eq_ok.1 he
  cases he
  obtain ⟨part, hpart, hproper⟩ := Option.bind_eq_some_iff.1 hname
  have hparts : r.parts = r.parts.dropLast ++ [part] :=
    (List.dropLast_append_getLast? part hpart).symm
  unfold properName? at hproper
  split at hproper
  · cases hproper
  next hnot =>
  cases hproper
  rw [not_or] at hnot
  refine ⟨rfl, ?_, ?_⟩
  · rw [place, hparts]
    exact foldlM_enter_append.2 ⟨directory, hdir, hp⟩
  · rw [eq_append_of_enter hp hnot.1 hnot.2]
    simp

/-- A path takes a file at a place: it ends in a name, no slash is behind that, and there is no
directory at the place. -/
def Takes (d : Disk) (path : String) (p : List String) : Prop :=
  ∃ r e name, route path = .ok r ∧ d.ending r = .ok e ∧ e.name = some name ∧ e.slashed = false ∧
    d.enter e.directory name = .ok p ∧ d.entry? p ≠ some .directory

theorem Takes.mayHold (h : d.Takes path p) : d.MayHold path p := by
  obtain ⟨r, e, name, hr, he, hname, hslashed, hp, hdir⟩ := h
  obtain ⟨heq, hplace, hne⟩ := place_of_ending he hname hp
  exact ⟨⟨r, hr, heq ▸ hslashed, hplace⟩, hne, hdir⟩

theorem ending_eq_ok {r : Route} {e : Ending} : d.ending r = .ok e ↔ ∃ directory,
    r.parts.dropLast.foldlM d.enter (if r.absolute then [] else d.home) = .ok directory ∧
      d.entry? directory = some .directory ∧
      e = ⟨directory, r.parts.getLast?.bind properName?, r.slashed⟩ := by
  unfold ending
  simp only [bind_eq_ok, pure_eq, Except.ok.injEq, ← needDirectory_eq_ok]
  refine exists_congr fun directory => and_congr_right fun _ => ⟨?_, ?_⟩
  · rintro ⟨⟨⟩, hdirectory, rfl⟩
    exact ⟨hdirectory, rfl⟩
  · rintro ⟨hdirectory, rfl⟩
    exact ⟨(), hdirectory, rfl⟩

/-- A path that takes a file does so on any disk that is alike. -/
theorem AlikeBut.takes {places : List String → Prop} (h : d.AlikeBut d' places)
    (htakes : d.Takes path p) : d'.Takes path p := by
  obtain ⟨r, e, name, hr, he, hname, hslashed, hp, hdir⟩ := htakes
  obtain ⟨directory, hfold, hdirectory, rfl⟩ := ending_eq_ok.1 he
  refine ⟨r, _, name, hr, ending_eq_ok.2 ⟨directory, ?_, (h.directories _).2 hdirectory, rfl⟩, hname,
    hslashed, ?_, ?_⟩
  · rw [h.home]
    exact h.foldlM_enter.2 hfold
  · rw [enter_eq_ok, h.directories]
    exact enter_eq_ok.1 hp
  · rwa [ne_eq, h.directories]

/-- A file can be made just where a path takes one. -/
theorem createFile_eq_ok : d.createFile path = .ok d' ↔
    ∃ p, d.Takes path p ∧ d' = d.put p (.file []) := by
  unfold createFile
  constructor
  · intro h
    obtain ⟨r, hr, h⟩ := bind_eq_ok.1 h
    obtain ⟨e, he, h⟩ := bind_eq_ok.1 h
    split at h
    · cases h
    next name hname =>
    split at h
    · cases h
    next hslashed =>
    obtain ⟨p, hp, h⟩ := bind_eq_ok.1 h
    split at h
    · cases h
    next hdir =>
    cases h
    exact ⟨p, ⟨r, e, name, hr, he, hname, by simpa using hslashed, hp, hdir⟩, rfl⟩
  · rintro ⟨p, ⟨r, e, name, hr, he, hname, hslashed, hp, hdir⟩, rfl⟩
    simp only [hr, he, hname, hslashed, hp, ok_bind, Bool.false_eq_true, if_false, pure_eq]

/-- A file can be moved just where a path takes one. -/
theorem moveFile_eq_ok {source target : String} : d.moveFile source target = .ok d' ↔
    ∃ p bytes q, d.findFile source = .ok (p, bytes) ∧ d.Takes target q ∧
      d' = (d.erase p).put q (.file bytes) := by
  unfold moveFile
  constructor
  · intro h
    obtain ⟨⟨p, bytes⟩, hfind, h⟩ := bind_eq_ok.1 h
    obtain ⟨r, hr, h⟩ := bind_eq_ok.1 h
    obtain ⟨e, he, h⟩ := bind_eq_ok.1 h
    split at h
    · cases h
    next name hname =>
    obtain ⟨q, hq, h⟩ := bind_eq_ok.1 h
    by_cases hslashed : e.slashed = true
    · rw [if_pos hslashed] at h
      cases h
    rw [if_neg hslashed] at h
    split at h
    · cases h
    next hdir =>
    cases h
    exact ⟨p, bytes, q, hfind, ⟨r, e, name, hr, he, hname, by simpa using hslashed, hq, hdir⟩, rfl⟩
  · rintro ⟨p, bytes, q, hfind, ⟨r, e, name, hr, he, hname, hslashed, hq, hdir⟩, rfl⟩
    simp only [hfind, hr, he, hname, hslashed, hq, ok_bind, Bool.false_eq_true, if_false, pure_eq]

end Disk

/-- A change that names no path but one. -/
def FileStep.IsOn (path : String) : FileStep → Prop
  | .create p => p = path
  | .append p _ => p = path
  | .sync p => p = path
  | .rename _ _ => False
  | .remove p => p = path

namespace Disk

variable {d d' : Disk} {path : String} {p : List String} {step : FileStep}

/-- **A change on a path changes what stands there.** -/
theorem alikeBut_of_apply (hon : step.IsOn path) (h : d.apply step = .ok d') :
    d.AlikeBut d' (d.LeadsTo path) := by
  cases step with
  | create =>
    obtain rfl := hon
    obtain ⟨p, htakes, rfl⟩ := createFile_eq_ok.1 h
    have hp := htakes.mayHold
    exact (alikeBut_put hp.2.1 hp.2.2).mono (by rintro _ rfl; exact hp.leadsTo)
  | append =>
    obtain rfl := hon
    obtain ⟨⟨p, bytes⟩, hfind, h⟩ := bind_eq_ok.1 h
    cases h
    obtain ⟨hp, -⟩ := mayHold_of_findFile hfind
    exact (alikeBut_put hp.2.1 hp.2.2).mono (by rintro _ rfl; exact hp.leadsTo)
  | sync =>
    obtain ⟨-, -, h⟩ := bind_eq_ok.1 h
    cases h
    exact alikeBut_refl d _
  | rename => exact hon.elim
  | remove =>
    obtain rfl := hon
    obtain ⟨⟨p, bytes⟩, hfind, h⟩ := bind_eq_ok.1 h
    cases h
    obtain ⟨hp, hentry⟩ := mayHold_of_findFile hfind
    exact (alikeBut_erase hentry).mono (by rintro _ rfl; exact hp.leadsTo)

theorem exists_nextFault (d : Disk) : ∃ faults, d.nextFault.2 = { d with faults := faults } := by
  unfold nextFault
  split
  · exact ⟨d.faults, rfl⟩
  · exact ⟨_, rfl⟩

theorem exists_read (d : Disk) (path : String) :
    ∃ faults, (d.read path).2 = { d with faults := faults } := by
  obtain ⟨faults, hnext⟩ := exists_nextFault d
  refine ⟨faults, ?_⟩
  unfold read
  split
  · next h => exact (congrArg Prod.snd h).symm.trans hnext
  · next h => exact (congrArg Prod.snd h).symm.trans hnext

/-- What a call may do: the whole change, nothing, or the adding of some of the bytes. -/
theorem perform_cases (d : Disk) (step : FileStep) : ∃ faults,
    (∃ d', { d with faults := faults }.apply step = .ok d' ∧ d.perform step = (.ok (), d')) ∨
    (∃ e, d.perform step = (.error e, { d with faults := faults })) ∨
    (∃ e path more k d', step = .append path more ∧
      { d with faults := faults }.apply (.append path (more.take k)) = .ok d' ∧
      d.perform step = (.error e, d')) := by
  obtain ⟨faults, hfaults⟩ := exists_nextFault d
  refine ⟨faults, ?_⟩
  rw [← hfaults, perform]
  rcases d.nextFault with ⟨_ | f, d₁⟩
  · cases h : d₁.apply step with
    | ok d' => exact .inl ⟨d', rfl, by simp only [h]⟩
    | error e => exact .inr (.inl ⟨e, by simp only [h]⟩)
  · refine .inr ?_
    cases step with
    | append path more =>
      cases h : d₁.apply (.append path (more.take f.written)) with
      | ok d' => exact .inr ⟨f.cause, path, more, f.written, d', rfl, h, by simp only [spoil, h]⟩
      | error e => exact .inl ⟨f.cause, by simp only [spoil, h]⟩
    | create => exact .inl ⟨f.cause, rfl⟩
    | sync => exact .inl ⟨f.cause, rfl⟩
    | rename => exact .inl ⟨f.cause, rfl⟩
    | remove => exact .inl ⟨f.cause, rfl⟩

theorem exists_apply_of_perform (h : (d.perform step).1 = .ok ()) :
    ∃ faults, { d with faults := faults }.apply step = .ok (d.perform step).2 := by
  obtain ⟨faults, ⟨d', happly, hperform⟩ | ⟨e, hperform⟩ | ⟨e, _, _, _, _, _, _, hperform⟩⟩ :=
    perform_cases d step
  · exact ⟨faults, by rw [happly, hperform]⟩
  · rw [hperform] at h
    cases h
  · rw [hperform] at h
    cases h

/-- A call that fails and adds no bytes changes nothing. -/
theorem exists_faults_of_perform {e : IoError} (h : (d.perform step).1 = .error e)
    (happend : ∀ path more, step ≠ .append path more) :
    ∃ faults, (d.perform step).2 = { d with faults := faults } := by
  obtain ⟨faults, ⟨d', -, hperform⟩ | ⟨e, hperform⟩ | ⟨_, path, more, _, _, rfl, -⟩⟩ :=
    perform_cases d step
  · rw [hperform] at h
    cases h
  · exact ⟨faults, by rw [hperform]⟩
  · exact absurd rfl (happend path more)

/-- The disks that may be found while a change is made: the one before it, the one after it, and
while bytes are added to a file, those with the first of them. -/
inductive During (d : Disk) : FileStep → Disk → Prop
  | before (step : FileStep) : During d step d
  | after (step : FileStep) : During d step (d.perform step).2
  | partly {path : String} {more : List UInt8} {d' : Disk} (k : Nat)
      (h : d.apply (.append path (more.take k)) = .ok d') : During d (.append path more) d'

/-- **Whatever becomes of a call on a path, it changes what stands there at most.** -/
theorem During.alikeBut (hon : step.IsOn path) (h : d.During step d') :
    d.AlikeBut d' (d.LeadsTo path) := by
  cases h with
  | before => exact alikeBut_refl d _
  | @partly path' more _ k h =>
    have hon : (FileStep.append path' (more.take k)).IsOn path := hon
    exact alikeBut_of_apply hon h
  | after =>
    obtain ⟨faults, ⟨d', happly, hperform⟩ | ⟨e, hperform⟩ |
      ⟨e, path', more, k, d', rfl, happly, hperform⟩⟩ := perform_cases d step
    · rw [hperform]
      exact (alikeBut_faults d faults _).trans (alikeBut_of_apply hon happly)
    · rw [hperform]
      exact alikeBut_faults d faults _
    · have hon : (FileStep.append path' (more.take k)).IsOn path := hon
      rw [hperform]
      exact (alikeBut_faults d faults _).trans (alikeBut_of_apply hon happly)

/-! ## What stands at a path after a change -/

theorem findFile_of_create (h : d.apply (.create path) = .ok d') :
    ∃ p, d'.findFile path = .ok (p, []) := by
  obtain ⟨p, htakes, rfl⟩ := createFile_eq_ok.1 h
  have hp := htakes.mayHold
  exact ⟨p, hp.findFile_eq (alikeBut_put hp.2.1 hp.2.2) (by rw [entry?_put hp.2.1, if_pos rfl])⟩

theorem findFile_of_append {bytes more : List UInt8} (hfind : d.findFile path = .ok (p, bytes))
    (h : d.apply (.append path more) = .ok d') : d'.findFile path = .ok (p, bytes ++ more) := by
  obtain ⟨hp, -⟩ := mayHold_of_findFile hfind
  rw [apply, hfind] at h
  cases h
  exact hp.findFile_eq (alikeBut_put hp.2.1 hp.2.2) (by rw [entry?_put hp.2.1, if_pos rfl])

theorem eq_of_sync (h : d.apply (.sync path) = .ok d') : d' = d := by
  obtain ⟨-, -, h⟩ := bind_eq_ok.1 h
  cases h
  rfl

theorem find_of_remove (h : d.apply (.remove path) = .ok d') : d'.find path = .error .notFound := by
  obtain ⟨⟨p, bytes⟩, hfind, h⟩ := bind_eq_ok.1 h
  cases h
  obtain ⟨hp, hentry⟩ := mayHold_of_findFile hfind
  have hleads := (alikeBut_erase hentry).leadsTo.2 hp.leadsTo
  exact hleads.find_eq_notFound (by rw [entry?_erase hp.2.1, if_pos rfl])

/-- A file that was moved stands whole at its new path, and nothing stands at the old one. -/
theorem find_of_rename {source target : String} {bytes : List UInt8}
    (hfind : d.findFile source = .ok (p, bytes))
    (hne : ∀ p q, d.LeadsTo source p → d.LeadsTo target q → p ≠ q)
    (h : d.apply (.rename source target) = .ok d') :
    (∃ q, d'.findFile target = .ok (q, bytes)) ∧ d'.find source = .error .notFound ∧
      d.AlikeBut d' fun r => d.LeadsTo source r ∨ d.LeadsTo target r := by
  obtain ⟨p', bytes', q, hfind', htakes, rfl⟩ := moveFile_eq_ok.1 h
  have hq := htakes.mayHold
  cases hfind.symm.trans hfind'
  obtain ⟨hp, hentry⟩ := mayHold_of_findFile hfind
  have hpq := hne p q hp.leadsTo hq.leadsTo
  have herase := alikeBut_erase hentry
  have hput : (d.erase p).AlikeBut ((d.erase p).put q (.file bytes)) (· = q) :=
    alikeBut_put hq.2.1 (by rw [ne_eq, herase.directories]; exact hq.2.2)
  have halike : d.AlikeBut ((d.erase p).put q (.file bytes))
      fun r => d.LeadsTo source r ∨ d.LeadsTo target r :=
    (herase.mono (by rintro _ rfl; exact .inl hp.leadsTo)).trans
      (hput.mono (by rintro _ rfl; exact .inr hq.leadsTo))
  refine ⟨⟨q, hq.findFile_eq halike (by rw [entry?_put hq.2.1, if_pos rfl])⟩, ?_, halike⟩
  refine (halike.leadsTo.2 hp.leadsTo).find_eq_notFound ?_
  rw [entry?_put hq.2.1, if_neg hpq, entry?_erase hp.2.1, if_pos rfl]

/-! ## Calls without faults -/

theorem faults_of_apply (h : d.apply step = .ok d') : d'.faults = d.faults := by
  cases step with
  | create =>
    obtain ⟨p, -, rfl⟩ := createFile_eq_ok.1 h
    rfl
  | append =>
    obtain ⟨⟨p, bytes⟩, -, h⟩ := bind_eq_ok.1 h
    cases h
    rfl
  | sync => rw [eq_of_sync h]
  | rename =>
    obtain ⟨p, bytes, q, -, -, rfl⟩ := moveFile_eq_ok.1 h
    rfl
  | remove =>
    obtain ⟨⟨p, bytes⟩, -, h⟩ := bind_eq_ok.1 h
    cases h
    rfl

theorem perform_of_apply (hfaults : d.faults = []) (h : d.apply step = .ok d') :
    d.perform step = (.ok (), d') := by
  simp only [perform, nextFault, hfaults, h]

theorem snd_read_of_faults (hfaults : d.faults = []) : (d.read path).2 = d := by
  simp only [read, nextFault, hfaults]

theorem apply_append {bytes : List UInt8} (hfind : d.findFile path = .ok (p, bytes))
    (more : List UInt8) :
    d.apply (.append path more) = .ok (d.put p (.file (bytes ++ more))) := by
  rw [apply, hfind]
  rfl

theorem apply_sync {bytes : List UInt8} (hfind : d.findFile path = .ok (p, bytes)) :
    d.apply (.sync path) = .ok d := by
  rw [apply, hfind]
  rfl

end Disk

end Gazetteer

import Gazetteer.Proofs.Watching

/-!
# A file comes whole or not at all

A file is written beside its path and then moved there. All calls but the last are on the path
beside, so up to the last the path is left alone, whatever becomes of them; and the last moves the
file as a whole. A draft is packed before the first call, and a text is taken in before that, so
when one of these fails the disk is as it was. And where nothing stands in the way the file comes.
-/

namespace Gazetteer

namespace Watched

variable {w : Watched} {d₀ : Disk} {path temporary : String} {step : FileStep}
  {steps : List FileStep}

/-! ## The file beside -/

/-- The changes that bring bytes to the file beside a path. -/
def storeSteps (temporary : String) (bytes : List UInt8) : List FileStep :=
  [.create temporary, .append temporary bytes, .sync temporary]

theorem isOn_of_mem_storeSteps {bytes : List UInt8} (h : step ∈ storeSteps temporary bytes) :
    step.IsOn temporary := by
  simp only [storeSteps, List.mem_cons, List.not_mem_nil, or_false] at h
  obtain rfl | rfl | rfl := h <;> rfl

theorem ok_of_run_cons (h : (w.run (step :: steps)).1 = .ok ()) :
    (w.disk.perform step).1 = .ok () ∧ ((w.call step).run steps).1 = .ok () := by
  cases hstep : (w.disk.perform step).1 with
  | ok => exact ⟨rfl, by rwa [run_cons_of_ok hstep] at h⟩
  | error e =>
    rw [run_cons_of_error hstep] at h
    cases h

/-- The file beside a path holds the bytes in the end. -/
theorem findFile_of_run_storeSteps {bytes : List UInt8}
    (h : (w.run (storeSteps temporary bytes)).1 = .ok ()) :
    ∃ p, (w.run (storeSteps temporary bytes)).2.disk.findFile temporary = .ok (p, bytes) := by
  obtain ⟨hcreate, h⟩ := ok_of_run_cons h
  obtain ⟨happend, h⟩ := ok_of_run_cons h
  obtain ⟨hsync, -⟩ := ok_of_run_cons h
  rw [storeSteps, run_cons_of_ok hcreate, run_cons_of_ok happend, run_cons_of_ok hsync, run_nil]
  obtain ⟨_, hcreated⟩ := Disk.exists_apply_of_perform hcreate
  obtain ⟨faults, happended⟩ := Disk.exists_apply_of_perform happend
  obtain ⟨_, hsynced⟩ := Disk.exists_apply_of_perform hsync
  obtain ⟨p, hempty⟩ := Disk.findFile_of_create hcreated
  rw [← Disk.findFile_faults _ faults] at hempty
  have hbytes := Disk.findFile_of_append hempty happended
  refine ⟨p, ?_⟩
  rw [call, Disk.eq_of_sync hsynced, Disk.findFile_faults]
  exact hbytes

/-! ## The move -/

/-- What there is when a file was not brought to its path: nothing but the file beside was changed,
and the last call was to remove that. -/
structure Abandoned (w : Watched) (d₀ : Disk) (temporary : String) : Prop where
  onlyAt : w.OnlyAt d₀ temporary
  removal : ∃ calls before, w.calls = calls ++ [(.remove temporary, before)] ∧
    ((before.perform (.remove temporary)).1 = .ok () → w.disk.find temporary = .error .notFound)

/-- What there is when a file was brought to its path: it came with the last call. -/
structure Delivered (w : Watched) (d₀ : Disk) (temporary path : String) (bytes : List UInt8) :
    Prop where
  before : ∀ d, w.Found d → d₀.AlikeBut d (d₀.LeadsTo temporary) ∨ d = w.disk
  alike : d₀.AlikeBut w.disk fun p => d₀.LeadsTo temporary p ∨ d₀.LeadsTo path p
  stands : ∃ p, w.disk.findFile path = .ok (p, bytes)
  gone : w.disk.find temporary = .error .notFound

/-- With the removal of the file beside, a run is given up. -/
theorem OnlyAt.abandoned (h : w.OnlyAt d₀ temporary) :
    (w.call (.remove temporary)).Abandoned d₀ temporary where
  onlyAt := h.call rfl
  removal := by
    refine ⟨w.calls, w.disk, rfl, fun hremove => ?_⟩
    obtain ⟨_, happly⟩ := Disk.exists_apply_of_perform hremove
    exact Disk.find_of_remove happly

/-- The move of a file to its path brings it there whole, or changes nothing. -/
theorem OnlyAt.rename {p : List String} {bytes : List UInt8} (h : w.OnlyAt d₀ temporary)
    (htemp : temporaryPath? path = some temporary) (hfile : w.disk.findFile temporary = .ok (p, bytes)) :
    (∃ e, (w.disk.perform (.rename temporary path)).1 = .error e ∧
      (w.call (.rename temporary path)).OnlyAt d₀ temporary) ∨
    (w.disk.perform (.rename temporary path)).1 = .ok () ∧
      (w.call (.rename temporary path)).Delivered d₀ temporary path bytes := by
  have hnow := h w.disk (.inl rfl)
  cases hmove : (w.disk.perform (.rename temporary path)).1 with
  | error e =>
    obtain ⟨faults, hsame⟩ := Disk.exists_faults_of_perform hmove (by simp)
    refine .inl ⟨e, rfl, fun d hd => ?_⟩
    obtain hd | hd := found_call hd
    · exact h d hd
    · cases hd with
      | before => exact hnow
      | after =>
        rw [hsame]
        exact hnow.trans (Disk.alikeBut_faults _ faults _)
  | ok =>
    obtain ⟨faults, happly⟩ := Disk.exists_apply_of_perform hmove
    rw [← Disk.findFile_faults _ faults] at hfile
    have hne : ∀ p q, w.disk.LeadsTo temporary p → w.disk.LeadsTo path q → p ≠ q :=
      fun _ _ hp hq => (hq.ne_beside htemp hp).symm
    obtain ⟨hstands, hgone, halike⟩ := Disk.find_of_rename hfile hne happly
    refine .inr ⟨rfl, ?_, ?_, hstands, hgone⟩
    · intro d hd
      obtain hd | hd := found_call hd
      · exact .inl (h d hd)
      · cases hd with
        | before => exact .inl hnow
        | after => exact .inr rfl
    · refine (hnow.mono fun _ => .inl).trans ((Disk.alikeBut_faults _ faults _).trans ?_)
      exact halike.mono fun _ => Or.imp hnow.leadsTo.1 hnow.leadsTo.1

/-- **The changes that bring bytes to a path bring all of them in the end, or nothing.** -/
theorem run_saveSteps (h : w.Untouched d₀) (htemp : temporaryPath? path = some temporary)
    (bytes : List UInt8) :
    (∃ e, (w.run (saveSteps temporary path bytes)).1 = .error e ∧
      (w.run (saveSteps temporary path bytes)).2.OnlyAt d₀ temporary) ∨
    (w.run (saveSteps temporary path bytes)).1 = .ok () ∧
      (w.run (saveSteps temporary path bytes)).2.Delivered d₀ temporary path bytes := by
  have hsplit : w.run (saveSteps temporary path bytes) =
      w.run (storeSteps temporary bytes ++ [.rename temporary path]) := rfl
  have hstart : w.OnlyAt d₀ temporary := fun _ => h.alikeBut
  have hstored : (w.run (storeSteps temporary bytes)).2.OnlyAt d₀ temporary :=
    hstart.run fun _ => isOn_of_mem_storeSteps
  have hfile (hok : (w.run (storeSteps temporary bytes)).1 = .ok ()) :=
    findFile_of_run_storeSteps hok
  rw [hsplit, run_append]
  generalize w.run (storeSteps temporary bytes) = stored at hstored hfile
  obtain ⟨e | ⟨⟩, w'⟩ := stored
  · exact .inl ⟨e, rfl, hstored⟩
  · obtain ⟨p, hfile⟩ := hfile rfl
    dsimp only at hstored hfile ⊢
    obtain ⟨e, hmove, h⟩ | ⟨hmove, h⟩ := hstored.rename htemp hfile
    · rw [run_cons_of_error hmove]
      exact .inl ⟨e, rfl, h⟩
    · rw [run_cons_of_ok hmove]
      exact .inr ⟨rfl, h⟩

/-- A call without a fault goes through, and the next ones go on from what it gives. -/
theorem run_cons_of_apply {d : Disk} (hfaults : w.disk.faults = [])
    (h : w.disk.apply step = .ok d) :
    w.run (step :: steps) = (w.call step).run steps ∧ (w.call step).disk = d ∧ d.faults = [] := by
  have hperform := Disk.perform_of_apply hfaults h
  refine ⟨run_cons_of_ok (by rw [hperform]), by rw [call, hperform], ?_⟩
  rw [Disk.faults_of_apply h, hfaults]

/-- **The changes that bring bytes to a path succeed** where files can be made at the path and
beside it, if no call is hit by a fault. -/
theorem run_saveSteps_eq_ok {p q : List String} (hfaults : w.disk.faults = [])
    (htemp : w.disk.Takes temporary p) (hpath : w.disk.Takes path q) (bytes : List UInt8) :
    (w.run (saveSteps temporary path bytes)).1 = .ok () := by
  have hon (more : List UInt8) : (FileStep.append temporary more).IsOn temporary := rfl
  -- The file beside is made.
  have hcreate : w.disk.apply (.create temporary) = .ok (w.disk.put p (.file [])) :=
    Disk.createFile_eq_ok.2 ⟨p, htemp, rfl⟩
  obtain ⟨hrun, hdisk, hfaults⟩ := run_cons_of_apply hfaults hcreate
  obtain ⟨r, hfile⟩ := Disk.findFile_of_create hcreate
  have hpath := (Disk.alikeBut_of_apply (show (FileStep.create temporary).IsOn temporary from rfl)
    hcreate).takes hpath
  rw [saveSteps, hrun]
  rw [← hdisk] at hfaults hfile hpath
  generalize w.call (.create temporary) = created at hfaults hfile hpath ⊢
  -- It is filled.
  have happend := Disk.apply_append hfile bytes
  obtain ⟨hrun, hdisk, hfaults⟩ := run_cons_of_apply hfaults happend
  have hfile := Disk.findFile_of_append hfile happend
  have hpath := (Disk.alikeBut_of_apply (hon bytes) happend).takes hpath
  rw [hrun]
  rw [← hdisk] at hfaults hfile hpath
  generalize created.call (.append temporary bytes) = filled at hfaults hfile hpath ⊢
  -- It is stored, and moved.
  obtain ⟨hrun, hdisk, hfaults⟩ := run_cons_of_apply hfaults (Disk.apply_sync hfile)
  rw [hrun]
  rw [← hdisk] at hfaults hfile hpath
  have hmove : (filled.call (.sync temporary)).disk.apply (.rename temporary path) = .ok _ :=
    Disk.moveFile_eq_ok.2 ⟨_, _, _, hfile, hpath, rfl⟩
  obtain ⟨hrun, -, -⟩ := run_cons_of_apply hfaults hmove
  rw [hrun, run_nil]

end Watched

/-! ## Bringing bytes to a path -/

section
variable {w : Watched} {d₀ : Disk} {path : String}

/-- Bytes are not brought anywhere without the name of a file, else given up or delivered. -/
theorem saveBytes_cases (h : w.Untouched d₀) (path : String) (bytes : List UInt8) :
    (temporaryPath? path = none ∧ (saveBytes path bytes : StateM Watched (Except Error Unit)).run w =
      (.error (.invalidInput (.noFileName path)), w)) ∨
    ∃ temporary, temporaryPath? path = some temporary ∧ ∃ w',
      ((∃ e, (saveBytes path bytes : StateM Watched (Except Error Unit)).run w = (.error (.io e), w')) ∧
        w'.Abandoned d₀ temporary) ∨
      ((saveBytes path bytes : StateM Watched (Except Error Unit)).run w = (.ok (), w') ∧
        w'.Delivered d₀ temporary path bytes) := by
  unfold saveBytes
  cases htemp : temporaryPath? path with
  | none => exact .inl ⟨rfl, rfl⟩
  | some temporary =>
    refine .inr ⟨temporary, rfl, ?_⟩
    have hrun := Watched.run_saveSteps h htemp bytes
    have hsave : (performAll (saveSteps temporary path bytes) :
      StateM Watched (Except IoError Unit)).run w = w.run (saveSteps temporary path bytes) := rfl
    generalize w.run (saveSteps temporary path bytes) = saved at hrun hsave
    obtain ⟨r, w'⟩ := saved
    dsimp only at hrun ⊢
    obtain ⟨e, rfl, h⟩ | ⟨rfl, h⟩ := hrun
    · exact ⟨w'.call (.remove temporary), .inl ⟨⟨e, run_bind_of_run hsave⟩, h.abandoned⟩⟩
    · exact ⟨w', .inr ⟨run_bind_of_run hsave, h⟩⟩

/-- Nothing stands in the way of a file that is brought to a path: no call is hit by a fault, and
files can be made at the path and beside it. -/
def Disk.Ready (d : Disk) (path : String) : Prop :=
  d.faults = [] ∧ (∃ q, d.Takes path q) ∧
    ∃ temporary p, temporaryPath? path = some temporary ∧ d.Takes temporary p

theorem saveBytes_eq_ok (h : w.disk.Ready path) (bytes : List UInt8) :
    ((saveBytes path bytes : StateM Watched (Except Error Unit)).run w).1 = .ok () := by
  obtain ⟨hfaults, ⟨q, hpath⟩, temporary, p, htemp, hbeside⟩ := h
  have hrun := Watched.run_saveSteps_eq_ok hfaults hbeside hpath bytes
  have hsave : (performAll (saveSteps temporary path bytes) :
    StateM Watched (Except IoError Unit)).run w = w.run (saveSteps temporary path bytes) := rfl
  generalize w.run (saveSteps temporary path bytes) = saved at hrun hsave
  obtain ⟨r, w'⟩ := saved
  obtain rfl : r = .ok () := hrun
  unfold saveBytes
  rw [htemp, run_bind_of_run hsave]
  rfl

/-- A path has its bytes after a run without faults. -/
example : ((saveBytes "a" [1, 2] : StateM Disk (Except Error Unit)).run
    ⟨[(["a"], .file [7])], [], []⟩).2.entries = [(["a"], .file [1, 2])] := by
  decide +kernel

/-- A path keeps its bytes when the writing breaks off behind the first of the new ones. -/
example : ((saveBytes "a" [1, 2] : StateM Disk (Except Error Unit)).run
    ⟨[(["a"], .file [7])], [], [none, some ⟨.busy, 1⟩]⟩).2.entries = [(["a"], .file [7])] := by
  decide +kernel

/-- The place of the file beside a path. -/
def Disk.Beside (d : Disk) (path : String) (place : List String) : Prop :=
  ∃ temporary, temporaryPath? path = some temporary ∧ d.LeadsTo temporary place

/-- What stands at a path is the same when only the file beside it was changed. -/
theorem Disk.AlikeBut.at?_eq_of_beside {d : Disk} (h : d₀.AlikeBut d (d₀.Beside path)) :
    d.at? path = d₀.at? path := by
  refine h.at?_eq fun p hp hbeside => ?_
  obtain ⟨temporary, htemp, hq⟩ := hbeside
  exact hp.ne_beside htemp hq rfl

/-- What holds of a run that is to bring a file to a path. -/
structure AllOrNothing {β : Type} (d₀ : Disk) (path : String) (packed : Except Error Image)
    (outcome : Except Error β) (w : Watched) : Prop where
  /-- At no time was anything changed but at the path and beside it. -/
  others : ∀ d, w.Found d → d₀.AlikeBut d fun p => d₀.LeadsTo path p ∨ d₀.Beside path p
  /-- At any time the path holds what it held, or the whole of the file. -/
  whole : ∀ d, w.Found d → d.at? path = d₀.at? path ∨
    ∃ image p, packed = .ok image ∧ d.findFile path = .ok (p, image.bytes)
  /-- A failure leaves all but the file beside as it was; and if anything was done, the last call was
  to remove that file, which is gone if it succeeded. -/
  failed : ∀ e, outcome = .error e →
    w.disk.at? path = d₀.at? path ∧ d₀.AlikeBut w.disk (d₀.Beside path) ∧
    (w.calls = [] ∨ ∃ temporary calls before, temporaryPath? path = some temporary ∧
      w.calls = calls ++ [(.remove temporary, before)] ∧
      ((before.perform (.remove temporary)).1 = .ok () →
        w.disk.find temporary = .error .notFound))
  /-- In the end the path holds the whole of the file, and nothing is beside it. -/
  done : ∀ b, outcome = .ok b → ∃ image p temporary, packed = .ok image ∧
    w.disk.findFile path = .ok (p, image.bytes) ∧ temporaryPath? path = some temporary ∧
    w.disk.find temporary = .error .notFound
  /-- Without bytes or a name for the file nothing is done. -/
  untouched : (∃ e, packed = .error e) ∨ fileName? path = none →
    (∃ e, outcome = .error e) ∧ w.Untouched d₀

variable {β : Type} {packed : Except Error Image} {outcome : Except Error β} {e : Error}
  {image : Image} {temporary : String}

/-- What a success gives does not matter. -/
theorem AllOrNothing.map {γ : Type} (h : AllOrNothing d₀ path packed outcome w) (f : β → γ) :
    AllOrNothing d₀ path packed (outcome.map f) w := by
  cases outcome with
  | error e => exact ⟨h.others, h.whole, fun _ _ => h.failed e rfl, fun _ hb => (nomatch hb),
      fun hu => ⟨⟨e, rfl⟩, (h.untouched hu).2⟩⟩
  | ok b => exact ⟨h.others, h.whole, fun _ he => (nomatch he), fun _ _ => h.done b rfl,
      fun hu => (nomatch (h.untouched hu).1)⟩

/-- With bytes and a name for the file there is something to do. -/
theorem ready_of_temporaryPath? (htemp : temporaryPath? path = some temporary) :
    ¬((∃ e, (.ok image : Except Error Image) = .error e) ∨ fileName? path = none) := by
  rintro (⟨e, he⟩ | hname)
  · cases he
  · rw [temporaryPath?, hname] at htemp
    cases htemp

theorem Watched.Untouched.allOrNothing (h : w.Untouched d₀) :
    AllOrNothing d₀ path packed (.error e : Except Error β) w where
  others _ := h.alikeBut
  whole _ hd := .inl (h.alikeBut hd).at?_eq_of_beside
  failed _ _ := ⟨(h.alikeBut (.inl rfl)).at?_eq_of_beside, h.alikeBut (.inl rfl), .inl h.1⟩
  done _ hb := nomatch hb
  untouched _ := ⟨⟨e, rfl⟩, h⟩

theorem Watched.Abandoned.allOrNothing (htemp : temporaryPath? path = some temporary)
    (h : w.Abandoned d₀ temporary) :
    AllOrNothing d₀ path (.ok image) (.error e : Except Error β) w := by
  have hbeside : ∀ d, w.Found d → d₀.AlikeBut d (d₀.Beside path) := fun d hd =>
    (h.onlyAt d hd).mono fun _ hp => ⟨temporary, htemp, hp⟩
  obtain ⟨calls, before, hcalls, hgone⟩ := h.removal
  exact {
    others := fun d hd => (hbeside d hd).mono fun _ => .inr
    whole := fun d hd => .inl (hbeside d hd).at?_eq_of_beside
    failed := fun _ _ => ⟨(hbeside _ (.inl rfl)).at?_eq_of_beside, hbeside _ (.inl rfl),
      .inr ⟨temporary, calls, before, htemp, hcalls, hgone⟩⟩
    done := fun _ hb => nomatch hb
    untouched := fun hu => absurd hu (ready_of_temporaryPath? htemp) }

theorem Watched.Delivered.allOrNothing (htemp : temporaryPath? path = some temporary)
    (h : w.Delivered d₀ temporary path image.bytes) (b : β) :
    AllOrNothing d₀ path (.ok image) (.ok b : Except Error β) w := by
  obtain ⟨p, hstands⟩ := h.stands
  have hbeside (q : List String) (hq : d₀.LeadsTo temporary q) : d₀.Beside path q :=
    ⟨temporary, htemp, hq⟩
  exact {
    others := by
      intro d hd
      obtain hd | rfl := h.before d hd
      · exact hd.mono fun q hq => .inr (hbeside q hq)
      · exact h.alike.mono fun q hq => (hq.imp_left (hbeside q)).symm
    whole := by
      intro d hd
      obtain hd | rfl := h.before d hd
      · exact .inl (hd.mono hbeside).at?_eq_of_beside
      · exact .inr ⟨image, p, rfl, hstands⟩
    failed := fun _ he => nomatch he
    done := fun _ _ => ⟨image, p, temporary, rfl, hstands, htemp, h.gone⟩
    untouched := fun hu => absurd hu (ready_of_temporaryPath? htemp) }

end

/-! ## Drafts -/

namespace Draft

variable {α : Type} [Schema α] {w : Watched} {d₀ : Disk}

/-- A draft is packed, and its bytes are brought to the path. -/
theorem save_allOrNothing (d : Draft α) (date : Int64) (path : String) (h : w.Untouched d₀) :
    let run := (d.save date path : StateM Watched (Logged Unit)).run w
    AllOrNothing d₀ path (d.pack date) run.1.outcome run.2 ∧
      ∀ e, d.pack date = .error e → run.1.outcome = .error e := by
  unfold save
  cases hpack : d.pack date with
  | error e => exact ⟨h.allOrNothing, fun _ he => by cases he; rfl⟩
  | ok image =>
    refine ⟨?_, fun _ he => nomatch he⟩
    dsimp only [packLog]
    obtain ⟨-, hsave⟩ | ⟨temporary, htemp, w', ⟨⟨e, hsave⟩, h'⟩ | ⟨hsave, h'⟩⟩ :=
      saveBytes_cases h path image.bytes
    · rw [run_bind_of_run hsave]
      exact h.allOrNothing
    · rw [run_bind_of_run hsave]
      exact h'.allOrNothing htemp
    · rw [run_bind_of_run hsave]
      exact h'.allOrNothing htemp ()

theorem save_eq_ok {d : Draft α} {date : Int64} {image : Image} {path : String}
    (h : w.disk.Ready path) (hpack : d.pack date = .ok image) :
    ((d.save date path : StateM Watched (Logged Unit)).run w).1.outcome = .ok () := by
  have hsave := saveBytes_eq_ok h image.bytes
  generalize hrun : (saveBytes path image.bytes : StateM Watched (Except Error Unit)).run w = saved
    at hsave
  obtain ⟨r, w'⟩ := saved
  obtain rfl : r = .ok () := hsave
  unfold save
  rw [hpack]
  dsimp only [packLog]
  rw [run_bind_of_run hrun]
  rfl

section
variable {d : Draft α} {parser : String → Draft α × Logged Nat} {input text : String} {w' : Watched}

theorem run_createBy_of_unread {e : IoError} (parser : String → Draft α × Logged Nat) (date : Int64)
    (path : String)
    (hread : (readText input : StateM Watched (Except IoError String)).run w = (.error e, w')) :
    (d.createBy parser date input path : StateM Watched (Creation α)).run w =
      (⟨d, ⟨[.notCreated path input (.io e)], .error (.io e)⟩⟩, w') := by
  unfold createBy
  rw [run_bind_of_run hread]
  rfl

theorem run_createBy_of_refused {e : Error} (d : Draft α) (date : Int64) (path : String)
    (hread : (readText input : StateM Watched (Except IoError String)).run w = (.ok text, w'))
    (hparsed : (parser text).2.outcome = .error e) :
    ∃ events, (d.createBy parser date input path : StateM Watched (Creation α)).run w =
      (⟨(parser text).1, ⟨events, .error e⟩⟩, w') := by
  refine ⟨(parser text).2.events ++ [.notCreated path input e], ?_⟩
  unfold createBy
  rw [run_bind_of_run hread]
  simp only [hparsed]
  rfl

theorem run_createBy_of_parsed {count : Nat} (d : Draft α) (date : Int64) (path : String)
    (hread : (readText input : StateM Watched (Except IoError String)).run w = (.ok text, w'))
    (hparsed : (parser text).2.outcome = .ok count) :
    let saved := ((parser text).1.save date path : StateM Watched (Logged Unit)).run w'
    ∃ events, (d.createBy parser date input path : StateM Watched (Creation α)).run w =
      (⟨(parser text).1, ⟨events, saved.1.outcome.map fun _ => (parser text).1.size⟩⟩, saved.2) := by
  unfold createBy
  rw [run_bind_of_run hread]
  simp only [hparsed]
  generalize hsave : ((parser text).1.save date path : StateM Watched (Logged Unit)).run w' = saved
  obtain ⟨⟨events, outcome⟩, w''⟩ := saved
  rw [run_bind_of_run hsave]
  cases outcome with
  | error e => exact ⟨_, rfl⟩
  | ok => exact ⟨_, rfl⟩

end

/-- A text is taken in before anything is done, and then the draft is saved. -/
theorem createBy_allOrNothing (d : Draft α) (parser : String → Draft α × Logged Nat) (date : Int64)
    (input path : String) (h : w.Untouched d₀) :
    let run := (d.createBy parser date input path : StateM Watched (Creation α)).run w
    let text := ((readText input : StateM Watched (Except IoError String)).run w).1
    AllOrNothing d₀ path (run.1.draft.pack date) run.1.log.outcome run.2 ∧
    (∀ e, text = .error e →
      run.1.draft = d ∧ run.1.log.outcome = .error (.io e) ∧ run.2.Untouched d₀) ∧
    ∀ t, text = .ok t → run.1.draft = (parser t).1 ∧
      ∀ e, (parser t).2.outcome = .error e → run.1.log.outcome = .error e ∧ run.2.Untouched d₀ := by
  have hafter := h.readText input
  dsimp only
  generalize hread : (readText input : StateM Watched (Except IoError String)).run w = read at hafter
  obtain ⟨e | text, w'⟩ := read
  · rw [run_createBy_of_unread parser date path hread]
    refine ⟨hafter.allOrNothing, ?_, fun _ ht => nomatch ht⟩
    intro e' he
    cases he
    exact ⟨rfl, rfl, hafter⟩
  · cases hparsed : (parser text).2.outcome with
    | error e =>
      obtain ⟨events, hrun⟩ := run_createBy_of_refused d date path hread hparsed
      rw [hrun]
      refine ⟨hafter.allOrNothing, (fun _ ht => nomatch ht), ?_⟩
      intro t ht
      cases ht
      exact ⟨rfl, fun e' he => ⟨hparsed.symm.trans he, hafter⟩⟩
    | ok count =>
      obtain ⟨events, hrun⟩ := run_createBy_of_parsed d date path hread hparsed
      rw [hrun]
      refine ⟨(save_allOrNothing _ date path hafter).1.map _, (fun _ ht => nomatch ht), ?_⟩
      intro t ht
      cases ht
      exact ⟨rfl, fun e' he => nomatch hparsed.symm.trans he⟩

/-- A database is made of a text that is read and taken in, where nothing stands in the way. -/
theorem createBy_eq_ok {d : Draft α} {parser : String → Draft α × Logged Nat} {date : Int64}
    {input path text : String} {count : Nat} {image : Image} (h : w.disk.Ready path)
    (hread : ((readText input : StateM Watched (Except IoError String)).run w).1 = .ok text)
    (hparsed : (parser text).2.outcome = .ok count)
    (hpack : (parser text).1.pack date = .ok image) :
    ((d.createBy parser date input path : StateM Watched (Creation α)).run w).1.log.outcome =
      .ok (parser text).1.size := by
  have hdisk : ((readText input : StateM Watched (Except IoError String)).run w).2.disk = w.disk := by
    rw [Watched.snd_run_readText, Disk.snd_read_of_faults h.1]
  generalize hrun : (readText input : StateM Watched (Except IoError String)).run w = read
    at hread hdisk
  obtain ⟨r, w'⟩ := read
  obtain rfl : r = .ok text := hread
  obtain ⟨events, hcreate⟩ := run_createBy_of_parsed d date path hrun hparsed
  have hready : w'.disk.Ready path := by rwa [show w'.disk = w.disk from hdisk]
  rw [hcreate]
  dsimp only
  rw [save_eq_ok hready hpack, ok_map]

end Draft

theorem Watched.untouched_start (d₀ : Disk) : (Watched.start d₀).Untouched d₀ :=
  ⟨rfl, d₀.faults, rfl⟩

/-- **A database comes to its path whole or not at all.** On any disk, whichever calls fail and
wherever a writing breaks off, the file of a draft is brought to a path, or nothing there changes; and
so it is when a text is taken in first, by any parser. What is found at any time of the run, and not
only at its end, is known from the watched run, which is the run itself. Where nothing stands in the
way the file is brought to the path. The file beside a path lies in the same directory. -/
theorem Draft.allOrNothing_output (d₀ : Disk) (path : String) (date : Int64) :
    (∀ {α : Type} [Schema α] (d : Draft α),
      let run := (d.save date path : StateM Watched (Logged Unit)).run (.start d₀)
      (d.save date path : StateM Disk (Logged Unit)).run d₀ = (run.1, run.2.disk) ∧
      (AllOrNothing d₀ path (d.pack date) run.1.outcome run.2 ∧
        ∀ e, d.pack date = .error e → run.1.outcome = .error e) ∧
      ∀ image, d₀.Ready path → d.pack date = .ok image → run.1.outcome = .ok ()) ∧
    (∀ {α : Type} [Schema α] (d : Draft α) (parser : String → Draft α × Logged Nat) (input : String),
      let run := (d.createBy parser date input path : StateM Watched (Creation α)).run (.start d₀)
      let text := ((readText input : StateM Disk (Except IoError String)).run d₀).1
      (d.createBy parser date input path : StateM Disk (Creation α)).run d₀ =
        (run.1, run.2.disk) ∧
      (AllOrNothing d₀ path (run.1.draft.pack date) run.1.log.outcome run.2 ∧
        (∀ e, text = .error e →
          run.1.draft = d ∧ run.1.log.outcome = .error (.io e) ∧ run.2.Untouched d₀) ∧
        ∀ t, text = .ok t → run.1.draft = (parser t).1 ∧
          ∀ e, (parser t).2.outcome = .error e →
            run.1.log.outcome = .error e ∧ run.2.Untouched d₀) ∧
      ∀ t count image, d₀.Ready path → text = .ok t → (parser t).2.outcome = .ok count →
        (parser t).1.pack date = .ok image → run.1.log.outcome = .ok (parser t).1.size) ∧
    ∀ temporary p q, temporaryPath? path = some temporary → d₀.LeadsTo path p →
      d₀.LeadsTo temporary q → ∃ directory name, fileName? path = some name ∧
        p = directory ++ [name] ∧ q = directory ++ [name ++ ".tmp"] := by
  refine ⟨?_, ?_, fun _ _ _ htemp hp hq => hp.beside htemp hq⟩
  · intro α _ d
    exact ⟨d.shows_save date path (.start d₀), d.save_allOrNothing date path (Watched.untouched_start d₀),
      fun image hready hpack => save_eq_ok hready hpack⟩
  · intro α _ d parser input
    have htext : ((readText input : StateM Disk (Except IoError String)).run d₀).1 =
        ((readText input : StateM Watched (Except IoError String)).run (.start d₀)).1 :=
      congrArg Prod.fst (shows_readText input (.start d₀))
    dsimp only
    rw [htext]
    exact ⟨d.shows_createBy parser date input path (.start d₀),
      d.createBy_allOrNothing parser date input path (Watched.untouched_start d₀),
      fun t count image hready ht hparsed hpack => createBy_eq_ok hready ht hparsed hpack⟩

end Gazetteer

import Gazetteer.Files.Save
import Gazetteer.Proofs.DiskChanges

/-!
# Runs that are watched

To say what can be found on a disk at any time of a run, not only at its end, the run is watched: the
changes are noted, each with the disk that it met. A watched run is the run itself. What is said of
all disks that were found is kept by a call if it is kept by each way in which the call may end or
break off, and so it is kept by a run.
-/

namespace Gazetteer

/-- A disk, and the changes that were made, each with the disk that it met. -/
structure Watched where
  disk : Disk
  calls : List (FileStep × Disk)

namespace Watched

/-- A disk before a run. -/
def start (d : Disk) : Watched := ⟨d, []⟩

/-- One more change is made. -/
def call (w : Watched) (step : FileStep) : Watched :=
  ⟨(w.disk.perform step).2, w.calls ++ [(step, w.disk)]⟩

/-- A disk as it may be found at some time of a run, while a change is made or at the end. -/
def Found (w : Watched) (d : Disk) : Prop :=
  d = w.disk ∨ ∃ step before, (step, before) ∈ w.calls ∧ before.During step d

/-- No change was made, and no more than the faults of calls that read was counted. -/
def Untouched (w : Watched) (d₀ : Disk) : Prop :=
  w.calls = [] ∧ ∃ faults, w.disk = { d₀ with faults := faults }

end Watched

instance : FileStore (StateM Watched) where
  read path w := ((w.disk.read path).1, { w with disk := (w.disk.read path).2 })
  map path w := ((w.disk.map path).1, { w with disk := (w.disk.map path).2 })
  perform step w := ((w.disk.perform step).1, w.call step)

/-- A run goes on from where its first part ends. -/
theorem run_bind_of_run {β γ : Type} {x : StateM Watched β} {f : β → StateM Watched γ} {b : β}
    {w w' : Watched} (h : x.run w = (b, w')) : (x >>= f).run w = (f b).run w' := by
  rw [StateT.run_bind, h]
  rfl

/-- A watched run gives what the run itself gives, and ends with the same disk. -/
def Shows {β : Type} (x : StateM Watched β) (y : StateM Disk β) : Prop :=
  ∀ w, y.run w.disk = ((x.run w).1, (x.run w).2.disk)

section
variable {β γ : Type} {x : StateM Watched β} {y : StateM Disk β}

theorem shows_pure (b : β) : Shows (pure b) (pure b) := fun _ => rfl

theorem shows_bind {f : β → StateM Watched γ} {g : β → StateM Disk γ} (h : Shows x y)
    (hfg : ∀ b, Shows (f b) (g b)) : Shows (x >>= f) (y >>= g) := by
  intro w
  have hx := h w
  have hf := hfg (x.run w).1 (x.run w).2
  rw [StateT.run_bind, StateT.run_bind, hx]
  exact hf

theorem shows_perform (step : FileStep) :
    Shows (FileStore.perform step) (FileStore.perform step) := fun _ => rfl

theorem shows_readText (path : String) : Shows (readText path) (readText path) := by
  refine shows_bind (fun _ => rfl) fun r => ?_
  cases r with
  | error e => exact shows_pure _
  | ok bytes =>
    dsimp only
    cases String.fromUTF8? ⟨bytes.toArray⟩ <;> exact shows_pure _

theorem shows_performAll (steps : List FileStep) : Shows (performAll steps) (performAll steps) := by
  induction steps with
  | nil => exact shows_pure _
  | cons step steps ih =>
    refine shows_bind (shows_perform step) fun r => ?_
    cases r with
    | error e => exact shows_pure _
    | ok => exact ih

theorem shows_saveBytes (path : String) (bytes : List UInt8) :
    Shows (saveBytes path bytes) (saveBytes path bytes) := by
  unfold saveBytes
  cases temporaryPath? path with
  | none => exact shows_pure _
  | some temporary =>
    refine shows_bind (shows_performAll _) fun r => ?_
    cases r with
    | ok => exact shows_pure _
    | error e => exact shows_bind (shows_perform _) fun _ => shows_pure _

theorem Draft.shows_save {α : Type} [Schema α] (d : Draft α) (date : Int64) (path : String) :
    Shows (d.save date path) (d.save date path) := by
  unfold Draft.save
  dsimp only
  cases (packLog α (d.pack date)).outcome with
  | error e => exact shows_pure _
  | ok image =>
    refine shows_bind (shows_saveBytes _ _) fun r => ?_
    cases r <;> exact shows_pure _

/-- **A watched creation is the creation.** -/
theorem Draft.shows_createBy {α : Type} [Schema α] (d : Draft α)
    (parser : String → Draft α × Logged Nat) (date : Int64) (input output : String) :
    Shows (d.createBy parser date input output) (d.createBy parser date input output) := by
  refine shows_bind (shows_readText input) fun r => ?_
  cases r with
  | error e => exact shows_pure _
  | ok text =>
    dsimp only
    cases (parser text).2.outcome with
    | error e => exact shows_pure _
    | ok count =>
      refine shows_bind (Draft.shows_save _ _ _) fun saved => ?_
      cases saved.outcome <;> exact shows_pure _

end

/-! ## Changes one after another -/

namespace Watched

variable {w : Watched} {d d₀ : Disk} {path temporary : String} {step : FileStep}
  {steps : List FileStep}

/-- Changes are made in order, up to the first that fails. -/
def run (w : Watched) (steps : List FileStep) : Except IoError Unit × Watched :=
  (performAll steps : StateM Watched (Except IoError Unit)).run w

@[simp] theorem run_nil (w : Watched) : w.run [] = (.ok (), w) := rfl

theorem run_cons (w : Watched) (step : FileStep) (steps : List FileStep) : w.run (step :: steps) =
    match (w.disk.perform step).1 with
    | .ok () => (w.call step).run steps
    | .error e => (.error e, w.call step) := by
  unfold run
  rw [performAll, StateT.run_bind]
  change StateT.run (match (w.disk.perform step).1 with
    | .ok () => performAll steps
    | .error e => return .error e) (w.call step) = _
  cases (w.disk.perform step).1 <;> rfl

theorem run_cons_of_ok (h : (w.disk.perform step).1 = .ok ()) :
    w.run (step :: steps) = (w.call step).run steps := by
  rw [run_cons, h]

theorem run_cons_of_error {e : IoError} (h : (w.disk.perform step).1 = .error e) :
    w.run (step :: steps) = (.error e, w.call step) := by
  rw [run_cons, h]

theorem run_append (w : Watched) (steps steps' : List FileStep) : w.run (steps ++ steps') =
    match w.run steps with
    | (.ok (), w') => w'.run steps'
    | (.error e, w') => (.error e, w') := by
  induction steps generalizing w with
  | nil => rfl
  | cons step steps ih =>
    rw [List.cons_append, run_cons, run_cons]
    cases (w.disk.perform step).1 with
    | ok => exact ih (w.call step)
    | error e => rfl

/-- What is found in a run with one more call was found before it or is found during it. -/
theorem found_call (h : (w.call step).Found d) : w.Found d ∨ w.disk.During step d := by
  obtain rfl | ⟨step', before, hmem, hduring⟩ := h
  · exact .inr (.after step)
  · obtain hmem | hmem := List.mem_append.1 hmem
    · exact .inl (.inr ⟨step', before, hmem, hduring⟩)
    · cases List.mem_singleton.1 hmem
      exact .inr hduring

/-- At no time was anything changed but at a path. -/
def OnlyAt (w : Watched) (d₀ : Disk) (path : String) : Prop :=
  ∀ d, w.Found d → d₀.AlikeBut d (d₀.LeadsTo path)

theorem Untouched.alikeBut {places : List String → Prop} (h : w.Untouched d₀) (hd : w.Found d) :
    d₀.AlikeBut d places := by
  obtain ⟨hcalls, faults, hdisk⟩ := h
  obtain rfl | ⟨step, before, hmem, -⟩ := hd
  · rw [hdisk]
    exact Disk.alikeBut_faults d₀ faults places
  · rw [hcalls] at hmem
    cases hmem

theorem snd_run_readText (w : Watched) (path : String) :
    ((readText path : StateM Watched (Except IoError String)).run w).2 =
      { w with disk := (w.disk.read path).2 } := by
  have hread : (FileStore.read path : StateM Watched (Except IoError (List UInt8))).run w =
    ((w.disk.read path).1, { w with disk := (w.disk.read path).2 }) := rfl
  unfold readText
  rw [run_bind_of_run hread]
  cases (w.disk.read path).1 with
  | error e => rfl
  | ok bytes =>
    dsimp only
    cases String.fromUTF8? ⟨bytes.toArray⟩ <;> rfl

/-- To read a text is not to touch the disk. -/
theorem Untouched.readText (h : w.Untouched d₀) (path : String) :
    ((readText path : StateM Watched (Except IoError String)).run w).2.Untouched d₀ := by
  obtain ⟨hcalls, faults, hdisk⟩ := h
  obtain ⟨faults', hread⟩ := Disk.exists_read w.disk path
  rw [snd_run_readText, hread, hdisk]
  exact ⟨hcalls, faults', rfl⟩

/-- A call on a path keeps it so, whatever becomes of the call. -/
theorem OnlyAt.call (h : w.OnlyAt d₀ path) (hon : step.IsOn path) :
    (w.call step).OnlyAt d₀ path := by
  intro d hd
  obtain hd | hd := found_call hd
  · exact h d hd
  · have hnow := h w.disk (.inl rfl)
    exact hnow.trans ((hd.alikeBut hon).mono fun _ => hnow.leadsTo.1)

/-- **Calls on a path keep all else as it was**, up to the last or to one that fails. -/
theorem OnlyAt.run (h : w.OnlyAt d₀ path) (hon : ∀ step ∈ steps, step.IsOn path) :
    (w.run steps).2.OnlyAt d₀ path := by
  induction steps generalizing w with
  | nil => exact h
  | cons step steps ih =>
    have hcall := h.call (hon step (by simp))
    cases hstep : (w.disk.perform step).1 with
    | ok =>
      rw [run_cons_of_ok hstep]
      exact ih hcall fun step' hmem => hon step' (by simp [hmem])
    | error e =>
      rw [run_cons_of_error hstep]
      exact hcall

end Watched

end Gazetteer

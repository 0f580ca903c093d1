import Gazetteer.Draft.Intake
import Gazetteer.Proofs.Drafting

/-!
# Runs of an intake

Items come to a draft one by one or as the rows of a text, in any order and number, and any of them
may be refused. Whatever the calls, the three lists of the draft stay in step and hold only what a
file can take. An item that is refused leaves no trace: the draft is changed in place, list by list,
but not before the last check is passed.
-/

namespace Gazetteer

/-! ## What is checked -/

theorem checkName_eq_ok {name : String} :
    checkName name = .ok () ↔ name ≠ "" ∧ '\x00' ∉ name.toList := by
  unfold checkName
  by_cases hempty : name = ""
  · subst hempty
    simp [unlessInput]
  · have hsome : (!name.isEmpty) = true := by simpa using hempty
    rw [hsome, unlessInput, if_pos rfl, ok_bind, unlessInput_eq_ok]
    simp [hempty]

namespace Position

variable {p : Position}

theorem checkFinite_eq_ok : p.checkFinite = .ok () ↔ p.isFinite = true := by
  unfold checkFinite isFinite
  cases hlat : p.lat.isFinite <;> cases hlon : p.lon.isFinite <;> cases halt : p.alt.isFinite <;>
    simp [unlessInput]

/-- The coordinates are in their ranges. -/
structure OnGlobe (p : Position) : Prop where
  lat : -90 ≤ p.lat ∧ p.lat ≤ 90
  lon : -180 ≤ p.lon ∧ p.lon ≤ 180
  alt : minAltitude ≤ p.alt ∧ p.alt ≤ maxAltitude

theorem check_eq_ok : p.check = .ok () ↔ p.isFinite = true ∧ p.OnGlobe := by
  have hrange {x lo hi : Binary64} : x.within lo hi = true ↔ lo ≤ x ∧ x ≤ hi := by
    simp [Binary64.within]
  unfold check
  constructor
  · intro h
    obtain ⟨_, hfinite, h⟩ := bind_eq_ok.1 h
    obtain ⟨_, hlat, h⟩ := bind_eq_ok.1 h
    obtain ⟨_, hlon, halt⟩ := bind_eq_ok.1 h
    rw [unlessInput_eq_ok, hrange] at hlat hlon halt
    exact ⟨checkFinite_eq_ok.1 hfinite, hlat, hlon, halt⟩
  · rintro ⟨hfinite, hlat, hlon, halt⟩
    rw [checkFinite_eq_ok.2 hfinite, ok_bind, unlessInput_eq_ok.2 (hrange.2 hlat), ok_bind,
      unlessInput_eq_ok.2 (hrange.2 hlon), ok_bind, unlessInput_eq_ok.2 (hrange.2 halt)]

end Position

section
variable {α : Type} [Schema α]

/-- An item that a draft with some settings takes, unless its name is taken. -/
structure Admissible (settings : Settings) (item : α) : Prop where
  name_ne : Schema.itemName item ≠ ""
  name_nul : '\x00' ∉ (Schema.itemName item).toList
  pos_finite : (Schema.base item).pos.isFinite = true
  ecef_finite : (Schema.base item).ecef.isFinite = true
  on_globe : settings.validateCoordinates = true → (Schema.base item).pos.OnGlobe

end

namespace Draft

variable {α : Type} [Schema α] {d d' : Draft α} {item : α} {row : Except Error α}
  {rows : List (Except Error α)}

/-- **An item is taken just if it is admissible and its name is free.** -/
theorem check_eq_ok_iff_admissible : d.check item = .ok () ↔
    Admissible d.settings item ∧ Schema.itemName item ∉ d.names := by
  rw [check_eq_ok_iff, checkName_eq_ok, Position.checkFinite_eq_ok, Position.check_eq_ok]
  constructor
  · rintro ⟨⟨hname, hnul⟩, hpos, hecef, hglobe, hnew⟩
    exact ⟨⟨hname, hnul, hpos, hecef, fun hv => (hglobe hv).2⟩, hnew⟩
  · rintro ⟨h, hnew⟩
    exact ⟨⟨h.name_ne, h.name_nul⟩, h.pos_finite, h.ecef_finite,
      fun hv => ⟨h.pos_finite, h.on_globe hv⟩, hnew⟩

theorem screen_eq_ok : d.screen row = .ok item ↔ row = .ok item ∧ d.check item = .ok () := by
  unfold screen
  rw [bind_eq_ok]
  constructor
  · rintro ⟨x, rfl, h⟩
    obtain ⟨_, hcheck, h⟩ := bind_eq_ok.1 h
    cases h
    exact ⟨rfl, hcheck⟩
  · rintro ⟨rfl, hcheck⟩
    exact ⟨item, rfl, by rw [hcheck]; rfl⟩

/-! ## Calls -/

/-- A call of an intake: one item, or rows one after another, as `Draft.takeText` takes those of a
text. -/
inductive Call (α : Type) where
  | add (item : α)
  | take (rows : List (Except Error α))

/-- The draft after a call, whether it succeeded or not. -/
def after (d : Draft α) : Call α → Draft α
  | .add item =>
    match d.add item with
    | .ok d' => d'
    | .error _ => d
  | .take rows => (d.takeRows rows).draft

/-- The draft after some calls. -/
def collected (settings : Settings) (calls : List (Call α)) : Draft α :=
  calls.foldl after (empty settings)

/-! ## What calls keep -/

/-- What holds of a draft and of every draft with one more item that passed. -/
def Keeps (P : Draft α → Prop) : Prop :=
  ∀ d item, P d → d.check item = .ok () → P (d.push item)

section
variable {P : Draft α → Prop}

theorem Keeps.takeLenient (hP : Keeps P) (hd : P d) : P (d.takeLenient rows).draft := by
  induction rows generalizing d with
  | nil => exact hd
  | cons row rows ih =>
    rw [Draft.takeLenient]
    cases hs : d.screen row with
    | ok item => exact ih (hP d item hd (screen_eq_ok.1 hs).2)
    | error e => exact ih hd

theorem Keeps.takeStrict (hP : Keeps P) (hd : P d) : P (d.takeStrict rows).draft := by
  induction rows generalizing d with
  | nil => exact hd
  | cons row rows ih =>
    rw [Draft.takeStrict]
    cases hs : d.screen row with
    | ok item => exact ih (hP d item hd (screen_eq_ok.1 hs).2)
    | error e => exact hd

/-- A call keeps what taking one item keeps. -/
theorem Keeps.after (hP : Keeps P) (hd : P d) (call : Call α) : P (d.after call) := by
  cases call with
  | add item =>
    rw [Draft.after]
    cases ha : d.add item with
    | ok d' =>
      obtain ⟨hcheck, rfl⟩ := (add_eq_ok_iff d item d').1 ha
      exact hP d item hd hcheck
    | error e => exact hd
  | take rows =>
    rw [Draft.after, takeRows]
    split
    · exact hP.takeLenient hd
    · exact hP.takeStrict hd

/-- **What taking one item keeps, any calls keep.** -/
theorem Keeps.collected {settings : Settings} (hP : Keeps P) (h : P (empty settings))
    (calls : List (Call α)) : P (collected settings calls) := by
  suffices hrun : ∀ d, P d → P (calls.foldl Draft.after d) from hrun _ h
  induction calls with
  | nil => exact fun d hd => hd
  | cons call calls ih => exact fun d hd => ih _ (hP.after hd call)

end

theorem settings_collected (settings : Settings) (calls : List (Call α)) :
    (collected settings calls).settings = settings := by
  have hkeeps : Keeps fun d : Draft α => d.settings = settings := fun d item hd _ => hd
  exact hkeeps.collected rfl calls

theorem inOrder_collected (settings : Settings) (calls : List (Call α)) :
    (collected settings calls).InOrder := by
  have hkeeps : Keeps (InOrder (α := α)) := fun d item hd hcheck => hd.push hcheck
  exact hkeeps.collected (inOrder_empty settings) calls

/-- Every item of a draft passed the checks that do not depend on the others. -/
theorem admissible_collected (settings : Settings) (calls : List (Call α)) :
    ∀ x ∈ (collected settings calls).toList, Admissible settings x := by
  have hkeeps : Keeps fun d : Draft α =>
      d.settings = settings ∧ ∀ x ∈ d.toList, Admissible settings x := by
    rintro d item ⟨hs, hd⟩ hcheck
    refine ⟨hs, fun x hx => ?_⟩
    rw [toList_push, List.mem_append, List.mem_singleton] at hx
    rcases hx with hx | rfl
    · exact hd x hx
    · exact hs ▸ (check_eq_ok_iff_admissible.1 hcheck).1
  exact (hkeeps.collected ⟨rfl, by simp⟩ calls).2

/-! ## Changes in place -/

/-- A computation that changes a draft in place. What it has changed when it fails stays changed. -/
abbrev InPlace (α β : Type) : Type := EStateM Error (Draft α) β

namespace InPlace

section
variable {α β : Type}

/-- A step that leaves the draft alone. -/
def step (x : Except Error β) : InPlace α β := fun d =>
  match x with
  | .ok b => .ok b d
  | .error e => .error e d

/-- The draft that a computation leaves behind, whether it succeeded or not. -/
def left (x : InPlace α β) (d : Draft α) : Draft α :=
  match x d with
  | .ok _ d' => d'
  | .error _ d' => d'

end

/-- The checks of an item, in their order. -/
def check (item : α) : InPlace α Unit := do
  let b := Schema.base item
  step (checkName b.name)
  step b.pos.checkFinite
  step b.ecef.checkFinite
  if (← get).settings.validateCoordinates then step b.pos.check
  if (← get).names.contains b.name then throw (.duplicateName b.name)

/-- Adds an item: first the checks, then the three lists one after another. -/
def add (item : α) : InPlace α Unit := do
  check item
  modify fun d => { d with names := d.names.insert (Schema.itemName item) }
  modify fun d => { d with points := d.points.push (Schema.base item).ecef }
  modify fun d => { d with items := d.items.push item }

/-- Takes in a row. A refusal is passed over, or it ends the intake. -/
def takeRow (lenient : Bool) (row : Except Error α) : InPlace α Unit := do
  try
    let item ← step row
    add item
  catch e =>
    if lenient then pure () else throw e

/-- Takes in rows, one after another. -/
def takeRows (lenient : Bool) : List (Except Error α) → InPlace α Unit
  | [] => pure ()
  | row :: rows => do
    takeRow lenient row
    takeRows lenient rows

/-- Takes in rows as the settings say, and counts the items taken. -/
def take (rows : List (Except Error α)) : InPlace α Nat := do
  let before := (← get).size
  takeRows (← get).settings.skipInvalidRecords rows
  return (← get).size - before

/-- Makes a call, whatever it counts. -/
def call : Call α → InPlace α Unit
  | .add item => add item
  | .take rows => do
    let _ ← take rows

section
variable {α β γ : Type} {x : InPlace α β} {f : β → InPlace α γ} {d d' : Draft α} {b : β}
  {e : Error}

theorem bind_of_ok (h : x d = .ok b d') : (x >>= f) d = f b d' := by
  show EStateM.bind x f d = _
  rw [EStateM.bind, h]

theorem bind_of_error (h : x d = .error e d') : (x >>= f) d = .error e d' := by
  show EStateM.bind x f d = _
  rw [EStateM.bind, h]

/-- Steps in front of a computation that changes nothing leave it one that changes nothing. -/
theorem step_bind {x : Except Error β} {g : β → Except Error γ} (h : ∀ b, f b d = step (g b) d) :
    (step x >>= f) d = step (x >>= g) d := by
  cases x with
  | ok b => exact h b
  | error e => rfl

end

/-- The checks change nothing. -/
theorem check_eq (d : Draft α) (item : α) : check item d = step (d.check item) d := by
  have hget {β : Type} (f : Draft α → InPlace α β) : (get >>= f) d = f d d := rfl
  refine step_bind fun _ => step_bind fun _ => step_bind fun _ => ?_
  have hlast : (do if (← get).names.contains (Schema.base item).name then
        throw (.duplicateName (Schema.base item).name) : InPlace α Unit) d =
      step (if d.names.contains (Schema.base item).name then
        throw (.duplicateName (Schema.base item).name) else pure ()) d := by
    rw [hget]
    split <;> rfl
  rw [hget]
  split
  · exact step_bind fun _ => hlast
  · exact hlast

/-- **No list is changed before the last check**: an item is added as a whole. -/
theorem add_of_ok (h : d.check item = .ok ()) : add item d = .ok () (d.push item) := by
  have hcheck : check item d = .ok () d := by rw [check_eq, h]; rfl
  exact bind_of_ok hcheck

/-- **An item that is refused leaves no trace.** -/
theorem add_of_error {e : Error} (h : d.check item = .error e) : add item d = .error e d := by
  have hcheck : check item d = .error e d := by rw [check_eq, h]; rfl
  exact bind_of_error hcheck

theorem takeRow_of_ok (lenient : Bool) (h : d.screen row = .ok item) :
    takeRow lenient row d = .ok () (d.push item) := by
  obtain ⟨rfl, hcheck⟩ := screen_eq_ok.1 h
  have hrow : (step (.ok item) >>= add) d = .ok () (d.push item) :=
    (bind_of_ok rfl).trans (add_of_ok hcheck)
  show EStateM.tryCatch (step (.ok item) >>= add) _ d = _
  rw [EStateM.tryCatch, hrow]

theorem takeRow_of_error {e : Error} (lenient : Bool) (h : d.screen row = .error e) :
    takeRow lenient row d = if lenient then .ok () d else .error e d := by
  have hrow : (step row >>= add) d = .error e d := by
    cases row with
    | error e' =>
      cases h
      exact bind_of_error rfl
    | ok item =>
      have hcheck : d.check item = .error e := by
        rw [screen, ok_bind] at h
        cases hc : d.check item with
        | ok =>
          rw [hc] at h
          cases h
        | error e' =>
          rw [hc] at h
          cases h
          rfl
      exact (bind_of_ok rfl).trans (add_of_error hcheck)
  show EStateM.tryCatch (step row >>= add) _ d = _
  rw [EStateM.tryCatch, hrow]
  cases lenient <;> rfl

/-- Lenient rows taken in place leave the draft of a lenient intake. -/
theorem takeRows_true (rows : List (Except Error α)) (d : Draft α) :
    takeRows true rows d = .ok () (d.takeLenient rows).draft := by
  induction rows generalizing d with
  | nil => rfl
  | cons row rows ih =>
    rw [takeRows, takeLenient]
    cases h : d.screen row with
    | ok item => exact (bind_of_ok (takeRow_of_ok true h)).trans (ih _)
    | error e => exact (bind_of_ok (takeRow_of_error true h)).trans (ih d)

/-- Strict rows taken in place end with the first refusal. -/
theorem takeRows_false (rows : List (Except Error α)) (d : Draft α) :
    takeRows false rows d = match (d.takeStrict rows).refusals with
      | [] => .ok () (d.takeStrict rows).draft
      | r :: _ => .error r.cause (d.takeStrict rows).draft := by
  induction rows generalizing d with
  | nil => rfl
  | cons row rows ih =>
    rw [takeRows, takeStrict]
    cases h : d.screen row with
    | ok item => exact (bind_of_ok (takeRow_of_ok false h)).trans (ih _)
    | error e => exact bind_of_error (takeRow_of_error false h)

/-- Rows taken in place leave the draft of an intake, and give its outcome. -/
theorem take_eq (rows : List (Except Error α)) (d : Draft α) :
    take rows d = match intakeOutcome d (d.takeRows rows) with
      | .ok count => .ok count (d.takeRows rows).draft
      | .error e => .error e (d.takeRows rows).draft := by
  have hrows : take rows d = (do
      takeRows d.settings.skipInvalidRecords rows
      return (← get).size - d.size : InPlace α Nat) d := rfl
  rw [hrows, Draft.takeRows]
  unfold intakeOutcome
  cases d.settings.skipInvalidRecords with
  | true => exact bind_of_ok (takeRows_true rows d)
  | false =>
    have h := takeRows_false rows d
    simp only [Bool.false_eq_true, if_false]
    cases hr : (d.takeStrict rows).refusals with
    | nil =>
      rw [hr] at h
      exact bind_of_ok h
    | cons r rs =>
      rw [hr] at h
      exact bind_of_error h

/-- An item is added in place as it is added. -/
theorem add_eq (d : Draft α) (item : α) :
    add item d = match d.add item with
      | .ok d' => .ok () d'
      | .error e => .error e d := by
  rw [Draft.add]
  cases h : d.check item with
  | ok => exact add_of_ok h
  | error e => exact add_of_error h

/-- Made in place, a call leaves the draft that is expected after it. -/
theorem left_call (c : Call α) (d : Draft α) : (call c).left d = d.after c := by
  cases c with
  | add item =>
    rw [after, left, call, add_eq]
    cases d.add item <;> rfl
  | take rows =>
    have htake := take_eq rows d
    rw [after, left, call]
    cases h : intakeOutcome d (d.takeRows rows) with
    | ok count =>
      rw [h] at htake
      rw [bind_of_ok htake]
      rfl
    | error e =>
      rw [h] at htake
      rw [bind_of_error htake]

end InPlace

/-! ## Any calls -/

/-- **Any calls keep the lists of a draft in step, and a refused item leaves no trace.** Whatever
was offered before, one by one or as rows, the names are distinct and stand in the set of names, the
points are those of the items, and each item is admissible. Another item is then taken just if it is
admissible and no item has its name. In place it is appended to the three lists if it is taken, and
nothing has changed if it is not. -/
theorem add_collected (settings : Settings) (calls : List (Call α)) :
    let d := collected settings calls
    calls.foldl (fun d c => (InPlace.call c).left d) (empty settings) = d ∧
    d.InOrder ∧ (∀ x ∈ d.toList, Admissible settings x) ∧
    ∀ item,
      ((∃ d', d.add item = .ok d') ↔
        Admissible settings item ∧ ∀ x ∈ d.toList, Schema.itemName x ≠ Schema.itemName item) ∧
      (∀ d', d.add item = .ok d' →
        InPlace.add item d = .ok () d' ∧
        d'.toList = d.toList ++ [item] ∧
        d'.points.toList = d.points.toList ++ [(Schema.base item).ecef] ∧
        ∀ s, s ∈ d'.names ↔ s ∈ d.names ∨ s = Schema.itemName item) ∧
      ∀ e, d.add item = .error e → InPlace.add item d = .error e d := by
  intro d
  have hin : d.InOrder := inOrder_collected settings calls
  have hsettings : d.settings = settings := settings_collected settings calls
  have hcalls : (fun (d : Draft α) c => (InPlace.call c).left d) = after := by
    funext d c
    exact InPlace.left_call c d
  refine ⟨by rw [hcalls]; rfl, hin, admissible_collected settings calls, fun item => ⟨?_, ?_, ?_⟩⟩
  · have hfree : Schema.itemName item ∉ d.names ↔
        ∀ x ∈ d.toList, Schema.itemName x ≠ Schema.itemName item := by
      rw [hin.mem_names]
      simp
    rw [← hsettings, ← hfree, ← check_eq_ok_iff_admissible]
    simp [add_eq_ok_iff]
  · intro d' h
    refine ⟨by rw [InPlace.add_eq, h], ?_⟩
    obtain ⟨-, rfl⟩ := (add_eq_ok_iff d item d').1 h
    refine ⟨toList_push d item, by simp [push], fun s => ?_⟩
    simp only [push, Std.HashSet.mem_insert, beq_iff_eq]
    rw [or_comm, eq_comm (a := s)]
  · intro e h
    rw [InPlace.add_eq, h]

end Draft
end Gazetteer

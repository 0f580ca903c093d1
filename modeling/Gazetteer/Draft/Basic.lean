import Gazetteer.Geodesy.Validity
import Gazetteer.Item.Schema
import Gazetteer.Settings.Basic
import Std.Data.HashSet

/-!
# Drafts

A draft collects the items of a database to be. An item enters it only if its name and its
coordinates are in order and no item of the draft has the same name; a refused item leaves the draft
as it was.

| here | operation |
| --- | --- |
| `Draft.empty` | `with_config` |
| `Draft.add` | `add_item` |
-/

namespace Gazetteer

/-- The items collected so far, where they lie, and their names. -/
structure Draft (α : Type) where
  settings : Settings
  items : Array α
  points : Array Ecef
  names : Std.HashSet String

namespace Draft

variable {α : Type}

def empty (settings : Settings) : Draft α := ⟨settings, #[], #[], ∅⟩

def size (d : Draft α) : Nat := d.items.size

/-- The items, in the order in which they were added. -/
def toList (d : Draft α) : List α := d.items.toList

theorem size_eq (d : Draft α) : d.size = d.toList.length := by simp [size, toList]

@[simp] theorem toList_empty (settings : Settings) : (empty settings : Draft α).toList = [] := rfl

variable [Schema α]

/-- Refuses an item that the draft cannot take. The name comes first, then whether the coordinates
are numbers, then their range, and last whether the name is taken. -/
def check (d : Draft α) (item : α) : Except Error Unit := do
  let b := Schema.base item
  checkName b.name
  b.pos.checkFinite
  b.ecef.checkFinite
  if d.settings.validateCoordinates then b.pos.check
  if d.names.contains b.name then throw (.duplicateName b.name)

/-- The draft with one more item. -/
def push (d : Draft α) (item : α) : Draft α :=
  { d with
    items := d.items.push item
    points := d.points.push (Schema.base item).ecef
    names := d.names.insert (Schema.itemName item) }

/-- Adds an item, or refuses it. -/
def add (d : Draft α) (item : α) : Except Error (Draft α) := do
  d.check item
  return d.push item

/-! ## Lemmas -/

@[simp] theorem toList_push (d : Draft α) (item : α) :
    (d.push item).toList = d.toList ++ [item] := by
  simp [push, toList]

@[simp] theorem settings_push (d : Draft α) (item : α) : (d.push item).settings = d.settings := rfl

theorem add_eq_ok_iff (d : Draft α) (item : α) (d' : Draft α) :
    d.add item = .ok d' ↔ d.check item = .ok () ∧ d' = d.push item := by
  unfold add
  cases h : d.check item with
  | error e => simp [bind, Except.bind]
  | ok u => cases u; simp [bind, Except.bind, pure, Except.pure, eq_comm]

end Draft
end Gazetteer

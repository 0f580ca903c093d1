import Gazetteer.Number.Binary64

/-!
# Selections

A query keeps a selection of the items it was offered: the nearest one, the `k` nearest ones, or all
within a radius. Each selection also says whether an item at a given distance could still enter it,
which is what lets a search leave out parts of the tree.

| here | operation |
| --- | --- |
| `Selection.offer`, `Selection.admits` | `update`, `can_contain` |
| `Hit.compare` | `cmp_entry` |
-/

namespace Gazetteer

/-- An item offered to a selection: its distance, and the offset of its record. -/
structure Hit where
  distance : Binary64
  offset : Nat
deriving DecidableEq, Inhabited, Repr

namespace Hit

/-- Hits are ordered by distance, in the total order of words, then by offset. -/
protected def compare (a b : Hit) : Ordering :=
  (a.distance.totalCompare b.distance).then (compare a.offset b.offset)

def precedes (a b : Hit) : Bool := (Hit.compare a b).isLT

def notAfter (a b : Hit) : Bool := (Hit.compare a b).isLE

end Hit

/-- What a search needs to know of a selection of type `σ`. -/
class Selection (σ : Type) where
  /-- Whether an item at this distance could still enter the selection. -/
  admits : σ → Binary64 → Bool
  /-- The selection after one more offer. -/
  offer : σ → Hit → σ
  /-- The distance beyond which nothing enters the selection. -/
  bound : σ → Binary64

/-! ## The nearest item -/

/-- The least hit among those offered. -/
structure Nearest where
  best : Option Hit
deriving DecidableEq, Inhabited, Repr

namespace Nearest

def empty : Nearest := ⟨none⟩

def offer (s : Nearest) (h : Hit) : Nearest :=
  match s.best with
  | none => ⟨some h⟩
  | some b => if h.precedes b then ⟨some h⟩ else s

def admits (s : Nearest) (d : Binary64) : Bool :=
  match s.best with
  | none => true
  | some b => decide (d ≤ b.distance)

def bound (s : Nearest) : Binary64 :=
  match s.best with
  | none => .infinity
  | some b => b.distance

instance : Selection Nearest := ⟨admits, offer, bound⟩

def hits (s : Nearest) : List Hit := s.best.toList

end Nearest

/-! ## The `k` nearest items -/

/-- The first `k` of the hits offered, in order. -/
structure KNearest where
  k : Nat
  hits : List Hit
deriving DecidableEq, Inhabited, Repr

/-- Inserts a hit behind all those that do not come after it. -/
def insertHit (h : Hit) : List Hit → List Hit
  | [] => [h]
  | e :: es => if h.precedes e then h :: e :: es else e :: insertHit h es

namespace KNearest

def empty (k : Nat) : KNearest := ⟨k, []⟩

def isFull (s : KNearest) : Bool := s.k ≤ s.hits.length

def offer (s : KNearest) (h : Hit) : KNearest := { s with hits := (insertHit h s.hits).take s.k }

def admits (s : KNearest) (d : Binary64) : Bool :=
  if s.k = 0 then false
  else !s.isFull || (match s.hits.getLast? with
    | none => false
    | some e => decide (d ≤ e.distance))

def bound (s : KNearest) : Binary64 :=
  if s.isFull then (match s.hits.getLast? with
    | none => .infinity
    | some e => e.distance)
  else .infinity

instance : Selection KNearest := ⟨admits, offer, bound⟩

end KNearest

/-! ## All items within a radius -/

/-- The hits offered at no more than a distance, the latest first. -/
structure Within where
  radius : Binary64
  offered : List Hit
deriving DecidableEq, Inhabited, Repr

namespace Within

def empty (radius : Binary64) : Within := ⟨radius, []⟩

def admits (s : Within) (d : Binary64) : Bool := decide (d ≤ s.radius)

def offer (s : Within) (h : Hit) : Within :=
  if h.distance ≤ s.radius then { s with offered := h :: s.offered } else s

instance : Selection Within := ⟨admits, offer, radius⟩

/-- The hits, nearest first. -/
def hits (s : Within) : List Hit := s.offered.reverse.mergeSort Hit.notAfter

end Within

/-! ## Keeping a record of the offers -/

/-- A selection together with the offsets it was offered, the latest first. -/
structure Traced (σ : Type) where
  selection : σ
  offsets : List Nat

namespace Traced

variable {σ : Type}

def empty (s : σ) : Traced σ := ⟨s, []⟩

instance [Selection σ] : Selection (Traced σ) where
  admits s d := Selection.admits s.selection d
  offer s h := ⟨Selection.offer s.selection h, h.offset :: s.offsets⟩
  bound s := Selection.bound s.selection

/-- The offsets in the order of the offers. -/
def visited (s : Traced σ) : List Nat := s.offsets.reverse

end Traced
end Gazetteer

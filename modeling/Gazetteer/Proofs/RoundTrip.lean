import Gazetteer.Proofs.Fitting

/-!
# What was packed is what is read

A draft of a list of items, packed and opened again, gives the items back: as a list, and by name.
-/

namespace Gazetteer

variable {α : Type} [Schema α] {settings reading : Settings} {items : List α} {d : Draft α}
  {date : Int64} {image : Image} {db : Database α}

/-- A database is only opened with settings that are in order. -/
theorem check_of_ofBuffer {buf : Buffer} (h : Database.ofBuffer α reading buf = .ok db) :
    reading.check = .ok () := by
  unfold Database.ofBuffer at h
  obtain ⟨⟨⟩, hcheck, -⟩ := bind_eq_ok.1 h
  cases hr : reading.check with
  | ok => rfl
  | error e =>
    rw [hr] at hcheck
    cases hcheck

/-- A packed draft is opened. -/
theorem exists_ofBuffer (hd : Draft.ofItems settings items = .ok d) (hp : d.pack date = .ok image)
    (hr : reading.check = .ok ()) :
    ∃ db, Database.ofBuffer α reading (.ofList image.bytes) = .ok db := by
  obtain ⟨s, hs⟩ := Draft.pack_eq_ok_iff.1 hp
  exact ⟨_, Draft.ofBuffer_of_packed hs (Draft.inOrder_of_ofItems hd) hr⟩

/-- **An opened database holds the items that were packed.** -/
theorem holds_of_ofBuffer [LawfulSchema α] (hd : Draft.ofItems settings items = .ok d)
    (hp : d.pack date = .ok image)
    (ho : Database.ofBuffer α reading (.ofList image.bytes) = .ok db) :
    db.Holds items ∧ db.buildDate = date ∧ db.metric = ⟨reading.longRangeThreshold⟩ := by
  obtain ⟨s, hs⟩ := Draft.pack_eq_ok_iff.1 hp
  have hin := Draft.inOrder_of_ofItems hd
  rw [Draft.ofBuffer_of_packed hs hin (check_of_ofBuffer ho)] at ho
  obtain rfl := Except.ok.inj ho
  have hholds : (d.database date image s reading).Holds d.toList := Draft.holds_of_packed hs hin
  rw [Draft.toList_of_ofItems hd] at hholds
  exact ⟨hholds, rfl, rfl⟩

/-- **A packed draft is read back**: the file is opened under any settings in order, with the items
in their order and the date, and no other schema takes it. -/
theorem ofBuffer_pack [LawfulSchema α] (hd : Draft.ofItems settings items = .ok d)
    (hp : d.pack date = .ok image) (hr : reading.check = .ok ()) :
    (∃ db, Database.ofBuffer α reading (.ofList image.bytes) = .ok db ∧ db.size = items.length ∧
      db.buildDate = date ∧ db.items = items.map .ok) ∧
    ∀ (β : Type) [Schema β], Schema.schemaName β ≠ Schema.schemaName α →
      Database.ofBuffer β reading (.ofList image.bytes) =
        .error (.schemaMismatch (Schema.schemaName β) (Schema.schemaName α)) := by
  obtain ⟨s, hs⟩ := Draft.pack_eq_ok_iff.1 hp
  obtain ⟨db, ho⟩ := exists_ofBuffer hd hp hr
  obtain ⟨hholds, hdate, -⟩ := holds_of_ofBuffer hd hp ho
  exact ⟨⟨db, ho, hholds.count_eq, hdate, hholds.items_eq⟩,
    fun β _ hne => Draft.ofBuffer_of_packed_other hs hr hne⟩

/-! ## A place and an airport of one name -/

/-- Settings that take any finite coordinates. -/
def lenientSettings : Settings := ⟨true, ⟨0x40f86a0000000000⟩, false, true⟩

/-- What both have in common: a name, its hash, and the middle of the earth for a position. -/
def quitoBase : ItemBase :=
  ⟨"Quito", nameHash "Quito", ⟨.zero, .zero, .zero⟩, ⟨.zero, .zero, .zero⟩⟩

def quitoPlace : Place := ⟨quitoBase, "", "Quito"⟩

def quitoAirport : Airport := ⟨quitoBase, "Quito", "place", ⟨0x45f8a000⟩, 2, true⟩

theorem check_lenient {α : Type} [Schema α] {x : α} {b : ItemBase} (h : Schema.base x = b)
    (hname : checkName b.name = .ok ()) (hpos : b.pos.checkFinite = .ok ())
    (hecef : b.ecef.isFinite = true) : (Draft.empty lenientSettings).check x = .ok () := by
  rw [Draft.check_eq_ok_iff, Schema.itemName, h]
  exact ⟨hname, hpos, hecef, fun hv => Bool.noConfusion (show false = true from hv),
    by simp [Draft.empty]⟩

theorem check_quito {α : Type} [Schema α] {x : α} (h : Schema.base x = quitoBase) :
    (Draft.empty lenientSettings).check x = .ok () :=
  check_lenient h (by decide) (by decide) (by decide)

theorem exists_pack_quitoPlace : ∃ d image,
    Draft.ofItems lenientSettings [quitoPlace] = .ok d ∧ d.pack 7 = .ok image :=
  Draft.exists_pack_ofItems (g := ⟨19, 17⟩) (by simpa using check_quito rfl) (by simp) (by simp)
    rfl (by decide) 7

/-! ## Items in each other's way

Of five items two are equally far from where the first meridian meets the equator, and one is on the
other side of the earth. The names "liquid" and "costarring" have one hash, and that of "Natal"
leads to the same slot. The hash of "altarage" is that of "zinke" too, and no item has that name. The
item named "Quito" is entered under another hash than that of its name. -/

namespace Crowd

/-- A name with its hash, at a point. -/
def baseAt (name : String) (ecef : Ecef) : ItemBase :=
  ⟨name, nameHash name, ⟨.zero, .zero, .zero⟩, ecef⟩

def altarage : ItemBase := baseAt "altarage" ⟨-6378137, 0, 0⟩
def liquid : ItemBase := baseAt "liquid" ⟨6378137, 0, 5000⟩
def costarring : ItemBase := baseAt "costarring" ⟨6378137, 3000, 4000⟩
def mislaid : ItemBase := { baseAt "Quito" ⟨6378137, 80000, 0⟩ with hash := 0 }
def natal : ItemBase := baseAt "Natal" ⟨6378137, 6000, 0⟩

/-- The five in the order in which they are added. -/
def bases : List ItemBase := [altarage, liquid, costarring, mislaid, natal]

def place (b : ItemBase) : Place := ⟨b, "", b.name⟩

def airport (b : ItemBase) : Airport := ⟨b, b.name, "place", ⟨0x45f8a000⟩, 2, true⟩

section
variable {α : Type} [Schema α] {make : ItemBase → α}

theorem check_make (hmake : ∀ b, Schema.base (make b) = b) :
    ∀ x ∈ bases.map make, (Draft.empty lenientSettings).check x = .ok () := by
  have hbases : ∀ b ∈ bases, checkName b.name = .ok () ∧ b.pos.checkFinite = .ok () ∧
      b.ecef.isFinite = true := by decide +kernel
  intro x hx
  obtain ⟨b, hb, rfl⟩ := List.mem_map.1 hx
  obtain ⟨hname, hpos, hecef⟩ := hbases b hb
  exact check_lenient (hmake b) hname hpos hecef

theorem nodup_names (hmake : ∀ b, Schema.base (make b) = b) :
    ((bases.map make).map Schema.itemName).Nodup := by
  have hnames : (bases.map make).map Schema.itemName = bases.map ItemBase.name := by
    simp [Schema.itemName, hmake]
  rw [hnames]
  decide

/-- The five are packed, whatever their schema, if their file fits. -/
theorem exists_pack [LawfulSchema α] (hmake : ∀ b, Schema.base (make b) = b)
    (hfit : ((bases.map make).foldl Draft.push (.empty lenientSettings)).fileSize ⟨19, 17⟩ <
      0x80000000) :
    ∃ d image, Draft.ofItems lenientSettings (bases.map make) = .ok d ∧ d.pack 7 = .ok image :=
  Draft.exists_pack_ofItems (check_make hmake) (nodup_names hmake) (by simp [bases]) rfl hfit 7

end

theorem exists_pack_place : ∃ d image,
    Draft.ofItems lenientSettings (bases.map place) = .ok d ∧ d.pack 7 = .ok image :=
  exists_pack (fun _ => rfl) (by decide)

theorem exists_pack_airport : ∃ d image,
    Draft.ofItems lenientSettings (bases.map airport) = .ok d ∧ d.pack 7 = .ok image :=
  exists_pack (fun _ => rfl) (by decide)

end Crowd

section
open Crowd

theorem ofBuffer_pack_crowd :
    (∃ d image, Draft.ofItems lenientSettings (bases.map place) = .ok d ∧ d.pack 7 = .ok image ∧
      (∃ db, Database.ofBuffer Place lenientSettings (.ofList image.bytes) = .ok db ∧
        db.size = 5 ∧ db.buildDate = 7 ∧ db.items = [.ok (place altarage), .ok (place liquid),
          .ok (place costarring), .ok (place mislaid), .ok (place natal)]) ∧
      Database.ofBuffer Airport lenientSettings (.ofList image.bytes) =
        .error (.schemaMismatch "airport" "place")) ∧
    ∃ d image, Draft.ofItems lenientSettings (bases.map airport) = .ok d ∧ d.pack 7 = .ok image ∧
      (∃ db, Database.ofBuffer Airport lenientSettings (.ofList image.bytes) = .ok db ∧
        db.size = 5 ∧ db.buildDate = 7 ∧ db.items = [.ok (airport altarage), .ok (airport liquid),
          .ok (airport costarring), .ok (airport mislaid), .ok (airport natal)]) ∧
      Database.ofBuffer Place lenientSettings (.ofList image.bytes) =
        .error (.schemaMismatch "place" "airport") := by
  have hcheck : lenientSettings.check = .ok () := by decide
  obtain ⟨dp, ip, hdp, hpp⟩ := exists_pack_place
  obtain ⟨da, ia, hda, hpa⟩ := exists_pack_airport
  have hplace := ofBuffer_pack hdp hpp hcheck
  have hairport := ofBuffer_pack hda hpa hcheck
  exact ⟨⟨dp, ip, hdp, hpp, hplace.1, hplace.2 Airport (by decide)⟩,
    ⟨da, ia, hda, hpa, hairport.1, hairport.2 Place (by decide)⟩⟩

end

end Gazetteer

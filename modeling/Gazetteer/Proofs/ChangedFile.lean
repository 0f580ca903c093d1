import Gazetteer.Proofs.BurstErrors
import Gazetteer.Proofs.FileForm
import Gazetteer.Proofs.SameItems

/-!
# Changed files

The header of a file holds the length of the file and the check value of all that comes after the
header. So a file that was cut off or went on is refused, and so is one that was changed within four
bytes next to each other. Only the date is not covered: a file with another date is opened, and gives
the same answers.
-/

namespace Gazetteer

/-! ## Changes -/

/-- Some bytes were changed, all of them among so many from a place on. -/
structure ChangedWithin (start width : Nat) (a b : List UInt8) : Prop where
  length_eq : b.length = a.length
  ne : b ≠ a
  window : ∀ i, a[i]? ≠ b[i]? → start ≤ i ∧ i < start + width

variable {a b : List UInt8} {start width i : Nat} {u v : UInt8}

/-- A byte that is replaced is changed. -/
theorem changedWithin_set (hu : a[i]? = some u) (huv : u ≠ v) (hi : start ≤ i ∧ i < start + width) :
    ChangedWithin start width a (a.set i v) := by
  obtain ⟨hlt, rfl⟩ := List.getElem?_eq_some_iff.1 hu
  refine ⟨List.length_set, ?_, ?_⟩
  · intro h
    have hget := congrArg (·[i]?) h
    simp only [List.getElem?_set_self hlt, hu, Option.some.injEq] at hget
    exact huv hget.symm
  · intro j hj
    by_cases hji : i = j
    · rwa [← hji]
    · rw [List.getElem?_set_ne hji] at hj
      exact absurd rfl hj

/-- A byte of a piece is one of the whole. -/
theorem HasAt.getElem? {offset : Nat} (h : HasAt a offset b) (hv : b[i]? = some v) :
    a[offset + i]? = some v := by
  obtain ⟨before, after, rfl, rfl⟩ := h
  obtain ⟨hlt, -⟩ := List.getElem?_eq_some_iff.1 hv
  rw [List.getElem?_append_right (by omega), Nat.add_sub_cancel_left,
    List.getElem?_append_left hlt, hv]

/-! ## Headers that describe their bytes -/

namespace Header

variable {h g : Header} {bytes : List UInt8}

/-- What stands before the date. -/
def front (h : Header) : List UInt8 :=
  int32Bytes h.magic ++ (int32Bytes h.totalLength ++ int32Bytes h.crc)

theorem length_front (h : Header) : h.front.length = 12 := by
  simp [front]

theorem encode_eq (h : Header) : h.encode = h.front ++ int64Bytes h.date := by
  simp [encode, front]

theorem take_eq_front (hat : HasAt bytes 0 h.encode) : bytes.take 12 = h.front := by
  rw [encode_eq] at hat
  exact hat.left.take_drop_of_length h.length_front

theorem crc_eq_of_front_eq (hfront : h.front = g.front) : h.crc = g.crc := by
  obtain ⟨-, hrest⟩ := List.append_inj hfront (by simp)
  obtain ⟨-, hcrc⟩ := List.append_inj hrest (by simp)
  rw [← int32OfBytes_int32Bytes h.crc, hcrc, int32OfBytes_int32Bytes]

/-- Twenty bytes are a header. -/
theorem exists_hasAt (hlen : headerSize ≤ bytes.length) : ∃ h : Header, HasAt bytes 0 h.encode := by
  have hpiece (offset n : Nat) (hle : offset + n ≤ headerSize) :
      HasAt bytes offset ((bytes.drop offset).take n) ∧ ((bytes.drop offset).take n).length = n := by
    refine ⟨.of_le (by omega), ?_⟩
    rw [List.length_take, List.length_drop]
    omega
  obtain ⟨hm, hml⟩ := hpiece 0 4 (by decide)
  obtain ⟨ht, htl⟩ := hpiece 4 4 (by decide)
  obtain ⟨hc, hcl⟩ := hpiece 8 4 (by decide)
  obtain ⟨hd, hdl⟩ := hpiece 12 8 (by decide)
  rw [← int32Bytes_int32OfBytes hml] at hm
  rw [← int32Bytes_int32OfBytes htl] at ht
  rw [← int32Bytes_int32OfBytes hcl] at hc
  rw [← int64Bytes_int64OfBytes hdl] at hd
  exact ⟨⟨_, _, _, _⟩, hm.append (ht.append (hc.append hd))⟩

end Header

/-- The bytes start with a header that passes the check. -/
def IsDescribed (verify : Bool) (bytes : List UInt8) : Prop :=
  ∃ h : Header, HasAt bytes 0 h.encode ∧ h.check verify (.ofList bytes) = .ok ()

/-- Bytes that are not described by a header are refused for their format. -/
theorem ofBuffer_of_not_isDescribed {α : Type} [Schema α] {settings : Settings} {bytes : List UInt8}
    (hs : settings.check = .ok ()) (h : ¬ IsDescribed settings.verifyChecksum bytes) :
    ∃ cause, Database.ofBuffer α settings (.ofList bytes) = .error (.invalidFormat cause) := by
  by_cases hlen : headerSize ≤ bytes.length
  · obtain ⟨header, hat⟩ := Header.exists_hasAt hlen
    have hread : Header.read (.ofList bytes) = .ok header := Header.read_eq_ok.2 hat
    cases hcheck : header.check settings.verifyChecksum (.ofList bytes) with
    | ok _ => exact absurd ⟨header, hat, hcheck⟩ h
    | error e =>
      obtain ⟨cause, rfl⟩ := Header.check_failsWith_format e hcheck
      refine ⟨cause, ?_⟩
      rw [Database.ofBuffer, hs, hread]
      simp only [Except.mapError, ok_bind, hcheck, error_bind]
  · have hread : Header.read (.ofList bytes) =
        .error (.invalidFormat (.shortHeader (Buffer.ofList bytes).size)) := by
      rw [Header.read, if_pos]
      rw [← Buffer.length_bytes, Buffer.bytes_ofList]
      omega
    refine ⟨.shortHeader (Buffer.ofList bytes).size, ?_⟩
    rw [Database.ofBuffer, hs, hread]
    rfl

/-- **Bytes and a proper start of them are not both described.** -/
theorem IsDescribed.eq_of_prefix {verify : Bool} (ha : IsDescribed verify a)
    (hb : IsDescribed verify b) (hp : a <+: b) : a = b := by
  obtain ⟨h, hat, hcheck⟩ := ha
  obtain ⟨h', hat', hcheck'⟩ := hb
  have hsame : h' = h := by
    obtain ⟨rest, rfl⟩ := hp
    have hread : Header.read (.ofList (a ++ rest)) = .ok h :=
      Header.read_eq_ok.2 ((hasAt_self (a ++ rest)).left.trans hat)
    have hread' : Header.read (.ofList (a ++ rest)) = .ok h' := Header.read_eq_ok.2 hat'
    exact Except.ok.inj (hread'.symm.trans hread)
  subst hsame
  have hlen := (Header.check_eq_ok.1 hcheck).2.1
  have hlen' := (Header.check_eq_ok.1 hcheck').2.1
  rw [← Buffer.length_bytes, Buffer.bytes_ofList] at hlen hlen'
  exact hp.eq_of_length (by omega)

/-! ## Complete files -/

/-- The bytes of a complete file: the header that describes a body, and the body. -/
def completeFile (date : Int64) (body : List UInt8) : List UInt8 :=
  (Header.ofBody date body).encode ++ body

section
variable {date : Int64} {body bytes : List UInt8}

theorem length_completeFile (date : Int64) (body : List UInt8) :
    (completeFile date body).length = headerSize + body.length := by
  rw [completeFile, List.length_append, Header.length_encode]

theorem isDescribed_completeFile (verify : Bool) (date : Int64)
    (hl : headerSize + body.length < 0x80000000) : IsDescribed verify (completeFile date body) :=
  ⟨.ofBody date body, (hasAt_self _).left, Header.check_ofBody verify rfl hl⟩

theorem completeFile_eq (date : Int64) (body : List UInt8) : completeFile date body =
    (Header.ofBody date body).front ++ (int64Bytes date ++ body) := by
  rw [completeFile, Header.encode_eq, List.append_assoc]
  rfl

theorem take_completeFile (date : Int64) (body : List UInt8) :
    (completeFile date body).take 12 = (Header.ofBody date body).front :=
  Header.take_eq_front (hasAt_self _).left

theorem drop_completeFile (date : Int64) (body : List UInt8) :
    (completeFile date body).drop headerSize = body :=
  List.drop_left' (Header.length_encode _)

/-- Files of one body differ in their dates only. -/
theorem completeFile_window {date' : Int64}
    (hi : (completeFile date body)[i]? ≠ (completeFile date' body)[i]?) : 12 ≤ i ∧ i < 12 + 8 := by
  by_contra hout
  apply hi
  rcases Nat.lt_or_ge i 12 with hlt | hge
  · rw [← List.getElem?_take_of_lt hlt, ← List.getElem?_take_of_lt (l := completeFile date' body) hlt,
      take_completeFile, take_completeFile]
    rfl
  · have hbody : headerSize ≤ i := by
      rw [headerSize]
      omega
    rw [← Nat.add_sub_of_le hbody, ← List.getElem?_drop, ← List.getElem?_drop, drop_completeFile,
      drop_completeFile]

/-- **A change within the date is a change of the date.** -/
theorem changedWithin_date_iff : ChangedWithin 12 8 (completeFile date body) bytes ↔
    ∃ date', date' ≠ date ∧ bytes = completeFile date' body := by
  constructor
  · intro hc
    obtain ⟨htake, hdrop⟩ := take_drop_eq_of_window hc.window
    have hfront : bytes.take 12 = (Header.ofBody date body).front :=
      htake.symm.trans (take_completeFile date body)
    have hbody : bytes.drop 20 = body := hdrop.symm.trans (drop_completeFile date body)
    have hdate : ((bytes.drop 12).take 8).length = 8 := by
      have hlen := hc.length_eq
      rw [length_completeFile, headerSize] at hlen
      rw [List.length_take, List.length_drop]
      omega
    have hbytes : bytes = completeFile (int64OfBytes ((bytes.drop 12).take 8)) body := by
      calc bytes = bytes.take 12 ++ ((bytes.drop 12).take 8 ++ (bytes.drop 12).drop 8) := by
            rw [List.take_append_drop, List.take_append_drop]
        _ = (Header.ofBody date body).front ++ ((bytes.drop 12).take 8 ++ body) := by
            rw [hfront, List.drop_drop, hbody]
        _ = completeFile (int64OfBytes ((bytes.drop 12).take 8)) body := by
            rw [completeFile_eq, int64Bytes_int64OfBytes hdate]
            rfl
    refine ⟨_, ?_, hbytes⟩
    intro hsame
    apply hc.ne
    rw [hbytes, hsame]
  · rintro ⟨date', hne, rfl⟩
    refine ⟨by rw [length_completeFile, length_completeFile], ?_, fun i => completeFile_window⟩
    intro h
    rw [completeFile_eq, completeFile_eq] at h
    obtain ⟨-, h⟩ := List.append_inj h rfl
    obtain ⟨h, -⟩ := List.append_inj h (by simp)
    apply hne
    rw [← int64OfBytes_int64Bytes date', h, int64OfBytes_int64Bytes]

/-- A change within four bytes that reaches the body leaves the check value as it was, and the check
value is not that of the new body. -/
theorem body_eq_of_isDescribed (hc : ChangedWithin start 4 (completeFile date body) bytes)
    (hd : IsDescribed true bytes) : bytes.drop headerSize = body := by
  obtain ⟨h, hat, hcheck⟩ := hd
  have hcrc : (crc32 (bytes.drop headerSize)).toInt32 = h.crc :=
    (Header.check_eq_ok.1 hcheck).2.2 rfl
  by_contra hne
  have hwin (i : Nat) (hi : (bytes.drop headerSize)[i]? ≠ body[i]?) :
      start ≤ headerSize + i ∧ headerSize + i < start + 4 := by
    apply hc.window
    rw [← List.getElem?_drop, ← List.getElem?_drop, drop_completeFile]
    exact hi.symm
  -- the change starts behind the check value
  have hstart : 12 ≤ start := by
    by_contra hlow
    apply hne
    apply List.ext_getElem?
    intro i
    by_contra hi
    have := hwin i hi
    rw [headerSize] at this
    omega
  have hsame : h.crc = (crc32 body).toInt32 := by
    obtain ⟨htake, -⟩ := take_drop_eq_of_window hc.window
    have hfront : bytes.take 12 = (completeFile date body).take 12 := by
      rw [← Nat.min_eq_left hstart, ← List.take_take, ← List.take_take, htake]
    rw [Header.take_eq_front hat, take_completeFile] at hfront
    exact Header.crc_eq_of_front_eq hfront
  have hlen : (bytes.drop headerSize).length = body.length := by
    rw [List.length_drop, hc.length_eq, length_completeFile]
    omega
  have hburst (i : Nat) (hi : (bytes.drop headerSize)[i]? ≠ body[i]?) :
      start - headerSize ≤ i ∧ i < start - headerSize + 4 := by
    have := hwin i hi
    omega
  apply crc32_ne_of_burst hlen hne hburst
  rw [← UInt32.toUInt32_toInt32 (crc32 body), ← hcrc.trans hsame, UInt32.toUInt32_toInt32]

/-- **A described change within four bytes is a change of the date.** -/
theorem IsDescribed.changedWithin_date (hl : headerSize + body.length < 0x80000000)
    (hc : ChangedWithin start 4 (completeFile date body) bytes) (hd : IsDescribed true bytes) :
    ChangedWithin 12 8 (completeFile date body) bytes := by
  have hbody := body_eq_of_isDescribed hc hd
  obtain ⟨h, hat, hcheck⟩ := hd
  obtain ⟨hmagic, htotal, hcrc⟩ := Header.check_eq_ok.1 hcheck
  have hheader : h = .ofBody h.date body := by
    have hlength : h.totalLength = .ofNat (headerSize + body.length) := by
      apply Int32.toInt_inj.1
      rw [toInt_ofNat_of_lt hl, htotal, ← Buffer.length_bytes, Buffer.bytes_ofList, hc.length_eq,
        length_completeFile]
    have hvalue : h.crc = (crc32 body).toInt32 := by
      rw [← hcrc rfl, contentCrc, Buffer.bytes_ofList, hbody]
    rw [Header.ofBody, ← hmagic, ← hlength, ← hvalue]
  have hbytes : bytes = completeFile h.date body := by
    have hencode : bytes.take headerSize = h.encode := hat.take_drop_of_length h.length_encode
    rw [completeFile, ← hheader, ← hencode, ← hbody, List.take_append_drop]
  refine changedWithin_date_iff.2 ⟨h.date, ?_, hbytes⟩
  intro hdate
  apply hc.ne
  rw [hbytes, hdate]

end

/-! ## Packed files -/

variable {α : Type} [Schema α] {settings reading : Settings} {items : List α} {d : Draft α}
  {date : Int64} {image : Image} {s : Sections}

namespace Draft

/-- The file of a draft with another date. -/
theorem Packed.withDate (h : d.Packed date image s) (date' : Int64) :
    d.Packed date' { image with bytes := completeFile date' (s.bytes image.layout) } s :=
  { h with bytes_eq := rfl }

/-- Two databases of one draft give the same answers, whatever their dates. -/
theorem answersAs_database [LawfulSchema α] {date' : Int64} {image' : Image}
    (reading : Settings) (h : d.Packed date image s) (h' : d.Packed date' image' s)
    (hl : image'.layout = image.layout) (ho : d.InOrder) :
    (d.database date' image' s reading).AnswersAs (d.database date image s reading) :=
  (holds_of_packed h ho).answersAs (holds_of_packed h' ho) hl rfl ho.nodup_names ho.finite

end Draft

/-- Databases that differ in their dates only have summaries that do. -/
theorem Database.summary_eq {db db' : Database α} (h : db'.AnswersAs db)
    (hheader : db'.header = { db.header with date := db'.buildDate })
    (hstrings : db'.strings = db.strings) (hlayout : db'.layout = db.layout)
    (hsize : db'.buf.size = db.buf.size) :
    db'.summary = db.summary.map fun s => { s with buildDate := db'.buildDate } := by
  have hcrc : db'.header.crc = db.header.crc := by rw [hheader]
  rw [summary, summary, h.depth, hstrings, hlayout, hsize, hcrc]
  cases db.tree.depth <;> rfl

/-- **A changed file is refused, or has another date.** With checking on, a packed file that was
changed within four bytes next to each other is refused for its format, unless the change is within
the date. A file that was changed within the date is opened: the database has another date, differs
in nothing else, and gives the same answers. A file that was cut off or continued is refused for its
format. -/
theorem changed_ofBuffer_pack [LawfulSchema α] (hd : Draft.ofItems settings items = .ok d)
    (hp : d.pack date = .ok image) (hr : reading.check = .ok ()) :
    (reading.verifyChecksum = true → ∀ (start : Nat) (bytes : List UInt8),
      ChangedWithin start 4 image.bytes bytes → ¬ ChangedWithin 12 8 image.bytes bytes →
        ∃ cause, Database.ofBuffer α reading (.ofList bytes) = .error (.invalidFormat cause)) ∧
    (∀ bytes : List UInt8, ChangedWithin 12 8 image.bytes bytes → ∃ db db' : Database α,
      Database.ofBuffer α reading (.ofList image.bytes) = .ok db ∧
        Database.ofBuffer α reading (.ofList bytes) = .ok db' ∧ db'.AnswersAs db ∧
        db.buildDate = date ∧ db'.buildDate ≠ date ∧
        db' = { db with
          buf := .ofList bytes, header := { db.header with date := db'.buildDate } } ∧
        db'.summary = db.summary.map fun s => { s with buildDate := db'.buildDate }) ∧
    (∀ n < image.bytes.length, ∃ cause,
      Database.ofBuffer α reading (.ofList (image.bytes.take n)) = .error (.invalidFormat cause)) ∧
    ∀ extra : List UInt8, extra ≠ [] → ∃ cause,
      Database.ofBuffer α reading (.ofList (image.bytes ++ extra)) =
        .error (.invalidFormat cause) := by
  obtain ⟨s, hpacked⟩ := Draft.pack_eq_ok_iff.1 hp
  have ho := Draft.inOrder_of_ofItems hd
  have hfile : image.bytes = completeFile date (s.bytes image.layout) := hpacked.bytes_eq
  have hdescribed : IsDescribed reading.verifyChecksum image.bytes := by
    rw [hfile]
    exact isDescribed_completeFile _ date hpacked.bytes_lt
  refine ⟨?_, ?_, ?_, ?_⟩
  · intro hv start bytes hchanged hdate
    rw [hfile] at hchanged hdate
    apply ofBuffer_of_not_isDescribed hr
    intro h
    exact hdate ((hv ▸ h).changedWithin_date hpacked.bytes_lt hchanged)
  · intro bytes hchanged
    have hlength := hchanged.length_eq
    rw [hfile, changedWithin_date_iff] at hchanged
    obtain ⟨date', hne, rfl⟩ := hchanged
    have hpacked' := hpacked.withDate date'
    have hopen := Draft.ofBuffer_of_packed hpacked ho hr
    have hopen' := Draft.ofBuffer_of_packed hpacked' ho hr
    have hanswers := Draft.answersAs_database reading hpacked hpacked' rfl ho
    refine ⟨_, _, hopen, hopen', hanswers, ?_, ?_, ?_, ?_⟩
    · rfl
    · exact hne
    · rfl
    · exact Database.summary_eq hanswers rfl rfl rfl hlength
  · intro n hn
    apply ofBuffer_of_not_isDescribed hr
    intro h
    have hsame := congrArg List.length (h.eq_of_prefix hdescribed (List.take_prefix n _))
    rw [List.length_take] at hsame
    omega
  · intro extra hextra
    apply ofBuffer_of_not_isDescribed hr
    intro h
    have hsame := hdescribed.eq_of_prefix h (List.prefix_append _ extra)
    exact hextra (List.append_right_eq_self.1 hsame.symm)

theorem changed_ofBuffer_pack_quito : ∃ d image,
    Draft.ofItems lenientSettings [quitoPlace] = .ok d ∧ d.pack 7 = .ok image ∧
      lenientSettings.check = .ok () ∧ lenientSettings.verifyChecksum = true ∧
      (∃ cause, Database.ofBuffer Place lenientSettings (.ofList (image.bytes.set 0 0)) =
        .error (.invalidFormat cause)) ∧
      (∃ db : Database Place,
        Database.ofBuffer Place lenientSettings (.ofList (image.bytes.set 19 8)) = .ok db ∧
          db.buildDate ≠ 7 ∧ db.size = 1) ∧
      (∃ cause, Database.ofBuffer Place lenientSettings (.ofList (image.bytes.take 19)) =
        .error (.invalidFormat cause)) ∧
      ∃ cause, Database.ofBuffer Place lenientSettings (.ofList (image.bytes ++ [0])) =
        .error (.invalidFormat cause) := by
  obtain ⟨d, image, hd, hp⟩ := exists_pack_quitoPlace
  have hcheck : lenientSettings.check = .ok () := by decide
  obtain ⟨s, hpacked⟩ := Draft.pack_eq_ok_iff.1 hp
  have hheader : HasAt image.bytes 0 (Header.ofBody 7 (s.bytes image.layout)).encode :=
    hpacked.bytes_eq ▸ (hasAt_self _).left
  have hfirst : image.bytes[0]? = some 0x52 :=
    hheader.left.getElem? (i := 0) (show (int32Bytes headerMagic)[0]? = some 0x52 by decide)
  have hlast : image.bytes[12 + 7]? = some 7 := by
    rw [Header.encode_eq] at hheader
    have hdate : HasAt image.bytes 12 (int64Bytes 7) :=
      hheader.after 12 (by rw [Header.length_front])
    exact hdate.getElem? (by decide)
  obtain ⟨hburst, hdate, hprefix, hextra⟩ := changed_ofBuffer_pack hd hp hcheck
  refine ⟨d, image, hd, hp, hcheck, rfl, ?_, ?_, ?_, hextra [0] (by simp)⟩
  · refine hburst rfl 0 _ (changedWithin_set hfirst (by decide) (by omega)) ?_
    intro h
    have hout := h.window 0
    rw [hfirst, List.getElem?_set_self (List.getElem?_eq_some_iff.1 hfirst).1] at hout
    have := hout (by decide)
    omega
  · obtain ⟨db, db', ho, ho', hanswers, -, hne, -⟩ :=
      hdate (image.bytes.set 19 8) (changedWithin_set hlast (by decide) (by omega))
    refine ⟨db', ho', hne, ?_⟩
    rw [hanswers.size]
    exact (holds_of_ofBuffer hd hp ho).1.count_eq
  · apply hprefix
    have := (List.getElem?_eq_some_iff.1 hlast).1
    omega

end Gazetteer

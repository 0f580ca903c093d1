import Gazetteer.Proofs.Opening

/-!
# Which drafts can be packed

A draft is packed if it has items, if there is a table for that many, and if the file stays below
`2 ^ 31` bytes. Every count, index and offset of the file is then small enough to be written, every
text is in the pool, and the name table has room.
-/

namespace Gazetteer

variable {α : Type} [Schema α] {d : Draft α}

namespace Draft

/-- The size of the file of a draft, for a name table of a given geometry. -/
def fileSize (d : Draft α) (g : TableGeometry) : Nat :=
  headerSize + (4 + ((firstOccurrences d.usedStrings).map stringSize).sum) +
    8 + d.toList.length * Schema.recordSize α + g.byteSize + d.toList.length * nodeSize

theorem toList_pool (d : Draft α) : d.pool.toList = firstOccurrences d.usedStrings :=
  StringPool.toList_insertMany_empty _

/-- The pool of a draft has the strings of its items. -/
theorem mem_pool {x : α} {t : String} (hx : x ∈ d.toList)
    (ht : t = Schema.itemName x ∨ t ∈ Schema.strings x) : t ∈ d.pool.toList := by
  refine (StringPool.indexed_empty.mem_insertMany).2 (Or.inr (List.mem_cons_of_mem _ ?_))
  exact List.mem_flatMap.2 ⟨x, hx, List.mem_cons.2 ht⟩

end Draft

theorem Schema.exists_encodeItem [LawfulSchema α] {pool : StringPool} {x : α} (hp : pool.Indexed)
    (hx : ∀ t, t = itemName x ∨ t ∈ strings x → t ∈ pool.toList) :
    ∃ bytes, encodeItem pool x = .ok bytes := by
  have hfield (f : RecordField) (hf : f ∈ fields x) : ∃ bytes, f.encode pool = .ok bytes := by
    refine RecordField.exists_encode hp fun t ht => hx t ?_
    subst ht
    rw [fields_eq] at hf
    simp only [List.mem_cons, reduceCtorEq, false_or, RecordField.text.injEq] at hf
    exact hf.imp_right (LawfulSchema.text_mem x t)
  obtain ⟨pieces, hpieces⟩ := exists_mapM_eq_ok hfield
  exact ⟨pieces.flatten, by rw [encodeItem, writeItem_of_fields hpieces, ok_map]⟩

/-! ## Nodes -/

theorem TreePlan.childOffset_ok {plan : TreePlan} {child : Option Nat}
    (h : ∀ i, child = some i → plan.nodesAt + i * nodeSize < 0x80000000) :
    ∃ v, plan.childOffset child = .ok v := by
  cases child with
  | none => exact ⟨_, rfl⟩
  | some i => exact ⟨_, toInt32_eq_ok.2 ⟨h i rfl, rfl⟩⟩

theorem TreePlan.exists_encodeNode {plan : TreePlan} {n : TreeNode}
    (hi : plan.itemsAt + n.item * plan.itemSize < 0x80000000)
    (hl : ∀ i, n.left = some i → plan.nodesAt + i * nodeSize < 0x80000000)
    (hr : ∀ i, n.right = some i → plan.nodesAt + i * nodeSize < 0x80000000) :
    ∃ bytes, plan.encodeNode n = .ok bytes := by
  obtain ⟨l, hl⟩ := childOffset_ok hl
  obtain ⟨r, hr⟩ := childOffset_ok hr
  exact ⟨_, bind_eq_ok.2 ⟨_, toInt32_eq_ok.2 ⟨hi, rfl⟩, bind_eq_ok.2 ⟨l, hl,
    bind_eq_ok.2 ⟨r, hr, rfl⟩⟩⟩⟩

namespace Draft

theorem exists_nodes {l : Layout} (ho : d.InOrder) (hc : l.count = d.toList.length)
    (hstop : l.stop < 0x80000000) : ∃ nodes, d.tree.nodes.mapM l.plan.encodeNode = .ok nodes := by
  have hlen : d.points.toList.length = l.count := by rw [length_points ho, hc]
  have hchild (i : Nat) (hi : i < 0 + d.tree.size) : l.nodesAt + i * nodeSize < 0x80000000 := by
    rw [tree, Tree.size_ofPoints, hlen] at hi
    have := l.nodeAt_le_stop (i := i) (by omega)
    omega
  refine exists_mapM_eq_ok fun n hn => ?_
  obtain ⟨hitem, hl, hr⟩ := Tree.mem_layout hn
  rw [tree, (Tree.items_ofPoints _).mem_iff, List.mem_range, hlen] at hitem
  refine TreePlan.exists_encodeNode ?_ (fun i hi => hchild i (hl i hi))
    (fun i hi => hchild i (hr i hi))
  have := l.itemAt_le_stop (Nat.le_of_lt hitem)
  exact Nat.lt_of_le_of_lt this hstop

theorem exists_slots {l : Layout} (hc : l.count = d.toList.length)
    (hg : TableGeometry.forItems d.toList.length = .ok l.geometry) (hstop : l.stop < 0x80000000) :
    ∃ slots, buildSlots l.geometry (d.slotEntries l) = .ok slots := by
  obtain ⟨hlen, hpos, hlt, -, hprime⟩ := TableGeometry.spec_of_forItems hg
  rw [slotEntries_eq hc]
  refine exists_buildSlots hprime hpos hlt (by rw [Layout.length_entries]; omega) fun e he => ?_
  obtain ⟨i, hi, rfl⟩ := List.mem_mapIdx.1 he
  have := l.itemAt_le_stop (Nat.le_of_lt (hc ▸ hi))
  exact Nat.lt_of_le_of_lt this hstop

/-- **A draft is packed if its file fits.** -/
theorem exists_pack [LawfulSchema α] {g : TableGeometry} (ho : d.InOrder) (hne : d.toList ≠ [])
    (hg : TableGeometry.forItems d.toList.length = .ok g) (hfit : d.fileSize g < 0x80000000)
    (date : Int64) : ∃ image, d.pack date = .ok image := by
  obtain ⟨hlen, hpos, hlt, hsmall, hprime⟩ := TableGeometry.spec_of_forItems hg
  unfold fileSize at hfit
  rw [← d.toList_pool] at hfit
  have hstrings : (d.pool.toList.map stringSize).sum < 0x80000000 := by omega
  obtain ⟨strings, hs, hsl⟩ := exists_encodeStrings hstrings
  obtain ⟨records, hr⟩ := exists_mapM_eq_ok fun x hx =>
    Schema.exists_encodeItem d.indexed_pool fun t ht => d.mem_pool (x := x) hx ht
  let l : Layout := ⟨headerSize + strings.length + 8, Schema.recordSize α, d.toList.length, g⟩
  have hstop : l.stop < 0x80000000 := by
    show headerSize + strings.length + 8 + d.toList.length * Schema.recordSize α + g.byteSize +
      d.toList.length * nodeSize < 0x80000000
    omega
  obtain ⟨slots, hslots⟩ := exists_slots (d := d) (l := l) rfl hg hstop
  obtain ⟨nodes, hnodes⟩ := exists_nodes (l := l) ho rfl hstop
  let s : Sections := ⟨strings, records, slots, nodes⟩
  have hbytes : headerSize + (s.bytes l).length = l.stop :=
    Sections.length_bytes rfl (length_records hr) (length_slots hslots) (length_nodes ho hnodes)
  exact ⟨⟨(Header.ofBody date (s.bytes l)).encode ++ s.bytes l, l, d.tree.height⟩,
    pack_eq_ok_iff.2 ⟨s, {
      nonempty := hne
      count_eq := rfl
      count_lt := by
        show d.toList.length < 0x80000000
        omega
      itemSize_eq := rfl
      itemSize_lt := by
        have := Nat.le_mul_of_pos_left (Schema.recordSize α) (List.length_pos_iff.2 hne)
        show Schema.recordSize α < 0x80000000
        omega
      itemsAt_eq := rfl
      geometry := hg
      length_lt := hsmall
      rehash_lt := Nat.lt_trans hlt hsmall
      strings := hs
      records := hr
      slots := hslots
      nodes := hnodes
      bytes_lt := hbytes ▸ hstop
      bytes_eq := rfl
      depth_eq := rfl }⟩⟩

/-- Items that a draft takes are packed if their file fits. -/
theorem exists_pack_ofItems [LawfulSchema α] {settings : Settings} {items : List α}
    {g : TableGeometry} (hcheck : ∀ x ∈ items, (empty settings).check x = .ok ())
    (hnodup : (items.map Schema.itemName).Nodup) (hne : items ≠ [])
    (hg : TableGeometry.forItems items.length = .ok g)
    (hfit : (items.foldl push (empty settings)).fileSize g < 0x80000000) (date : Int64) :
    ∃ d image, ofItems settings items = .ok d ∧ d.pack date = .ok image := by
  have hd := ofItems_of_check hcheck hnodup
  have hlist : (items.foldl push (empty settings)).toList = items := toList_of_ofItems hd
  obtain ⟨image, hp⟩ := exists_pack (inOrder_of_ofItems hd) (by rwa [hlist]) (by rwa [hlist])
    hfit date
  exact ⟨_, image, hd, hp⟩

end Draft
end Gazetteer

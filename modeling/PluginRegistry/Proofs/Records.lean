import PluginRegistry.Cache.Record

/-!
# Reading records back

For each record of a cache, reading what was written, with anything behind it, gives the record
back and leaves the rest. What a record needs for that is that its texts and lists are no longer
than a machine word can say (`Fits`), which holds of everything that is in memory.
-/

namespace PluginRegistry.Cache

open Wire (Reader)
open Wire.Reader (run_bind_ok run_pure run_u32_append run_u64_append run_list_append run_text_append
  run_option_append)

/-! ## Ids and kinds -/

theorem run_writeId_append (id : ObjectId) (rest : Bytes) :
    readId.run (writeId id ++ rest) = .ok (id, rest) := by
  simp only [readId, writeId]
  rw [run_bind_ok (run_u32_append _ _), run_pure]

theorem run_writeContributor_append (c : ContributorId) (rest : Bytes) :
    readContributor.run (writeContributor c ++ rest) = .ok (c, rest) := by
  simp only [readContributor, writeContributor]
  rw [run_bind_ok (run_u64_append _ _), run_pure]

theorem run_tag_append {α : Type} {pick : Nat → Option α} {n : Nat} {a : α} (rest : Bytes)
    (hn : n < 128) (h : pick n = some a) :
    (Reader.tag pick).run (Wire.number n ++ rest) = .ok (a, rest) := by
  have hsize : n < Reader.capacity 0x0f 4 :=
    Nat.lt_of_lt_of_le hn (by decide)
  simp only [Reader.tag]
  rw [run_bind_ok (Reader.run_number_append rest (by decide) hsize), h]
  rfl

theorem run_writeKind_append (kind : ObjectKind) (rest : Bytes) :
    readKind.run (writeKind kind ++ rest) = .ok (kind, rest) := by
  cases kind <;> exact run_tag_append rest (by decide) rfl

theorem run_writeParentKind_append (kind : ParentKind) (rest : Bytes) :
    readParentKind.run (writeParentKind kind ++ rest) = .ok (kind, rest) := by
  cases kind <;> exact run_tag_append rest (by decide) rfl

theorem run_writeIds_append (ids : List ObjectId) (rest : Bytes)
    (hn : ids.length < UInt64.size) :
    (Reader.list readId).run (Wire.list writeId ids ++ rest) = .ok (ids, rest) :=
  run_list_append ids rest hn fun id _ => run_writeId_append id

/-! ## The table -/

theorem TableEntry.run_write_append (e : TableEntry) (rest : Bytes) :
    read.run (e.write ++ rest) = .ok (e, rest) := by
  simp only [read, write, List.append_assoc]
  rw [run_bind_ok (run_writeId_append _ _), run_bind_ok (run_writeKind_append _ _),
    run_bind_ok (run_u32_append _ _), run_bind_ok (run_u32_append _ _), run_pure]

theorem Table.run_write_append (t : Table) (rest : Bytes) (hn : t.entries.length < UInt64.size) :
    read.run (t.write ++ rest) = .ok (t, rest) := by
  simp only [read, write, List.append_assoc]
  rw [run_bind_ok (run_u64_append _ _), run_bind_ok (run_u32_append _ _),
    run_bind_ok (run_list_append _ _ hn fun e _ => e.run_write_append), run_pure]

/-! ## The numbers of an object -/

def MainRecord.children : MainRecord → List ObjectId
  | .point _ _ children _ => children
  | .extension _ children _ => children
  | .element _ _ _ _ children _ => children

theorem MainRecord.run_write_append (r : MainRecord) (rest : Bytes)
    (hn : r.children.length < UInt64.size) : read.run (r.write ++ rest) = .ok (r, rest) := by
  cases r with
  | point owner contributor children strings =>
    have hn : children.length < UInt64.size := hn
    simp only [read, write, kind, List.append_assoc]
    rw [run_bind_ok (run_writeKind_append _ _)]
    simp only
    rw [run_bind_ok (run_writeContributor_append _ _),
      run_bind_ok (run_writeContributor_append _ _),
      run_bind_ok (run_writeIds_append _ _ hn), run_bind_ok (run_u32_append _ _), run_pure]
  | extension contributor children strings =>
    have hn : children.length < UInt64.size := hn
    simp only [read, write, kind, List.append_assoc]
    rw [run_bind_ok (run_writeKind_append _ _)]
    simp only
    rw [run_bind_ok (run_writeContributor_append _ _),
      run_bind_ok (run_writeIds_append _ _ hn), run_bind_ok (run_u32_append _ _), run_pure]
  | element parent parentKind owner contributor children strings =>
    have hn : children.length < UInt64.size := hn
    simp only [read, write, kind, List.append_assoc]
    rw [run_bind_ok (run_writeKind_append _ _)]
    simp only
    rw [run_bind_ok (run_writeId_append _ _), run_bind_ok (run_writeParentKind_append _ _),
      run_bind_ok (run_writeContributor_append _ _),
      run_bind_ok (run_writeContributor_append _ _),
      run_bind_ok (run_writeIds_append _ _ hn), run_bind_ok (run_u32_append _ _), run_pure]

/-! ## The strings of an object -/

def FitsText (s : String) : Prop := s.toUTF8.size < UInt64.size

/-- The lengths of all texts in a record fit a machine word, and so does that of its properties. -/
def StringRecord.Fits : StringRecord → Prop
  | .point uniqueId label schema ns =>
    FitsText uniqueId ∧ FitsText label ∧ (∀ s ∈ schema, FitsText s) ∧ FitsText ns
  | .extension simpleId label target ns =>
    (∀ s ∈ simpleId, FitsText s) ∧ FitsText label ∧ FitsText target ∧ FitsText ns
  | .element name properties value =>
    FitsText name ∧ (properties.length < UInt64.size ∧ ∀ s ∈ properties, FitsText s) ∧
      ∀ s ∈ value, FitsText s

instance (s : String) : Decidable (FitsText s) := inferInstanceAs (Decidable (_ < _))

instance : (r : StringRecord) → Decidable r.Fits
  | .point .. => inferInstanceAs (Decidable (_ ∧ _ ∧ (∀ s ∈ _, FitsText s) ∧ _))
  | .extension .. => inferInstanceAs (Decidable ((∀ s ∈ _, FitsText s) ∧ _ ∧ _ ∧ _))
  | .element .. =>
    inferInstanceAs (Decidable (_ ∧ (_ ∧ ∀ s ∈ _, FitsText s) ∧ ∀ s ∈ _, FitsText s))

theorem run_texts_append (texts : List String) (rest : Bytes)
    (hn : texts.length < UInt64.size ∧ ∀ s ∈ texts, FitsText s) :
    (Reader.list Reader.text).run (Wire.list Wire.text texts ++ rest) = .ok (texts, rest) :=
  run_list_append texts rest hn.1 fun s hs rest => run_text_append s rest (hn.2 s hs)

theorem run_optionText_append (text? : Option String) (rest : Bytes)
    (h : ∀ s ∈ text?, FitsText s) :
    (Reader.option Reader.text).run (Wire.option Wire.text text? ++ rest) = .ok (text?, rest) :=
  run_option_append text? rest fun s hs rest => run_text_append s rest (h s hs)

theorem StringRecord.run_write_append (r : StringRecord) (rest : Bytes) (h : r.Fits) :
    read.run (r.write ++ rest) = .ok (r, rest) := by
  cases r with
  | point uniqueId label schema ns =>
    obtain ⟨hid, hlabel, hschema, hns⟩ := h
    simp only [read, write, kind, List.append_assoc]
    rw [run_bind_ok (run_writeKind_append _ _)]
    simp only
    rw [run_bind_ok (run_text_append _ _ hid), run_bind_ok (run_text_append _ _ hlabel),
      run_bind_ok (run_optionText_append _ _ hschema), run_bind_ok (run_text_append _ _ hns),
      run_pure]
  | extension simpleId label target ns =>
    obtain ⟨hid, hlabel, htarget, hns⟩ := h
    simp only [read, write, kind, List.append_assoc]
    rw [run_bind_ok (run_writeKind_append _ _)]
    simp only
    rw [run_bind_ok (run_optionText_append _ _ hid), run_bind_ok (run_text_append _ _ hlabel),
      run_bind_ok (run_text_append _ _ htarget), run_bind_ok (run_text_append _ _ hns), run_pure]
  | element name properties value =>
    obtain ⟨hname, hproperties, hvalue⟩ := h
    simp only [read, write, kind, List.append_assoc]
    rw [run_bind_ok (run_writeKind_append _ _)]
    simp only
    rw [run_bind_ok (run_text_append _ _ hname), run_bind_ok (run_texts_append _ _ hproperties),
      run_bind_ok (run_optionText_append _ _ hvalue), run_pure]

/-! ## Contributions and orphans -/

theorem ContributionRecord.run_write_append (r : ContributionRecord) (rest : Bytes)
    (hns : FitsText r.ns) (hn : r.raw.length < UInt64.size) :
    read.run (r.write ++ rest) = .ok (r, rest) := by
  simp only [read, write, List.append_assoc]
  rw [run_bind_ok (run_writeContributor_append _ _), run_bind_ok (run_text_append _ _ hns),
    run_bind_ok (run_list_append _ _ hn fun n _ => run_u32_append n), run_pure]

theorem run_writeOrphans_append (bucket : String × List ObjectId) (rest : Bytes)
    (hpoint : FitsText bucket.1) (hn : bucket.2.length < UInt64.size) :
    readOrphans.run (writeOrphans bucket ++ rest) = .ok (bucket, rest) := by
  simp only [readOrphans, writeOrphans, List.append_assoc]
  rw [run_bind_ok (run_text_append _ _ hpoint), run_bind_ok (run_writeIds_append _ _ hn), run_pure]

end PluginRegistry.Cache

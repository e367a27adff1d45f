import Mathlib.Data.List.Basic
import PluginRegistry.Proofs.Files

/-!
# Trees of entries

In a file system that is a tree (`IsTree`), every entry lies in a directory, so nothing lies below
a place where nothing is. A move carries what lies below one place to another (`lookup_carry`) and
leaves the rest; the removal of a tree changes nothing outside of it (`lookup_removeTree`).
-/

namespace PluginRegistry.FileSystem

variable {fs : FileSystem}

/-- Every entry but the root lies in a directory. -/
def IsTree (fs : FileSystem) : Prop :=
  ∀ e ∈ fs.entries, e.1 ≠ [] → (fs.lookup e.1.dropLast).any FileEntry.isDirectory = true

instance (fs : FileSystem) : Decidable fs.IsTree :=
  inferInstanceAs (Decidable (∀ e ∈ fs.entries, e.1 ≠ [] →
    (fs.lookup e.1.dropLast).any FileEntry.isDirectory = true))

theorem mem_of_lookup {place : Place} {entry : FileEntry} (h : fs.lookup place = some entry) :
    (place, entry) ∈ fs.entries := by
  obtain ⟨before, after, hentries, -⟩ := List.lookup_eq_some_iff.mp h
  rw [hentries]
  simp

theorem lookup_isSome_iff {place : Place} :
    (fs.lookup place).isSome ↔ ∃ entry, (place, entry) ∈ fs.entries := by
  unfold lookup
  rw [List.lookup_isSome_iff]
  constructor
  · rintro ⟨⟨other, entry⟩, hmem, heq⟩
    rw [beq_iff_eq] at heq
    exact ⟨entry, heq ▸ hmem⟩
  · rintro ⟨entry, hmem⟩
    exact ⟨_, hmem, beq_self_eq_true place⟩

theorem hasDirectory_iff {place : Place} :
    fs.HasDirectory place ↔ (fs.lookup place).any FileEntry.isDirectory = true := by
  unfold HasDirectory
  cases fs.lookup place with
  | none => simp
  | some entry => cases entry <;> simp [FileEntry.isDirectory]

theorem IsTree.hasDirectory (h : fs.IsTree) {place below : Place} {entry : FileEntry}
    (hentry : fs.lookup below = some entry) (hpre : place <+: below) (hne : place ≠ below) :
    fs.HasDirectory place := by
  induction below using List.reverseRecOn generalizing entry with
  | nil => exact absurd (List.prefix_nil.mp hpre) hne
  | append_singleton above name ih =>
    have hparent : fs.HasDirectory above := by
      have := h _ (mem_of_lookup hentry) (by simp)
      rw [List.dropLast_concat] at this
      exact hasDirectory_iff.mpr this
    rcases List.prefix_concat_iff.mp hpre with rfl | hpre
    · exact absurd rfl hne
    · by_cases heq : place = above
      · exact heq ▸ hparent
      · obtain ⟨mode, hmode⟩ := hparent
        exact ih hmode hpre heq

theorem IsTree.lookup_below (h : fs.IsTree) {place below : Place} (hnone : fs.lookup place = none)
    (hpre : place <+: below) : fs.lookup below = none := by
  cases hentry : fs.lookup below with
  | none => rfl
  | some entry =>
    by_cases heq : place = below
    · rw [← hentry, ← heq, hnone]
    · obtain ⟨mode, hmode⟩ := h.hasDirectory hentry hpre heq
      rw [hnone] at hmode
      cases hmode

theorem IsTree.put (h : fs.IsTree) {q : Place} (hparent : fs.HasDirectory q.dropLast)
    (hnone : fs.lookup q = none) (entry : FileEntry) : (fs.put q entry).IsTree := by
  intro e he hne
  have hold : (fs.lookup e.1.dropLast).any FileEntry.isDirectory = true := by
    rcases List.mem_cons.mp he with rfl | he
    · exact hasDirectory_iff.mp hparent
    · exact h e (List.mem_of_mem_filter he) hne
  have hother : e.1.dropLast ≠ q := by
    intro heq
    rw [heq, hnone] at hold
    cases hold
  rw [lookup_put, if_neg hother]
  exact hold

theorem mem_names {place : Place} {name : FileName} :
    name ∈ fs.names place ↔ (fs.lookup (place ++ [name])).isSome := by
  rw [lookup_isSome_iff]
  simp only [names, List.mem_filterMap]
  constructor
  · rintro ⟨⟨stands, entry⟩, hmem, hname⟩
    split_ifs at hname with hinside
    simp only [Bool.and_eq_true, decide_eq_true_eq, List.isPrefixOf_iff_prefix] at hinside
    obtain ⟨hlength, rest, rfl⟩ := hinside
    obtain ⟨last, rfl⟩ : ∃ last, rest = [last] := by
      apply List.length_eq_one_iff.mp
      rw [List.length_append] at hlength
      omega
    rw [List.getLast?_concat, Option.some.injEq] at hname
    exact ⟨entry, hname ▸ hmem⟩
  · rintro ⟨entry, hmem⟩
    refine ⟨_, hmem, ?_⟩
    simp

/-! ## Moves -/

theorem lookup_cons_ne {p q : Place} (h : q ≠ p) (x : FileEntry)
    (es : List (Place × FileEntry)) : ((p, x) :: es).lookup q = es.lookup q := by
  have hb : (q == p) = false := by simpa using h
  rw [List.lookup_cons, hb]

theorem lookup_carry (fs : FileSystem) (source target q : Place) :
    (fs.carry source target).lookup q =
      if target <+: q then fs.lookup (source ++ q.drop target.length)
      else if source <+: q then none
      else fs.lookup q := by
  unfold carry lookup
  induction fs.entries with
  | nil => simp
  | cons e es ih =>
    obtain ⟨p, x⟩ := e
    by_cases hsource : source <+: p
    · obtain ⟨rest, rfl⟩ := hsource
      have hkeep : (source.isPrefixOf (source ++ rest)) = true := by simp
      rw [List.filter_cons_of_pos (by simp), List.map_cons, if_pos hkeep, List.drop_left,
        List.lookup_cons, ih]
      by_cases hq : q = target ++ rest
      · subst hq
        simp
      · have hb : (q == target ++ rest) = false := by simpa using hq
        rw [hb]
        split_ifs with htarget hsource
        · obtain ⟨other, rfl⟩ := htarget
          have hne : other ≠ rest := fun heq => hq (by rw [heq])
          rw [List.drop_left, lookup_cons_ne (by simpa using hne)]
        · rfl
        · rw [lookup_cons_ne]
          rintro rfl
          exact hsource (List.prefix_append source rest)
    · have hother : ∀ rest, source ++ rest ≠ p := fun rest heq => hsource ⟨rest, heq⟩
      have hdrop : source.isPrefixOf p = false :=
        Bool.eq_false_iff.mpr fun h => hsource (List.isPrefixOf_iff_prefix.mp h)
      by_cases htarget : target <+: p
      · rw [List.filter_cons_of_neg (by simpa [hdrop] using htarget), ih,
          lookup_cons_ne (hother _)]
        split_ifs with h1 h2
        · rfl
        · rfl
        · rw [lookup_cons_ne]
          rintro rfl
          exact h1 htarget
      · have hkeep : target.isPrefixOf p = false :=
          Bool.eq_false_iff.mpr fun h => htarget (List.isPrefixOf_iff_prefix.mp h)
        rw [List.filter_cons_of_pos (by simp [hkeep]), List.map_cons, hdrop,
          if_neg (by simp), lookup_cons_ne (hother _)]
        by_cases hq : q = p
        · subst hq
          rw [List.lookup_cons_self, if_neg htarget, if_neg hsource, List.lookup_cons_self]
        · rw [lookup_cons_ne hq, ih, lookup_cons_ne hq]

/-! ## Removals -/

theorem openDirectory_congr {fs' : FileSystem} {p : Path}
    (h : ∀ v ∈ p.passed, fs'.lookup v = fs.lookup v)
    (hplace : fs'.lookup p.place = fs.lookup p.place) :
    fs'.openDirectory p = fs.openDirectory p := by
  unfold openDirectory
  rw [resolve_congr h]
  cases hresolve : fs.resolve p with
  | error e => rfl
  | ok place =>
    obtain ⟨-, rfl⟩ := resolve_ok hresolve
    dsimp only [bind, Except.bind]
    rw [hplace]

theorem openDirectory_ok {p : Path} {place : Place} (h : fs.openDirectory p = .ok place) :
    fs.resolve p = .ok place ∧ fs.HasDirectory place := by
  unfold openDirectory at h
  obtain ⟨found, hresolve, h⟩ := of_bind_ok h
  cases hentry : fs.lookup found with
  | none => rw [hentry] at h; cases h
  | some entry =>
    rw [hentry] at h
    cases entry with
    | file => cases h
    | directory mode =>
      rcases ite_eq_iff.1 h with ⟨-, h⟩ | ⟨-, h⟩ <;> cases h
      exact ⟨hresolve, mode, hentry⟩

theorem removeDirectory_ok {fs' : FileSystem} {p : Path} (h : fs.removeDirectory p = .ok fs') :
    fs' = fs.dropTree p.place := by
  unfold removeDirectory at h
  obtain ⟨t, ht, h⟩ := of_bind_ok h
  obtain ⟨-, h⟩ := of_guard_ok h
  obtain ⟨-, h⟩ := of_guard_ok h
  obtain ⟨place, hplace, h⟩ := of_bind_ok h
  obtain ⟨-, rfl⟩ := follow_ok hplace
  rw [← (target_ok ht).2.2] at h
  cases hentry : fs.lookup p.place with
  | none => rw [hentry] at h; cases h
  | some entry =>
    rw [hentry] at h
    obtain ⟨-, -, h⟩ := of_bind_ok h
    cases entry with
    | file => cases h
    | directory mode =>
      rcases ite_eq_iff.1 h with ⟨-, h⟩ | ⟨-, h⟩ <;> cases h
      rfl

theorem lookup_removeTree (fs : FileSystem) (p : Path) (q : Place) :
    (fs.removeTree p).1.lookup q = fs.lookup q ∨
      p.place <+: q ∧ (fs.removeTree p).1.lookup q = none := by
  unfold removeTree
  cases hopen : fs.openDirectory p with
  | error e => exact Or.inl rfl
  | ok place =>
    obtain ⟨-, rfl⟩ := resolve_ok (openDirectory_ok hopen).1
    dsimp only
    split_ifs
    · have hbelow : (fs.dropBelow p.place).lookup q = fs.lookup q ∨
          p.place <+: q ∧ (fs.dropBelow p.place).lookup q = none := by
        rw [lookup_dropBelow]
        split_ifs with h
        · simp only [Bool.and_eq_true, List.isPrefixOf_iff_prefix] at h
          exact Or.inr ⟨h.1, rfl⟩
        · exact Or.inl rfl
      cases hremove : (fs.dropBelow p.place).removeDirectory p with
      | error e => cases e <;> exact hbelow
      | ok changed =>
        show changed.lookup q = _ ∨ _ ∧ changed.lookup q = none
        rw [removeDirectory_ok hremove, lookup_dropTree]
        split_ifs with h
        · exact Or.inr ⟨List.isPrefixOf_iff_prefix.mp h, rfl⟩
        · exact hbelow
    · exact Or.inl rfl

end PluginRegistry.FileSystem

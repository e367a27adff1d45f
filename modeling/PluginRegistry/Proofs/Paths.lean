import Mathlib.Data.List.Infix
import Mathlib.Data.List.TakeWhile
import Mathlib.Tactic.ByContra
import PluginRegistry.Files.Operation

/-!
# What a path names

There are no links, so the place that a path names is a matter of its parts alone (`Path.place`).
The file system only decides whether the path can be followed there: it has to have a directory at
every place the path passes (`Path.passed`). So two file systems that agree on these places follow
the path alike (`resolve_congr`), and a place that is passed and not left again with two dots lies
above the one that is named (`prefix_of_passed`).
-/

namespace PluginRegistry

namespace Path

def step (place : Place) (part : FileName) : Place :=
  if part = "" then place
  else if part = "." then place
  else if part = ".." then place.dropLast
  else place ++ [part]

def walk (place : Place) (parts : List FileName) : Place := parts.foldl step place

/-- The places from which the parts are followed. -/
def passes (place : Place) : List FileName → List Place
  | [] => []
  | part :: parts => place :: passes (step place part) parts

/-- The places that are left with two dots. -/
def leaves (place : Place) : List FileName → List Place
  | [] => []
  | part :: parts =>
    if part = ".." then place :: leaves (step place part) parts else leaves (step place part) parts

def place (p : Path) : Place := walk [] p.parts

/-- The places on the way along a path. -/
def passed (p : Path) : List Place := passes [] p.parts

/-- The places that a path steps back from. -/
def left (p : Path) : List Place := leaves [] p.parts

/-! ## Steps back -/

theorem passes_of_leaves {place : Place} {parts : List FileName} {v : Place}
    (hv : v ∈ leaves place parts) : v ∈ passes place parts := by
  induction parts generalizing place with
  | nil => exact hv
  | cons part parts ih =>
    rw [leaves] at hv
    split_ifs at hv
    · rcases List.mem_cons.mp hv with rfl | hv
      · exact List.mem_cons_self
      · exact List.mem_cons_of_mem _ (ih hv)
    · exact List.mem_cons_of_mem _ (ih hv)

/-- A place under which a walk starts, and which it does not leave, is above where it ends. -/
theorem prefix_walk {place : Place} {parts : List FileName} {v : Place} (hv : v <+: place)
    (hleft : v ∉ leaves place parts) : v <+: walk place parts := by
  induction parts generalizing place with
  | nil => exact hv
  | cons part parts ih =>
    show v <+: walk (step place part) parts
    apply ih
    · by_cases hdots : part = ".."
      · have hne : v ≠ place := by
          intro heq
          apply hleft
          rw [leaves, if_pos hdots, heq]
          exact List.mem_cons_self
        rcases List.eq_nil_or_concat place with rfl | ⟨above, name, rfl⟩
        · exact absurd (List.prefix_nil.mp hv) hne
        · simp only [step, hdots, List.concat_eq_append, List.dropLast_concat]
          rw [List.concat_eq_append] at hv hne
          exact (List.prefix_concat_iff.mp hv).resolve_left hne
      · unfold step
        split_ifs
        · exact hv
        · exact hv
        · exact hv.trans (List.prefix_append place [part])
    · intro hmem
      apply hleft
      rw [leaves]
      split_ifs
      · exact List.mem_cons_of_mem _ hmem
      · exact hmem

theorem prefix_of_passes {place : Place} {parts : List FileName} {v : Place}
    (hv : v ∈ passes place parts) (hleft : v ∉ leaves place parts) : v <+: walk place parts := by
  induction parts generalizing place with
  | nil => simp [passes] at hv
  | cons part parts ih =>
    rcases List.mem_cons.mp hv with rfl | hv
    · exact prefix_walk (List.prefix_refl v) hleft
    · apply ih hv
      intro hmem
      apply hleft
      rw [leaves]
      split_ifs
      · exact List.mem_cons_of_mem _ hmem
      · exact hmem

theorem prefix_of_passed {p : Path} {v : Place} (hv : v ∈ p.passed) (hleft : v ∉ p.left) :
    v <+: p.place :=
  prefix_of_passes hv hleft

/-- A place on the way along a path that lies below the place it names is left again. -/
theorem left_of_below {p : Path} {v : Place} {name : FileName} (hv : v ∈ p.passed ∨ v = p.place)
    (hbelow : p.place ++ [name] <+: v) : v ∈ p.left := by
  by_contra hleft
  have habove : v <+: p.place := by
    rcases hv with hv | rfl
    · exact prefix_of_passed hv hleft
    · exact List.prefix_refl _
  have hlength := (hbelow.trans habove).length_le
  rw [List.length_append, List.length_singleton] at hlength
  omega

theorem leaves_eq_nil (place : Place) {parts : List FileName} (h : ↑".." ∉ parts) :
    leaves place parts = [] := by
  induction parts generalizing place with
  | nil => rfl
  | cons part parts ih =>
    rw [List.mem_cons, not_or] at h
    rw [leaves, if_neg (Ne.symm h.1)]
    exact ih _ h.2

/-! ## The entries of a directory -/

/-- A name that an entry can have: not empty and not one or two dots. -/
def IsName (s : FileName) : Prop := s ≠ "" ∧ s ≠ "." ∧ s ≠ ".."

theorem step_name (place : Place) {name : FileName} (h : IsName name) :
    step place name = place ++ [name] := by
  unfold step
  rw [if_neg h.1, if_neg h.2.1, if_neg h.2.2]

theorem passes_append (place : Place) (parts more : List FileName) :
    passes place (parts ++ more) = passes place parts ++ passes (walk place parts) more := by
  induction parts generalizing place with
  | nil => rfl
  | cons part parts ih => simp only [List.cons_append, passes, ih]; rfl

theorem leaves_append (place : Place) (parts more : List FileName) :
    leaves place (parts ++ more) = leaves place parts ++ leaves (walk place parts) more := by
  induction parts generalizing place with
  | nil => rfl
  | cons part parts ih =>
    simp only [List.cons_append, leaves, ih]
    split_ifs <;> rfl

theorem walk_append (place : Place) (parts more : List FileName) :
    walk place (parts ++ more) = walk (walk place parts) more :=
  List.foldl_append

theorem directoryParts_cases (p : Path) :
    p.parts = p.directoryParts ∨ p.parts = p.directoryParts ++ [("" : FileName)] := by
  unfold directoryParts
  split_ifs with h
  · right
    exact (List.dropLast_append_getLast? _ h).symm
  · exact Or.inl rfl

theorem walk_directoryParts (p : Path) : walk [] p.directoryParts = p.place := by
  rcases p.directoryParts_cases with h | h
  · rw [place, ← h]
  · rw [place, h, walk_append]
    rfl

theorem passes_directoryParts_subset (p : Path) : passes [] p.directoryParts ⊆ p.passed := by
  rcases p.directoryParts_cases with h | h
  · rw [passed, ← h]
    exact List.Subset.refl _
  · rw [passed, h, passes_append]
    exact List.subset_append_left _ _

theorem place_child (p : Path) {name : FileName} (h : IsName name) :
    (p.child name).place = p.place ++ [name] := by
  show walk [] (p.directoryParts ++ [name]) = _
  rw [walk_append, walk_directoryParts]
  exact step_name p.place h

theorem mem_passed_child {p : Path} {name : FileName} {v : Place} :
    v ∈ (p.child name).passed ↔ v ∈ p.passed ∨ v = p.place := by
  show v ∈ passes [] (p.directoryParts ++ [name]) ↔ _
  rw [passes_append, walk_directoryParts, List.mem_append]
  show v ∈ passes [] p.directoryParts ∨ v ∈ [p.place] ↔ _
  rw [List.mem_singleton]
  rcases p.directoryParts_cases with h | h
  · rw [passed, ← h]
  · rw [passed, h, passes_append, walk_directoryParts, List.mem_append]
    show _ ↔ (_ ∨ v ∈ [p.place]) ∨ _
    rw [List.mem_singleton, or_assoc, or_self]

theorem mem_passes_directoryParts {p : Path} {v : Place} (hv : v ∈ p.passed ∨ v = p.place) :
    v ∈ passes [] p.directoryParts ∨ v = p.place := by
  have hchild := (@mem_passed_child p "" v).mpr hv
  change v ∈ passes [] (p.directoryParts ++ [("" : FileName)]) at hchild
  rw [passes_append, walk_directoryParts, List.mem_append] at hchild
  exact hchild.imp_right List.mem_singleton.mp

theorem directoryParts_child (p : Path) {name : FileName} (h : IsName name) :
    (p.child name).directoryParts = (p.child name).parts := by
  unfold directoryParts
  rw [if_neg]
  intro hlast
  apply h.1
  simpa [child] using hlast

theorem mem_left_child {p : Path} {name : FileName} (h : IsName name) {v : Place} :
    v ∈ (p.child name).left ↔ v ∈ p.left := by
  show v ∈ leaves [] (p.directoryParts ++ [name]) ↔ _
  rw [leaves_append, List.mem_append]
  have hname : leaves (walk [] p.directoryParts) [name] = [] := by
    simp only [leaves, if_neg h.2.2]
  rw [hname, left]
  rcases p.directoryParts_cases with hp | hp
  · rw [← hp]
    simp
  · rw [hp, leaves_append]
    simp [leaves]

theorem size_directoryParts_le (p : Path) : (⟨p.directoryParts⟩ : Path).size ≤ p.size := by
  simp only [size, ← List.sum_eq_foldr]
  rcases p.directoryParts_cases with h | h
  · rw [← h]
  · rw [h, List.map_append, List.sum_append, List.length_append]
    omega

theorem size_child (p : Path) : ∃ n ≤ p.size + 1, ∀ name, (p.child name).size = n + name.size := by
  refine ⟨(⟨p.directoryParts⟩ : Path).size + if p.directoryParts = [] then 0 else 1, ?_,
    fun name => ?_⟩
  · have := p.size_directoryParts_le
    split_ifs <;> omega
  · simp only [size, child, ← List.sum_eq_foldr]
    rw [List.map_append, List.sum_append, List.length_append]
    cases p.directoryParts with
    | nil => simp
    | cons part parts => simp; omega

theorem size_child_child (p : Path) {a : FileName} (ha : IsName a) (b : FileName) :
    ((p.child a).child b).size = (p.child a).size + 1 + b.size := by
  have hlength : (p.child a).parts.length = p.directoryParts.length + 1 := by
    simp [child]
  show (⟨(p.child a).directoryParts ++ [b]⟩ : Path).size = _
  simp only [size, ← List.sum_eq_foldr]
  rw [directoryParts_child p ha, List.map_append, List.sum_append, List.length_append, hlength]
  simp only [List.map_cons, List.map_nil, List.sum_cons, List.sum_nil, List.length_cons,
    List.length_nil]
  omega

/-! ## The last part -/

theorem walk_idle (place : Place) {parts : List FileName}
    (h : ∀ part ∈ parts, part = "" ∨ part = ".") : walk place parts = place := by
  induction parts with
  | nil => rfl
  | cons part parts ih =>
    have hstep : step place part = place := by
      unfold step
      rcases h part List.mem_cons_self with rfl | rfl
      · exact if_pos rfl
      · rw [if_neg (by decide), if_pos rfl]
    show walk (step place part) parts = place
    rw [hstep, ih fun x hx => h x (List.mem_cons_of_mem _ hx)]

theorem of_split? {p : Path} {before : List FileName} {name : FileName} {slash : Bool}
    (h : p.split? = some (before, name, slash)) :
    name ≠ "" ∧ ∃ slashes, p.parts = before ++ name :: slashes ∧ ∀ part ∈ slashes, part = "" := by
  unfold split? at h
  have hparts := List.takeWhile_append_dropWhile (p := fun part : FileName => part = "")
    (l := p.parts.reverse)
  cases hdrop : p.parts.reverse.dropWhile fun part : FileName => part = "" with
  | nil => rw [hdrop] at h; cases h
  | cons last above =>
    rw [hdrop] at h hparts
    cases h
    constructor
    · have hhead := List.head?_dropWhile_not (fun part : FileName => part = "") p.parts.reverse
      rw [hdrop] at hhead
      simpa using hhead
    · refine ⟨(p.parts.reverse.takeWhile fun part : FileName => part = "").reverse, ?_, ?_⟩
      · have := congrArg List.reverse hparts
        simpa using this.symm
      · intro part hpart
        have := List.mem_takeWhile_imp (List.mem_reverse.mp hpart)
        simpa using this

theorem place_of_split? {p : Path} {before : List FileName} {name : FileName} {slash : Bool}
    (h : p.split? = some (before, name, slash)) : p.place = step (walk [] before) name := by
  obtain ⟨-, slashes, hparts, hslashes⟩ := of_split? h
  rw [place, hparts, walk_append]
  exact walk_idle _ fun part hpart => Or.inl (hslashes part hpart)

theorem split?_child (p : Path) {name : FileName} (h : IsName name) :
    (p.child name).split? = some (p.directoryParts, name, false) := by
  unfold split? child
  simp [h.1]

/-! ## The directories above a path -/

theorem mem_above {parts : List FileName} {p : Path} (h : p ∈ above parts) :
    ∃ front part rest, parts = front ++ part :: rest ∧ p = ⟨(trim rest).reverse⟩ := by
  induction parts with
  | nil => simp [above] at h
  | cons part parts ih =>
    have htail : p ∈ above parts → ∃ front next rest,
        part :: parts = front ++ next :: rest ∧ p = ⟨(trim rest).reverse⟩ := by
      intro hmem
      obtain ⟨front, next, rest, rfl, hp⟩ := ih hmem
      exact ⟨part :: front, next, rest, rfl, hp⟩
    unfold above at h
    split_ifs at h
    · exact htail h
    · rcases List.mem_cons.mp h with rfl | h
      · exact ⟨[], part, parts, rfl, rfl⟩
      · exact htail h

theorem walk_trim (parts : List FileName) :
    walk [] (trim parts).reverse = walk [] parts.reverse := by
  let front := parts.takeWhile fun part : FileName => part = "" || part = "."
  have hfront : ∀ part ∈ front.reverse, part = "" ∨ part = "." := by
    intro part hpart
    have := List.mem_takeWhile_imp (List.mem_reverse.mp hpart)
    simpa using this
  calc walk [] (trim parts).reverse
      = walk (walk [] (trim parts).reverse) front.reverse := (walk_idle _ hfront).symm
    _ = walk [] (front ++ trim parts).reverse := by rw [← walk_append, ← List.reverse_append]
    _ = walk [] parts.reverse := by rw [trim, List.takeWhile_append_dropWhile]

theorem place_of_lineage {p q : Path} (h : q ∈ p.lineage) :
    q.place ∈ p.passed ∨ q.place = p.place := by
  rcases List.mem_cons.mp h with rfl | h
  · exact Or.inr rfl
  · left
    obtain ⟨front, part, rest, hparts, rfl⟩ := mem_above h
    show walk [] (trim rest).reverse ∈ passes [] p.parts
    rw [walk_trim, ← List.reverse_reverse p.parts, hparts, List.reverse_append, List.reverse_cons,
      List.append_assoc, passes_append]
    exact List.mem_append_right _ List.mem_cons_self

end Path

end PluginRegistry

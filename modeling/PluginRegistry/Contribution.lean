import PluginRegistry.Object

/-!
# Contributions

A `Contribution` lists what one contributor brought in: its extension points and its extensions.
In a cache it is one flat array, the two counts followed by the ids, which `raw` writes and
`ofRaw?` reads. `ofRaw?_raw` and `raw_of_ofRaw?` say that the two agree.
-/

namespace PluginRegistry

/-- The points and extensions of one contributor, each in the order they were added. -/
structure Contribution where
  contributor : ContributorId
  ns : String
  points : List ObjectId
  extensions : List ObjectId
  deriving DecidableEq, Repr

namespace Contribution

/-- The number of points, the number of extensions, the point ids, the extension ids. -/
def raw (c : Contribution) : List UInt32 :=
  c.points.length.toUInt32 :: c.extensions.length.toUInt32 ::
    (c.points.map (·.val) ++ c.extensions.map (·.val))

/-- The contribution that a flat array describes, when its counts match its length. -/
def ofRaw? (contributor : ContributorId) (ns : String) : List UInt32 → Option Contribution
  | points :: extensions :: ids =>
    if ids.length = points.toNat + extensions.toNat then
      some {
        contributor, ns
        points := (ids.take points.toNat).map ObjectId.mk
        extensions := (ids.drop points.toNat).map ObjectId.mk }
    else none
  | _ => none

/-- A contribution with the ids of a later one from the same contributor added at the end. -/
def merge (c later : Contribution) : Contribution :=
  { c with
    points := c.points ++ later.points
    extensions := c.extensions ++ later.extensions }

/-! ## The flat array -/

private theorem map_mk_map_val (ids : List ObjectId) : (ids.map (·.val)).map ObjectId.mk = ids := by
  induction ids with
  | nil => rfl
  | cons id ids ih => simp [ih]

theorem ofRaw?_raw (c : Contribution) (hp : c.points.length < UInt32.size)
    (he : c.extensions.length < UInt32.size) : ofRaw? c.contributor c.ns c.raw = some c := by
  have hp' : c.points.length.toUInt32.toNat = c.points.length := UInt32.toNat_ofNat_of_lt' hp
  have he' : c.extensions.length.toUInt32.toNat = c.extensions.length :=
    UInt32.toNat_ofNat_of_lt' he
  unfold ofRaw? raw
  simp only [hp', he', List.length_append, List.length_map, if_true, Option.some.injEq]
  have ht : (c.points.map (·.val) ++ c.extensions.map (·.val)).take c.points.length =
      c.points.map (·.val) := by simp
  have hd : (c.points.map (·.val) ++ c.extensions.map (·.val)).drop c.points.length =
      c.extensions.map (·.val) := by simp
  rw [ht, hd, map_mk_map_val, map_mk_map_val]

theorem raw_of_ofRaw? {contributor : ContributorId} {ns : String} {array : List UInt32}
    {c : Contribution} (h : ofRaw? contributor ns array = some c) :
    c.contributor = contributor ∧ c.ns = ns ∧ c.raw = array := by
  match array with
  | [] => simp [ofRaw?] at h
  | [_] => simp [ofRaw?] at h
  | p :: e :: ids =>
    simp only [ofRaw?] at h
    split at h
    · rename_i hl
      simp only [Option.some.injEq] at h
      subst h
      have hval : ∀ xs : List UInt32, (xs.map ObjectId.mk).map (·.val) = xs := by
        intro xs
        induction xs with
        | nil => rfl
        | cons x xs ih => simp only [List.map_cons, ih]
      refine ⟨rfl, rfl, ?_⟩
      simp only [raw, hval, List.length_map, List.take_append_drop, List.length_take,
        List.length_drop, hl]
      simp
    · simp at h

end Contribution

end PluginRegistry

import Mathlib.Data.List.Nodup
import PluginRegistry.Proofs.Decodings
import PluginRegistry.Proofs.Reloads

/-!
# The links of a store that came from a cache

`Links.Proper` is what the linker keeps of the points, the extensions and the orphan buckets of a
store: each extension is at its one place. The integrity check looks at references one by one, so
it gives less: whatever is linked or waits is a live extension (`Links.Live`). Nor does building a
store repair anything; its links are those that the parts have as lists (`links_ofParts`), and they
are proper if the parts were those of a store to which writes led (`links_of_decode`).
-/

namespace PluginRegistry

/-! ## Proper links -/

/-- What links are among: points and extensions by id, orphan buckets by the point they wait for. -/
structure Links where
  point? : ObjectId → Option ExtensionPoint
  extension? : ObjectId → Option Extension
  bucket? : String → Option (List ObjectId)

namespace Links

/-- An extension is once in the child list of the point it targets, and nowhere else. -/
structure IsChild (l : Links) (id : ObjectId) (e : Extension) : Prop where
  once : ∃ i p, l.point? i = some p ∧ p.uniqueId = e.target ∧ p.children.count id = 1 ∧
    ∀ j q, l.point? j = some q → id ∈ q.children → j = i
  no_orphan : ∀ u bucket, l.bucket? u = some bucket → id ∉ bucket

/-- An extension is in the bucket of the point it targets, which there is not, and nowhere else. -/
structure IsOrphan (l : Links) (id : ObjectId) (e : Extension) : Prop where
  waits : ∃ bucket, l.bucket? e.target = some bucket ∧ id ∈ bucket
  once : ∀ u bucket, l.bucket? u = some bucket → id ∈ bucket → u = e.target
  no_point : ∀ i p, l.point? i = some p → p.uniqueId ≠ e.target
  no_child : ∀ i p, l.point? i = some p → id ∉ p.children

/-- Every extension is at its one place, and no name has two points. -/
structure Proper (l : Links) : Prop where
  placed : ∀ id e, l.extension? id = some e → l.IsChild id e ∨ l.IsOrphan id e
  point_unique : ∀ i j p q, l.point? i = some p → l.point? j = some q →
    p.uniqueId = q.uniqueId → i = j
  children_nodup : ∀ i p, l.point? i = some p → p.children.Nodup
  bucket_nodup : ∀ u bucket, l.bucket? u = some bucket → bucket.Nodup

/-- All that is in a child list or in a bucket is a live extension. -/
structure Live (l : Links) : Prop where
  child : ∀ i p, l.point? i = some p → ∀ id ∈ p.children, ∃ e, l.extension? id = some e
  orphan : ∀ u bucket, l.bucket? u = some bucket → ∀ id ∈ bucket, ∃ e, l.extension? id = some e

end Links

def Store.links (s : Store) : Links := ⟨s.point?, s.extension?, s.orphansOf?⟩

namespace Parts

def object? (parts : Parts) (id : ObjectId) : Option RegistryObject :=
  parts.objects.find? (·.id = id)

/-- The links as the lists have them. Of two buckets for one point the later one counts. -/
def links (parts : Parts) : Links where
  point? id := (parts.object? id).bind RegistryObject.point?
  extension? id := (parts.object? id).bind RegistryObject.extension?
  bucket? u := parts.orphans.reverse.lookup u

variable {parts : Parts}

theorem object?_eq_some_iff (h : parts.Intact) {id : ObjectId} {o : RegistryObject} :
    parts.object? id = some o ↔ o ∈ parts.objects ∧ o.id = id := by
  constructor
  · intro ho
    exact ⟨List.mem_of_find?_eq_some ho, by simpa using List.find?_some ho⟩
  · rintro ⟨hmem, rfl⟩
    cases ho : parts.object? o.id with
    | none => simpa using List.find?_eq_none.1 ho o hmem
    | some o' =>
      have hid : o'.id = o.id := by simpa using List.find?_some ho
      have hnodup : (parts.objects.map RegistryObject.id).Nodup :=
        List.pairwise_map.2 h.ids_distinct
      rw [List.inj_on_of_nodup_map hnodup (List.mem_of_find?_eq_some ho) hmem hid]

theorem HasObject.extension? (h : parts.Intact) {id : ObjectId}
    (hid : parts.HasObject .extension id) : ∃ e, parts.links.extension? id = some e := by
  obtain ⟨o, hmem, hoid, hkind⟩ := hid
  have ho := (object?_eq_some_iff h).2 ⟨hmem, hoid⟩
  cases o with
  | point p => cases hkind
  | element e => cases hkind
  | extension e => exact ⟨e, by simp [links, ho, RegistryObject.extension?]⟩

theorem Intact.live (h : parts.Intact) : parts.links.Live where
  child id p hp child hchild := by
    obtain ⟨o, ho, hpoint⟩ := Option.bind_eq_some_iff.1 hp
    cases o with
    | point q =>
      cases hpoint
      have hmem := ((object?_eq_some_iff h).1 ho).1
      exact (h.child _ hmem child hchild).extension? h
    | extension e => cases hpoint
    | element e => cases hpoint
  orphan u bucket hb id hid := by
    obtain ⟨before, after, hreverse, -⟩ := List.lookup_eq_some_iff.1 hb
    have hmem : (u, bucket) ∈ parts.orphans := by
      rw [← List.mem_reverse, hreverse]
      simp
    exact (h.orphans _ hmem id hid).extension? h

end Parts

namespace Store

/-! ## Building keeps the links -/

theorem getElem?_ofList {β : Type} (pairs : List (String × β)) (u : String) :
    (Std.ExtTreeMap.ofList pairs)[u]? = pairs.reverse.lookup u := by
  have hfold : ∀ m : Std.ExtTreeMap String β,
      (pairs.foldl (fun m pair => m.insert pair.1 pair.2) m)[u]? =
        (pairs.reverse.lookup u).or m[u]? := by
    induction pairs with
    | nil => intro m; rfl
    | cons pair pairs ih =>
      intro m
      rw [List.foldl_cons, ih, List.reverse_cons, List.lookup_append, Option.or_assoc]
      congr 1
      rw [Std.ExtTreeMap.getElem?_insert, List.lookup_cons, List.lookup_nil]
      by_cases heq : u = pair.1
      · simp [heq]
      · simp [beq_false_of_ne heq, Ne.symm heq]
  rw [Std.ExtTreeMap.ofList_eq_foldl, hfold]
  simp

theorem object?_ofParts {parts : Parts} (h : parts.Intact) (id : ObjectId) :
    (ofParts parts).object? id = parts.object? id := by
  obtain ⟨-, hthere, hother⟩ := object?_foldl_put parts.objects (blank parts.nextId.toNat)
    h.ids_distinct fun o ho => by
      rw [nextId_blank]
      exact UInt32.lt_iff_toNat_lt.1 (h.id_lt o ho)
  have hslots : (ofParts parts).object? id =
      (parts.objects.foldl (fun (s : Store) o => s.put o false)
        (blank parts.nextId.toNat)).object? id := rfl
  rw [hslots]
  cases ho : parts.object? id with
  | some o =>
    obtain ⟨hmem, rfl⟩ := (Parts.object?_eq_some_iff h).1 ho
    exact hthere o hmem
  | none =>
    rw [hother id fun o hmem hid => ?_, object?_blank]
    rw [(Parts.object?_eq_some_iff h).2 ⟨hmem, hid⟩] at ho
    cases ho

theorem links_ofParts {parts : Parts} (h : parts.Intact) : (ofParts parts).links = parts.links := by
  have horphans : (ofParts parts).orphansOf? = fun u => parts.orphans.reverse.lookup u :=
    funext fun u => getElem?_ofList parts.orphans u
  unfold links Parts.links
  rw [horphans]
  congr 1
  · funext id
    rw [point?, object?_ofParts h]
  · funext id
    rw [extension?, object?_ofParts h]

/-! ## Links that writes lead to -/

theorem Whole.target_of_child {s : Store} (h : s.Whole) {i id : ObjectId} {p : ExtensionPoint}
    {e : Extension} (hp : s.point? i = some p) (hid : id ∈ p.children)
    (he : s.extension? id = some e) : p.uniqueId = e.target := by
  have hown := h.settled.sound.point_id hp
  subst hown
  have hnamed := h.settled.sound.pointNamed?_eq_some_iff.2 ⟨hp, rfl⟩
  obtain ⟨hlists, -⟩ := (h.settled.linked p.uniqueId).lit p hnamed (by simp)
  obtain ⟨-, e', he', hu⟩ := (hlists.mem_iff id).1 hid
  rw [he] at he'
  cases he'
  exact hu.symm

theorem Whole.target_of_orphan {s : Store} (h : s.Whole) {u : String} {bucket : List ObjectId}
    {id : ObjectId} {e : Extension} (hb : s.orphansOf? u = some bucket) (hid : id ∈ bucket)
    (he : s.extension? id = some e) : u = e.target := by
  obtain ⟨-, e', he', hu⟩ := ((h.orphans hb).2.mem_iff id).1 hid
  rw [he] at he'
  cases he'
  exact hu.symm

/-- Between two writes the links are proper. -/
theorem Whole.proper {s : Store} (h : s.Whole) : s.links.Proper where
  placed id e he := by
    have hattached : s.Attached [] e.target id := ⟨List.not_mem_nil, e, he, rfl⟩
    cases hnamed : s.pointNamed? e.target with
    | some p =>
      obtain ⟨hp, hu⟩ := h.settled.sound.pointNamed?_eq_some_iff.1 hnamed
      obtain ⟨hlists, hbucket⟩ := (h.settled.linked e.target).lit p hnamed (by simp)
      have hmem := (hlists.mem_iff id).2 hattached
      refine .inl
        { once := ⟨p.id, p, hp, hu, List.count_eq_one_of_mem hlists.nodup hmem,
            fun j q hq hid => h.settled.sound.point_unique hq hp
              ((h.target_of_child hq hid he).trans hu.symm)⟩
          no_orphan := fun u bucket hb hid => ?_ }
      obtain rfl := h.target_of_orphan hb hid he
      rw [show s.orphansOf? e.target = some bucket from hb] at hbucket
      cases hbucket
    | none =>
      have hnone := h.settled.sound.pointNamed?_eq_none_iff.1 hnamed
      obtain ⟨hlists, -⟩ := (h.settled.linked e.target).parked (by simp [hnamed])
      have hmem := (hlists.mem_iff id).2 hattached
      refine .inr
        { waits := ?_
          once := fun u bucket hb hid => h.target_of_orphan hb hid he
          no_point := hnone
          no_child := fun i p hp hid => hnone i p hp (h.target_of_child hp hid he) }
      cases hb : s.orphansOf? e.target with
      | none =>
        rw [hb, Option.getD_none] at hmem
        cases hmem
      | some bucket =>
        rw [hb, Option.getD_some] at hmem
        exact ⟨bucket, hb, hmem⟩
  point_unique i j p q hp hq hu := h.settled.sound.point_unique hp hq hu
  children_nodup i p hp := h.settled.linked.nodup_children h.settled.sound hp
  bucket_nodup u bucket hb := (h.orphans hb).2.nodup

end Store

/-! ## Links that come out of a cache -/

namespace Cache.Image

/-- A store built from decoded parts links nothing but live extensions, and its links are proper
if and only if they are so in the lists. They are if the image was made of a store to which writes
led, which can be decoded. -/
theorem links_of_decode (f : UInt64) :
    (∀ (image : Image) (parts : Parts), image.decode f = .ok parts →
      (Store.ofParts parts).links.Live ∧
        ((Store.ofParts parts).links.Proper ↔ parts.links.Proper)) ∧
    ∀ s : Store, s.Reachable → s.InMemory → s.nextId < UInt32.size →
      (layOut 0 0 s.toParts.objects).2.length < UInt32.size →
        (encode s.toParts f).decode f = .ok s.toParts ∧
          (Store.ofParts s.toParts).links.Proper := by
  refine ⟨fun image parts h => ?_, fun s hs hm hn hmain => ?_⟩
  · have hintact := (holds_of_decode h).intact
    rw [Store.links_ofParts hintact]
    exact ⟨hintact.live, Iff.rfl⟩
  · have hwhole := hs.whole hn.le
    obtain ⟨hdecode, hsame⟩ := hwhole.reload hm hn hmain f
    rw [hsame]
    exact ⟨hdecode, hwhole.proper⟩

/-- Parts that pass the check though one of their extensions is a child twice and waits twice for
another point, and the other one is nowhere. -/
def strayed : Parts where
  nextId := 4
  objects := [
    .point ⟨⟨0⟩, "ui.menu", "Menu", none, "ui", ⟨1⟩, ⟨1⟩, [⟨2⟩, ⟨2⟩]⟩,
    .point ⟨⟨1⟩, "ui.menu", "Menu", none, "ui", ⟨1⟩, ⟨1⟩, []⟩,
    .extension ⟨⟨2⟩, some "save", "Save", "ui.menu", "tools", ⟨2⟩, []⟩,
    .extension ⟨⟨3⟩, some "quit", "Quit", "ui.menu", "tools", ⟨2⟩, []⟩]
  contributions := [⟨⟨1⟩, "ui", [⟨0⟩, ⟨1⟩], []⟩, ⟨⟨2⟩, "tools", [], [⟨2⟩, ⟨3⟩]⟩]
  orphans := [("ui.bar", [⟨2⟩, ⟨2⟩])]

theorem decode_strayed : (encode strayed 7).decode 7 = .ok strayed := by
  have hfits : Fits strayed := by
    refine ⟨?_, ?_, ?_, ?_, ?_⟩ <;> decide +kernel
  exact decode_of_checked hfits (by decide +kernel) rfl 7

open Registry (sampleParted) in
theorem links_of_decode_samples : (Store.ofParts strayed).links.Live ∧
    sampleParted.objects.orphansOf? "ui.menu" = some [⟨0⟩] ∧
      (encode sampleParted.objects.toParts 7).decode 7 = .ok sampleParted.objects.toParts ∧
      (Store.ofParts sampleParted.objects.toParts).links.Proper := by
  obtain ⟨hdecoded, hwritten⟩ := links_of_decode 7
  exact ⟨(hdecoded _ strayed decode_strayed).1, by decide +kernel,
    hwritten _ (.write _ _ (.write _ _ (.write _ _ .empty)))
      ⟨by decide +kernel, by decide +kernel, by decide +kernel⟩ (by decide +kernel)
      (by decide +kernel)⟩

/-- Decoding accepts links that are not proper, whichever of the conditions one looks at. -/
theorem improper_strayed : (encode strayed 7).decode 7 = .ok strayed ∧
    let links := (Store.ofParts strayed).links
    ¬links.Proper ∧
    (∃ e, links.extension? ⟨3⟩ = some e ∧ ¬links.IsChild ⟨3⟩ e ∧ ¬links.IsOrphan ⟨3⟩ e) ∧
    (∃ p q, links.point? ⟨0⟩ = some p ∧ links.point? ⟨1⟩ = some q ∧ p.uniqueId = q.uniqueId ∧
      ¬p.children.Nodup) ∧
    ∃ bucket, links.bucket? "ui.bar" = some bucket ∧ ¬bucket.Nodup := by
  refine ⟨decode_strayed, ?_⟩
  rw [Store.links_ofParts (holds_of_decode decode_strayed).intact]
  have hpoints : strayed.links.point? ⟨0⟩ = some ⟨⟨0⟩, "ui.menu", "Menu", none, "ui", ⟨1⟩, ⟨1⟩,
      [⟨2⟩, ⟨2⟩]⟩ ∧ strayed.links.point? ⟨1⟩ = some ⟨⟨1⟩, "ui.menu", "Menu", none, "ui", ⟨1⟩, ⟨1⟩,
      []⟩ := ⟨rfl, rfl⟩
  have hbucket : strayed.links.bucket? "ui.bar" = some [⟨2⟩, ⟨2⟩] := rfl
  refine ⟨fun h => ?_, ⟨_, rfl, fun h => ?_, fun h => ?_⟩, ⟨_, _, hpoints.1, hpoints.2, rfl, ?_⟩,
    ⟨_, hbucket, ?_⟩⟩
  · exact absurd (h.bucket_nodup _ _ hbucket) (by decide)
  · obtain ⟨i, p, hp, -, hcount, -⟩ := h.once
    obtain ⟨o, ho, hpoint⟩ := Option.bind_eq_some_iff.1 hp
    have hnone : ∀ o ∈ strayed.objects, ⟨3⟩ ∉ o.children := by decide
    cases o with
    | point q =>
      cases hpoint
      have hmem : ⟨3⟩ ∈ p.children := List.one_le_count_iff.1 hcount.ge
      exact hnone _ (List.mem_of_find?_eq_some ho) hmem
    | extension e => cases hpoint
    | element e => cases hpoint
  · exact h.no_point ⟨0⟩ _ hpoints.1 rfl
  · decide
  · decide

end Cache.Image

end PluginRegistry

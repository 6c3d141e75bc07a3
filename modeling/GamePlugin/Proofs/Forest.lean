import GamePlugin.Outline
import GamePlugin.Proofs.Chunks

/-!
# Forests of chunks

A forest is a run of chunks in which every group is cut into a forest of its own. It is the shape
of a file, and both the outline of a file and what loading finds in it are read off it.

`Outline.walk` succeeds exactly on the ranges that a forest fills, and adds the entries of that
forest (`Outline.walk_eq_ok_iff`). So what holds of all forests holds of all outlines, and a proof
about outlines is an induction on forests: one case for a record, one for a group.

## Main definitions

* `Forest`, `Forest.Fills` — a forest, and the range of a file that it is the shape of.
* `Forest.placed` — its chunks in file order, each with the group that holds it;
  `Forest.recordEntries`, `Forest.groupEntries` — the same as an outline lists them.
-/

namespace GamePlugin

/-- Chunks in a row, each group with the chunks in it. -/
inductive Forest where
  | nil
  | record (header : RecordHeader) (rest : Forest)
  | group (header : GroupHeader) (inside rest : Forest)
deriving DecidableEq

/-- A chunk and the index of the group that directly holds it. -/
structure Placed where
  owner : Option Nat
  chunk : Chunk

/-- A placed record as an entry of an outline. -/
def Placed.record? (p : Placed) : Option Outline.RecordEntry :=
  p.chunk.record?.map (⟨·, p.owner⟩)

/-- A placed group as an entry of an outline. -/
def Placed.group? (p : Placed) : Option Outline.GroupEntry :=
  p.chunk.group?.map (⟨·, p.owner⟩)

section

variable (owner : Option Nat) (r : RecordHeader) (g : GroupHeader)

@[simp] theorem Placed.record?_record : Placed.record? ⟨owner, .record r⟩ = some ⟨r, owner⟩ := rfl
@[simp] theorem Placed.record?_group : Placed.record? ⟨owner, .group g⟩ = none := rfl
@[simp] theorem Placed.group?_record : Placed.group? ⟨owner, .record r⟩ = none := rfl
@[simp] theorem Placed.group?_group : Placed.group? ⟨owner, .group g⟩ = some ⟨g, owner⟩ := rfl

end

namespace Forest

/-- The range from `pos` up to `stop` holds the forest: its chunks follow one another from `pos` to
`stop`, and what a group holds fills the group's payload. -/
def Fills (image : Image) (schema : Schema) : Forest → (pos stop : Nat) → Prop
  | nil, pos, stop => pos = stop
  | record h rest, pos, stop =>
    pos < stop ∧ Chunk.read image schema pos none = .ok (.record h) ∧
      rest.Fills image schema h.stop stop
  | group h inside rest, pos, stop =>
    pos < stop ∧ Chunk.read image schema pos none = .ok (.group h) ∧
      inside.Fills image schema h.position h.stop ∧ rest.Fills image schema h.stop stop

/-- The outermost chunks. -/
def chunks : Forest → List Chunk
  | nil => []
  | record h rest => .record h :: rest.chunks
  | group h _ rest => .group h :: rest.chunks

/-- How many groups there are at any depth. -/
def groupCount : Forest → Nat
  | nil => 0
  | record _ rest => rest.groupCount
  | group _ inside rest => inside.groupCount + 1 + rest.groupCount

/-- One forest after another. -/
def append : Forest → Forest → Forest
  | nil, g => g
  | record h rest, g => record h (rest.append g)
  | group h inside rest, g => group h inside (rest.append g)

/-- All chunks at any depth, in file order, each group before what it holds. The outermost ones are
in group `owner`, and `n` groups have been listed before. -/
def placed : Forest → (owner : Option Nat) → (n : Nat) → List Placed
  | nil, _, _ => []
  | record h rest, owner, n => ⟨owner, .record h⟩ :: rest.placed owner n
  | group h inside rest, owner, n =>
    ⟨owner, .group h⟩ :: (inside.placed (some n) (n + 1) ++
      rest.placed owner (n + 1 + inside.groupCount))

/-- The records at any depth, as an outline lists them. -/
def recordEntries (f : Forest) (owner : Option Nat) (n : Nat) : List Outline.RecordEntry :=
  (f.placed owner n).filterMap Placed.record?

/-- The groups at any depth, as an outline lists them. -/
def groupEntries (f : Forest) (owner : Option Nat) (n : Nat) : List Outline.GroupEntry :=
  (f.placed owner n).filterMap Placed.group?

section Entries

variable (owner : Option Nat) (n : Nat)

@[simp] theorem recordEntries_nil : nil.recordEntries owner n = [] := rfl

@[simp] theorem recordEntries_record (h : RecordHeader) (rest : Forest) :
    (record h rest).recordEntries owner n = ⟨h, owner⟩ :: rest.recordEntries owner n := rfl

@[simp] theorem recordEntries_group (h : GroupHeader) (inside rest : Forest) :
    (group h inside rest).recordEntries owner n =
      inside.recordEntries (some n) (n + 1) ++
        rest.recordEntries owner (n + 1 + inside.groupCount) :=
  List.filterMap_append

@[simp] theorem groupEntries_nil : nil.groupEntries owner n = [] := rfl

@[simp] theorem groupEntries_record (h : RecordHeader) (rest : Forest) :
    (record h rest).groupEntries owner n = rest.groupEntries owner n := rfl

@[simp] theorem groupEntries_group (h : GroupHeader) (inside rest : Forest) :
    (group h inside rest).groupEntries owner n =
      ⟨h, owner⟩ :: (inside.groupEntries (some n) (n + 1) ++
        rest.groupEntries owner (n + 1 + inside.groupCount)) :=
  congrArg (List.cons (Outline.GroupEntry.mk h owner)) List.filterMap_append

@[simp] theorem length_groupEntries (f : Forest) :
    (f.groupEntries owner n).length = f.groupCount := by
  induction f generalizing owner n with
  | nil => rfl
  | record h rest ih => exact ih owner n
  | group h inside rest ihi ihr =>
    simp only [groupEntries_group, groupCount, List.length_cons, List.length_append, ihi, ihr]
    omega

theorem placed_append (f g : Forest) :
    (f.append g).placed owner n = f.placed owner n ++ g.placed owner (n + f.groupCount) := by
  induction f generalizing n with
  | nil => rfl
  | record h rest ih => simp [append, placed, groupCount, ih]
  | group h inside rest _ ih => simp [append, placed, groupCount, ih, Nat.add_assoc, Nat.add_comm 1]

theorem recordEntries_append (f g : Forest) :
    (f.append g).recordEntries owner n =
      f.recordEntries owner n ++ g.recordEntries owner (n + f.groupCount) := by
  rw [recordEntries, placed_append, List.filterMap_append]
  rfl

theorem groupEntries_append (f g : Forest) :
    (f.append g).groupEntries owner n =
      f.groupEntries owner n ++ g.groupEntries owner (n + f.groupCount) := by
  rw [groupEntries, placed_append, List.filterMap_append]
  rfl

end Entries

variable {image : Image} {schema : Schema}

/-- A forest that fills a range cuts it into its outermost chunks. -/
theorem Fills.run {f : Forest} {pos stop : Nat} (H : f.Fills image schema pos stop) :
    Chunk.Run image schema f.chunks pos stop := by
  induction f generalizing pos stop with
  | nil => exact H
  | record h rest ih => exact ⟨H.1, H.2.1, ih H.2.2⟩
  | group h inside rest _ ih => exact ⟨H.1, H.2.1, ih H.2.2.2⟩

/-- A forest that fills a file starts with the chunk that is read there. -/
theorem Fills.exists_rest {f : Forest} {c : Chunk} (H : f.Fills image schema 0 image.size)
    (hread : Chunk.read image schema 0 none = .ok c) :
    ∃ cs, f.chunks = c :: cs ∧ Chunk.Run image schema cs c.stop image.size := by
  have hrun := H.run
  cases hcs : f.chunks with
  | nil =>
    rw [hcs] at hrun
    exact absurd hrun (Nat.ne_of_lt (Chunk.lt_size_of_read hread))
  | cons d cs =>
    rw [hcs] at hrun
    cases hread.symm.trans hrun.2.1
    exact ⟨cs, rfl, hrun.2.2⟩

theorem Fills.le {f : Forest} {pos stop : Nat} (H : f.Fills image schema pos stop) : pos ≤ stop :=
  H.run.le

theorem Fills.append {f g : Forest} {pos mid stop : Nat} (hf : f.Fills image schema pos mid)
    (hg : g.Fills image schema mid stop) : (f.append g).Fills image schema pos stop := by
  have hle := hg.le
  induction f generalizing pos with
  | nil => exact (show pos = mid from hf) ▸ hg
  | record h rest ih => exact ⟨Nat.lt_of_lt_of_le hf.1 hle, hf.2.1, ih hf.2.2⟩
  | group h inside rest _ ih =>
    exact ⟨Nat.lt_of_lt_of_le hf.1 hle, hf.2.1, hf.2.2.1, ih hf.2.2.2⟩

/-! ## Who holds what -/

section Placed

variable {owner : Option Nat} {n : Nat}

/-- A chunk is held by the owner of the forest or by a group that the forest lists. -/
theorem owner_of_mem_placed {f : Forest} {p : Placed} (hp : p ∈ f.placed owner n) :
    p.owner = owner ∨ ∃ i, p.owner = some i ∧ n ≤ i ∧ i < n + f.groupCount := by
  induction f generalizing owner n with
  | nil => cases hp
  | record h rest ih =>
    rcases List.mem_cons.mp hp with rfl | hp
    · exact .inl rfl
    · exact ih hp
  | group h inside rest ihi ihr =>
    simp only [placed, List.mem_cons, List.mem_append] at hp
    simp only [groupCount]
    rcases hp with rfl | hp | hp
    · exact .inl rfl
    · right
      rcases ihi hp with hi | ⟨i, hi, hlo, hhi⟩
      · exact ⟨n, hi, Nat.le_refl n, by omega⟩
      · exact ⟨i, hi, by omega, by omega⟩
    · rcases ihr hp with hi | ⟨i, hi, hlo, hhi⟩
      · exact .inl hi
      · exact .inr ⟨i, hi, by omega, by omega⟩

/-- Nothing in a forest is held by a group listed elsewhere. -/
theorem filter_placed_eq_nil {f : Forest} {i : Nat} (hi : i < n ∨ n + f.groupCount ≤ i)
    (howner : owner ≠ some i) : (f.placed owner n).filter (·.owner = some i) = [] := by
  rw [List.filter_eq_nil_iff]
  intro p hp heq
  have hsome : p.owner = some i := of_decide_eq_true heq
  rcases owner_of_mem_placed hp with ho | ⟨j, hj, hlo, hhi⟩
  · exact howner (ho.symm.trans hsome)
  · have : i = j := Option.some.inj (hsome.symm.trans hj)
    omega

/-- The owner of a forest directly holds its outermost chunks. -/
theorem filter_placed_owner {f : Forest} (howner : ∀ i, owner = some i → i < n) :
    ((f.placed owner n).filter (·.owner = owner)).map (·.chunk) = f.chunks := by
  induction f generalizing n with
  | nil => rfl
  | record h rest ih => simp [placed, chunks, ih howner]
  | group h inside rest _ ih =>
    have hinside : (inside.placed (some n) (n + 1)).filter (·.owner = owner) = [] := by
      rw [List.filter_eq_nil_iff]
      intro p hp heq
      have ho : p.owner = owner := of_decide_eq_true heq
      rcases owner_of_mem_placed hp with hn | ⟨j, hj, hlo, -⟩
      · exact absurd (howner n (ho.symm.trans hn)) (Nat.lt_irrefl n)
      · have := howner j (ho.symm.trans hj)
        omega
    have hrest := ih (n := n + 1 + inside.groupCount) fun i hi => by
      have := howner i hi
      omega
    simp [placed, chunks, hinside, hrest]

/-- The group that a forest lists at some place holds the outermost chunks of a forest of its own,
which fills its payload. -/
theorem filter_placed_group {f : Forest} {pos stop k : Nat} {e : Outline.GroupEntry}
    (H : f.Fills image schema pos stop) (howner : ∀ i, owner = some i → i < n)
    (he : (f.groupEntries owner n)[k]? = some e) :
    ∃ inside : Forest, inside.Fills image schema e.header.position e.header.stop ∧
      ((f.placed owner n).filter (·.owner = some (n + k))).map (·.chunk) = inside.chunks := by
  have hne : owner ≠ some (n + k) := fun heq => by
    have := howner _ heq
    omega
  induction f generalizing owner n pos stop k with
  | nil => cases he
  | record h rest ih =>
    obtain ⟨inside, hfills, hin⟩ := ih H.2.2 howner he hne
    refine ⟨inside, hfills, ?_⟩
    simpa [placed, hne] using hin
  | group h inside rest ihi ihr =>
    obtain ⟨-, -, hinside, hrest⟩ := H
    have hown : ∀ i, some n = some i → i < n + 1 := fun i hi => by cases hi; omega
    simp only [placed, List.filter_cons, hne, decide_false, Bool.false_eq_true, if_false,
      List.filter_append, List.map_append]
    cases k with
    | zero =>
      cases he
      refine ⟨inside, hinside, ?_⟩
      rw [filter_placed_eq_nil (f := rest) (by omega) hne, Nat.add_zero, filter_placed_owner hown]
      exact List.append_nil _
    | succ k =>
      simp only [groupEntries_group, List.getElem?_cons_succ] at he
      by_cases hk : k < inside.groupCount
      · rw [List.getElem?_append_left (by simpa using hk)] at he
        obtain ⟨g, hfills, hin⟩ := ihi hinside hown he (by simp; omega)
        refine ⟨g, hfills, ?_⟩
        rw [filter_placed_eq_nil (f := rest) (by omega) hne, ← hin]
        simp [Nat.add_assoc, Nat.add_comm 1]
      · rw [List.getElem?_append_right (by simpa using Nat.not_lt.mp hk)] at he
        simp only [length_groupEntries] at he
        have hplace : n + 1 + inside.groupCount + (k - inside.groupCount) = n + (k + 1) := by omega
        obtain ⟨g, hfills, hin⟩ := ihr hrest (fun i hi => by have := howner i hi; omega) he
          (by rwa [hplace])
        refine ⟨g, hfills, ?_⟩
        rw [hplace] at hin
        rw [filter_placed_eq_nil (f := inside) (by omega) (by simp), hin]
        rfl

/-- A group is listed after the group that holds it. -/
theorem parent_lt_of_groupEntries {f : Forest} {k i : Nat} {e : Outline.GroupEntry}
    (howner : ∀ i, owner = some i → i < n) (he : (f.groupEntries owner n)[k]? = some e)
    (hi : e.parent = some i) : i < n + k := by
  induction f generalizing owner n k with
  | nil => cases he
  | record h rest ih => exact ih howner he
  | group h inside rest ihi ihr =>
    cases k with
    | zero =>
      cases he
      exact howner i hi
    | succ k =>
      simp only [groupEntries_group, List.getElem?_cons_succ] at he
      by_cases hk : k < inside.groupCount
      · rw [List.getElem?_append_left (by simpa using hk)] at he
        have := ihi (fun i hi => by cases hi; omega) he
        omega
      · rw [List.getElem?_append_right (by simpa using Nat.not_lt.mp hk)] at he
        simp only [length_groupEntries] at he
        have := ihr (fun i hi => by have := howner i hi; omega) he
        omega

/-- The payload of every chunk starts inside the range that the forest fills. -/
theorem Fills.position_of_mem_placed {f : Forest} {pos stop : Nat} {p : Placed}
    (H : f.Fills image schema pos stop) (hp : p ∈ f.placed owner n) :
    pos < p.chunk.position ∧ p.chunk.stop ≤ stop := by
  induction f generalizing owner n pos stop with
  | nil => cases hp
  | record h rest ih =>
    obtain ⟨-, hread, hrest⟩ := H
    have hpos := Chunk.lt_position_of_read hread
    have hstop := (Chunk.record h).position_le_stop
    rcases List.mem_cons.mp hp with rfl | hp
    · exact ⟨hpos, hrest.le⟩
    · have := ih hrest hp
      simp only [Chunk.stop_record] at hstop
      omega
  | group h inside rest ihi ihr =>
    obtain ⟨-, hread, hinside, hrest⟩ := H
    have hpos := Chunk.lt_position_of_read hread
    have hstop := hinside.le
    have hend := hrest.le
    simp only [placed, List.mem_cons, List.mem_append] at hp
    simp only [Chunk.position_group] at hpos
    rcases hp with rfl | hp | hp
    · exact ⟨hpos, hend⟩
    · have := ihi hinside hp
      omega
    · have := ihr hrest hp
      omega

/-- Payloads start one after another. -/
theorem Fills.pairwise_position {f : Forest} {pos stop : Nat}
    (H : f.Fills image schema pos stop) :
    (f.placed owner n).Pairwise fun p q => p.chunk.position < q.chunk.position := by
  induction f generalizing owner n pos stop with
  | nil => exact .nil
  | record h rest ih =>
    refine List.pairwise_cons.mpr ⟨fun q hq => ?_, ih H.2.2⟩
    have := H.2.2.position_of_mem_placed hq
    have hstop := (Chunk.record h).position_le_stop
    simp only [Chunk.position_record, Chunk.stop_record] at hstop ⊢
    omega
  | group h inside rest ihi ihr =>
    obtain ⟨-, -, hinside, hrest⟩ := H
    have hin {q : Placed} (hq : q ∈ inside.placed (some n) (n + 1)) :=
      hinside.position_of_mem_placed hq
    have hre {q : Placed} (hq : q ∈ rest.placed owner (n + 1 + inside.groupCount)) :=
      hrest.position_of_mem_placed hq
    refine List.pairwise_cons.mpr ⟨fun q hq => ?_, List.pairwise_append.mpr
      ⟨ihi hinside, ihr hrest, fun p hp q hq => ?_⟩⟩
    · have hstop := hinside.le
      simp only [Chunk.position_group]
      rcases List.mem_append.mp hq with hq | hq
      · exact (hin hq).1
      · have := hre hq
        omega
    · have hp := hin hp
      have hq := hre hq
      have := p.chunk.position_le_stop
      omega

end Placed

end Forest

/-! ## The walk -/

namespace Outline

/-- The outline with the entries of a forest, whose outermost chunks are in group `owner`. -/
def extend (o : Outline) (owner : Option Nat) (f : Forest) : Outline :=
  { o with
    records := o.records ++ (f.recordEntries owner o.groups.size).toArray
    groups := o.groups ++ (f.groupEntries owner o.groups.size).toArray }

theorem extend_nil (o : Outline) (owner : Option Nat) : o.extend owner .nil = o := by
  simp [extend]

theorem extend_record (o : Outline) (owner : Option Owner) (h : RecordHeader) (rest : Forest) :
    o.extend (owner.map (·.index)) (.record h rest) =
      (o.addRecord owner h).extend (owner.map (·.index)) rest := by
  simp [extend, addRecord]

theorem extend_group (o : Outline) (owner : Option Owner) (h : GroupHeader)
    (inside rest : Forest) :
    o.extend (owner.map (·.index)) (.group h inside rest) =
      ((o.addGroup owner h).extend (some o.groups.size) inside).extend (owner.map (·.index))
        rest := by
  simp [extend, addGroup, Nat.add_assoc, Nat.add_comm 1]

variable {image : Image} {schema : Schema}

/-- A walk that succeeds has followed a forest. -/
theorem exists_fills_of_walk {owner : Option Owner} {start stop pos : Nat} {o o' : Outline}
    (h : walk image schema owner start stop pos o = .ok o') :
    ∃ f : Forest, f.Fills image schema pos stop ∧ o' = o.extend (owner.map (·.index)) f := by
  fun_induction walk image schema owner start stop pos o generalizing o' with
  | case1 owner start stop pos o hlt e hread => cases h
  | case2 owner start stop pos o hlt header hread ih =>
    obtain ⟨f, hf, rfl⟩ := ih h
    exact ⟨.record header f, ⟨hlt, hread, hf⟩, (extend_record ..).symm⟩
  | case3 owner start stop pos o hlt header hread hover => cases h
  | case4 owner start stop pos o hlt header hread hover inner e hinner => cases h
  | case5 owner start stop pos o hlt header hread hover inner mid hinner ihi =>
    rename_i ihr
    obtain ⟨f, hf, hmid⟩ := ihi hinner
    obtain ⟨r, hr, rfl⟩ := ihr h
    refine ⟨.group header f r, ⟨hlt, hread, hf, hr⟩, ?_⟩
    rw [extend_group, hmid]
    rfl
  | case6 owner start stop o hlt =>
    cases h
    exact ⟨.nil, rfl, (extend_nil ..).symm⟩
  | case7 owner start stop pos o hlt hne => cases h

/-- A range that a forest fills can be walked, and the walk adds the forest's entries. -/
theorem walk_of_fills {owner : Option Owner} {start stop pos : Nat} {o : Outline} {f : Forest}
    (H : f.Fills image schema pos stop) :
    walk image schema owner start stop pos o = .ok (o.extend (owner.map (·.index)) f) := by
  induction f generalizing owner start stop pos o with
  | nil =>
    have heq : pos = stop := H
    rw [walk, if_neg (Nat.not_lt.mpr (Nat.le_of_eq heq.symm)), if_pos heq, extend_nil]
  | record h rest ih =>
    obtain ⟨hlt, hread, hrest⟩ := H
    rw [walk, if_pos hlt]
    split
    · rename_i e he; rw [hread] at he; cases he
    · rename_i r hr; rw [hread] at hr; cases hr; rw [ih hrest, extend_record]
    · rename_i g hg; rw [hread] at hg; cases hg
  | group h inside rest ihi ihr =>
    obtain ⟨hlt, hread, hinside, hrest⟩ := H
    rw [walk, if_pos hlt]
    split
    · rename_i e he; rw [hread] at he; cases he
    · rename_i r hr; rw [hread] at hr; cases hr
    · rename_i g hg
      rw [hread] at hg
      cases hg
      rw [if_neg (Nat.not_lt.mpr hrest.le)]
      dsimp only
      rw [ihi hinside]
      dsimp only
      rw [ihr hrest, extend_group]
      rfl

theorem walk_eq_ok_iff {owner : Option Owner} {start stop pos : Nat} {o o' : Outline} :
    walk image schema owner start stop pos o = .ok o' ↔
      ∃ f : Forest, f.Fills image schema pos stop ∧ o' = o.extend (owner.map (·.index)) f :=
  ⟨exists_fills_of_walk, fun ⟨_, hf, heq⟩ => heq ▸ walk_of_fills hf⟩

/-- The outline of a file of a given schema and length that has the shape of a forest. -/
def ofForest (schema : Schema) (length : Nat) (f : Forest) : Outline :=
  { schema
    length
    records := (f.recordEntries none 0).toArray
    groups := (f.groupEntries none 0).toArray }

/-- A file has an outline exactly if its schema can be told and a forest fills it. -/
theorem ofImage_eq_ok_iff {o : Outline} :
    ofImage image = .ok o ↔ ∃ schema, Schema.detect image = .ok schema ∧
      ∃ f : Forest, f.Fills image schema 0 image.size ∧ o = ofForest schema image.size f := by
  simp only [ofImage]
  cases hdetect : Schema.detect image with
  | error e => simp [bind, Except.bind]
  | ok schema =>
    simp only [bind, Except.bind, walk_eq_ok_iff, Except.ok.injEq, exists_eq_left']
    simp [extend, ofForest]

end Outline

end GamePlugin

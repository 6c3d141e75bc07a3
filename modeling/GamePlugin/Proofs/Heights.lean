import GamePlugin.Proofs.LatestElements
import GamePlugin.Proofs.Localization
import GamePlugin.Proofs.WrittenFields

/-!
# Heights of a land

A land stores the heights of a square of points as differences. The first difference of a row leads
on from the first one of the row before, the others from their neighbour. So the height of a point
is a sum along a path: down the first column to its row, and then along the row.

Of several fields with heights a land keeps the last. What fields it has is settled by its payload
alone (`Fields.Sequence`).

## Main definitions

* `HeightMap.path` — the differences that lead to a point.
* `Field.holdsHeights`, `Field.heightSide`, `Field.height` — what a field says about heights.
* `Land.lastHeights?` — the field whose heights a land keeps.
-/

namespace GamePlugin

open GamePlugin.Field Field.Reader

/-! ## Sums along rows -/

namespace HeightMap

variable {side row col : Nat}

/-- The sum of a start and differences, from left to right. -/
def sum (start : Float32) (deltas : List Int8) : Float32 :=
  deltas.foldl (fun sum delta => sum + Single.ofInt32 delta.toInt32) start

theorem sum_append (start : Float32) (as bs : List Int8) :
    sum start (as ++ bs) = sum (sum start as) bs := List.foldl_append

theorem length_runningSums (start : Float32) (deltas : List Int8) :
    (runningSums start deltas).length = deltas.length := by
  induction deltas generalizing start with
  | nil => rfl
  | cons delta deltas ih => rw [runningSums, List.length_cons, List.length_cons, ih]

/-- Each running sum is the sum of the differences up to its own. -/
theorem getElem?_runningSums {deltas : List Int8} (h : col < deltas.length) (start : Float32) :
    (runningSums start deltas)[col]? = some (sum start (deltas.take (col + 1))) := by
  induction deltas generalizing start col with
  | nil => cases h
  | cons delta deltas ih =>
    cases col with
    | zero => rfl
    | succ col =>
      rw [runningSums, List.getElem?_cons_succ, ih (Nat.lt_of_succ_lt_succ h)]
      rfl

/-- Each row starts from the sum of the first differences of the rows before it. -/
theorem sumRows_eq {rows : List (List Int8)} (h : ∀ row ∈ rows, row ≠ []) (start : Float32) :
    sumRows start rows = rows.mapIdx fun i row =>
      runningSums (sum start ((rows.take i).map (·.headD 0))) row := by
  induction rows generalizing start with
  | nil => rfl
  | cons first rest ih =>
    obtain ⟨delta, deltas, rfl⟩ := List.exists_cons_of_ne_nil (h first List.mem_cons_self)
    rw [sumRows, ih fun row hrow => h row (List.mem_cons_of_mem _ hrow), List.mapIdx_cons]
    rfl

/-- Differences that lead to a point: those of the first column down to its row, then those of its
row. -/
def path (delta : Nat → Nat → Int8) (row col : Nat) : List Int8 :=
  (List.range (row + 1)).map (delta · 0) ++ (List.range col).map fun j => delta row (j + 1)

theorem path_congr {delta delta' : Nat → Nat → Int8}
    (h : ∀ i < side, ∀ j < side, delta i j = delta' i j) (hrow : row < side) (hcol : col < side) :
    path delta row col = path delta' row col := by
  have hcolumn : ∀ i ∈ List.range (row + 1), delta i 0 = delta' i 0 := fun i hi =>
    h i (by have := List.mem_range.mp hi; omega) 0 (Nat.zero_lt_of_lt hcol)
  have hrest : ∀ j ∈ List.range col, delta row (j + 1) = delta' row (j + 1) := fun j hj =>
    h row hrow (j + 1) (by have := List.mem_range.mp hj; omega)
  rw [path, path, List.map_congr_left hcolumn, List.map_congr_left hrest]

/-- Differences row after row. -/
def grid (delta : Nat → Nat → Int8) (side : Nat) : List (List Int8) :=
  (List.range side).map fun i => (List.range side).map (delta i)

theorem headD_map_range (g : Nat → Int8) (h : 0 < side) :
    ((List.range side).map g).headD 0 = g 0 := by
  cases side with
  | zero => cases h
  | succ side => rw [List.range_succ_eq_map, List.map_cons, List.headD_cons]

/-- The first differences of the rows before a point's and the differences of its row up to it are
the path to it. -/
theorem heads_append_take_eq_path (delta : Nat → Nat → Int8) (hrow : row < side)
    (hcol : col < side) :
    ((grid delta side).take row).map (·.headD 0) ++
      ((List.range side).map (delta row)).take (col + 1) = path delta row col := by
  have hheads : ((grid delta side).take row).map (·.headD 0) =
      (List.range row).map (delta · 0) := by
    rw [grid, ← List.map_take, List.take_range, Nat.min_eq_left (Nat.le_of_lt hrow), List.map_map]
    exact List.map_congr_left fun i _ => headD_map_range (delta i) (Nat.zero_lt_of_lt hrow)
  have htake : ((List.range side).map (delta row)).take (col + 1) =
      delta row 0 :: (List.range col).map fun j => delta row (j + 1) := by
    rw [← List.map_take, List.take_range, Nat.min_eq_left hcol, List.range_succ_eq_map,
      List.map_cons, List.map_map]
    rfl
  rw [hheads, htake, path, List.range_succ, List.map_append, List.append_assoc]
  rfl

/-- An entry of rows of the same length. -/
theorem getElem?_flatten {α : Type} {rows : List (List α)} (h : ∀ row ∈ rows, row.length = side)
    (hcol : col < side) (row : Nat) :
    rows.flatten[row * side + col]? = rows[row]?.bind (·[col]?) := by
  induction rows generalizing row with
  | nil => simp
  | cons first rest ih =>
    obtain ⟨hfirst, hrest⟩ := List.forall_mem_cons.mp h
    cases row with
    | zero =>
      rw [List.flatten_cons, Nat.zero_mul, Nat.zero_add, List.getElem?_append_left (by omega)]
      rfl
    | succ row =>
      have hindex : (row + 1) * side + col = first.length + (row * side + col) := by
        rw [hfirst, Nat.succ_mul]
        omega
      rw [List.flatten_cons, hindex, List.getElem?_append_right (Nat.le_add_right ..),
        Nat.add_sub_cancel_left, ih hrest]
      rfl

theorem length_flatten {α : Type} {rows : List (List α)} (h : ∀ row ∈ rows, row.length = side) :
    rows.flatten.length = rows.length * side := by
  induction rows with
  | nil => simp
  | cons first rest ih =>
    obtain ⟨hfirst, hrest⟩ := List.forall_mem_cons.mp h
    rw [List.flatten_cons, List.length_append, ih hrest, hfirst, List.length_cons, Nat.succ_mul,
      Nat.add_comm]

theorem length_of_mem_grid {delta : Nat → Nat → Int8} {deltas : List Int8}
    (h : deltas ∈ grid delta side) : deltas.length = side ∧ deltas ≠ [] := by
  obtain ⟨i, hi, rfl⟩ := List.mem_map.mp h
  have hlength : ((List.range side).map (delta i)).length = side := by simp
  refine ⟨hlength, List.ne_nil_of_length_pos ?_⟩
  rw [hlength]
  exact Nat.zero_lt_of_lt (List.mem_range.mp hi)

/-- Heights of a grid of differences: one for each point, the sum along the path to it. -/
theorem flatten_sumRows_grid (delta : Nat → Nat → Int8) (side : Nat) (start : Float32) :
    (sumRows start (grid delta side)).flatten.length = side * side ∧
      ∀ row < side, ∀ col < side, (sumRows start (grid delta side)).flatten[row * side + col]? =
        some (sum start (path delta row col)) := by
  have hne : ∀ deltas ∈ grid delta side, deltas ≠ [] := fun _ h => (length_of_mem_grid h).2
  have hrows := sumRows_eq hne start
  have hlength : ∀ heights ∈ sumRows start (grid delta side), heights.length = side := by
    intro heights hmem
    rw [hrows] at hmem
    obtain ⟨i, hi, rfl⟩ := List.mem_mapIdx.mp hmem
    rw [length_runningSums]
    exact (length_of_mem_grid (List.getElem_mem hi)).1
  refine ⟨?_, fun row hrow col hcol => ?_⟩
  · rw [length_flatten hlength, hrows, List.length_mapIdx, grid, List.length_map,
      List.length_range]
  · have hgrid : (grid delta side)[row]? = some ((List.range side).map (delta row)) := by
      simp [grid, hrow]
    rw [getElem?_flatten hlength hcol, hrows, List.getElem?_mapIdx, hgrid, Option.map_some,
      Option.bind_some, getElem?_runningSums (by simpa using hcol), ← sum_append,
      heads_append_take_eq_path delta hrow hcol]

/-- An entry of a square that is stored row after row. -/
def entry (side : Nat) (deltas : List Int8) (row col : Nat) : Int8 :=
  deltas.getD (row * side + col) 0

theorem rows_eq_grid {deltas : List Int8} (h : deltas.length = side * side) :
    rows side deltas = grid (entry side deltas) side := by
  refine List.map_congr_left fun i hi => List.ext_getElem ?_ fun j hj hj' => ?_
  · have hfit : (i + 1) * side ≤ deltas.length := by
      rw [h]
      exact Nat.mul_le_mul_right side (List.mem_range.mp hi)
    rw [Nat.succ_mul] at hfit
    rw [List.length_take, List.length_drop, List.length_map, List.length_range]
    omega
  · rw [List.length_take, List.length_drop] at hj
    have hindex : i * side + j < deltas.length := by omega
    rw [List.getElem_take, List.getElem_drop, List.getElem_map, List.getElem_range, entry,
      List.getD_eq_getElem?_getD, List.getElem?_eq_getElem hindex, Option.getD_some]

variable {m : HeightMap}

/-- A map of a square whose side is one of those that maps have. -/
theorem heights_of_side (hside : side ∈ sides) (h : m.deltas.length = side * side) :
    m.side? = some side ∧ ∃ heights, m.heights? = some heights ∧ heights.length = side * side ∧
      ∀ row < side, ∀ col < side, heights[row * side + col]? =
        some (sum m.offset (path (entry side m.deltas) row col) * 8) := by
  have hsome : m.side? = some side := by
    rw [side?, h]
    simp only [sides, List.mem_cons, List.not_mem_nil, or_false] at hside
    rcases hside with rfl | rfl <;> rfl
  obtain ⟨hlength, hheights⟩ :=
    flatten_sumRows_grid (entry side m.deltas) side m.offset
  refine ⟨hsome, _, by rw [heights?, hsome, Option.map_some, rows_eq_grid h], ?_, ?_⟩
  · rw [List.length_map, hlength]
  · intro row hrow col hcol
    rw [List.getElem?_map, hheights row hrow col hcol, Option.map_some]

end HeightMap

/-! ## Fields with heights -/

namespace Field

variable {f : Field}

/-- Whether the field holds heights: its size is that of a square with a start before it and three
bytes behind it. -/
def holdsHeights (f : Field) : Bool := f.tag = .VHGT && [4232, 1096].contains f.size

/-- How many points a side of the field's heights has. -/
def heightSide (f : Field) : Nat := if f.size = 4232 then 65 else 33

/-- The difference that the field stores for a point. -/
def heightDelta (f : Field) (row col : Nat) : Int8 :=
  (f.payload.getD (4 + row * f.heightSide + col) 0).toInt8

/-- The height of a point: eight times the sum along the path to it. -/
def height (f : Field) (row col : Nat) : Float32 :=
  HeightMap.sum (f.valueAt 0 .single) (HeightMap.path f.heightDelta row col) * 8

/-- The heights as they are kept. -/
def heightMap (f : Field) : HeightMap where
  offset := f.valueAt 0 .single
  deltas := ((f.place 4).rest.take (f.heightSide * f.heightSide)).map (·.toInt8)

theorem holdsHeights_iff : f.holdsHeights ↔ f.tag = .VHGT ∧ (f.size = 4232 ∨ f.size = 1096) := by
  simp [holdsHeights]

theorem heightSide_mem (f : Field) : f.heightSide ∈ HeightMap.sides := by
  rw [heightSide]
  split <;> decide

theorem size_of_holdsHeights (h : f.holdsHeights) :
    f.size = 4 + f.heightSide * f.heightSide + 3 := by
  rcases (holdsHeights_iff.mp h).2 with hsize | hsize <;> rw [heightSide, hsize] <;> rfl

theorem length_deltas_heightMap (h : f.holdsHeights) :
    f.heightMap.deltas.length = f.heightSide * f.heightSide := by
  have hsize := size_of_holdsHeights h
  rw [heightMap, List.length_map, List.length_take, length_rest_place]
  omega

theorem entry_heightMap {row col : Nat} (hrow : row < f.heightSide) (hcol : col < f.heightSide) :
    HeightMap.entry f.heightSide f.heightMap.deltas row col = f.heightDelta row col := by
  have hindex : row * f.heightSide + col < f.heightSide * f.heightSide := by
    have hle := Nat.mul_le_mul_right f.heightSide hrow
    rw [Nat.succ_mul] at hle
    omega
  simp only [HeightMap.entry, heightMap, heightDelta, place, List.getD_eq_getElem?_getD,
    List.getElem?_map, List.getElem?_take_of_lt hindex, List.getElem?_drop, Nat.add_assoc]
  cases f.payload[4 + (row * f.heightSide + col)]? <;> rfl

/-- The heights of what the field stores. -/
theorem heights_heightMap (h : f.holdsHeights) :
    f.heightMap.side? = some f.heightSide ∧ ∃ heights, f.heightMap.heights? = some heights ∧
      heights.length = f.heightSide * f.heightSide ∧
      ∀ row < f.heightSide, ∀ col < f.heightSide,
        heights[row * f.heightSide + col]? = some (f.height row col) := by
  obtain ⟨hside, heights, hsome, hlength, hheights⟩ :=
    HeightMap.heights_of_side f.heightSide_mem (length_deltas_heightMap h)
  refine ⟨hside, heights, hsome, hlength, fun row hrow col hcol => ?_⟩
  rw [hheights row hrow col hcol,
    HeightMap.path_congr (fun i hi j hj => entry_heightMap hi hj) hrow hcol]
  rfl

end Field

/-! ## Lands -/

section

-- What `simp` follows through a field.
attribute [local simp] byte word16 word32 int32 single formId skip_eq Sizes.allow Rule.on valueAt
  rest_place_zero

theorem Land.grants_readHeights (l : Land) (f : Field) :
    Grants (readHeights f.heightSide l) f (f.place 0) fun l' _ =>
      l'.heightMap = some f.heightMap := by
  simp +contextual [readHeights, Field.heightMap]

/-- Rules for other fields leave the heights as they are. -/
theorem Land.grants_of_tag_ne (l : Land) (f : Field) : ∀ r ∈ rules, r.tag ≠ .VHGT →
    Grants (r.read l) f (f.place 0) fun l? _ => (l?.getD l).heightMap = l.heightMap := by
  simp +contextual +decide [or_imp, rules, readLayer]

/-- The rule for a field with heights, given the size and how many points a side then has. -/
def Land.heightRule (size side : Nat) : Rule Land := .on .VHGT (.exactly size) (readHeights side)

theorem Land.eq_heightRule : ∀ r ∈ rules, r.tag = .VHGT →
    r = heightRule 4232 65 ∨ r = heightRule 1096 33 := by
  have hfilter : rules.filter (·.tag = .VHGT) = [heightRule 4232 65, heightRule 1096 33] := rfl
  intro r hr htag
  have hmem : r ∈ rules.filter (·.tag = .VHGT) := List.mem_filter.mpr ⟨hr, decide_eq_true htag⟩
  rw [hfilter] at hmem
  simpa using hmem

theorem Land.applies_heightRule {size side : Nat} {f : Field} :
    (heightRule size side).applies f ↔ f.tag = .VHGT ∧ f.size = size := by
  simp only [heightRule, Rule.on, Rule.applies_iff, Schema.mem_all, true_and, Sizes.allow,
    decide_eq_true_eq]

/-- Offered a field with heights, a land has those of the field. Any other field leaves it those
that it has. -/
theorem Land.grants_heightMap (l : Land) (f : Field) :
    Grants (offerTo rules l) f (f.place 0) fun l? _ =>
      (l?.getD l).heightMap = if f.holdsHeights then some f.heightMap else l.heightMap := by
  refine grants_offerTo (fun r hr happlies => ?_) fun hnone => ?_
  · by_cases htag : r.tag = .VHGT
    · have hread := l.grants_readHeights f
      rcases eq_heightRule r hr htag with rfl | rfl
      all_goals
        obtain ⟨htag, hsize⟩ := applies_heightRule.mp happlies
        have hholds : f.holdsHeights := by simp [holdsHeights_iff, htag, hsize]
        simp only [heightSide, hsize] at hread
        simpa [hholds, heightRule] using hread
    · have hother : ¬f.holdsHeights := fun h =>
        htag ((Rule.applies_iff.mp happlies).1.symm.trans (holdsHeights_iff.mp h).1)
      simpa only [if_neg hother] using l.grants_of_tag_ne f r hr htag
  · have hother : ¬f.holdsHeights := by
      rw [holdsHeights_iff]
      rintro ⟨htag, hsize | hsize⟩
      · exact hnone (heightRule 4232 65) (by simp [rules, heightRule])
          (applies_heightRule.mpr ⟨htag, hsize⟩)
      · exact hnone (heightRule 1096 33) (by simp [rules, heightRule])
          (applies_heightRule.mpr ⟨htag, hsize⟩)
    rw [if_neg hother]
    rfl

end

namespace Land

/-- A field that a land takes. -/
theorem heightMap_of_takes {f : Field} {l : Land} {b : Body}
    (h : Fields.Takes (Offer.sink Body.offer) f (.land l) b) :
    ∃ l', b = .land l' ∧
      l'.heightMap = if f.holdsHeights then some f.heightMap else l.heightMap := by
  have hgrants : Grants (Body.offer (.land l)) f f.start fun b? _ =>
      ∃ l', b?.getD (.land l) = .land l' ∧
        l'.heightMap = if f.holdsHeights then some f.heightMap else l.heightMap := by
    have hoffer : Body.offer (.land l) = do return (← offerTo rules l).map .land := rfl
    simp only [hoffer, grants_bind, grants_pure, Option.getD_map]
    exact fun l? c hread => ⟨_, rfl, l.grants_heightMap f l? c hread⟩
  cases h with
  | declined h =>
    obtain ⟨b?, hread, rfl, -⟩ := Offer.exists_of_sink h
    exact hgrants b? _ hread
  | handled h =>
    obtain ⟨b?, hread, rfl, -⟩ := Offer.exists_of_sink h
    exact hgrants b? _ hread

/-- The last of the fields that holds heights. -/
def lastHeights? (fields : List Field) : Option Field := (fields.filter (·.holdsHeights)).getLast?

theorem lastHeights?_cons (f : Field) (fields : List Field) : lastHeights? (f :: fields) =
    (lastHeights? fields).or (if f.holdsHeights then some f else none) := by
  rw [lastHeights?, List.filter_cons]
  split
  · rw [List.getLast?_cons, lastHeights?]
    cases (fields.filter (·.holdsHeights)).getLast? <;> rfl
  · rw [lastHeights?, Option.or_none]

theorem isSome_lastHeights? {fields : List Field} :
    (lastHeights? fields).isSome ↔ ∃ f ∈ fields, f.holdsHeights := by
  simp [lastHeights?, Option.isSome_iff_ne_none]

theorem holdsHeights_of_mem {fields : List Field} {f : Field} (h : f ∈ lastHeights? fields) :
    f.holdsHeights :=
  (List.mem_filter.mp (List.mem_of_getLast? h)).2

/-- After any fields, a land has the heights of the last field with some. -/
theorem heightMap_of_folds {fields : List Field} {l : Land} {b : Body}
    (h : Fields.Folds (Offer.sink Body.offer) fields (.land l) b) :
    ∃ l', b = .land l' ∧
      l'.heightMap = ((lastHeights? fields).map (·.heightMap)).or l.heightMap := by
  generalize hstart : Body.land l = b₀ at h
  induction h generalizing l with
  | nil => exact ⟨l, hstart.symm, rfl⟩
  | @cons f fields _ _ _ hfirst _ ih =>
    subst hstart
    obtain ⟨l₁, rfl, hone⟩ := heightMap_of_takes hfirst
    obtain ⟨l', rfl, hrest⟩ := ih rfl
    refine ⟨l', rfl, ?_⟩
    rw [hrest, hone, lastHeights?_cons]
    cases lastHeights? fields with
    | some g => rfl
    | none => split <;> rfl

/-- **Heights are sums along rows.** A land that was read has heights if a field of its payload
holds some, with as many points a side as the last such field says. The height of a point is eight
times a sum from left to right: the start, then the first differences of all rows down to its own,
then those of its row. -/
theorem heights_of_decode {h : RecordHeader} {payload : Bytes} {context : Context} {limit : Nat}
    {r : Record} (hdecode : Record.decode h .land payload context limit = .ok r) :
    ∃ l bytes base fields, r.body = .land l ∧ Record.unpack h payload limit = .ok (bytes, base) ∧
      (∀ fields', Fields.Sequence ⟨context, h.tag, base, bytes.length⟩ none 0 bytes fields' ↔
        fields' = fields) ∧
      (l.heights?.isSome ↔ ∃ f ∈ fields, f.holdsHeights) ∧
      l.side? = (lastHeights? fields).map (·.heightSide) ∧
      ∀ f ∈ lastHeights? fields, ∃ heights, l.heights? = some heights ∧
        heights.length = f.heightSide * f.heightSide ∧
        ∀ row < f.heightSide, ∀ col < f.heightSide,
          heights[row * f.heightSide + col]? = some (f.height row col) := by
  obtain ⟨bytes, base, fields, hunpack, hseq, hfolds⟩ := Record.exists_folds_of_decode hdecode
  obtain ⟨l, hbody, hmap⟩ := heightMap_of_folds (l := {}) hfolds
  rw [Option.or_none] at hmap
  have hunique (fields' : List Field) :
      Fields.Sequence ⟨context, h.tag, base, bytes.length⟩ none 0 bytes fields' ↔
        fields' = fields :=
    ⟨fun hseq' => hseq'.unique hseq, fun heq => heq ▸ hseq⟩
  refine ⟨l, bytes, base, fields, hbody, hunpack, hunique, ?_⟩
  rw [← isSome_lastHeights?, heights?, side?, hmap]
  cases hlast : lastHeights? fields with
  | none => simp
  | some f =>
    obtain ⟨hside, heights, hsome, hheights⟩ :=
      Field.heights_heightMap (holdsHeights_of_mem hlast)
    refine ⟨iff_of_true ?_ rfl, hside, ?_⟩
    · rw [Option.map_some, Option.bind_some, hsome]
      rfl
    · rintro _ ⟨⟩
      exact ⟨heights, hsome, hheights⟩

/-- Heights with 33 points a side and three differences that are not zero. -/
def hill : Bytes :=
  Bytes.ofUInt32 0x41200000 ++ [2] ++ Bytes.zeros 32 ++ [255, 5] ++ Bytes.zeros 1054 ++
    Bytes.zeros 3

/-- Heights twice, and then a field of another size with the same tag. -/
def hillFields : List (Tag × Bytes) :=
  [(.VHGT, Bytes.zeros 1096), (.VHGT, hill), (.VHGT, [0])]

/-- The payload with those fields. -/
def hillPayload : Bytes := hillFields.flatMap fun p => Field.encode .tes4 p.1 p.2

theorem sequence_hillPayload :
    Fields.Sequence ⟨.ofEdition .oblivion, .LAND, 20, hillPayload.length⟩ none 0 hillPayload
      (Fields.written (.ofEdition .oblivion) .LAND 20 hillFields) := by
  refine Fields.sequence_written 0 ?_
  decide +kernel

theorem lastHeights?_hillFields :
    (lastHeights? (Fields.written (.ofEdition .oblivion) .LAND 20 hillFields)).map (·.payload) =
      some hill := by
  decide +kernel

/-- What a field with the hill holds. -/
theorem height_hill {f : Field} (h : f.payload = hill) : f.heightSide = 33 ∧ f.height 1 1 =
    (Single.ofBits 0x41200000 + Single.ofInt32 2 + Single.ofInt32 (-1) + Single.ofInt32 5) * 8 := by
  have hside : f.heightSide = 33 := by
    rw [heightSide, Field.size, h]
    decide +kernel
  have hpath : HeightMap.path f.heightDelta 1 1 = [2, -1, 5] := by
    simp only [HeightMap.path, heightDelta, hside, h]
    decide +kernel
  have hword : Bytes.word32 ((hill.drop 0).take 4) = 0x41200000 := by decide +kernel
  have hoffset : f.valueAt 0 .single = Single.ofBits 0x41200000 := by
    rw [← hword, ← h]
    rfl
  rw [height, hpath, hoffset]
  exact ⟨hside, rfl⟩

theorem heights_of_decode_hill :
    let header : RecordHeader := ⟨.LAND, 0, 0, ⟨7⟩, 20, none⟩
    ∃ r l heights, Record.decode header .land hillPayload (.ofEdition .oblivion) 0 = .ok r ∧
      r.body = .land l ∧ l.side? = some 33 ∧ l.heights? = some heights ∧
      heights.length = 33 * 33 ∧ heights[33 + 1]? = some
        ((Single.ofBits 0x41200000 + Single.ofInt32 2 + Single.ofInt32 (-1) + Single.ofInt32 5) *
          8) := by
  intro header
  have hsome :
      (Record.decode header .land hillPayload (.ofEdition .oblivion) 0).toOption.isSome := by
    decide +kernel
  have hplain : Record.unpack header hillPayload 0 = .ok (hillPayload, 20) := if_neg (by decide)
  obtain ⟨f, hf, hpayload⟩ := Option.map_eq_some_iff.mp lastHeights?_hillFields
  obtain ⟨hfside, hfheight⟩ := height_hill hpayload
  cases hdecode : Record.decode header .land hillPayload (.ofEdition .oblivion) 0 with
  | error e =>
    rw [hdecode] at hsome
    cases hsome
  | ok r =>
    obtain ⟨l, bytes, base, fields, hbody, hunpack, hseq, -, hside, hheights⟩ :=
      heights_of_decode hdecode
    obtain ⟨hbytes, hbase⟩ := Prod.mk.inj (Except.ok.inj (hunpack.symm.trans hplain))
    rw [hbytes, hbase] at hseq
    rw [← (hseq _).mp sequence_hillPayload] at hside hheights
    obtain ⟨heights, hsome, hlength, hheight⟩ := hheights f hf
    rw [hf, Option.map_some, hfside] at hside
    rw [hfside] at hlength hheight
    refine ⟨r, l, heights, rfl, hbody, hside, hsome, hlength, ?_⟩
    rw [← hfheight]
    exact hheight 1 (by decide) 1 (by decide)

end Land

end GamePlugin

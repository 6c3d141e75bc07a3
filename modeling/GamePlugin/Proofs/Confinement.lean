import GamePlugin.Proofs.Readers

/-!
# Reading stays inside its field

A field is read by a sequence of readings, and one that fails need not be the last. Each reading
either finds the bytes that it wants, moves behind them and gives the value of exactly these bytes,
or fails. A failure moves nothing, with one exception: reading items to the end stops before the
first one that does not fit. So no sequence of readings leaves the field or goes back in it.

## Main definitions

* `Field.Reading` — a reader of a field, with its arguments.
* `Field.Reading.wanted`, `Field.Reading.value` — how many bytes it wants, and what it makes of
  them.
* `Field.reached` — the place after a sequence of readings.
* `Field.Reading.Confined` — how a reading behaves that is started at some place.
-/

namespace GamePlugin

variable {α β : Type}

/-! ## Words and items -/

namespace Bytes

variable {bs : Bytes}

theorem headD_of_length (h : bs.length = 1) : bs.headD 0 = UInt8.ofNat bs.toNat := by
  obtain ⟨b, rfl⟩ := List.length_eq_one_iff.mp h
  simp [toNat]

theorem word16_of_length (h : bs.length = 2) : bs.word16 = UInt16.ofNat bs.toNat := by
  simp [word16, List.take_of_length_le (Nat.le_of_eq h)]

theorem word32_of_length (h : bs.length = 4) : bs.word32 = UInt32.ofNat bs.toNat := by
  simp [word32, List.take_of_length_le (Nat.le_of_eq h)]

end Bytes

namespace Layout

theorem parse_times_succ (l : Layout α) (n : Nat) (bs : Bytes) :
    (l.times (n + 1)).parse bs =
      l.parse (bs.take l.size) :: (l.times n).parse (bs.drop l.size) := by
  simp only [times, List.range_succ_eq_map, List.map_cons, List.map_map, Nat.zero_mul,
    List.drop_zero, Function.comp_def, List.drop_drop, Nat.succ_mul, Nat.add_comm l.size]

/-- The values of as many whole items as there are. -/
def values (l : Layout α) (bs : Bytes) : List α := (l.times (bs.length / l.size)).parse bs

/-- Splitting gives the whole items, and what comes behind the last of them. -/
theorem split_eq {l : Layout α} (hsize : 0 < l.size) (bs : Bytes) :
    l.split bs = (l.values bs, bs.drop (bs.length / l.size * l.size)) := by
  fun_induction split l bs with
  | case1 bs item hstop =>
    have hshort : bs.length < l.size := by
      rcases hstop with hzero | hshort
      · omega
      · rw [List.length_take] at hshort
        omega
    simp [values, times, Nat.div_eq_of_lt hshort]
  | case2 bs item hgo values rest hsplit ih =>
    have hfits : l.size ≤ bs.length := by
      rw [List.length_take] at hgo
      omega
    rw [hsplit, Layout.values, List.length_drop, List.drop_drop] at ih
    obtain ⟨rfl, rfl⟩ := Prod.mk.inj ih
    rw [Layout.values, Nat.div_eq_sub_div hsize hfits, parse_times_succ, Nat.succ_mul, Nat.add_comm]

end Layout

namespace Field

variable {f : Field} {k n : Nat}

/-- The bytes of a field from one place up to another. -/
def between (f : Field) (i j : Nat) : Bytes := (f.payload.drop i).take (j - i)

theorem between_add (f : Field) (k n : Nat) : f.between k (k + n) = (f.place k).rest.take n := by
  rw [between, Nat.add_sub_cancel_left]
  rfl

theorem length_between_add (h : n ≤ f.size - k) : (f.between k (k + n)).length = n := by
  rw [between_add]
  exact (Reader.length_take_rest_place f k n).mpr h

/-! ## Readers that move all or nothing -/

namespace Reader

/-- The reader wants the next `n` bytes, for what `value` makes of them. Where they are not all
there it fails and moves nothing. -/
structure Spans (x : Reader α) (f : Field) (k n : Nat) (value : Bytes → α) : Prop where
  ok : n ≤ f.size - k → x f (f.place k) = .ok (value (f.between k (k + n))) (f.place (k + n))
  error : f.size - k < n → ∃ e, x f (f.place k) = .error e (f.place k)

variable {x : Reader α} {value value' : Bytes → α}

theorem spans_bytes : (bytes n).Spans f k n id where
  ok h := by
    rw [bytes_of_le h, between_add]
    rfl
  error h := ⟨_, bytes_of_lt h⟩

theorem spans_item (l : Layout α) : (item l).Spans f k l.size l.parse where
  ok h := by rw [item_of_le h, between_add]
  error h := ⟨_, item_of_lt h⟩

theorem spans_toEnd (h : k ≤ f.size) : toEnd.Spans f k (f.size - k) id where
  ok _ := by
    rw [between_add, Nat.add_sub_cancel' h, ← place_add_rest h, ← length_rest_place,
      List.take_length]
    rfl
  error hlt := absurd hlt (Nat.lt_irrefl _)

theorem Spans.map (h : x.Spans f k n value) (g : α → β) :
    (g <$> x).Spans f k n fun bs => g (value bs) where
  ok hle := map_of_ok (h.ok hle) g
  error hlt := (h.error hlt).imp fun _ he => map_of_error he g

/-- Only the bytes that the reader wants matter for its value. -/
theorem Spans.congr (h : x.Spans f k n value) (heq : ∀ bs, bs.length = n → value bs = value' bs) :
    x.Spans f k n value' where
  ok hle := by rw [h.ok hle, heq _ (length_between_add hle)]
  error := h.error

theorem spans_word32 : word32.Spans f k 4 fun bs => UInt32.ofNat bs.toNat :=
  (spans_bytes.map Layout.word32.parse).congr fun _ => Bytes.word32_of_length

/-- Four bytes stand for an entry in a localized plugin. -/
theorem spans_displayText (h : k ≤ f.size) :
    displayText.Spans f k (f.size - k) fun bs =>
      if f.context.localized = true ∧ bs.length = 4 then .entry (UInt32.ofNat bs.toNat)
      else .text (Text.decode bs) where
  ok hle := by
    rw [length_between_add hle]
    have hread : displayText f (f.place k) =
        (if f.context.localized && (f.place k).rest.length == 4 then DisplayText.entry <$> word32
          else DisplayText.text <$> text) f (f.place k) := rfl
    rw [length_rest_place] at hread
    by_cases hentry : f.context.localized = true ∧ f.size - k = 4
    · rw [hread, if_pos (by simp [hentry]), if_pos hentry, hentry.2]
      exact (spans_word32.map DisplayText.entry).ok (Nat.le_of_eq hentry.2.symm)
    · rw [hread, if_neg (by simpa using hentry), if_neg hentry]
      exact (((spans_toEnd h).map Text.decode).map DisplayText.text).ok hle
  error hlt := absurd hlt (Nat.lt_irrefl _)

theorem remaining_place (f : Field) (k : Nat) :
    remaining f (f.place k) = .ok (f.size - k) (f.place k) := by
  rw [remaining, length_rest_place]

theorem exists_error_iff (x : Reader α) (f : Field) (c : Cursor) :
    (∃ e c', x f c = .error e c') ↔ ¬∃ a c', x f c = .ok a c' := by
  cases x f c with
  | ok a c' => simp
  | error e c' => simp

/-! ## Items to the end -/

/-- Bytes that items of `n` bytes want where so many are left: all of these, and what the last item
lacks. -/
def wantedByItems (n left : Nat) : Nat :=
  if left % n = 0 then left else left + (n - left % n)

theorem wantedByItems_le_iff (hn : 0 < n) (left : Nat) :
    wantedByItems n left ≤ left ↔ left % n = 0 := by
  have hlt := Nat.mod_lt left hn
  rw [wantedByItems]
  split <;> omega

/-- The reader stops behind the last whole item, and fails if that is not the end. -/
theorem items_place {l : Layout α} (hsize : 0 < l.size) (f : Field) (k : Nat) :
    items l f (f.place k) =
      if (f.size - k) % l.size = 0 then
        .ok (l.values (f.place k).rest) (f.place (k + (f.size - k) / l.size * l.size))
      else .error (cutShort l f) (f.place (k + (f.size - k) / l.size * l.size)) := by
  have hmod := Nat.div_add_mod' (f.size - k) l.size
  have hsplit : l.split (f.place k).rest =
      (l.values (f.place k).rest, (f.place (k + (f.size - k) / l.size * l.size)).rest) := by
    rw [Layout.split_eq hsize, drop_rest_place, length_rest_place]
  generalize (f.size - k) / l.size * l.size = m at hmod hsplit ⊢
  have hempty : (f.place (k + m)).rest.isEmpty = true ↔ (f.size - k) % l.size = 0 := by
    rw [List.isEmpty_iff_length_eq_zero, length_rest_place]
    omega
  have hmoved : f.size - k - (f.size - (k + m)) = m := by omega
  simp only [items, hsplit, hempty, length_rest_place, pos_place, hmoved]
  rfl

/-- Items that are all there take exactly what they want. -/
theorem items_of_le {l : Layout α} (hsize : 0 < l.size)
    (h : wantedByItems l.size (f.size - k) ≤ f.size - k) :
    items l f (f.place k) =
      .ok (l.values (f.between k (k + wantedByItems l.size (f.size - k))))
        (f.place (k + wantedByItems l.size (f.size - k))) := by
  have hfull := (wantedByItems_le_iff hsize _).mp h
  have hrest : (f.place k).rest.take (f.size - k) = (f.place k).rest :=
    List.take_of_length_le (Nat.le_of_eq (length_rest_place f k))
  rw [items_place hsize, if_pos hfull, wantedByItems, if_pos hfull, between_add, hrest,
    Nat.div_mul_cancel (Nat.dvd_of_mod_eq_zero hfull)]

/-- Where the last item is cut short, the reader fails before it. -/
theorem items_of_lt {l : Layout α} (hsize : 0 < l.size)
    (h : f.size - k < wantedByItems l.size (f.size - k)) :
    ∃ m, items l f (f.place k) = .error (cutShort l f) (f.place (k + m)) ∧ l.size ∣ m ∧
      m < f.size - k ∧ f.size - k < m + l.size := by
  have hodd : (f.size - k) % l.size ≠ 0 :=
    mt (wantedByItems_le_iff hsize _).mpr (Nat.not_le.mpr h)
  have hmod := Nat.div_add_mod' (f.size - k) l.size
  have hshort := Nat.mod_lt (f.size - k) hsize
  refine ⟨(f.size - k) / l.size * l.size, ?_, Nat.dvd_mul_left .., by omega, by omega⟩
  rw [items_place hsize, if_neg hodd]

theorem spans_formIds :
    formIds.Spans f k (wantedByItems 4 (f.size - k)) Layout.formId.values := by
  have hread : formIds f (f.place k) =
      (if (f.place k).rest.length % 4 = 0 then items Layout.formId
        else overrun (4 - (f.place k).rest.length % 4)) f (f.place k) := rfl
  rw [length_rest_place] at hread
  constructor
  · intro hle
    rw [hread, if_pos ((wantedByItems_le_iff (by decide) _).mp hle)]
    exact items_of_le (l := Layout.formId) (by decide) hle
  · intro hlt
    rw [hread, if_neg (mt (wantedByItems_le_iff (by decide) _).mpr (Nat.not_le.mpr hlt))]
    exact ⟨_, rfl⟩

end Reader

/-! ## Readings -/

/-- A reader of a field, with its arguments. An item takes at least one byte, since there is no end
to items that take none. -/
inductive Reading : Type → Type 1
  | byte : Reading UInt8
  | word16 : Reading UInt16
  | int16 : Reading Int16
  | word32 : Reading UInt32
  | int32 : Reading Int32
  | single : Reading Float32
  | formId : Reading FormId
  | tag : Reading Tag
  | bytes (n : Nat) : Reading Bytes
  | toEnd : Reading Bytes
  | skip (n : Nat) : Reading Unit
  | fixedText (n : Nat) : Reading String
  | text : Reading String
  | displayText : Reading DisplayText
  | item {α : Type} (l : Layout α) : Reading α
  | items {α : Type} (l : Layout α) (hsize : 0 < l.size) : Reading (List α)
  | formIds : Reading (List FormId)

namespace Reading

def run : Reading α → Reader α
  | byte => Reader.byte
  | word16 => Reader.word16
  | int16 => Reader.int16
  | word32 => Reader.word32
  | int32 => Reader.int32
  | single => Reader.single
  | formId => Reader.formId
  | tag => Reader.tag
  | bytes n => Reader.bytes n
  | toEnd => Reader.toEnd
  | skip n => Reader.skip n
  | fixedText n => Reader.fixedText n
  | text => Reader.text
  | displayText => Reader.displayText
  | item l => Reader.item l
  | items l _ => Reader.items l
  | formIds => Reader.formIds

/-- Bytes that a reading wants where so many are left. -/
def wanted : Reading α → (left : Nat) → Nat
  | byte, _ => 1
  | word16, _ | int16, _ => 2
  | word32, _ | int32, _ | single, _ | formId, _ | tag, _ => 4
  | bytes n, _ | skip n, _ | fixedText n, _ => n
  | toEnd, left | text, left | displayText, left => left
  | item l, _ => l.size
  | items l _, left => Reader.wantedByItems l.size left
  | formIds, left => Reader.wantedByItems 4 left

/-- What a reading makes of the bytes that it wants. -/
def value (context : Context) : Reading α → Bytes → α
  | byte, bs => UInt8.ofNat bs.toNat
  | word16, bs => UInt16.ofNat bs.toNat
  | int16, bs => (UInt16.ofNat bs.toNat).toInt16
  | word32, bs => UInt32.ofNat bs.toNat
  | int32, bs => (UInt32.ofNat bs.toNat).toInt32
  | single, bs => Single.ofBits (UInt32.ofNat bs.toNat)
  | formId, bs => ⟨UInt32.ofNat bs.toNat⟩
  | tag, bs => ⟨UInt32.ofNat bs.toNat⟩
  | bytes _, bs | toEnd, bs => bs
  | skip _, _ => ()
  | fixedText _, bs | text, bs => Text.decode bs
  | displayText, bs =>
    if context.localized = true ∧ bs.length = 4 then .entry (UInt32.ofNat bs.toNat)
    else .text (Text.decode bs)
  | item l, bs => l.parse bs
  | items l _, bs => l.values bs
  | formIds, bs => Layout.formId.values bs

/-- The size of an item, for items to the end. -/
def itemSize? : Reading α → Option Nat
  | items l _ => some l.size
  | _ => none

variable {r : Reading α}

/-- All readings but that of items to the end move all or nothing. -/
theorem spans_run (hk : k ≤ f.size) (hr : r.itemSize? = none) :
    r.run.Spans f k (r.wanted (f.size - k)) (r.value f.context) := by
  cases r with
  | byte => exact (Reader.spans_bytes.map _).congr fun _ => Bytes.headD_of_length
  | word16 => exact (Reader.spans_bytes.map _).congr fun _ => Bytes.word16_of_length
  | int16 =>
    exact (Reader.spans_bytes.map _).congr fun _ h =>
      congrArg UInt16.toInt16 (Bytes.word16_of_length h)
  | word32 => exact Reader.spans_word32
  | int32 =>
    exact (Reader.spans_bytes.map _).congr fun _ h =>
      congrArg UInt32.toInt32 (Bytes.word32_of_length h)
  | single =>
    exact (Reader.spans_bytes.map _).congr fun _ h =>
      congrArg Single.ofBits (Bytes.word32_of_length h)
  | formId => exact Reader.spans_word32.map FormId.mk
  | tag => exact Reader.spans_word32.map Tag.mk
  | bytes n => exact Reader.spans_bytes
  | toEnd => exact Reader.spans_toEnd hk
  | skip n =>
    rw [run, Reader.skip_eq]
    exact Reader.spans_bytes.map _
  | fixedText n => exact Reader.spans_bytes.map Text.decode
  | text => exact (Reader.spans_toEnd hk).map Text.decode
  | displayText => exact Reader.spans_displayText hk
  | item l => exact Reader.spans_item l
  | items l hsize => cases hr
  | formIds => exact Reader.spans_formIds

/-- What a reading can do: find all that it wants, or fail after `m` bytes. These are none, or the
whole items before the first one that does not fit. -/
theorem run_cases (r : Reading α) (hk : k ≤ f.size) :
    (r.wanted (f.size - k) ≤ f.size - k ∧
      r.run f (f.place k) = .ok (r.value f.context (f.between k (k + r.wanted (f.size - k))))
        (f.place (k + r.wanted (f.size - k)))) ∨
    (f.size - k < r.wanted (f.size - k) ∧
      ∃ e m, m ≤ f.size - k ∧ r.run f (f.place k) = .error e (f.place (k + m)) ∧
        (r.itemSize? = none → m = 0) ∧
        ∀ n, r.itemSize? = some n → n ∣ m ∧ m < f.size - k ∧ f.size - k < m + n) := by
  cases hr : r.itemSize? with
  | none =>
    have hspans := spans_run hk hr
    rcases Nat.lt_or_ge (f.size - k) (r.wanted (f.size - k)) with hlt | hle
    · obtain ⟨e, he⟩ := hspans.error hlt
      refine .inr ⟨hlt, e, 0, Nat.zero_le _, he, fun _ => rfl, fun n hn => ?_⟩
      cases hn
    · exact .inl ⟨hle, hspans.ok hle⟩
  | some n =>
    cases r with
    | items l hsize =>
      cases hr
      rcases Nat.lt_or_ge (f.size - k) (Reader.wantedByItems l.size (f.size - k)) with hlt | hle
      · obtain ⟨m, herror, hdvd, hbefore, hbehind⟩ := Reader.items_of_lt hsize hlt
        refine .inr ⟨hlt, _, m, Nat.le_of_lt hbefore, herror, fun hnone => ?_, fun n hn => ?_⟩
        · cases hnone
        · cases hn
          exact ⟨hdvd, hbefore, hbehind⟩
      · exact .inl ⟨hle, Reader.items_of_le hsize hle⟩
    | _ => cases hr

/-- The place after a reading, be it a success or a failure. -/
def after (r : Reading α) (f : Field) (c : Cursor) : Cursor :=
  match r.run f c with
  | .ok _ c' => c'
  | .error _ c' => c'

/-- How a reading that is started at a place behaves. -/
structure Confined (r : Reading α) (f : Field) (c : Cursor) : Prop where
  /-- It stays inside the field. -/
  pos_after_le : (r.after f c).pos ≤ f.size
  /-- What it leaves is the rest of the field. -/
  remaining_after : Reader.remaining f (r.after f c) =
    .ok (f.size - (r.after f c).pos) (r.after f c)
  /-- It does not go back. -/
  pos_le_after : c.pos ≤ (r.after f c).pos
  /-- It succeeds where the bytes that it wants are there. -/
  ok_iff : (∃ v c', r.run f c = .ok v c') ↔ r.wanted (f.size - c.pos) ≤ f.size - c.pos
  /-- It moves behind these bytes, and gives their value. -/
  of_ok : ∀ v c', r.run f c = .ok v c' →
    c'.pos = c.pos + r.wanted (f.size - c.pos) ∧ v = r.value f.context (f.between c.pos c'.pos)
  /-- A failure moves nothing. -/
  of_error : ∀ e c', r.run f c = .error e c' → r.itemSize? = none → c' = c
  /-- Items to the end fail before the first one that does not fit. -/
  of_error_items : ∀ e c' n, r.run f c = .error e c' → r.itemSize? = some n →
    n ∣ c'.pos - c.pos ∧ c'.pos < f.size ∧ f.size < c'.pos + n

/-- A reading moves on from place to place. -/
theorem exists_after_eq (r : Reading α) (hk : k ≤ f.size) :
    ∃ k', k ≤ k' ∧ k' ≤ f.size ∧ r.after f (f.place k) = f.place k' := by
  rcases run_cases r hk with ⟨hle, hok⟩ | ⟨-, e, m, hm, herror, -⟩
  · refine ⟨k + r.wanted (f.size - k), by omega, by omega, ?_⟩
    simp only [after, hok]
  · refine ⟨k + m, by omega, by omega, ?_⟩
    simp only [after, herror]

/-- **A step of reading.** Every reading that is started inside the field behaves so. -/
theorem confined (r : Reading α) (hk : k ≤ f.size) : r.Confined f (f.place k) := by
  obtain ⟨k', hfrom, hto, hafter⟩ := exists_after_eq r hk
  have hwithin : (r.after f (f.place k)).pos ≤ f.size := by rwa [hafter]
  have hforward : (f.place k).pos ≤ (r.after f (f.place k)).pos := by rwa [hafter]
  have hremaining : Reader.remaining f (r.after f (f.place k)) =
      .ok (f.size - (r.after f (f.place k)).pos) (r.after f (f.place k)) := by
    rw [hafter, Reader.remaining_place, pos_place]
  rcases run_cases r hk with ⟨hle, hok⟩ | ⟨hlt, e, m, hm, herror, hnone, hitems⟩
  · refine ⟨hwithin, hremaining, hforward, iff_of_true ⟨_, _, hok⟩ hle, ?_, ?_, ?_⟩
    · intro v c' h
      cases hok.symm.trans h
      exact ⟨rfl, rfl⟩
    · intro e c' h
      cases hok.symm.trans h
    · intro e c' n h
      cases hok.symm.trans h
  · refine ⟨hwithin, hremaining, hforward, iff_of_false ?_ (Nat.not_le.mpr hlt), ?_, ?_, ?_⟩
    · rintro ⟨v, c', h⟩
      cases herror.symm.trans h
    · intro v c' h
      cases herror.symm.trans h
    · intro e' c' h hr
      cases herror.symm.trans h
      rw [hnone hr, Nat.add_zero]
    · intro e' c' n h hr
      cases herror.symm.trans h
      obtain ⟨hdvd, hbefore, hbehind⟩ := hitems n hr
      rw [pos_place, pos_place, Nat.add_sub_cancel_left]
      exact ⟨hdvd, by omega, by omega⟩

end Reading

/-- The place after a sequence of readings. One that fails is not the last: reading goes on where it
stopped. -/
def reached (f : Field) (readings : List (Sigma Reading)) : Cursor :=
  readings.foldl (fun c r => r.2.after f c) f.start

/-- **Reading.** A sequence of readings ends at a place of the field. -/
theorem exists_reached_eq (f : Field) (readings : List (Sigma Reading)) :
    ∃ k ≤ f.size, f.reached readings = f.place k := by
  refine List.foldlRecOn (motive := fun c => ∃ k ≤ f.size, c = f.place k) readings _
    ⟨0, Nat.zero_le _, rfl⟩ ?_
  rintro c ⟨k, hk, rfl⟩ r -
  obtain ⟨k', -, hk', hafter⟩ := r.2.exists_after_eq hk
  exact ⟨k', hk', hafter⟩

/-- **Reading is confined to its field.** Whatever was read before, and whether or not it failed,
the next reading stays inside the field, does not go back, and gives the value of the bytes that it
moves over. If it fails it stays where it is, items to the end apart. Form ids fail if what is left
is no whole number of them. -/
theorem reading_confined (f : Field) (readings : List (Sigma Reading)) :
    (∀ (α : Type) (r : Reading α), r.Confined f (f.reached readings)) ∧
    ((∃ e c, Reader.formIds f (f.reached readings) = .error e c) ↔
      (f.size - (f.reached readings).pos) % 4 ≠ 0) := by
  obtain ⟨k, hk, hreached⟩ := exists_reached_eq f readings
  rw [hreached]
  refine ⟨fun α r => r.confined hk, ?_⟩
  rw [Reader.exists_error_iff]
  exact not_congr ((Reading.formIds.confined hk).ok_iff.trans
    (Reader.wantedByItems_le_iff (by decide) _))

end Field

end GamePlugin

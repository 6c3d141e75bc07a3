import GamePlugin.Field.Reader

/-!
# Where readers end

A reader of a field moves forward from place to place. `Field.Reader.Ends` says that it succeeds and
what then holds of its value and of the place where it ends. Each reader has one rule for it, and
the rule for a sequence of readers goes from one to the next, so that following a reader through a
field is a matter of adding up widths. `Field.Reader.Grants` says what holds if it succeeds, and
leaves open whether it does.

## Main definitions

* `Field.place` — the place so many bytes into a field.
* `Field.Reader.Ends` — the reader succeeds, and ends as described.
* `Field.Reader.Grants` — the reader ends as described if it succeeds.
-/

namespace GamePlugin

/-! ## Splitting into values -/

namespace Layout

variable {α β : Type}

@[simp] theorem size_map (f : α → β) (l : Layout α) : (l.map f).size = l.size := rfl

@[simp] theorem size_append (a : Layout α) (b : Layout β) :
    (a.append b).size = a.size + b.size := rfl

@[simp] theorem size_times (n : Nat) (l : Layout α) : (l.times n).size = n * l.size := rfl

@[simp] theorem size_named (l : Layout α) : l.named.size = l.size := rfl

@[simp] theorem size_byte : byte.size = 1 := rfl
@[simp] theorem size_word16 : word16.size = 2 := rfl
@[simp] theorem size_int16 : int16.size = 2 := rfl
@[simp] theorem size_word32 : word32.size = 4 := rfl
@[simp] theorem size_int32 : int32.size = 4 := rfl
@[simp] theorem size_single : single.size = 4 := rfl
@[simp] theorem size_formId : formId.size = 4 := rfl

/-- Values that fill the bytes leave nothing over. -/
theorem split_of_dvd {l : Layout α} {bs : Bytes} (h : l.size ∣ bs.length) :
    (l.split bs).2 = [] := by
  fun_induction split l bs with
  | case1 bs item hstop =>
    apply List.eq_nil_of_length_eq_zero
    rcases hstop with hzero | hshort
    · rw [hzero] at h
      exact Nat.eq_zero_of_zero_dvd h
    · apply Nat.eq_zero_of_dvd_of_lt h
      rw [List.length_take] at hshort
      omega
  | case2 bs item hgo values rest hsplit ih =>
    rw [hsplit] at ih
    apply ih
    rw [List.length_drop]
    exact Nat.dvd_sub h (Nat.dvd_refl _)

end Layout

namespace Field

/-- The place `k` bytes into a field. -/
def place (f : Field) (k : Nat) : Cursor := ⟨f.payload.drop k, k⟩

@[simp] theorem pos_place (f : Field) (k : Nat) : (f.place k).pos = k := rfl

@[simp] theorem length_rest_place (f : Field) (k : Nat) : (f.place k).rest.length = f.size - k :=
  List.length_drop

theorem drop_rest_place (f : Field) (k n : Nat) :
    (f.place k).rest.drop n = (f.place (k + n)).rest :=
  List.drop_drop

theorem rest_place_size (f : Field) : (f.place f.size).rest = [] := List.drop_length

namespace Reader

variable {α β : Type} {f : Field} {c c' : Cursor} {k n : Nat}

/-! ## Ending -/

/-- Started at a place, the reader succeeds, and `Q` holds of its value and of the place where it
ends. -/
def Ends (x : Reader α) (f : Field) (c : Cursor) (Q : α → Cursor → Prop) : Prop :=
  ∃ a c', x f c = .ok a c' ∧ Q a c'

theorem ends_of_ok {x : Reader α} {Q : α → Cursor → Prop} {a : α} (h : x f c = .ok a c') :
    Ends x f c Q ↔ Q a c' := by
  constructor
  · rintro ⟨a', c'', heq, hQ⟩
    cases h.symm.trans heq
    exact hQ
  · exact fun hQ => ⟨a, c', h, hQ⟩

theorem not_ends_of_error {x : Reader α} {Q : α → Cursor → Prop} {e : Error}
    (h : x f c = .error e c') : ¬Ends x f c Q := by
  rintro ⟨a, c'', heq, -⟩
  cases h.symm.trans heq

@[simp] theorem ends_pure (a : α) (Q : α → Cursor → Prop) : Ends (pure a) f c Q ↔ Q a c :=
  ends_of_ok rfl

theorem bind_of_ok {x : Reader α} {a : α} (h : x f c = .ok a c') (g : α → Reader β) :
    (x >>= g) f c = g a f c' := by
  have hbind : (x >>= g) f c = EStateM.bind (x f) (g · f) c := rfl
  simp only [hbind, EStateM.bind, h]

theorem bind_of_error {x : Reader α} {e : Error} (h : x f c = .error e c') (g : α → Reader β) :
    (x >>= g) f c = .error e c' := by
  have hbind : (x >>= g) f c = EStateM.bind (x f) (g · f) c := rfl
  simp only [hbind, EStateM.bind, h]

theorem map_of_ok {x : Reader α} {a : α} (h : x f c = .ok a c') (g : α → β) :
    (g <$> x) f c = .ok (g a) c' := by
  rw [← bind_pure_comp, bind_of_ok h]
  rfl

theorem map_of_error {x : Reader α} {e : Error} (h : x f c = .error e c') (g : α → β) :
    (g <$> x) f c = .error e c' := by
  rw [← bind_pure_comp, bind_of_error h]

@[simp] theorem ends_bind (x : Reader α) (g : α → Reader β) (Q : β → Cursor → Prop) :
    Ends (x >>= g) f c Q ↔ Ends x f c fun a c' => Ends (g a) f c' Q := by
  cases hx : x f c with
  | ok a c' =>
    rw [ends_of_ok hx]
    simp only [Ends, bind_of_ok hx]
  | error e c' => exact iff_of_false (not_ends_of_error (bind_of_error hx g)) (not_ends_of_error hx)

@[simp] theorem ends_map (h : α → β) (x : Reader α) (Q : β → Cursor → Prop) :
    Ends (h <$> x) f c Q ↔ Ends x f c fun a c' => Q (h a) c' := by
  rw [← bind_pure_comp, ends_bind]
  simp only [ends_pure]

@[simp] theorem ends_ite (p : Prop) [Decidable p] (x y : Reader α) (Q : α → Cursor → Prop) :
    Ends (if p then x else y) f c Q ↔ if p then Ends x f c Q else Ends y f c Q := by
  split <;> rfl

@[simp] theorem ends_read (Q : Field → Cursor → Prop) : Ends read f c Q ↔ Q f c :=
  ends_of_ok rfl

@[simp] theorem ends_remaining (Q : Nat → Cursor → Prop) :
    Ends remaining f (f.place k) Q ↔ Q (f.size - k) (f.place k) := by
  rw [← length_rest_place]
  exact ends_of_ok rfl

/-! ## Ending, if at all -/

/-- Started at a place, the reader fails, or `Q` holds of its value and of the place where it
ends. -/
def Grants (x : Reader α) (f : Field) (c : Cursor) (Q : α → Cursor → Prop) : Prop :=
  ∀ a c', x f c = .ok a c' → Q a c'

theorem grants_of_ok {x : Reader α} {Q : α → Cursor → Prop} {a : α} (h : x f c = .ok a c') :
    Grants x f c Q ↔ Q a c' := by
  refine ⟨fun hx => hx a c' h, fun hQ a' c'' heq => ?_⟩
  cases h.symm.trans heq
  exact hQ

theorem grants_of_error {x : Reader α} {Q : α → Cursor → Prop} {e : Error}
    (h : x f c = .error e c') : Grants x f c Q := by
  intro a c'' heq
  cases h.symm.trans heq

@[simp] theorem grants_true (x : Reader α) : Grants x f c fun _ _ => True :=
  fun _ _ _ => trivial

@[simp] theorem grants_pure (a : α) (Q : α → Cursor → Prop) : Grants (pure a) f c Q ↔ Q a c :=
  grants_of_ok rfl

@[simp] theorem grants_bind (x : Reader α) (g : α → Reader β) (Q : β → Cursor → Prop) :
    Grants (x >>= g) f c Q ↔ Grants x f c fun a c' => Grants (g a) f c' Q := by
  cases hx : x f c with
  | ok a c' =>
    rw [grants_of_ok hx]
    simp only [Grants, bind_of_ok hx]
  | error e c' => exact iff_of_true (grants_of_error (bind_of_error hx g)) (grants_of_error hx)

@[simp] theorem grants_map (h : α → β) (x : Reader α) (Q : β → Cursor → Prop) :
    Grants (h <$> x) f c Q ↔ Grants x f c fun a c' => Q (h a) c' := by
  rw [← bind_pure_comp, grants_bind]
  simp only [grants_pure]

@[simp] theorem grants_ite (p : Prop) [Decidable p] (x y : Reader α) (Q : α → Cursor → Prop) :
    Grants (if p then x else y) f c Q ↔ if p then Grants x f c Q else Grants y f c Q := by
  split <;> rfl

@[simp] theorem grants_read (Q : Field → Cursor → Prop) : Grants read f c Q ↔ Q f c :=
  grants_of_ok rfl

/-! ## A number of bytes -/

theorem length_take_rest_place (f : Field) (k n : Nat) :
    ((f.place k).rest.take n).length = n ↔ n ≤ f.size - k := by
  rw [List.length_take, length_rest_place]
  omega

theorem bytes_of_le (h : n ≤ f.size - k) :
    bytes n f (f.place k) = .ok ((f.place k).rest.take n) (f.place (k + n)) := by
  simp only [bytes, if_pos ((length_take_rest_place f k n).mpr h), drop_rest_place]
  rfl

theorem bytes_of_lt (h : f.size - k < n) : bytes n f (f.place k) = overrun n f (f.place k) := by
  have hshort : ((f.place k).rest.take n).length ≠ n := by
    rw [Ne, length_take_rest_place]
    omega
  simp only [bytes, if_neg hshort]

@[simp] theorem ends_bytes (Q : Bytes → Cursor → Prop) :
    Ends (bytes n) f (f.place k) Q ↔
      n ≤ f.size - k ∧ Q ((f.place k).rest.take n) (f.place (k + n)) := by
  by_cases h : n ≤ f.size - k
  · rw [ends_of_ok (bytes_of_le h), and_iff_right h]
  · exact iff_of_false (not_ends_of_error (bytes_of_lt (by omega))) fun hn => h hn.1

@[simp] theorem grants_bytes (Q : Bytes → Cursor → Prop) :
    Grants (bytes n) f (f.place k) Q ↔
      (n ≤ f.size - k → Q ((f.place k).rest.take n) (f.place (k + n))) := by
  by_cases h : n ≤ f.size - k
  · rw [grants_of_ok (bytes_of_le h), imp_iff_right h]
  · exact iff_of_true (grants_of_error (bytes_of_lt (by omega))) fun hn => absurd hn h

theorem skip_eq (n : Nat) : skip n = (fun _ => ()) <$> bytes n := by
  rw [skip, ← bind_pure_comp]

/-! ## Values of a layout -/

theorem item_of_le {l : Layout α} (h : l.size ≤ f.size - k) :
    item l f (f.place k) = .ok (l.parse ((f.place k).rest.take l.size)) (f.place (k + l.size)) := by
  simp only [item, if_pos ((length_take_rest_place f k l.size).mpr h), drop_rest_place]
  rfl

theorem item_of_lt {l : Layout α} (h : f.size - k < l.size) :
    item l f (f.place k) = .error (cutShort l f) (f.place k) := by
  have hshort : ((f.place k).rest.take l.size).length ≠ l.size := by
    rw [Ne, length_take_rest_place]
    omega
  simp only [item, if_neg hshort]

@[simp] theorem ends_item (l : Layout α) (Q : α → Cursor → Prop) :
    Ends (item l) f (f.place k) Q ↔
      l.size ≤ f.size - k ∧ Q (l.parse ((f.place k).rest.take l.size)) (f.place (k + l.size)) := by
  by_cases h : l.size ≤ f.size - k
  · rw [ends_of_ok (item_of_le h), and_iff_right h]
  · exact iff_of_false (not_ends_of_error (item_of_lt (by omega))) fun hn => h hn.1

/-! ## All that is left -/

/-- Where reading to the end ends. -/
theorem place_add_rest (h : k ≤ f.size) : (⟨[], k + (f.place k).rest.length⟩ : Cursor) =
    f.place f.size := by
  rw [length_rest_place, Nat.add_sub_cancel' h, place, ← rest_place_size f]
  rfl

@[simp] theorem ends_toEnd (h : k ≤ f.size) (Q : Bytes → Cursor → Prop) :
    Ends toEnd f (f.place k) Q ↔ Q (f.place k).rest (f.place f.size) := by
  rw [← place_add_rest h]
  exact ends_of_ok rfl

@[simp] theorem grants_toEnd (Q : Bytes → Cursor → Prop) :
    Grants toEnd f c Q ↔ Q c.rest ⟨[], c.pos + c.rest.length⟩ :=
  grants_of_ok rfl

theorem skipRest_eq : skipRest = (fun _ => ()) <$> toEnd := by
  rw [skipRest, ← bind_pure_comp]

@[simp] theorem ends_items {l : Layout α} (h : k ≤ f.size) (hfull : (f.size - k) % l.size = 0)
    (Q : List α → Cursor → Prop) :
    Ends (items l) f (f.place k) Q ↔ Q (l.split (f.place k).rest).1 (f.place f.size) := by
  have hrest : (l.split (f.place k).rest).2 = [] :=
    Layout.split_of_dvd (Nat.dvd_of_mod_eq_zero (by rwa [length_rest_place]))
  rw [← place_add_rest h]
  apply ends_of_ok
  simp [items, hrest]

@[simp] theorem grants_items (l : Layout α) (Q : List α → Cursor → Prop) :
    Grants (items l) f c Q ↔
      ((l.split c.rest).2 = [] → Q (l.split c.rest).1 ⟨[], c.pos + c.rest.length⟩) := by
  by_cases h : (l.split c.rest).2 = []
  · rw [imp_iff_right h]
    apply grants_of_ok
    simp [items, h]
  · have hread : items l f c = .error (cutShort l f)
        ⟨(l.split c.rest).2, c.pos + (c.rest.length - (l.split c.rest).2.length)⟩ := by
      simp [items, h]
    exact iff_of_true (grants_of_error hread) fun hempty => absurd hempty h

/-! ## Whole fields -/

/-- A text for display fills its field, in either form. -/
theorem ends_displayText (Q : DisplayText → Cursor → Prop) (h : ∀ t, Q t (f.place f.size)) :
    Ends displayText f (f.place 0) Q := by
  simp only [displayText, ends_bind, ends_read, ends_remaining]
  split
  case isTrue hentry =>
    have hsize : f.size = 4 := by simpa using (Bool.and_eq_true_iff.mp hentry).2
    rw [hsize] at h
    simp [word32, hsize, h]
  case isFalse => simp [text, h]

/-- Form ids that fill their field. -/
theorem ends_formIds (hsize : f.size % 4 = 0) (Q : List FormId → Cursor → Prop) :
    Ends formIds f (f.place 0) Q ↔
      Q (Layout.formId.split (f.place 0).rest).1 (f.place f.size) := by
  simp [formIds, hsize]

end Reader

end Field

end GamePlugin

import GamePlugin.Body.Rule
import GamePlugin.Proofs.Readers

/-!
# Tables of rules

A rule says for which sizes it holds, and its reader adds up to just these. So a field that a rule
takes is read to its end, whatever its bytes are. Two kinds of rules are not so careful: those for
one reference and those for a list of form ids hold for fields of any size. `Rule.Fails` says which
fields a rule cannot take. The first rule that applies to a field decides, so a table fails where
its rules do (`Table.fails_of_forall_mem`).

## Main definitions

* `Field.Reader.Settles`, `Field.Reader.Breaks` — the two ways that offering a field can end.
* `Field.Strays` — a field whose size does not fit its reference or its form ids.
* `Rule.Fails`, `Table.Fails` — the fields that a rule or a table cannot take.
-/

namespace GamePlugin

open Field.Reader

variable {α β : Type}

/-! ## Outcomes -/

namespace Field.Reader

variable {f : Field}

/-- The reader takes all bytes of the field. -/
def Drains (x : Field.Reader α) (f : Field) : Prop :=
  Ends x f (f.place 0) fun _ c => c = f.place f.size

/-- The field is declined, or all its bytes are taken. -/
def Settles (x : Field.Reader (Option β)) (f : Field) : Prop :=
  Ends x f (f.place 0) fun b? c => b? = none ∨ c = f.place f.size

/-- The field is refused for its size, or taken without being read to its end. -/
inductive Breaks (x : Field.Reader (Option β)) (f : Field) : Prop
  | refused {actual : Nat} {c : Cursor}
      (h : x f f.start = .error (.sizeMismatch f.record (some f.tag) f.offset f.size actual) c)
  | unread {b : β} {c : Cursor} (h : x f f.start = .ok (some b) c) (hend : c.pos ≠ f.size)

theorem settles_some_map {x : Field.Reader β} : Settles (some <$> x) f ↔ Drains x f := by
  simp [Settles, Drains]

theorem Settles.congr {x y : Field.Reader (Option β)} (h : x f = y f) (hx : Settles x f) :
    Settles y f := by
  simpa only [Settles, Ends, h] using hx

theorem Breaks.congr {x y : Field.Reader (Option β)} (h : x f = y f) (hx : Breaks x f) :
    Breaks y f := by
  cases hx with
  | refused hx => exact .refused (h ▸ hx)
  | unread hx hend => exact .unread (h ▸ hx) hend

theorem Settles.map {x : Field.Reader (Option α)} (h : Settles x f) (g : α → β) :
    Settles (do return (← x).map g) f := by
  obtain ⟨a?, c, hx, hc⟩ := h
  simp only [Settles, ends_bind, ends_pure, Option.map_eq_none_iff]
  exact ⟨a?, c, hx, hc⟩

theorem Breaks.map {x : Field.Reader (Option α)} (h : Breaks x f) (g : α → β) :
    Breaks (do return (← x).map g) f := by
  cases h with
  | refused h => exact .refused (bind_of_error h _)
  | unread h hend => exact .unread (bind_of_ok h _) hend

theorem Breaks.of_overrun {x : Field.Reader α} {wanted : Nat}
    (h : x f (f.place 0) = overrun wanted f (f.place 0)) (g : α → Field.Reader β) :
    Breaks (some <$> (x >>= g)) f :=
  .refused (map_of_error (bind_of_error h g) _)

end Field.Reader

/-- What the sink of a body says of a field is what the body says of it. -/
theorem Offer.exists_of_sink {offer : Offer β} {b b' : β} {f : Field} {c c' : Field.Cursor}
    {outcome : Field.Outcome} (h : Offer.sink offer b f c = .ok (outcome, b') c') :
    ∃ b?, offer b f c = .ok b? c' ∧ b' = b?.getD b ∧ (outcome = .declined ↔ b? = none) := by
  cases hread : offer b f c with
  | error e c'' =>
    have hsink : Offer.sink offer b f c = .error e c'' := bind_of_error hread _
    cases hsink.symm.trans h
  | ok b? c'' =>
    cases b? with
    | none =>
      have hsink : Offer.sink offer b f c = .ok (.declined, b) c'' := bind_of_ok hread _
      cases hsink.symm.trans h
      exact ⟨none, rfl, rfl, iff_of_true rfl rfl⟩
    | some b'' =>
      have hsink : Offer.sink offer b f c = .ok (.handled, b'') c'' := bind_of_ok hread _
      cases hsink.symm.trans h
      exact ⟨some b', rfl, rfl, iff_of_false nofun nofun⟩

/-! ## References and form ids of any size -/

/-- A field of a schema with groups whose tag is among `refs` and which is not one form id long, or
a field whose tag is among `forms` and which does not hold whole form ids. -/
def Field.Strays (refs forms : List Tag) (f : Field) : Prop :=
  (f.tag ∈ refs ∧ f.context.schema ≠ .tes3 ∧ f.size ≠ 4) ∨ (f.tag ∈ forms ∧ f.size % 4 ≠ 0)

theorem Field.Strays.mem_tags {refs forms : List Tag} {f : Field} (h : f.Strays refs forms) :
    f.tag ∈ refs ++ forms := by
  rcases h with ⟨h, -⟩ | ⟨h, -⟩
  · exact List.mem_append_left forms h
  · exact List.mem_append_right refs h

namespace Field.Reader

variable {f : Field}

/-- A reference fills its field if it is a text or has the size of a form id. -/
theorem ends_ref (hfits : f.context.schema = .tes3 ∨ f.size = 4) (Q : FormRef → Cursor → Prop)
    (hQ : ∀ r, Q r (f.place f.size)) : Ends ref f (f.place 0) Q := by
  simp only [ref, ends_bind, ends_read]
  cases hschema : f.context.schema with
  | tes3 => simp [text, hQ]
  | tes4 | tes5 =>
    have hsize : f.size = 4 := by simpa [hschema] using hfits
    rw [hsize] at hQ
    simp [formId, word32, hsize, hQ]

/-- A reference by form id takes four bytes. -/
theorem ref_of_le (hschema : f.context.schema ≠ .tes3) (hsize : 4 ≤ f.size) :
    ∃ r, ref f (f.place 0) = .ok r (f.place 4) := by
  have hends : Ends ref f (f.place 0) fun _ c => c = f.place 4 := by
    simp only [ref, ends_bind, ends_read]
    cases hcase : f.context.schema with
    | tes3 => exact absurd hcase hschema
    | tes4 | tes5 => simp [formId, word32, hsize]
  obtain ⟨r, c, hread, rfl⟩ := hends
  exact ⟨r, hread⟩

theorem ref_of_lt (hschema : f.context.schema ≠ .tes3) (hsize : f.size < 4) :
    ref f (f.place 0) = overrun 4 f (f.place 0) := by
  have hformId : formId f (f.place 0) = overrun 4 f (f.place 0) :=
    map_of_error (map_of_error (bytes_of_lt hsize) _) _
  have hread : (read : Field.Reader Field) f (f.place 0) = .ok f (f.place 0) := rfl
  rw [ref, bind_of_ok hread]
  cases hcase : f.context.schema with
  | tes3 => exact absurd hcase hschema
  | tes4 | tes5 => exact bind_of_error hformId _

theorem formIds_of_odd (hodd : f.size % 4 ≠ 0) :
    formIds f (f.place 0) = overrun (4 - f.size % 4) f (f.place 0) := by
  have hremaining : remaining f (f.place 0) = .ok f.size (f.place 0) := rfl
  rw [formIds, bind_of_ok hremaining, if_neg hodd]

end Field.Reader

/-! ## Rules -/

namespace Rule

/-- The rule takes or declines every field that it applies to. -/
def Settles (r : Rule β) : Prop := ∀ b f, r.applies f → Field.Reader.Settles (r.read b) f

/-- Of the fields that it applies to, the rule cannot take just the given ones. -/
def Fails (r : Rule β) (p : Field → Prop) : Prop :=
  ∀ b f, r.applies f → (p f → Breaks (r.read b) f) ∧ (¬p f → Field.Reader.Settles (r.read b) f)

theorem applies_iff {r : Rule β} {f : Field} :
    r.applies f ↔ f.tag = r.tag ∧ f.context.schema ∈ r.schemas ∧ r.sizes.allow f.size := by
  simp [applies, and_assoc, @eq_comm _ f.tag]

theorem tag_eq_of_applies {r : Rule β} {f : Field} (h : r.applies f) : f.tag = r.tag :=
  (applies_iff.mp h).1

section Settles

variable {tag : Tag} {sizes : Sizes} {read : β → Field.Reader β}

theorem settles_mk {schemas : List Schema} {read : Offer β} :
    Settles ⟨tag, sizes, schemas, read⟩ ↔ ∀ b f, f.tag = tag → f.context.schema ∈ schemas →
      sizes.allow f.size → Field.Reader.Settles (read b) f := by
  simp only [Settles, applies_iff, and_imp]

theorem settles_on : (on tag sizes read).Settles ↔ ∀ b f, f.tag = tag →
    sizes.allow f.size → Drains (read b) f := by
  have hall : ∀ schema : Schema, schema ∈ [Schema.tes3, .tes4, .tes5] := by
    intro schema
    cases schema <;> decide
  simp only [on, settles_mk, settles_some_map, hall, true_imp_iff]

theorem settles_onTes3 : (onTes3 tag sizes read).Settles ↔ ∀ b f, f.tag = tag →
    f.context.schema = .tes3 → sizes.allow f.size → Drains (read b) f := by
  simp only [onTes3, settles_mk, settles_some_map, List.mem_singleton]

theorem settles_onSchema {schema : Schema} : (onSchema schema tag sizes read).Settles ↔
    ∀ b f, f.tag = tag → f.context.schema = schema → sizes.allow f.size → Drains (read b) f := by
  simp only [onSchema, settles_mk, settles_some_map, List.mem_singleton]

theorem settles_onGrouped : (onGrouped tag sizes read).Settles ↔ ∀ b f, f.tag = tag →
    f.context.schema ≠ .tes3 → sizes.allow f.size → Drains (read b) f := by
  have hne : ∀ schema : Schema, schema ∈ [Schema.tes4, .tes5] ↔ schema ≠ .tes3 := by
    intro schema
    cases schema <;> decide
  simp only [onGrouped, settles_mk, settles_some_map, hne]

end Settles

theorem Fails.congr {r : Rule β} {p q : Field → Prop} (h : r.Fails p)
    (hpq : ∀ f, r.applies f → (p f ↔ q f)) : r.Fails q := by
  intro b f happlies
  rw [← hpq f happlies]
  exact h b f happlies

theorem Settles.fails {r : Rule β} (h : r.Settles) {p : Field → Prop}
    (hp : ∀ f, r.applies f → ¬p f) : r.Fails p :=
  fun b f happlies => ⟨fun hf => absurd hf (hp f happlies), fun _ => h b f happlies⟩

@[simp] theorem tag_on (tag : Tag) (sizes : Sizes) (read : β → Field.Reader β) :
    (on tag sizes read).tag = tag := rfl

@[simp] theorem tag_onTes3 (tag : Tag) (sizes : Sizes) (read : β → Field.Reader β) :
    (onTes3 tag sizes read).tag = tag := rfl

@[simp] theorem tag_onGrouped (tag : Tag) (sizes : Sizes) (read : β → Field.Reader β) :
    (onGrouped tag sizes read).tag = tag := rfl

@[simp] theorem tag_onSchema (schema : Schema) (tag : Tag) (sizes : Sizes)
    (read : β → Field.Reader β) : (onSchema schema tag sizes read).tag = tag := rfl

variable {r : Rule β} {tag : Tag} {refs forms : List Tag}

/-- A rule for one reference cannot take just the fields that do not hold one. -/
theorem fails_ref (hrefs : tag ∈ refs) (hforms : tag ∉ forms) (set : β → FormRef → β) :
    (on tag .any fun b => set b <$> ref).Fails (Field.Strays refs forms) := by
  intro b f happlies
  have htag : f.tag = tag := tag_eq_of_applies happlies
  simp only [Field.Strays, htag, hrefs, hforms, true_and, false_and, or_false]
  refine ⟨fun ⟨hschema, hsize⟩ => ?_, fun hfits => settles_some_map.mpr ?_⟩
  · rcases Nat.lt_or_gt_of_ne hsize with hshort | hlong
    · exact .of_overrun (ref_of_lt hschema hshort) _
    · obtain ⟨r, hread⟩ := ref_of_le hschema (Nat.le_of_lt hlong)
      exact .unread (map_of_ok (map_of_ok hread _) _) (Nat.ne_of_lt hlong)
  · have hfits : f.context.schema = .tes3 ∨ f.size = 4 := by
      by_cases hschema : f.context.schema = .tes3
      · exact .inl hschema
      · exact .inr (Decidable.of_not_not fun hsize => hfits ⟨hschema, hsize⟩)
    simp [Drains, ends_ref hfits]

/-- A rule for form ids cannot take just the fields that do not hold whole ones. -/
theorem fails_formIds (hrefs : tag ∉ refs) (hforms : tag ∈ forms) (set : β → List FormId → β) :
    (on tag .any fun b => set b <$> formIds).Fails (Field.Strays refs forms) := by
  intro b f happlies
  have htag : f.tag = tag := tag_eq_of_applies happlies
  simp only [Field.Strays, htag, hrefs, hforms, true_and, false_and, false_or]
  refine ⟨fun hodd => .of_overrun (formIds_of_odd hodd) _, fun heven => settles_some_map.mpr ?_⟩
  simp [Drains, ends_formIds (Decidable.of_not_not heven)]

/-- Any other rule has to settle its fields. -/
theorem fails_iff_settles (hrefs : r.tag ∉ refs) (hforms : r.tag ∉ forms) :
    r.Fails (Field.Strays refs forms) ↔ r.Settles := by
  have hstrays : ∀ f, r.applies f → ¬f.Strays refs forms := by
    intro f happlies hf
    have htag := hf.mem_tags
    rw [tag_eq_of_applies happlies, List.mem_append] at htag
    exact htag.elim hrefs hforms
  exact ⟨fun h b f happlies => (h b f happlies).2 (hstrays f happlies), fun h => h.fails hstrays⟩

theorem Fails.within {p : Field → Prop} (h : r.Fails p) (get : α → β) (set : α → β → α) :
    (r.within get set).Fails p := fun a f happlies =>
  ⟨fun hp => ((h (get a) f happlies).1 hp).map (set a),
    fun hp => ((h (get a) f happlies).2 hp).map (set a)⟩

/-- Rules of a part, as rules of the whole. -/
theorem forall_fails_within {rules : List (Rule β)} {p : Field → Prop} (h : ∀ r ∈ rules, r.Fails p)
    (get : α → β) (set : α → β → α) : ∀ r ∈ rules.map (within get set), r.Fails p :=
  List.forall_mem_map.mpr fun r hr => (h r hr).within get set

/-- Whether the rule applies to all fields with its tag. -/
def takesAll (r : Rule β) : Bool :=
  match r.sizes with
  | .any => r.schemas = [.tes3, .tes4, .tes5]
  | _ => false

theorem applies_of_takesAll (h : r.takesAll) {f : Field} (htag : r.tag = f.tag) : r.applies f := by
  rw [takesAll] at h
  split at h
  case h_1 hsizes =>
    have hschemas : r.schemas = [.tes3, .tes4, .tes5] := by simpa using h
    rw [applies_iff, hsizes, hschemas]
    refine ⟨htag.symm, ?_, rfl⟩
    cases f.context.schema <;> decide
  case h_2 => cases h

end Rule

/-! ## Tables -/

/-- The table cannot take just the given fields. -/
def Table.Fails (rules : List (Rule β)) (p : Field → Prop) : Prop :=
  ∀ b f, (p f → Breaks (offerTo rules b) f) ∧ (¬p f → Settles (offerTo rules b) f)

namespace Table

variable {rules : List (Rule β)} {p : Field → Prop}

/-- A table fails where its rules do, provided that some rule applies there. -/
theorem fails_of_forall_mem (h : ∀ r ∈ rules, r.Fails p)
    (happlies : ∀ f, p f → ∃ r ∈ rules, r.applies f) : Fails rules p := by
  intro b f
  cases hfind : rules.find? (·.applies f) with
  | none =>
    have hnone : ∀ r ∈ rules, ¬r.applies f := List.find?_eq_none.mp hfind
    have hread : offerTo rules b f (f.place 0) = .ok none (f.place 0) := by
      simp only [offerTo, hfind]
    refine ⟨fun hp => ?_, fun _ => ⟨none, f.place 0, hread, .inl rfl⟩⟩
    obtain ⟨r, hr, hrf⟩ := happlies f hp
    exact absurd hrf (hnone r hr)
  | some r =>
    have hread : r.read b f = offerTo rules b f := by
      funext c
      simp only [offerTo, hfind]
    have hrf : r.applies f := List.find?_some (p := fun r : Rule β => r.applies f) hfind
    have hr := h r (List.mem_of_find?_eq_some hfind) b f hrf
    exact ⟨fun hp => (hr.1 hp).congr hread, fun hp => (hr.2 hp).congr hread⟩

theorem exists_applies_of_strays {refs forms : List Tag}
    (hall : ∀ t ∈ refs ++ forms, ∃ r ∈ rules, r.tag = t ∧ r.takesAll) {f : Field}
    (hf : f.Strays refs forms) : ∃ r ∈ rules, r.applies f := by
  obtain ⟨r, hr, htag, htakes⟩ := hall f.tag hf.mem_tags
  exact ⟨r, hr, Rule.applies_of_takesAll htakes htag⟩

/-- A table of rules for references and form ids among others, with one for each of the tags. -/
theorem fails_strays {refs forms : List Tag} (h : ∀ r ∈ rules, r.Fails (Field.Strays refs forms))
    (hall : ∀ t ∈ refs ++ forms, ∃ r ∈ rules, r.tag = t ∧ r.takesAll) :
    Fails rules (Field.Strays refs forms) :=
  fails_of_forall_mem h fun _ => exists_applies_of_strays hall

variable {f : Field}

/-- What a table says of a field, with its body taken for one of another kind. -/
theorem Fails.map (h : Fails rules p) (b : β) (g : β → α) {q : Prop} (hq : q ↔ p f) :
    (q → Breaks (do return (← offerTo rules b).map g) f) ∧
      (¬q → Settles (do return (← offerTo rules b).map g) f) := by
  rw [hq]
  exact ⟨fun hp => ((h b f).1 hp).map g, fun hp => ((h b f).2 hp).map g⟩

end Table

end GamePlugin

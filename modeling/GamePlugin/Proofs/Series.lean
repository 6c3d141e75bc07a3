import GamePlugin.Body
import GamePlugin.Proofs.CellReferences

/-!
# Lists that fields build up

Many lists of a record have no field of their own. Some fields start an element, and those that come
after it belong to the latest one, whichever that is when they come. `Series` says of such a list
which fields these are and what they do, and `Series.Governs` says that reading goes by it: a field
does to the list what is said of it and nothing else, so the element of a field and of the fields up
to the next one that starts an element depends on nothing else (`Series.foldl_step_nil`).

A table of rules goes by a series if each of its rules does (`Rule.Builds`) and it has a rule for
each kind of field in the series.

## Main definitions

* `Series` — a list, the fields that start its elements and those that belong to the latest one.
* `Series.step`, `Series.lead`, `Series.elements` — what fields make of the list.
* `Series.Governs` — reading fields goes by a series.
-/

namespace GamePlugin

open Field.Reader

variable {α β : Type}

/-! ## Kinds of fields -/

/-- Fields with a tag, of some sizes, in some schemas. -/
structure Key where
  tag : Tag
  sizes : Sizes := .any
  schemas : List Schema := [.tes3, .tes4, .tes5]

/-- Whether a field is one of them. -/
def Key.fits (k : Key) (f : Field) : Bool :=
  f.tag = k.tag ∧ f.context.schema ∈ k.schemas ∧ k.sizes.allow f.size

/-! ## Series -/

/-- A list that fields build up one element after the other. -/
structure Series (α : Type) where
  /-- The list of a body, for bodies that have one. -/
  list? : Body → Option (List α)
  /-- Schemas in which it is built up so. -/
  schemas : List Schema := [.tes3, .tes4, .tes5]
  /-- Fields that start an element. -/
  starts : List Key
  /-- The element that a field starts. -/
  start : Field → α
  /-- Fields that belong to the latest element. -/
  follows : List Key
  /-- What a field does to its element. -/
  follow : Field → α → α
  /-- The element that a field belongs to if there is none. Without one, the field is lost. -/
  default? : Field → Option α := fun _ => none

namespace Series

variable (s : Series α)

/-- Whether a field starts an element. -/
def begins (f : Field) : Bool := s.starts.any (·.fits f)

/-- Whether a field belongs to the latest element. -/
def continues (f : Field) : Bool := s.follows.any (·.fits f)

/-- What a field makes of the list: it adds an element or changes the last one, which is a new one
if the list is empty. -/
def step (xs : List α) (f : Field) : List α :=
  if s.begins f then xs ++ [s.start f]
  else if s.continues f then
    xs.dropLast ++ ((xs.getLast?.or (s.default? f)).map (s.follow f)).toList
  else xs

/-- The element that has been started, after the fields up to the next that starts one. -/
def followed (a : α) : List Field → α
  | [] => a
  | f :: fields =>
    if s.begins f then a else followed (if s.continues f then s.follow f a else a) fields

/-- The elements that the fields start, each with the fields that belong to it. -/
def elements : List Field → List α
  | [] => []
  | f :: fields =>
    if s.begins f then s.followed (s.start f) fields :: elements fields else elements fields

/-- The element, if any, of the fields before the first that starts one: it comes from the first of
them that belongs to an element. -/
def lead : List Field → List α
  | [] => []
  | f :: fields =>
    if s.begins f then []
    else if s.continues f then
      match s.default? f with
      | some a => [s.followed (s.follow f a) fields]
      | none => lead fields
    else lead fields

/-! ## Many fields -/

theorem step_concat (xs : List α) (a : α) (f : Field) : s.step (xs ++ [a]) f =
    if s.begins f then xs ++ [a] ++ [s.start f]
    else xs ++ [if s.continues f then s.follow f a else a] := by
  rw [step]
  split
  · rfl
  · split <;> simp

/-- From a list with a last element on, fields change that element up to the first that starts
another. -/
theorem foldl_step_concat (fields : List Field) (xs : List α) (a : α) :
    fields.foldl s.step (xs ++ [a]) = xs ++ s.followed a fields :: s.elements fields := by
  induction fields generalizing xs a with
  | nil => rfl
  | cons f fields ih =>
    rw [List.foldl_cons, step_concat, followed, elements]
    by_cases hbegins : s.begins f
    · rw [if_pos hbegins, if_pos hbegins, if_pos hbegins, ih, List.append_assoc,
        List.singleton_append]
    · rw [if_neg hbegins, if_neg hbegins, if_neg hbegins, ih]

/-- **What a sequence of fields makes of an empty list**: one element for each field that starts
one, in their order, with the fields up to the next one. -/
theorem foldl_step_nil (fields : List Field) :
    fields.foldl s.step [] = s.lead fields ++ s.elements fields := by
  induction fields with
  | nil => rfl
  | cons f fields ih =>
    rw [List.foldl_cons, lead, elements, step]
    by_cases hbegins : s.begins f
    · simpa [hbegins] using s.foldl_step_concat fields [] (s.start f)
    · by_cases hcontinues : s.continues f
      · cases hdefault : s.default? f with
        | none => simpa [hbegins, hcontinues, hdefault] using ih
        | some a =>
          simpa [hbegins, hcontinues, hdefault] using
            s.foldl_step_concat fields [] (s.follow f a)
      · simpa [hbegins, hcontinues] using ih

theorem length_elements (fields : List Field) :
    (s.elements fields).length = fields.countP s.begins := by
  induction fields with
  | nil => rfl
  | cons f fields ih =>
    rw [elements, List.countP_cons]
    split <;> simp [ih]

/-- Elements before the last one stay as they are. -/
theorem dropLast_isPrefix_foldl_step (fields : List Field) (xs : List α) :
    xs.dropLast <+: fields.foldl s.step xs := by
  rcases List.eq_nil_or_concat xs with rfl | ⟨xs, a, rfl⟩
  · exact List.nil_prefix
  · rw [List.concat_eq_append, List.dropLast_concat, foldl_step_concat]
    exact List.prefix_append _ _

/-! ## Reading by a series -/

/-- Bodies take fields as the series says. -/
structure Governs : Prop where
  /-- A field that is accepted makes of the list what is said of it. -/
  step_of_takes {f : Field} {b b' : Body} {xs : List α} (hschema : f.context.schema ∈ s.schemas)
    (hlist : s.list? b = some xs) (h : Fields.Takes (Offer.sink Body.offer) f b b') :
    s.list? b' = some (s.step xs f)
  /-- Once another element has been started, an element is not changed any more. -/
  settled {fields : List Field} {b b' : Body} {xs : List α}
    (hschema : ∀ f ∈ fields, f.context.schema ∈ s.schemas) (hlist : s.list? b = some xs)
    (h : Fields.Folds (Offer.sink Body.offer) fields b b') :
    ∃ xs', s.list? b' = some xs' ∧ xs.dropLast <+: xs'
  /-- Of a whole payload, each field that starts an element gives one, in their order. -/
  list_of_readFields {context : Context} {record : Tag} {base : Nat} {payload : Bytes}
    {b b' : Body} (hschema : context.schema ∈ s.schemas) (hlist : s.list? b = some [])
    (h : readFields (Offer.sink Body.offer) context record base payload b = .ok b') :
    ∃ fields xs,
      Fields.Sequence ⟨context, record, base, payload.length⟩ none 0 payload fields ∧
      s.list? b' = some xs ∧ xs = s.lead fields ++ s.elements fields ∧
      xs.length = (s.lead fields).length + fields.countP s.begins

variable {s}

/-- A run of fields goes by the series if each field does. -/
theorem list_of_folds
    (hstep : ∀ {f : Field} {b b' : Body} {xs : List α}, f.context.schema ∈ s.schemas →
      s.list? b = some xs → Fields.Takes (Offer.sink Body.offer) f b b' →
      s.list? b' = some (s.step xs f))
    {fields : List Field} {b b' : Body} {xs : List α}
    (hschema : ∀ f ∈ fields, f.context.schema ∈ s.schemas) (hlist : s.list? b = some xs)
    (h : Fields.Folds (Offer.sink Body.offer) fields b b') :
    s.list? b' = some (fields.foldl s.step xs) := by
  induction h generalizing xs with
  | nil => exact hlist
  | cons hfirst _ ih =>
    obtain ⟨hf, hfields⟩ := List.forall_mem_cons.mp hschema
    exact ih hfields (hstep hf hlist hfirst)

theorem governs_of_step
    (hstep : ∀ {f : Field} {b b' : Body} {xs : List α}, f.context.schema ∈ s.schemas →
      s.list? b = some xs → Fields.Takes (Offer.sink Body.offer) f b b' →
      s.list? b' = some (s.step xs f)) : s.Governs where
  step_of_takes := hstep
  settled hschema hlist h :=
    ⟨_, list_of_folds hstep hschema hlist h, s.dropLast_isPrefix_foldl_step _ _⟩
  list_of_readFields hschema hlist h := by
    obtain ⟨fields, hseq, hfolds⟩ := Fields.exists_sequence_of_loop h
    have hfields (f : Field) (hf : f ∈ fields) : f.context.schema ∈ s.schemas := by
      rwa [hseq.context_of_mem hf]
    refine ⟨fields, s.lead fields ++ s.elements fields, hseq, ?_, rfl, ?_⟩
    · rw [list_of_folds hstep hfields hlist hfolds, foldl_step_nil]
    · rw [List.length_append, length_elements]

end Series

/-! ## Rules that go by a series -/

/-- What all rules that apply to a field grant, and declining it if none does, its table grants. -/
theorem Field.Reader.grants_offerTo {rules : List (Rule β)} {b : β} {f : Field} {c : Field.Cursor}
    {Q : Option β → Field.Cursor → Prop}
    (hrules : ∀ r ∈ rules, r.applies f → Grants (r.read b) f c Q)
    (hnone : (∀ r ∈ rules, ¬r.applies f) → Q none c) : Grants (offerTo rules b) f c Q := by
  intro b? c' hread
  cases hfind : rules.find? (·.applies f) with
  | none =>
    simp only [offerTo, hfind] at hread
    cases hread
    exact hnone (List.find?_eq_none.mp hfind)
  | some r =>
    simp only [offerTo, hfind] at hread
    have happlies : r.applies f := List.find?_some (p := fun r : Rule β => r.applies f) hfind
    exact hrules r (List.mem_of_find?_eq_some hfind) happlies b? c' hread

/-- The kinds of fields that do something to the list. -/
def Series.keys (s : Series α) : List Key := s.starts ++ s.follows

theorem Series.step_of_forall_not_fits {s : Series α} {f : Field}
    (h : ∀ k ∈ s.keys, ¬k.fits f) (xs : List α) : s.step xs f = xs := by
  obtain ⟨hstarts, hfollows⟩ := List.forall_mem_append.mp h
  rw [step, begins, continues, if_neg (by simpa using hstarts), if_neg (by simpa using hfollows)]

theorem Key.fits_iff {k : Key} {f : Field} :
    k.fits f ↔ f.tag = k.tag ∧ f.context.schema ∈ k.schemas ∧ k.sizes.allow f.size :=
  decide_eq_true_iff

namespace Rule

/-- The rule makes of the list what the series says. -/
def Builds (s : Series α) (get : β → Array α) (r : Rule β) : Prop :=
  ∀ b f, r.applies f → f.context.schema ∈ s.schemas →
    Grants (r.read b) f f.start fun b? _ =>
      (get (b?.getD b)).toList = s.step (get b).toList f

variable {s : Series α} {get : β → Array α} {tag : Tag} {sizes : Sizes}
  {read : β → Field.Reader β}

theorem builds_mk {schemas : List Schema} {read : Offer β} :
    Builds s get ⟨tag, sizes, schemas, read⟩ ↔ ∀ b f, f.tag = tag → f.context.schema ∈ schemas →
      sizes.allow f.size → f.context.schema ∈ s.schemas → Grants (read b) f (f.place 0) fun b? _ =>
        (get (b?.getD b)).toList = s.step (get b).toList f := by
  simp only [Builds, applies_iff, and_imp]
  rfl

theorem builds_some_map {schemas : List Schema} :
    Builds s get ⟨tag, sizes, schemas, fun b => some <$> read b⟩ ↔
      ∀ b f, f.tag = tag → f.context.schema ∈ schemas → sizes.allow f.size →
        f.context.schema ∈ s.schemas → Grants (read b) f (f.place 0) fun b' _ =>
          (get b').toList = s.step (get b).toList f := by
  simp only [builds_mk, grants_map, Option.getD_some]

/-- A rule that builds the list of a part builds the list of the whole. -/
theorem Builds.within {part : β → Array α} {put : β → Array α → β} {r : Rule (Array α)}
    (h : r.Builds s fun xs => xs) (hput : ∀ b xs, part (put b xs) = xs) :
    (r.within part put).Builds s part := by
  intro b f happlies hschema
  simp only [Rule.within, grants_bind, grants_pure]
  intro xs? c hread
  have hstep := h (part b) f happlies hschema xs? c hread
  cases xs? with
  | none => exact hstep
  | some xs =>
    rw [Option.map_some, Option.getD_some, hput]
    exact hstep

/-- Rules of a part that has nothing to do with the list. Where their tags are those of fields that
have, the schemas are others. -/
theorem forall_builds_within {γ : Type} {part : β → γ} {put : β → γ → β} {rules : List (Rule γ)}
    (hput : ∀ b p, get (put b p) = get b)
    (hkeys : ∀ r ∈ rules, ∀ k ∈ s.keys, r.tag = k.tag →
      ∀ schema ∈ s.schemas, schema ∉ r.schemas) :
    ∀ r ∈ rules.map (Rule.within part put), r.Builds s get := by
  refine List.forall_mem_map.mpr fun r hr b f happlies hschema => ?_
  obtain ⟨htag, hrschema, -⟩ := applies_iff.mp happlies
  have hstep : s.step (get b).toList f = (get b).toList := by
    refine Series.step_of_forall_not_fits (fun k hk hfits => ?_) _
    exact hkeys r hr k hk (htag.symm.trans (Key.fits_iff.mp hfits).1) _ hschema hrschema
  simp only [Rule.within, grants_bind, grants_pure, hstep]
  intro p? c _
  cases p? with
  | none => rfl
  | some p => rw [Option.map_some, Option.getD_some, hput]

end Rule

/-! ## Tables that go by a series -/

namespace Series

variable {s : Series α} {get : β → Array α} {rules : List (Rule β)}

/-- The table has a rule for each kind of field in the series. -/
def Covered (s : Series α) (rules : List (Rule β)) : Prop :=
  ∀ k ∈ s.keys, ∃ r ∈ rules, r.tag = k.tag ∧ r.sizes = k.sizes ∧
    ∀ schema ∈ s.schemas, schema ∈ k.schemas → schema ∈ r.schemas

instance (s : Series α) (rules : List (Rule β)) : Decidable (s.Covered rules) :=
  inferInstanceAs (Decidable (∀ k ∈ s.keys, _))

theorem Covered.step_eq (h : s.Covered rules) {f : Field}
    (hschema : f.context.schema ∈ s.schemas) (hnone : ∀ r ∈ rules, ¬r.applies f) (xs : List α) :
    s.step xs f = xs := by
  refine step_of_forall_not_fits (fun k hk hfits => ?_) xs
  obtain ⟨r, hr, htag, hsizes, hschemas⟩ := h k hk
  obtain ⟨hktag, hkschema, hksize⟩ := Key.fits_iff.mp hfits
  refine hnone r hr (Rule.applies_iff.mpr ⟨?_, hschemas _ hschema hkschema, ?_⟩)
  · rw [htag, hktag]
  · rwa [hsizes]

theorem grants_step_offerTo (hrules : ∀ r ∈ rules, r.Builds s get) (hcovered : s.Covered rules)
    {f : Field} (hschema : f.context.schema ∈ s.schemas) (b : β) :
    Grants (offerTo rules b) f f.start fun b? _ =>
      (get (b?.getD b)).toList = s.step (get b).toList f :=
  grants_offerTo (fun r hr happlies => hrules r hr b f happlies hschema)
    fun hnone => (hcovered.step_eq hschema hnone _).symm

/-- A body whose table goes by the series. -/
theorem list_of_takes (g : β → Body) (hlist : ∀ b, s.list? (g b) = some (get b).toList)
    (hoffer : ∀ b, Body.offer (g b) = do return (← offerTo rules b).map g)
    (hrules : ∀ r ∈ rules, r.Builds s get) (hcovered : s.Covered rules) {f : Field} {b : β}
    {b' : Body} {xs : List α} (hschema : f.context.schema ∈ s.schemas)
    (hxs : s.list? (g b) = some xs) (h : Fields.Takes (Offer.sink Body.offer) f (g b) b') :
    s.list? b' = some (s.step xs f) := by
  obtain rfl : (get b).toList = xs := Option.some.inj ((hlist b).symm.trans hxs)
  have hgrants : Grants (Body.offer (g b)) f f.start fun b? _ =>
      s.list? (b?.getD (g b)) = some (s.step (get b).toList f) := by
    simp only [hoffer, grants_bind, grants_pure, Option.getD_map, hlist, Option.some.injEq]
    exact grants_step_offerTo hrules hcovered hschema b
  cases h with
  | declined h =>
    obtain ⟨b?, hread, rfl, -⟩ := Offer.exists_of_sink h
    exact hgrants b? _ hread
  | handled h =>
    obtain ⟨b?, hread, rfl, -⟩ := Offer.exists_of_sink h
    exact hgrants b? _ hread

/-- A series for the bodies of one shape, whose table goes by it. -/
theorem governs_of_table (g : β → Body) (hlist : ∀ b, s.list? (g b) = some (get b).toList)
    (hoffer : ∀ b, Body.offer (g b) = do return (← offerTo rules b).map g)
    (hshape : ∀ b xs, s.list? b = some xs → ∃ a, b = g a) (hrules : ∀ r ∈ rules, r.Builds s get)
    (hcovered : s.Covered rules) : s.Governs := by
  refine governs_of_step fun {f b b' xs} hschema hxs h => ?_
  obtain ⟨a, rfl⟩ := hshape b xs hxs
  exact list_of_takes g hlist hoffer hrules hcovered hschema hxs h

end Series

end GamePlugin

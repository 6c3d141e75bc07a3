import GamePlugin.Record
import GamePlugin.Proofs.FieldGrammar
import GamePlugin.Proofs.Naturality
import Mathlib.Data.List.TakeWhile

/-!
# The references of a cell

In the oldest schema the fields of a cell come in parts: those of the cell itself, and then, from
each field that starts a reference up to the next, those of the reference. The same tags mean one
thing in the first part and another in the others, and what a field means is only known from the
fields before it.

Nevertheless the parts are read as if each were alone (`Cell.offerAll_eq`). A field of a reference
changes that reference and nothing else, so reading it commutes with putting the reference into its
cell; a field of the cell neither sees nor changes what stands in it.

## Main definitions

* `Cell.ownFields`, `Cell.referenceFields` — the parts of the fields of a cell.
* `CellReference.ofFields` — a reference that is read from its own fields alone.
-/

namespace GamePlugin

open Field.Reader

variable {α β : Type}

/-! ## Offers along a change of states -/

namespace Fields

variable {m : α → β} {fields : List Field}

/-- If a change of bodies takes one offer to another, it takes what one body becomes to what the
other becomes. -/
theorem offerField_sink_map {offer : Offer α} {offer' : Offer β} {f : Field} {a : α}
    (h : offer' (m a) f f.start = (Option.map m <$> offer a) f f.start) :
    offerField (Offer.sink offer') f (m a) = (offerField (Offer.sink offer) f a).map m := by
  cases hread : offer a f f.start with
  | error e c =>
    rw [map_of_error hread] at h
    have hsink : Offer.sink offer a f f.start = .error e c := bind_of_error hread _
    have hsink' : Offer.sink offer' (m a) f f.start = .error e c := bind_of_error h _
    simp only [offerField, hsink, hsink']
    rfl
  | ok b? c =>
    rw [map_of_ok hread] at h
    cases b? with
    | none =>
      have hsink : Offer.sink offer a f f.start = .ok (.declined, a) c := bind_of_ok hread _
      have hsink' : Offer.sink offer' (m a) f f.start = .ok (.declined, m a) c := bind_of_ok h _
      simp only [offerField, hsink, hsink']
      rfl
    | some b =>
      have hsink : Offer.sink offer a f f.start = .ok (.handled, b) c := bind_of_ok hread _
      have hsink' : Offer.sink offer' (m a) f f.start = .ok (.handled, m b) c := bind_of_ok h _
      simp only [offerField, hsink, hsink']
      split <;> rfl

theorem offerAll_map {sink : Sink α} {sink' : Sink β}
    (h : ∀ f ∈ fields, ∀ a, offerField sink' f (m a) = (offerField sink f a).map m) (a : α) :
    offerAll sink' fields (m a) = (offerAll sink fields a).map m := by
  induction fields generalizing a with
  | nil => rfl
  | cons f fields ih =>
    obtain ⟨hfirst, hrest⟩ := List.forall_mem_cons.mp h
    rw [offerAll_cons, offerAll_cons, hfirst]
    cases offerField sink f a with
    | error e => rfl
    | ok a' => exact ih hrest a'

theorem offerAll_append (sink : Sink α) (fields fields' : List Field) (a : α) :
    offerAll sink (fields ++ fields') a = (offerAll sink fields a).bind (offerAll sink fields') :=
  List.foldlM_append

theorem Sequence.context_of_mem {frame : Frame} {pending : Option UInt32} {pos : Nat}
    {payload : Bytes} (H : Sequence frame pending pos payload fields) {f : Field}
    (hf : f ∈ fields) : f.context = frame.context := by
  induction H with
  | nil => cases hf
  | escape _ _ ih => exact ih hf
  | field _ _ _ _ _ ih =>
    rcases List.mem_cons.mp hf with rfl | hf
    · rfl
    · exact ih hf
  | offsets => cases hf

end Fields

/-- The rule does the same whether a body is changed before or after it. -/
def Rule.CommutesWith (m : β → β) (r : Rule β) : Prop :=
  ∀ b, r.read (m b) = Option.map m <$> r.read b

theorem Rule.CommutesWith.within {m : α → α} {get : α → β} {set : α → β → α}
    (hget : ∀ a, get (m a) = get a) (hset : ∀ a b, set (m a) b = m (set a b)) (r : Rule β) :
    (r.within get set).CommutesWith m := by
  intro a
  have hset : set (m a) = fun b => m (set a b) := funext (hset a)
  simp only [Rule.within, hget, hset, bind_pure_comp, Functor.map_map, Option.map_map,
    Function.comp_def]

theorem offerTo_map {rules : List (Rule β)} {m : β → β} (h : ∀ r ∈ rules, r.CommutesWith m)
    (b : β) : offerTo rules (m b) = Option.map m <$> offerTo rules b := by
  funext f c
  cases hfind : rules.find? (·.applies f) with
  | none =>
    have hdeclined : offerTo rules b f c = .ok none c := by simp only [offerTo, hfind]
    rw [map_of_ok hdeclined]
    simp only [offerTo, hfind]
    rfl
  | some r =>
    have hold : r.read b f c = offerTo rules b f c := by simp only [offerTo, hfind]
    have hnew : offerTo rules (m b) f c = r.read (m b) f c := by simp only [offerTo, hfind]
    rw [hnew, h r (List.mem_of_find?_eq_some hfind) b]
    exact map_congr_at hold _

/-! ## The parts of a cell -/

/-- Whether a field of a cell starts a reference. -/
def Field.startsReference (f : Field) : Bool := f.tag = .FRMR && f.size = 4

namespace Cell

/-- The fields of the cell itself: those before the first reference. -/
def ownFields (fields : List Field) : List Field := fields.takeWhile (!·.startsReference)

/-- Each field that starts a reference, with the fields between it and the next one or the end. -/
def referenceFields : List Field → List (Field × List Field)
  | [] => []
  | f :: fields =>
    if f.startsReference then (f, ownFields fields) :: referenceFields fields
    else referenceFields fields

/-- The parts are all the fields, in their order. -/
theorem ownFields_append_referenceFields (fields : List Field) :
    ownFields fields ++ (referenceFields fields).flatMap (fun p => p.1 :: p.2) = fields := by
  induction fields with
  | nil => rfl
  | cons f fields ih =>
    by_cases h : f.startsReference
    · simpa [ownFields, referenceFields, h] using ih
    · simpa [ownFields, referenceFields, h] using ih

theorem not_startsReference_of_mem_ownFields {fields : List Field} {f : Field}
    (hf : f ∈ ownFields fields) : f.startsReference = false := by
  simpa using (List.mem_takeWhile_imp hf)

end Cell

/-! ## Fields of a reference -/

namespace CellReference

/-- The reference with another index. -/
def withIndex (index : UInt32) (r : CellReference) : CellReference := { r with index }

/-- No field of a reference sees or changes its index. -/
theorem commutesWith_withIndex (index : UInt32) :
    ∀ r ∈ rules, r.CommutesWith (withIndex index) := by
  simp [rules, Rule.CommutesWith, Rule.on, withIndex]

/-- The reference that a field starts, with the fields that belong to it offered to it alone. -/
def ofFields (start : Field) (fields : List Field) : Except Error CellReference :=
  (Fields.offerAll (Offer.sink (offerTo rules)) fields {}).map
    (withIndex (Bytes.word32 start.payload))

theorem offerAll_rules (index : UInt32) (fields : List Field) :
    Fields.offerAll (Offer.sink (offerTo rules)) fields { index } =
      (Fields.offerAll (Offer.sink (offerTo rules)) fields {}).map (withIndex index) :=
  Fields.offerAll_map (fun f _ r => Fields.offerField_sink_map
    (congrFun (congrFun (offerTo_map (commutesWith_withIndex index) r) f) f.start)) {}

end CellReference

theorem modifyLast_push (as : Array α) (a : α) (k : α → α) :
    modifyLast (as.push a) k = as.push (k a) := by
  apply Array.ext
  · simp [modifyLast]
  · intro i hi _
    simp only [modifyLast, Array.size_push, Nat.add_sub_cancel, Array.getElem_modify,
      Array.getElem_push]
    simp only [modifyLast, Array.size_modify, Array.size_push] at hi
    grind

namespace Cell

variable {f : Field} {fields : List Field} {c : Cell}

/-- The cell with other references. -/
def withReferences (c : Cell) (references : Array CellReference) : Cell := { c with references }

/-- A field that starts a reference adds one. -/
theorem offerField_of_startsReference (hschema : f.context.schema = .tes3)
    (hstart : f.startsReference) :
    Fields.offerField (Offer.sink offer) f c =
      .ok (c.withReferences (c.references.push { index := Bytes.word32 f.payload })) := by
  obtain ⟨htag, hsize⟩ : f.tag = .FRMR ∧ f.size = 4 := by simpa [Field.startsReference] using hstart
  have hword : word32 f f.start = .ok (Bytes.word32 f.payload) (f.place 4) := by
    have hbytes : bytes 4 f (f.place 0) = .ok (f.payload.take 4) (f.place 4) :=
      bytes_of_le (by omega)
    rw [word32, show f.start = f.place 0 from rfl, map_of_ok hbytes]
    simp only [Layout.word32, Bytes.word32, List.take_take, Nat.min_self]
  have hfind : rules.find? (·.applies f) = some (.onTes3 .FRMR (.exactly 4) startReference) := by
    rw [rules, List.cons_append, List.find?_cons_of_pos]
    simp [Rule.applies, Rule.onTes3, Sizes.allow, htag, hsize, hschema]
  have hoffer : offer c f f.start = .ok
      (some (c.withReferences (c.references.push { index := Bytes.word32 f.payload })))
      (f.place 4) := by
    rw [offer_eq, if_neg (by simp [belongsToReference, htag, hsize])]
    simp only [offerTo, hfind]
    exact map_of_ok (bind_of_ok hword _) some
  have hsink : Offer.sink offer c f f.start = .ok (.handled, _) (f.place 4) := bind_of_ok hoffer _
  simp only [Fields.offerField, hsink, Field.pos_place, hsize, if_true]

/-- A field in the part of a reference is a field of the latest reference. -/
theorem offerField_of_not_startsReference (hschema : f.context.schema = .tes3)
    (hstart : f.startsReference = false) (rs : Array CellReference) (r : CellReference) :
    Fields.offerField (Offer.sink offer) f (c.withReferences (rs.push r)) =
      (Fields.offerField (Offer.sink (offerTo CellReference.rules)) f r).map
        fun r => c.withReferences (rs.push r) := by
  apply Fields.offerField_sink_map (m := fun r => c.withReferences (rs.push r))
  have hbelongs : (c.withReferences (rs.push r)).belongsToReference f := by
    rw [Field.startsReference] at hstart
    simp [belongsToReference, withReferences, hschema, hstart]
  rw [offer_eq, if_pos hbelongs]
  simp only [offerToLatest, withReferences, Array.back?_push, modifyLast_push, bind_pure_comp]

/-- No field of the cell itself sees or changes what stands in it. -/
theorem commutesWith_withReferences (rs : Array CellReference) :
    ∀ r ∈ rules.tail, r.CommutesWith (·.withReferences rs) := by
  rw [rules, List.cons_append, List.tail_cons]
  refine List.forall_mem_append.mpr ⟨?_, List.forall_mem_map.mpr fun r _ => .within ?_ ?_ r⟩
  · simp [Rule.CommutesWith, Rule.on, Rule.onTes3, withReferences]
  · exact fun _ => rfl
  · exact fun _ _ => rfl

/-- A field in the part of the cell itself is one of its own. -/
theorem offerField_of_own (hstart : f.startsReference = false) (c : Cell) :
    Fields.offerField (Offer.sink offer) f (c.withReferences #[]) =
      (Fields.offerField (Offer.sink (offerTo rules.tail)) f c).map (·.withReferences #[]) := by
  apply Fields.offerField_sink_map (m := fun c : Cell => c.withReferences #[])
  have hfind : rules.find? (·.applies f) = rules.tail.find? (·.applies f) := by
    rw [rules, List.cons_append, List.tail_cons, List.find?_cons_of_neg]
    intro happlies
    obtain ⟨htag, -, hsize⟩ := Rule.applies_iff.mp happlies
    simp only [Rule.onTes3, Sizes.allow, decide_eq_true_eq] at htag hsize
    simp [Field.startsReference, ← htag, hsize] at hstart
  rw [offer_eq, if_neg (by simp [belongsToReference, withReferences]),
    ← offerTo_map (commutesWith_withReferences #[])]
  simp only [offerTo, hfind]

theorem references_of_offerAll_ownFields
    (h : Fields.offerAll (Offer.sink offer) (ownFields fields) {} = .ok c) :
    c.references = #[] := by
  have hmap : Fields.offerAll (Offer.sink offer) (ownFields fields) {} =
      (Fields.offerAll (Offer.sink (offerTo rules.tail)) (ownFields fields) {}).map
        (·.withReferences #[]) :=
    Fields.offerAll_map
      (fun f hf c => offerField_of_own (not_startsReference_of_mem_ownFields hf) c) {}
  rw [hmap] at h
  cases hown : Fields.offerAll (Offer.sink (offerTo rules.tail)) (ownFields fields) {} with
  | error e => rw [hown] at h; cases h
  | ok c' => rw [hown] at h; cases h; rfl

/-- The parts of references are read one after another, each as if it were alone. -/
theorem offerAll_flatMap {parts : List (Field × List Field)}
    (h : ∀ p ∈ parts, p.1.startsReference ∧ p.1.context.schema = .tes3 ∧
      ∀ f ∈ p.2, f.startsReference = false ∧ f.context.schema = .tes3) (c : Cell) :
    Fields.offerAll (Offer.sink offer) (parts.flatMap fun p => p.1 :: p.2) c =
      (parts.mapM fun p => CellReference.ofFields p.1 p.2).map fun rs =>
        c.withReferences (c.references ++ rs.toArray) := by
  induction parts generalizing c with
  | nil => exact congrArg (fun rs => Except.ok (c.withReferences rs)) (Array.append_empty).symm
  | cons p parts ih =>
    obtain ⟨⟨hstart, hschema, hbetween⟩, hparts⟩ := List.forall_mem_cons.mp h
    have hpart : Fields.offerAll (Offer.sink offer) p.2
        (c.withReferences (c.references.push { index := Bytes.word32 p.1.payload })) =
          (CellReference.ofFields p.1 p.2).map fun r =>
            c.withReferences (c.references.push r) := by
      rw [CellReference.ofFields, ← CellReference.offerAll_rules]
      exact Fields.offerAll_map (fun f hf r => offerField_of_not_startsReference
        (hbetween f hf).2 (hbetween f hf).1 c.references r) _
    rw [List.flatMap_cons, List.cons_append, Fields.offerAll_cons,
      offerField_of_startsReference hschema hstart]
    change Fields.offerAll _ (p.2 ++ _) _ = _
    rw [Fields.offerAll_append, hpart, List.mapM_cons]
    cases CellReference.ofFields p.1 p.2 with
    | error e => rfl
    | ok r =>
      change Fields.offerAll _ _ _ = _
      rw [ih hparts]
      cases parts.mapM fun p => CellReference.ofFields p.1 p.2 with
      | error e => rfl
      | ok rs =>
        have happend : c.references.push r ++ rs.toArray = c.references ++ (r :: rs).toArray := by
          simp
        exact congrArg (fun rs => Except.ok (c.withReferences rs)) happend

theorem referenceFields_of_forall (h : ∀ f ∈ fields, f.context.schema = .tes3) :
    ∀ p ∈ referenceFields fields, p.1.startsReference ∧ p.1.context.schema = .tes3 ∧
      ∀ f ∈ p.2, f.startsReference = false ∧ f.context.schema = .tes3 := by
  induction fields with
  | nil => exact List.forall_mem_nil _
  | cons f fields ih =>
    obtain ⟨hfirst, hrest⟩ := List.forall_mem_cons.mp h
    by_cases hstart : f.startsReference
    · rw [referenceFields, if_pos hstart]
      refine List.forall_mem_cons.mpr ⟨⟨hstart, hfirst, fun f hf => ⟨?_, ?_⟩⟩, ih hrest⟩
      · exact not_startsReference_of_mem_ownFields hf
      · exact hrest f ((List.takeWhile_sublist _).subset hf)
    · rw [referenceFields, if_neg hstart]
      exact ih hrest

/-- The parts of a cell are read as if each were alone, and put together. -/
theorem offerAll_eq (h : ∀ f ∈ fields, f.context.schema = .tes3) :
    Fields.offerAll (Offer.sink offer) fields {} =
      (Fields.offerAll (Offer.sink offer) (ownFields fields) {}).bind fun c =>
        ((referenceFields fields).mapM fun p => CellReference.ofFields p.1 p.2).map fun rs =>
          c.withReferences rs.toArray := by
  have hparts := ownFields_append_referenceFields fields
  calc Fields.offerAll (Offer.sink offer) fields {}
    _ = (Fields.offerAll (Offer.sink offer) (ownFields fields) {}).bind
          (Fields.offerAll (Offer.sink offer)
            ((referenceFields fields).flatMap fun p => p.1 :: p.2)) := by
      rw [← Fields.offerAll_append, hparts]
    _ = _ := by
      cases hown : Fields.offerAll (Offer.sink offer) (ownFields fields) {} with
      | error e => rfl
      | ok c =>
        have hnone := references_of_offerAll_ownFields hown
        refine (offerAll_flatMap (referenceFields_of_forall h) c).trans ?_
        rw [hnone]
        simp only [Array.empty_append]
        rfl

theorem offerField_cell (f : Field) (c : Cell) :
    Fields.offerField (Offer.sink Body.offer) f (.cell c) =
      (Fields.offerField (Offer.sink offer) f c).map .cell := by
  apply Fields.offerField_sink_map (m := Body.cell)
  rw [← bind_pure_comp]
  rfl

/-- **The parts of a cell do not mix.** If a cell of the oldest schema is read, it is what its own
fields are read as, but for its references. There is one of those for each field that starts one, in
their order, and it is what the fields from there up to the next are read as. -/
theorem exists_parts_of_readFields {context : Context} {base : Nat} {payload : Bytes} {body : Body}
    (hschema : context.schema = .tes3)
    (h : readFields (Offer.sink Body.offer) context .CELL base payload Shape.cell.empty =
      .ok body) :
    ∃ fields cell, Fields.Sequence ⟨context, .CELL, base, payload.length⟩ none 0 payload fields ∧
      body = .cell cell ∧
      Fields.offerAll (Offer.sink offer) (ownFields fields) {} = .ok (cell.withReferences #[]) ∧
      (referenceFields fields).mapM (fun p => CellReference.ofFields p.1 p.2) =
        .ok cell.references.toList := by
  obtain ⟨fields, hseq, hfolds⟩ := Fields.exists_sequence_of_loop h
  have hbody : Fields.offerAll (Offer.sink Body.offer) fields (.cell {}) =
      (Fields.offerAll (Offer.sink offer) fields {}).map .cell :=
    Fields.offerAll_map (fun f _ c => offerField_cell f c) {}
  have hall := Fields.offerAll_eq_ok_iff.mpr hfolds
  have hcontext (f : Field) (hf : f ∈ fields) : f.context.schema = .tes3 := by
    rw [hseq.context_of_mem hf, hschema]
  change Fields.offerAll (Offer.sink Body.offer) fields (.cell {}) = _ at hall
  rw [hbody, offerAll_eq hcontext] at hall
  cases hown : Fields.offerAll (Offer.sink offer) (ownFields fields) {} with
  | error e => rw [hown] at hall; cases hall
  | ok c =>
    have hnone := references_of_offerAll_ownFields hown
    cases hrefs : (referenceFields fields).mapM fun p => CellReference.ofFields p.1 p.2 with
    | error e => rw [hown, hrefs] at hall; cases hall
    | ok rs =>
      rw [hown, hrefs] at hall
      cases hall
      refine ⟨fields, c.withReferences rs.toArray, hseq, rfl, ?_, hrefs⟩
      rw [hown, ← hnone]
      rfl

/-- A cell with a name and two references. The second has a count, and a field with the tag of one
that starts a reference but with another size. -/
def twoReferences : Bytes :=
  [(Tag.NAME, [65, 0]), (.FRMR, [1, 0, 0, 0]), (.NAME, [66, 0]), (.FRMR, [2, 0, 0, 0]),
    (.NAM9, [3, 0, 0, 0]), (.FRMR, [4, 0])].flatMap fun p => Field.encode .tes3 p.1 p.2

theorem exists_parts_twoReferences :
    ∃ fields cell,
      readFields (Offer.sink Body.offer) (.ofEdition .morrowind) .CELL 16 twoReferences
        Shape.cell.empty = .ok (.cell cell) ∧
      Fields.offerAll (Offer.sink offer) (ownFields fields) {} = .ok (cell.withReferences #[]) ∧
      (referenceFields fields).mapM (fun p => CellReference.ofFields p.1 p.2) =
        .ok cell.references.toList ∧
      cell.references.toList.map (fun r => (r.index, r.count)) = [(1, none), (2, some 3)] := by
  let header : RecordHeader := ⟨.CELL, 0, 0, .none, 16, none⟩
  have heval : ((readFields (Offer.sink Body.offer) (.ofEdition .morrowind) .CELL 16 twoReferences
      Shape.cell.empty).toOption.bind fun body => (Record.mk header body).cell?.map fun cell =>
        cell.references.toList.map fun r => (r.index, r.count)) =
      some [(1, none), (2, some 3)] := by
    decide +kernel
  cases hread : readFields (Offer.sink Body.offer) (.ofEdition .morrowind) .CELL 16 twoReferences
      Shape.cell.empty with
  | error e =>
    rw [hread] at heval
    cases heval
  | ok body =>
    obtain ⟨fields, cell, -, rfl, hown, hreferences⟩ := exists_parts_of_readFields rfl hread
    rw [hread] at heval
    exact ⟨fields, cell, rfl, hown, hreferences, Option.some.inj heval⟩

end Cell

end GamePlugin

import GamePlugin.Proofs.Failure
import Mathlib.Logic.Function.Iterate

/-!
# Every traversal ends

The sizes in a file are not to be trusted, so it takes an argument that going through a file comes
to an end. Each traversal is given by its body, in which what stands for its own calls is left open
(`Recursion.Ends`). The body asks only for calls that are further on by a header, in the same range
or in a payload inside it, so calls are nested no deeper than there are headers in the range.

Loading a group with all groups below it goes through the nodes of an arena, which grows on the way,
so its depth cannot be read off its arguments. But the headers of a node lie inside those of its
holder (`Session.Sound.inside_holder`), and the holder does not change while its children are
loaded.

## Main definitions

* `Recursion.Ends` — a recursive function comes to an end.
* `Outline.Walk.body`, `Plugin.topHeadersBody`, `Plugin.flatRecordsBody`, `Session.scanBody`,
  `Session.descend` — the bodies of the traversals.
-/

namespace GamePlugin

/-! ## Recursions -/

namespace Recursion

variable {ι α : Type} {body : (ι → α) → ι → α} {f : ι → α} {Below : ι → ι → Prop}
  {depth : ι → Nat}

/-- A function with the given body comes to an end: calls are nested no deeper than `depth`. -/
structure Ends (body : (ι → α) → ι → α) (f : ι → α) (Below : ι → ι → Prop) (depth : ι → Nat) :
    Prop where
  /-- The function does what its body says. -/
  unfolds : ∀ x, f x = body f x
  /-- The body asks for nothing but what is below its argument. -/
  calls : ∀ {x g g'}, (∀ y, Below y x → g y = g' y) → body g x = body g' x
  /-- Nested as deep, the body gives the value, and what stands for further calls is not asked. -/
  ends : ∀ {x n}, depth x ≤ n → ∀ g, body^[n] g x = f x

/-- A function comes to an end if its calls become less deep. -/
theorem Ends.of_calls (unfolds : ∀ x, f x = body f x)
    (calls : ∀ {x g g'}, (∀ y, Below y x → g y = g' y) → body g x = body g' x)
    (hpos : ∀ x, 0 < depth x) (hlt : ∀ {x y}, Below y x → depth y < depth x) :
    Ends body f Below depth where
  unfolds := unfolds
  calls := calls
  ends {x n} hn g := by
    induction n generalizing x with
    | zero => exact absurd (hpos x) (Nat.not_lt.mpr hn)
    | succ n ih =>
      rw [Function.iterate_succ_apply', unfolds x]
      apply calls
      intro y hy
      have := hlt hy
      exact ih (by omega)

end Recursion

/-! ## Ranges of chunks -/

namespace Chunk

variable {image : Image} {schema : Schema} {parent : Option Nat} {c : Chunk} {pos next stop : Nat}

/-- A loop over the chunks before `stop` has gone on from `pos` by a header at least. -/
def Further (schema : Schema) (stop next pos : Nat) : Prop :=
  pos < stop ∧ pos + schema.recordHeaderSize ≤ next

/-- How often a loop over the chunks before `stop` can come by, from `pos` on. -/
def rounds (stop pos : Nat) : Nat := (stop - pos + 15) / 16 + 1

theorem Further.rounds_lt {stop' : Nat} (h : Further schema stop next pos) (hle : stop' ≤ stop) :
    rounds stop' next < rounds stop pos := by
  have hsize := schema.le_recordHeaderSize
  obtain ⟨hlt, hnext⟩ := h
  simp only [rounds]
  omega

theorem further_position (hlt : pos < stop) (hread : read image schema pos parent = .ok c) :
    Further schema stop c.position pos := by
  have hposition := position_of_read hread
  have hsize := c.recordHeaderSize_le_headerSize schema
  exact ⟨hlt, by omega⟩

theorem further_stop (hlt : pos < stop) (hread : read image schema pos parent = .ok c) :
    Further schema stop c.stop pos :=
  ⟨hlt, Nat.le_trans (further_position hlt hread).2 c.position_le_stop⟩

end Chunk

open Chunk (Further rounds further_position further_stop)

/-! ## The walk -/

namespace Outline

/-- The arguments of a walk. -/
structure Walk where
  owner : Option Owner
  start : Nat
  stop : Nat
  pos : Nat
  outline : Outline

namespace Walk

/-- The walk with these arguments. -/
def run (image : Image) (schema : Schema) (w : Walk) : Except Error Outline :=
  walk image schema w.owner w.start w.stop w.pos w.outline

/-- What a walk does, where `go` walks on. -/
def body (image : Image) (schema : Schema) (go : Walk → Except Error Outline) (w : Walk) :
    Except Error Outline :=
  if w.pos < w.stop then do
    match ← Chunk.read image schema w.pos none with
    | .record header =>
      go { w with pos := header.stop, outline := w.outline.addRecord w.owner header }
    | .group header =>
      if w.stop < header.stop then throw (overrun w.owner header w.stop)
      else
        let inner : Owner := ⟨w.outline.groups.size, header⟩
        let outline ← go {
          owner := some inner
          start := header.position
          stop := header.stop
          pos := header.position
          outline := w.outline.addGroup w.owner header }
        go { w with pos := header.stop, outline }
  else if w.pos = w.stop then return w.outline
  else throw (misframed w.owner w.start w.stop w.pos)

/-- A walk goes on in the same range, or it walks through a payload inside of it. Either is further
on by a header at least. -/
structure Below (schema : Schema) (v w : Walk) : Prop where
  further : Further schema w.stop v.pos w.pos
  range : v.start = w.start ∧ v.stop = w.stop ∨ v.start = v.pos ∧ v.stop ≤ w.stop

variable {image : Image} {schema : Schema} {w : Walk}

theorem run_eq_body (w : Walk) : w.run image schema = body image schema (run image schema) w := by
  rw [run, walk, body]
  split
  case isTrue hlt =>
    split
    case h_1 e hread => rw [hread]; rfl
    case h_2 header hread => rw [hread]; rfl
    case h_3 header hread =>
      rw [hread]
      by_cases hover : w.stop < header.stop
      · exact (if_pos hover).trans (if_pos hover).symm
      · refine (if_neg hover).trans (Eq.trans ?_ (if_neg hover).symm)
        change _ = (run image schema _).bind _
        dsimp only [run]
        cases walk image schema _ _ _ _ _ <;> rfl
  case isFalse => rfl

theorem body_congr {go go' : Walk → Except Error Outline}
    (h : ∀ v, Below schema v w → go v = go' v) :
    body image schema go w = body image schema go' w := by
  simp only [body]
  split
  case isFalse => rfl
  case isTrue hlt =>
    cases hread : Chunk.read image schema w.pos none with
    | error e => rfl
    | ok c =>
      have hnext := further_stop hlt hread
      have hinside := further_position hlt hread
      cases c with
      | record header => exact h _ ⟨hnext, .inl ⟨rfl, rfl⟩⟩
      | group header =>
        by_cases hover : w.stop < header.stop
        · exact (if_pos hover).trans (if_pos hover).symm
        · refine (if_neg hover).trans (Eq.trans ?_ (if_neg hover).symm)
          -- first the payload of the group, then what follows the group
          rw [h _ ⟨hinside, .inr ⟨rfl, Nat.le_of_not_lt hover⟩⟩]
          exact congrArg _ (funext fun outline => h _ ⟨hnext, .inl ⟨rfl, rfl⟩⟩)

theorem ends (image : Image) (schema : Schema) :
    Recursion.Ends (body image schema) (run image schema) (Below schema)
      (fun w => rounds w.stop w.pos) := by
  refine .of_calls run_eq_body body_congr (fun w => Nat.succ_pos _) ?_
  rintro w v ⟨hfurther, ⟨-, hstop⟩ | ⟨-, hstop⟩⟩
  · exact hfurther.rounds_lt (Nat.le_of_eq hstop)
  · exact hfurther.rounds_lt hstop

end Walk

end Outline

/-! ## Loops over chunks -/

namespace Plugin

/-- One round of collecting the groups at the top, where `go` collects the groups from there on. -/
def topHeadersBody (image : Image) (schema : Schema) (length : Nat)
    (go : Nat → Except Error (List GroupHeader)) (pos : Nat) : Except Error (List GroupHeader) :=
  if pos < length then do
    match ← Chunk.read image schema pos none with
    | .record header => go header.stop
    | .group header =>
      if length < header.stop then
        throw (.groupSizeMismatch header.label header.position header.stop length)
      else return header :: (← go header.stop)
  else return []

/-- One round of reading a file without groups, where `go` reads on. -/
def flatRecordsBody (s : Session) (length : Nat) (go : Nat → Except Error (List Record))
    (pos : Nat) : Except Error (List Record) :=
  if pos < length then do
    match ← Chunk.read s.image .tes3 pos none with
    | .group header => go header.stop
    | .record header =>
      let record ← s.options.readRecord s.image s.context header
      return record.toList ++ (← go header.stop)
  else return []

theorem topHeaders_eq_body (image : Image) (schema : Schema) (length pos : Nat) :
    topHeaders image schema length pos =
      topHeadersBody image schema length (topHeaders image schema length) pos := by
  rw [topHeaders, topHeadersBody]
  split
  case isFalse => rfl
  case isTrue hlt =>
    split
    case h_1 e hread => rw [hread]; rfl
    case h_2 header hread => rw [hread]; rfl
    case h_3 header hread =>
      rw [hread]
      by_cases hover : length < header.stop
      · exact (if_pos hover).trans (if_pos hover).symm
      · refine (if_neg hover).trans (Eq.trans ?_ (if_neg hover).symm)
        cases topHeaders image schema length header.stop <;> rfl

theorem topHeadersBody_congr {image : Image} {schema : Schema} {length pos : Nat}
    {go go' : Nat → Except Error (List GroupHeader)}
    (h : ∀ next, Further schema length next pos → go next = go' next) :
    topHeadersBody image schema length go pos = topHeadersBody image schema length go' pos := by
  simp only [topHeadersBody]
  split
  case isFalse => rfl
  case isTrue hlt =>
    cases hread : Chunk.read image schema pos none with
    | error e => rfl
    | ok c =>
      have hgo := h c.stop (further_stop hlt hread)
      cases c with
      | record header => exact hgo
      | group header =>
        by_cases hover : length < header.stop
        · exact (if_pos hover).trans (if_pos hover).symm
        · refine (if_neg hover).trans (Eq.trans ?_ (if_neg hover).symm)
          exact congrArg (·.bind fun headers => .ok (header :: headers)) hgo

theorem topHeaders_ends (image : Image) (schema : Schema) (length : Nat) :
    Recursion.Ends (topHeadersBody image schema length) (topHeaders image schema length)
      (Further schema length) (rounds length) :=
  .of_calls (topHeaders_eq_body image schema length) topHeadersBody_congr
    (fun _ => Nat.succ_pos _) fun h => h.rounds_lt (Nat.le_refl length)

theorem flatRecords_eq_body (s : Session) (length pos : Nat) :
    flatRecords s length pos = flatRecordsBody s length (flatRecords s length) pos := by
  rw [flatRecords, flatRecordsBody]
  split
  case isFalse => rfl
  case isTrue hlt =>
    split
    case h_1 e hread => rw [hread]; rfl
    case h_2 header hread => rw [hread]; rfl
    case h_3 header hread =>
      rw [hread]
      change _ = Except.bind (s.options.readRecord s.image s.context header) _
      cases s.options.readRecord s.image s.context header with
      | error e => rfl
      | ok record =>
        change _ = Except.bind (flatRecords s length header.stop) _
        cases flatRecords s length header.stop <;> rfl

theorem flatRecordsBody_congr {s : Session} {length pos : Nat}
    {go go' : Nat → Except Error (List Record)}
    (h : ∀ next, Further .tes3 length next pos → go next = go' next) :
    flatRecordsBody s length go pos = flatRecordsBody s length go' pos := by
  simp only [flatRecordsBody]
  split
  case isFalse => rfl
  case isTrue hlt =>
    cases hread : Chunk.read s.image .tes3 pos none with
    | error e => rfl
    | ok c =>
      have hgo := h c.stop (further_stop hlt hread)
      cases c with
      | group header => exact hgo
      | record header =>
        exact congrArg (fun rest => (s.options.readRecord s.image s.context header).bind
          fun record => rest.bind fun records => .ok (record.toList ++ records)) hgo

theorem flatRecords_ends (s : Session) (length : Nat) :
    Recursion.Ends (flatRecordsBody s length) (flatRecords s length) (Further .tes3 length)
      (rounds length) :=
  .of_calls (flatRecords_eq_body s length) flatRecordsBody_congr (fun _ => Nat.succ_pos _)
    fun h => h.rounds_lt (Nat.le_refl length)

end Plugin

namespace Session

/-- One round of scanning a group, from a place on and with what was found before. Here `go` scans
on. -/
def scanBody (s : Session) (id : Nat) (header : GroupHeader)
    (go : Nat × Found → Except Error Found) (x : Nat × Found) : Except Error Found :=
  if x.1 < header.stop then do
    match ← Chunk.read s.image s.context.schema x.1 (some id) with
    | .group inner => go (inner.stop, { x.2 with groups := x.2.groups.push inner })
    | .record inner =>
      match ← s.options.readRecord s.image s.context inner with
      | none => go (inner.stop, x.2)
      | some record => go (inner.stop, { x.2 with records := x.2.records.push record })
  else if x.1 = header.stop then return x.2
  else throw (.groupSizeMismatch header.label header.position header.stop x.1)

/-- Scans from a place on. -/
def scanOn (s : Session) (id : Nat) (header : GroupHeader) (x : Nat × Found) :
    Except Error Found :=
  scanFrom s id header x.1 x.2

theorem scanOn_eq_body (s : Session) (id : Nat) (header : GroupHeader) (x : Nat × Found) :
    scanOn s id header x = scanBody s id header (scanOn s id header) x := by
  rw [scanOn, scanFrom, scanBody]
  split
  case isFalse => rfl
  case isTrue hlt =>
    split
    case h_1 e hread => rw [hread]; rfl
    case h_2 inner hread => rw [hread]; rfl
    case h_3 inner hread =>
      rw [hread]
      change _ = Except.bind (s.options.readRecord s.image s.context inner) _
      split
      case h_1 e hrecord => rw [hrecord]; rfl
      case h_2 hrecord => rw [hrecord]; rfl
      case h_3 record hrecord => rw [hrecord]; rfl

theorem scanBody_congr {s : Session} {id : Nat} {header : GroupHeader} {x : Nat × Found}
    {go go' : Nat × Found → Except Error Found}
    (h : ∀ y, Further s.context.schema header.stop y.1 x.1 → go y = go' y) :
    scanBody s id header go x = scanBody s id header go' x := by
  simp only [scanBody]
  split
  case isFalse => rfl
  case isTrue hlt =>
    cases hread : Chunk.read s.image s.context.schema x.1 (some id) with
    | error e => rfl
    | ok c =>
      have hgo (found : Found) := h (c.stop, found) (further_stop hlt hread)
      cases c with
      | group inner => exact hgo _
      | record inner =>
        refine congrArg (s.options.readRecord s.image s.context inner).bind ?_
        funext record?
        cases record? with
        | none => exact hgo _
        | some record => exact hgo _

theorem scan_ends (s : Session) (id : Nat) (header : GroupHeader) :
    Recursion.Ends (scanBody s id header) (scanOn s id header)
      (fun y x => Further s.context.schema header.stop y.1 x.1)
      (fun x => rounds header.stop x.1) :=
  .of_calls (scanOn_eq_body s id header) scanBody_congr (fun _ => Nat.succ_pos _)
    fun h => h.rounds_lt (Nat.le_refl header.stop)

end Session

/-! ## Loading deep -/

namespace Source

variable {src : Source} {h k : GroupHeader}

/-- A bound on how deep groups lie in one another below a header. The headers of groups in a group
are inside the file, whereas a top group may be anywhere. -/
def depthBelow (src : Source) (h : GroupHeader) : Nat := min (src.room h) (src.image.size + 1)

theorem depthBelow_lt_of_mem_groupsIn (hk : k ∈ src.groupsIn h) :
    src.depthBelow k < src.depthBelow h := by
  obtain ⟨hlo, hhi⟩ := position_of_mem_groupsIn hk
  have hroom := room_lt_of_mem_groupsIn hk
  simp only [depthBelow, room] at hroom ⊢
  omega

end Source

namespace Session

variable {src : Source} {tops : List GroupHeader} {ids : List Nat} {s t : Session}
  {top id depth n : Nat} {g : GroupNode}

/-- Loads a group, and goes on with each of its children. -/
def descend (go : Nat → Step Unit) (id : Nat) : Step Unit := do
  loadOne id
  ((← get).children id).forM go

/-- What loading a group with all groups below it does, where `go` loads a child so. -/
def loadBody (go : Nat → Step (List Record)) (id : Nat) : Step (List Record) := do
  loadOne id
  ((← get).children id).forM fun child => do let _ ← go child
  return (← get).records id

theorem loadDeep_eq_iterate (depth : Nat) : loadDeep depth = descend^[depth] fun _ => return := by
  induction depth with
  | zero => rfl
  | succ depth ih =>
    rw [Function.iterate_succ', Function.comp_apply, ← ih]
    rfl

theorem bind_congr_at {α β : Type} {x x' : Step α} {f f' : α → Step β} (hx : x s = x' s)
    (hf : ∀ a t, x' s = .ok a t → f a t = f' a t) : (x >>= f) s = (x' >>= f') s := by
  simp only [Bind.bind, EStateM.bind, hx]
  cases h : x' s with
  | ok a t => exact hf a t h
  | error e t => rfl

/-- Loops do the same if their rounds do, as long as a property holds that the rounds keep. -/
theorem forM_congr {α : Type} {f f' : α → Step Unit} {P : Session → Prop} {as : List α}
    (h : ∀ a ∈ as, ∀ s, P s → f a s = f' a s ∧ P (after (f' a) s)) (hs : P s) :
    as.forM f s = as.forM f' s := by
  induction as generalizing s with
  | nil => rfl
  | cons a as ih =>
    obtain ⟨hfirst, hrest⟩ := List.forall_mem_cons.mp h
    obtain ⟨heq, hmid⟩ := hfirst s hs
    have hstep (f : α → Step Unit) : (a :: as).forM f = f a >>= fun _ => as.forM f := rfl
    rw [hstep, hstep]
    refine bind_congr_at heq fun _ t ht => ih hrest ?_
    rwa [after_of_ok ht] at hmid

theorem headers_of_group? (hid : s.group? id = some g) : s.headers id = g.headers.toList := by
  rw [headers, hid]
  rfl

/-- Loading a node does not change its headers. -/
theorem Sound.headers_loadOne (H : Sound src tops s) (h : loadOne id s = .ok () t) :
    t.headers id = s.headers id := by
  cases hid : s.group? id with
  | none =>
    have heq : loadOne id s = .ok () s := by simp only [loadOne_eq, hid]
    cases heq.symm.trans h
    rfl
  | some g =>
    obtain ⟨g', hid', -, -, hheaders⟩ := H.isLoaded_loadOne hid h
    rw [headers_of_group? hid', headers_of_group? hid, hheaders]

/-- The headers of a node lie strictly inside headers of the node that holds it. -/
theorem Sound.inside_holder (H : Sound src tops s) {p : Nat} (hid : s.group? id = some g)
    (hparent : g.parent = some p) :
    ∀ h ∈ s.headers id, ∃ outer ∈ s.headers p,
      outer.position + s.context.schema.groupHeaderSize ≤ h.position ∧ h.stop ≤ outer.stop := by
  intro h hh
  rw [headers_of_group? hid] at hh
  obtain ⟨holder, hp⟩ := group?_of_lt
    (Nat.lt_trans (H.arena.parent_lt hid hparent) (lt_of_group? hid))
  obtain ⟨outer, houter, hin⟩ := H.exists_outer hid hparent hp hh
  have hcontext : s.context = src.context := congrArg Source.context H.source_eq
  rw [headers_of_group? hp, hcontext]
  exact ⟨outer, houter, Source.bounds_of_mem_groupsIn hin⟩

/-- Going down from a node depends only on what is done with its children, whose headers are all
inside headers of the node. -/
theorem Rooted.descend_congr {go : Nat → Step Unit} (H : Rooted src tops ids t)
    (hnext : Next t top id)
    (hgo : ∀ c t' k, Rooted src tops ids t' → Next t' top c → t'.group? c = some k →
      (∀ h ∈ k.headers.toList, ∃ outer ∈ t.headers id, h ∈ src.groupsIn outer) →
      go c t' = loadDeep depth c t') :
    descend go id t = loadDeep (depth + 1) id t := by
  refine bind_congr_at rfl fun _ t₁ hone => ?_
  change (t₁.children id).forM go t₁ = (t₁.children id).forM (loadDeep depth) t₁
  have S₁ := (H.toSound.descended_loadOne (.refl top t) hnext).2
  have H₁ := Rooted.preserves_loadOne id t H
  rw [after_of_ok hone] at S₁ H₁
  refine forM_congr (P := fun t₂ => Rooted src tops ids t₂ ∧ Spares top t₁ t₂) ?_ ⟨H₁, .refl top t₁⟩
  rintro c hc t₂ ⟨H₂, S₂⟩
  -- the node is finished, so it has the same headers and children until they are all loaded
  obtain ⟨g₁, hid₁, hfinished, hchild⟩ := H.toSound.finished_of_loadOne hnext S₁ hone hc
  have hid₂ := S₂ id g₁ hfinished hid₁
  obtain ⟨k, hk, hparent⟩ := H₂.toSound.exists_child hid₂ hchild
  have hnext₂ : Next t₂ top c := .inr ⟨k, id, hk, hparent, S₂.finished hfinished⟩
  have hheaders : g₁.headers.toList = t.headers id := by
    rw [← headers_of_group? hid₁, H.toSound.headers_loadOne hone]
  have hinside : ∀ h ∈ k.headers.toList, ∃ outer ∈ t.headers id, h ∈ src.groupsIn outer := by
    rw [← hheaders]
    exact fun h hh => H₂.toSound.exists_outer hk hparent hid₂ hh
  have S₃ := (H₂.descended_loadDeep (.refl top t₂) hnext₂ depth).2
  exact ⟨hgo c t₂ k H₂ hnext₂ hk hinside, Rooted.preserves_loadDeep depth c t₂ H₂, S₂.trans S₃⟩

/-- However deep it is nested, going down from a node does the same, if only it is deep enough for
the headers of the node. -/
theorem Rooted.iterate_descend (H : Rooted src tops ids t) (hnext : Next t top id)
    (hn : 0 < n) (hdepth : 0 < depth) (hfits : ∀ h ∈ t.headers id, src.depthBelow h < n)
    (hfits' : ∀ h ∈ t.headers id, src.depthBelow h < depth) (go : Nat → Step Unit) :
    descend^[n] go id t = loadDeep depth id t := by
  induction n generalizing id t depth with
  | zero => exact absurd hn (Nat.lt_irrefl 0)
  | succ n ih =>
    cases depth with
    | zero => exact absurd hdepth (Nat.lt_irrefl 0)
    | succ depth =>
      rw [Function.iterate_succ_apply']
      refine H.descend_congr hnext ?_
      intro c t' k H' hnext' hk hinside
      have hbelow : ∀ h ∈ t'.headers c, src.depthBelow h < n ∧ src.depthBelow h < depth := by
        intro h hh
        rw [headers_of_group? hk] at hh
        obtain ⟨outer, houter, hin⟩ := hinside h hh
        have hlt := Source.depthBelow_lt_of_mem_groupsIn hin
        have hle := hfits outer houter
        have hle' := hfits' outer houter
        omega
      obtain ⟨h, hh⟩ : ∃ h, h ∈ t'.headers c := by
        rw [headers_of_group? hk]
        exact List.exists_mem_of_ne_nil _ fun hnil =>
          H'.arena.headers_ne hk (Array.toList_eq_nil_iff.mp hnil)
      have hpos := hbelow h hh
      exact ih H' hnext' (by omega) (by omega) (fun h hh => (hbelow h hh).1)
        fun h hh => (hbelow h hh).2

/-- A step, and then the records of a group. -/
def recordsAfter (x : Step Unit) (id : Nat) : Step (List Record) := do
  x
  return (← get).records id

theorem recordsAfter_congr {x x' : Step Unit} (h : x s = x' s) (id : Nat) :
    recordsAfter x id s = recordsAfter x' id s :=
  bind_congr_at h fun _ _ _ => rfl

theorem load_eq_recordsAfter (id : Nat) (s : Session) :
    load id true s = recordsAfter (loadDeep s.depthBound id) id s := rfl

/-- A child is loaded for what it leaves in the session, not for its records. -/
theorem discard_load (id : Nat) (s : Session) :
    (do let _ ← load id true : Step Unit) s = loadDeep s.depthBound id s := by
  have hdiscard : (do let _ ← load id true : Step Unit) s =
      (do let _ ← recordsAfter (loadDeep s.depthBound id) id : Step Unit) s := rfl
  rw [hdiscard]
  simp [recordsAfter]

theorem loadBody_eq (go : Nat → Step (List Record)) :
    loadBody go = fun id => recordsAfter (descend (fun c => do let _ ← go c) id) id := by
  funext id
  simp [loadBody, recordsAfter, descend]

theorem iterate_loadBody (go : Nat → Step (List Record)) (n : Nat) :
    loadBody^[n + 1] go =
      fun id => recordsAfter (descend^[n + 1] (fun c => do let _ ← go c) id) id := by
  induction n with
  | zero => exact loadBody_eq go
  | succ n ih =>
    rw [Function.iterate_succ_apply', ih, loadBody_eq]
    simp [recordsAfter, Function.iterate_succ_apply']

/-- Loading a group with all groups below it comes to an end. -/
structure LoadEnds (s : Session) : Prop where
  /-- The group is loaded, and then its children so. -/
  unfolds : ∀ id, load id true s = loadBody (load · true) id s
  /-- The headers of each child are further in. -/
  inside : ∀ {id g p}, s.group? id = some g → g.parent = some p →
    ∀ h ∈ s.headers id, ∃ outer ∈ s.headers p,
      outer.position + s.context.schema.groupHeaderSize ≤ h.position ∧ h.stop ≤ outer.stop
  /-- Nested as deep, what stands for loading further children is not asked. -/
  ends : ∀ {n}, s.image.size + 2 ≤ n → ∀ go id, loadBody^[n] go id s = load id true s

theorem Rooted.loadEnds (H : Rooted src tops ids s) : LoadEnds s where
  unfolds id := by
    have hnext : Next s id id := .inl rfl
    have hsize : src.image.size = s.image.size := by rw [← H.source_eq]; rfl
    rw [loadBody_eq, load_eq_recordsAfter]
    refine (recordsAfter_congr (H.descend_congr hnext ?_) id).symm
    intro c t k Ht hnext' hk hinside
    have hsize' : src.image.size = t.image.size := by rw [← Ht.source_eq]; rfl
    have hbound : t.depthBound = t.groups.size + t.image.size + 2 := rfl
    have hbelow : ∀ h ∈ t.headers c, src.depthBelow h < src.image.size + 1 := by
      intro h hh
      rw [headers_of_group? hk] at hh
      obtain ⟨outer, -, hin⟩ := hinside h hh
      exact Nat.lt_of_lt_of_le (Source.depthBelow_lt_of_mem_groupsIn hin) (Nat.min_le_right _ _)
    rw [discard_load, loadDeep_eq_iterate]
    refine Ht.iterate_descend hnext' (by omega) (Nat.succ_pos _) ?_ ?_ _
    · intro h hh
      have := hbelow h hh
      omega
    · intro h hh
      have := hbelow h hh
      omega
  inside := H.toSound.inside_holder
  ends {n} hn go id := by
    have hnext : Next s id id := .inl rfl
    have hsize : src.image.size = s.image.size := by rw [← H.source_eq]; rfl
    have hbound : s.depthBound = s.groups.size + s.image.size + 2 := rfl
    have hbelow (h : GroupHeader) : src.depthBelow h ≤ src.image.size + 1 := Nat.min_le_right _ _
    obtain ⟨m, rfl⟩ : ∃ m, n = m + 1 := ⟨n - 1, by omega⟩
    rw [iterate_loadBody, load_eq_recordsAfter]
    refine recordsAfter_congr (H.iterate_descend hnext (Nat.succ_pos m) (by omega) ?_ ?_ _) id
    · intro h _
      have := hbelow h
      omega
    · intro h _
      have := hbelow h
      omega

end Session

/-! ## All traversals -/

/-- **Every traversal ends on every input.** The walk with its descents into groups, the loops over
the top groups, over a file without groups and over the payload of a group go on by a header at
least in every round; and loading a group with all groups below it ends in every session that an
open plugin comes to. -/
theorem traversals_end :
    (∀ image schema, Recursion.Ends (Outline.Walk.body image schema)
      (Outline.Walk.run image schema) (Outline.Walk.Below schema)
      fun w => rounds w.stop w.pos) ∧
    (∀ image schema length, Recursion.Ends (Plugin.topHeadersBody image schema length)
      (Plugin.topHeaders image schema length) (Further schema length) (rounds length)) ∧
    (∀ s length, Recursion.Ends (Plugin.flatRecordsBody s length) (Plugin.flatRecords s length)
      (Further .tes3 length) (rounds length)) ∧
    (∀ s id header, Recursion.Ends (Session.scanBody s id header) (Session.scanOn s id header)
      (fun y x => Further s.context.schema header.stop y.1 x.1) fun x => rounds header.stop x.1) ∧
    ∀ {image options length? plugin s₀ s}, Plugin.open? image options length? = .ok (plugin, s₀) →
      plugin.Reaches s₀ s → s.LoadEnds := by
  refine ⟨Outline.Walk.ends, Plugin.topHeaders_ends, Plugin.flatRecords_ends, Session.scan_ends, ?_⟩
  intro image options length? plugin s₀ s hopen hreach
  obtain ⟨tops, H₀, -⟩ := Plugin.exists_rooted_of_open? hopen
  exact (hreach.of_stable Session.Rooted.stable H₀).loadEnds

/-- Loading ends in a file that cannot be read as a whole, also after it has failed there. -/
theorem traversals_end_brokenCell :
    ∃ plugin s, Plugin.open? Plugin.brokenCell { edition := some .oblivion } none =
        .ok (plugin, s) ∧
      s.LoadEnds ∧ (Session.after (plugin.perform (.load 0 true)) s).LoadEnds := by
  have hopens : (Plugin.open? Plugin.brokenCell { edition := some .oblivion } none).toOption.map
      (fun _ => ()) = some () := by
    decide +kernel
  obtain ⟨⟨plugin, s⟩, hopen, -⟩ := exists_eq_ok_of_map hopens
  obtain ⟨-, -, -, -, hload⟩ := traversals_end
  exact ⟨plugin, s, hopen, hload hopen .refl, hload hopen (.step .refl (.load 0 true))⟩

end GamePlugin

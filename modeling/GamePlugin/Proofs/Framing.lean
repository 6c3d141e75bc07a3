import GamePlugin.Proofs.Headers
import GamePlugin.Proofs.Paths

/-!
# Where opening stops

Opening steps over the chunks at the top of a file by their sizes, until it is at the end of the
file or past it. The chunks that it meets are a *trail* (`Chunk.Trail`). A trail differs from a run
in its last chunk only, which may go on past the end.

A group that does so is refused, and so is a record that is read. A record that is passed over is
not: in a file with groups that is every record outside of them, in a file without groups every
record whose tag has no shape. So a file that opens is cut into chunks exactly, or it lacks the end
of such a record (`Plugin.framed_or_overrun`). An outline refuses both.

## Main definitions

* `Chunk.Trail` — the chunks on the way to the end of a file.
* `Chunk.Overruns` — the last record of a file goes on past its end.
-/

namespace GamePlugin

namespace Chunk

variable {image : Image} {schema : Schema} {cs : List Chunk} {pos length : Nat}

/-! ## Trails -/

/-- The header of a record is in the file as a whole. -/
theorem position_le_of_read {offset : Nat} {parent : Option Nat} {h : RecordHeader}
    (eq : read image schema offset parent = .ok (.record h)) : h.position ≤ image.size := by
  obtain ⟨-, H, -⟩ := read_eq_ok_iff.mp eq
  exact Nat.le_trans (Nat.le_of_eq H.position) H.fits

/-- A group is told by its tag, in a schema that has groups. -/
theorem tag_of_read_group {offset : Nat} {parent : Option Nat} {g : GroupHeader}
    (eq : read image schema offset parent = .ok (.group g)) :
    Tag.ofBytes (image.slice offset 24) = .GRUP ∧ schema.hasGroups := by
  obtain ⟨hne, H⟩ := read_eq_ok_iff.mp eq
  obtain ⟨-, htag, hgroups⟩ := isGroupAt_iff.mp ⟨hne, H.tag⟩
  exact ⟨(image.tag_slice (by decide)).trans htag, hgroups⟩

/-- The chunks from `pos` on, up to the first that ends at `length` or past it. -/
def Trail (image : Image) (schema : Schema) (length : Nat) : List Chunk → (pos : Nat) → Prop
  | [], pos => length ≤ pos
  | c :: cs, pos => pos < length ∧ read image schema pos none = .ok c ∧
      Trail image schema length cs c.stop

/-- There is one trail from a place. -/
theorem Trail.unique {ds : List Chunk} (H : Trail image schema length cs pos)
    (H' : Trail image schema length ds pos) : cs = ds := by
  induction cs generalizing pos ds with
  | nil =>
    cases ds with
    | nil => rfl
    | cons d ds => exact absurd H'.1 (Nat.not_lt.mpr H)
  | cons c cs ih =>
    cases ds with
    | nil => exact absurd H.1 (Nat.not_lt.mpr H')
    | cons d ds =>
      cases H.2.1.symm.trans H'.2.1
      rw [ih H.2.2 H'.2.2]

/-- A run is a trail. -/
theorem Run.trail (H : Run image schema cs pos length) : Trail image schema length cs pos := by
  induction cs generalizing pos with
  | nil => exact Nat.le_of_eq (Eq.symm H)
  | cons c cs ih => exact ⟨H.1, H.2.1, ih H.2.2⟩

theorem Trail.exists_read (H : Trail image schema length cs pos) {c : Chunk} (hc : c ∈ cs) :
    ∃ start, read image schema start none = .ok c := by
  induction cs generalizing pos with
  | nil => cases hc
  | cons d cs ih =>
    obtain ⟨-, hread, hrest⟩ := H
    rcases List.mem_cons.mp hc with rfl | hc
    · exact ⟨pos, hread⟩
    · exact ih hrest hc

/-- A trail takes the way of a run, as far as the file goes. -/
theorem Trail.mem_of_run {ds : List Chunk} {c : Chunk} (H : Trail image schema length ds pos)
    (hrun : Run image schema cs pos image.size) (hc : c ∈ ds) : c ∈ cs := by
  induction ds generalizing pos cs with
  | nil => cases hc
  | cons d ds ih =>
    obtain ⟨-, hread, hrest⟩ := H
    cases cs with
    | nil => exact absurd hrun (Nat.ne_of_lt (lt_size_of_read hread))
    | cons c' cs =>
      cases hread.symm.trans hrun.2.1
      rcases List.mem_cons.mp hc with rfl | hc
      · exact List.mem_cons_self
      · exact List.mem_cons_of_mem _ (ih hrest hrun.2.2 hc)

/-- A trail is a run, or all but the last chunk are one and the last goes on past the end. -/
theorem Trail.run_or_overrun (H : Trail image schema length cs pos) (hpos : pos ≤ length) :
    Run image schema cs pos length ∨
      ∃ ds c start, cs = ds ++ [c] ∧ Run image schema ds pos start ∧ start < length ∧
        read image schema start none = .ok c ∧ length < c.stop := by
  induction cs generalizing pos with
  | nil => exact .inl (Nat.le_antisymm hpos H)
  | cons c cs ih =>
    obtain ⟨hlt, hread, hrest⟩ := H
    by_cases hstop : c.stop ≤ length
    · rcases ih hrest hstop with hrun | ⟨ds, d, start, rfl, hrun, hstart, hd, hover⟩
      · exact .inl ⟨hlt, hread, hrun⟩
      · have hpos : pos < start := Nat.lt_of_lt_of_le (lt_stop_of_read hread) hrun.le
        exact .inr ⟨c :: ds, d, start, rfl, ⟨hpos, hread, hrun⟩, hstart, hd, hover⟩
    · -- nothing follows a chunk that goes on past the end
      cases cs with
      | nil => exact .inr ⟨[], c, pos, rfl, rfl, hlt, hread, Nat.not_le.mp hstop⟩
      | cons d cs => exact absurd (Nat.le_of_lt hrest.1) hstop

/-- The file is cut into the chunks and one more record, whose payload goes on past the end. -/
def Overruns (image : Image) (schema : Schema) (cs : List Chunk) (h : RecordHeader) : Prop :=
  ∃ start, Run image schema cs 0 start ∧ start < image.size ∧
    read image schema start none = .ok (.record h) ∧ image.size < h.stop

theorem Run.append_trail {ds : List Chunk} {mid : Nat} (hmid : mid ≤ length)
    (H : Run image schema cs pos mid) (H' : Trail image schema length ds mid) :
    Trail image schema length (cs ++ ds) pos := by
  induction cs generalizing pos with
  | nil => exact (show pos = mid from H) ▸ H'
  | cons c cs ih => exact ⟨Nat.lt_of_lt_of_le H.1 hmid, H.2.1, ih H.2.2⟩

/-- A file with such a record at its end is not cut into chunks. -/
theorem Overruns.not_run {h : RecordHeader} (H : Overruns image schema cs h) (ds : List Chunk) :
    ¬Run image schema ds 0 image.size := by
  intro hrun
  obtain ⟨start, hcs, hstart, hread, hover⟩ := H
  have htrail := hcs.append_trail (Nat.le_of_lt hstart)
    (show Trail image schema image.size [.record h] start from
      ⟨hstart, hread, Nat.le_of_lt hover⟩)
  obtain rfl := htrail.unique hrun.trail
  have hin := (hrun.bounds (List.mem_append_right cs (List.mem_singleton.mpr rfl))).2
  exact absurd hover (Nat.not_lt.mpr hin)

end Chunk

/-- A record that is read is in the file as a whole. -/
theorem Options.stop_le_of_readRecord {o : Options} {image : Image} {context : Context}
    {h : RecordHeader} {r : Record} (hposition : h.position ≤ image.size)
    (eq : o.readRecord image context h = .ok (some r)) : h.stop ≤ image.size := by
  simp only [readRecord] at eq
  cases hshape : o.shapeFor context.edition h with
  | error e => rw [hshape] at eq; cases eq
  | ok shape? =>
    rw [hshape] at eq
    cases shape? with
    | none => cases eq
    | some shape =>
      simp only [bind, Except.bind] at eq
      split at eq
      case isTrue => cases eq
      case isFalse hlen =>
        rw [Image.length_slice] at hlen
        simp only [RecordHeader.stop]
        omega

/-- A file whose last record goes on past its end has no outline. -/
theorem Outline.ofImage_ne_ok_of_overruns {image : Image} {schema : Schema} {cs : List Chunk}
    {h : RecordHeader} (hdetect : Schema.detect image = .ok schema)
    (H : Chunk.Overruns image schema cs h) (o : Outline) : ofImage image ≠ .ok o := by
  intro ho
  obtain ⟨schema', hdetect', f, hf, -⟩ := ofImage_eq_ok_iff.mp ho
  cases hdetect.symm.trans hdetect'
  exact H.not_run f.chunks hf.run

namespace Plugin

variable {image : Image} {options : Options} {schema : Schema} {plugin : Plugin} {s : Session}
  {length? : Option Nat} {length pos : Nat}

/-! ## The two ways to open -/

/-- The headers at the top are those on the trail, and none goes on past the end. -/
theorem exists_trail_of_topHeaders {headers : List GroupHeader}
    (h : topHeaders image schema length pos = .ok headers) :
    ∃ cs, Chunk.Trail image schema length cs pos ∧ headers = cs.filterMap Chunk.group? ∧
      ∀ g, .group g ∈ cs → g.stop ≤ length := by
  fun_induction topHeaders image schema length pos generalizing headers with
  | case1 | case3 | case4 => cases h
  | case2 pos hlt r hread ih =>
    obtain ⟨cs, htrail, rfl, hstop⟩ := ih h
    refine ⟨.record r :: cs, ⟨hlt, hread, htrail⟩, rfl, fun g hg => hstop g ?_⟩
    simpa using hg
  | case5 pos hlt g hread hle rest hrest ih =>
    cases h
    obtain ⟨cs, htrail, rfl, hstop⟩ := ih hrest
    refine ⟨.group g :: cs, ⟨hlt, hread, htrail⟩, rfl, fun k hk => ?_⟩
    rcases List.mem_cons.mp hk with heq | hk
    · cases heq
      exact Nat.not_lt.mp hle
    · exact hstop k hk
  | case6 pos hge =>
    cases h
    exact ⟨[], Nat.not_lt.mp hge, rfl, fun g hg => by cases hg⟩

/-- The records of a file without groups are those on the trail, and none is refused. -/
theorem exists_trail_of_flatRecords {records : List Record}
    (h : flatRecords s length pos = .ok records) :
    ∃ cs, Chunk.Trail s.image .tes3 length cs pos ∧ s.source.ReadsAll cs ∧
      records = (cs.filterMap Chunk.record?).filterMap s.source.record? := by
  fun_induction flatRecords s length pos generalizing records with
  | case1 | case3 | case4 => cases h
  | case2 pos hlt g hread => cases (Chunk.tag_of_read_group hread).2
  | case5 pos hlt r hread x hx rest hrest ih =>
    cases h
    obtain ⟨cs, htrail, hreads, rfl⟩ := ih hrest
    have hread' : s.source.read r = .ok x := hx
    refine ⟨.record r :: cs, ⟨hlt, hread, htrail⟩, ?_, ?_⟩
    · exact Source.readsAll_record.mpr ⟨⟨x, hread'⟩, hreads⟩
    · rw [List.filterMap_cons_some (Chunk.record?_record r), List.filterMap_cons,
        Source.record?_of_read hread']
      cases x <;> rfl
  | case6 pos hge =>
    cases h
    exact ⟨[], Nat.not_lt.mp hge, by simp [Source.ReadsAll], rfl⟩

/-- The chunks after the root record of a file with groups. The groups among them are those at the
top. -/
theorem exists_trail_of_hasGroups (hopen : open? image options length? = .ok (plugin, s))
    (hgroups : s.context.schema.hasGroups) :
    ∃ cs, Chunk.Trail image s.context.schema (length?.getD image.size) cs
        plugin.root.header.stop ∧
      plugin.tops s = cs.filterMap Chunk.group? ∧
      ∀ g, .group g ∈ cs → g.stop ≤ length?.getD image.size := by
  obtain ⟨-, hsource, hlength, -⟩ := rooted_tops_of_open? hopen hgroups
  have himage : s.image = image := congrArg Source.image hsource
  obtain ⟨hdetect, -⟩ := readRoot_of_open? hopen
  obtain ⟨schema, context, hdetect', -, hcases⟩ := open?_cases hopen
  cases hdetect.symm.trans hdetect'
  rcases hcases with ⟨-, -, headers, htop, -⟩ | ⟨hnot, -⟩
  · obtain ⟨cs, htrail, hheaders, hstop⟩ := exists_trail_of_topHeaders htop
    refine ⟨cs, htrail, ?_, hstop⟩
    rw [tops, himage, hlength, Option.getD_some, htop]
    exact hheaders
  · exact absurd hgroups hnot

/-- The chunks after the root record of a file without groups, and the tables of their records. -/
theorem exists_trail_of_flat (hopen : open? image options length? = .ok (plugin, s))
    (hflat : ¬s.context.schema.hasGroups) :
    s.context.schema = .tes3 ∧ ∃ cs,
      Chunk.Trail image .tes3 (length?.getD image.size) cs plugin.root.header.stop ∧
      Source.ReadsAll ⟨image, s.context, options⟩ cs ∧
      plugin.flat = some (.ofRecords
        ((cs.filterMap Chunk.record?).filterMap (Source.record? ⟨image, s.context, options⟩))) := by
  obtain ⟨hdetect, hroot⟩ := readRoot_of_open? hopen
  obtain ⟨schema, context, hdetect', hroot', hcases⟩ := open?_cases hopen
  cases hdetect.symm.trans hdetect'
  cases hroot.symm.trans hroot'
  rcases hcases with ⟨hgroups, -⟩ | ⟨-, -, -, -, records, hrecords, htables⟩
  · exact absurd hgroups hflat
  · obtain ⟨cs, htrail, hreads, rfl⟩ := exists_trail_of_flatRecords hrecords
    exact ⟨Schema.eq_tes3_of_not_hasGroups hflat, cs, htrail, hreads, htables⟩

/-! ## The main result -/

/-- On the way of opening, a chunk that goes on past the end is a record that is passed over. -/
theorem exists_trail_of_open? (hopen : open? image options none = .ok (plugin, s)) :
    ∃ cs, Chunk.Trail image s.context.schema image.size cs plugin.root.header.stop ∧
      ∀ c ∈ cs, image.size < c.stop → ∃ h, c = .record h ∧ (s.context.schema.hasGroups ∨
        options.registry.shape? h.tag s.context.edition = none) := by
  by_cases hgroups : s.context.schema.hasGroups
  · obtain ⟨cs, htrail, -, hstop⟩ := exists_trail_of_hasGroups hopen hgroups
    refine ⟨cs, htrail, fun c hc hover => ?_⟩
    cases c with
    | record h => exact ⟨h, rfl, .inl hgroups⟩
    | group g => exact absurd hover (Nat.not_lt.mpr (hstop g hc))
  · obtain ⟨hschema, cs, htrail, hreads, -⟩ := exists_trail_of_flat hopen hgroups
    rw [hschema]
    refine ⟨cs, htrail, fun c hc hover => ?_⟩
    obtain ⟨start, hread⟩ := htrail.exists_read hc
    cases c with
    | group g => exact absurd (Chunk.tag_of_read_group hread).2 (by decide)
    | record h =>
      refine ⟨h, rfl, .inr ?_⟩
      obtain ⟨x, hx⟩ := hreads h (List.mem_filterMap.mpr ⟨_, hc, rfl⟩)
      cases hshape : options.registry.shape? h.tag s.context.edition with
      | none => rfl
      | some shape =>
        obtain ⟨r, rfl⟩ := Options.exists_some_of_readRecord hshape hx
        have hin := Options.stop_le_of_readRecord (Chunk.position_le_of_read hread) hx
        exact absurd hover (Nat.not_lt.mpr hin)

/-- **A file that opens is cut into chunks exactly, or lacks the end of a record that is passed
over.** The first chunk is the root record. What lacks its end is the last chunk, a record outside
of groups, or in a file without groups one whose tag has no shape; its header is there. Such a file
has no outline. -/
theorem framed_or_overrun (hopen : open? image options none = .ok (plugin, s)) :
    ∃ cs, Chunk.Run image s.context.schema (.record plugin.root.header :: cs) 0 image.size ∨
      ∃ h, Chunk.Overruns image s.context.schema (.record plugin.root.header :: cs) h ∧
        (s.context.schema.hasGroups ∨
          options.registry.shape? h.tag s.context.edition = none) ∧
        ∀ o, Outline.ofImage image ≠ .ok o := by
  obtain ⟨hdetect, hroot⟩ := readRoot_of_open? hopen
  obtain ⟨localized, hread, hrecord, -⟩ := readRoot_cases hroot
  have hstop := Options.stop_le_of_readRecord (Chunk.position_le_of_read hread) hrecord
  obtain ⟨cs, htrail, hover⟩ := exists_trail_of_open? hopen
  rcases htrail.run_or_overrun hstop with hrun | ⟨ds, c, start, rfl, hrun, hstart, hc, hend⟩
  · exact ⟨cs, .inl ⟨Chunk.lt_size_of_read hread, hread, hrun⟩⟩
  · obtain ⟨h, rfl, hskip⟩ := hover c (List.mem_append_right ds (List.mem_singleton.mpr rfl)) hend
    have hfirst : 0 < start := Nat.lt_of_lt_of_le (Chunk.lt_stop_of_read hread) hrun.le
    have H : Chunk.Overruns image s.context.schema (.record plugin.root.header :: ds) h :=
      ⟨start, ⟨hfirst, hread, hrun⟩, hstart, hc, hend⟩
    exact ⟨ds, .inr ⟨h, H, hskip, Outline.ofImage_ne_ok_of_overruns hdetect H⟩⟩

/-- A file that ends where the payload of its last record should start. The record is outside of
groups. -/
def cutGlobal : Image :=
  .ofBytes ((Draft.encodeAll .tes4
    [.record .TES4 0 ⟨0⟩ [72, 69, 68, 82, 12, 0, 0, 0, 128, 63, 4, 0, 0, 0, 0, 8, 0, 0],
     .record .GLOB 0 ⟨7⟩ [0, 0, 0, 0]]).take 58)

/-- The same without groups. The tag of the record has no shape. -/
def cutFlat : Image :=
  .ofBytes ((Draft.encodeAll .tes3
    [.record .TES3 0 ⟨0⟩ [], .record .XXXX 0 ⟨0⟩ [0, 0, 0, 0]]).take 32)

theorem exists_not_run
    (h : ((open? image options none).toOption.map fun x =>
      Chunk.cut image x.2.context.schema image.size 0) = some none) :
    ∃ plugin s, open? image options none = .ok (plugin, s) ∧
      ∀ cs, ¬Chunk.Run image s.context.schema cs 0 image.size := by
  obtain ⟨⟨plugin, s⟩, hopen, hcut⟩ := exists_eq_ok_of_map h
  refine ⟨plugin, s, hopen, ?_⟩
  intro cs hrun
  rw [Chunk.cut_of_run hrun] at hcut
  cases hcut

/-- The second record of the flat file lacks its end, and is passed over. -/
theorem framed_or_overrun_cutFlat :
    ∃ plugin s cs h, open? cutFlat { edition := some .morrowind } none = .ok (plugin, s) ∧
      Chunk.Overruns cutFlat s.context.schema (.record plugin.root.header :: cs) h ∧
      (s.context.schema.hasGroups ∨
        Registry.standard.shape? h.tag s.context.edition = none) ∧
      ∀ o, Outline.ofImage cutFlat ≠ .ok o := by
  have hopens : ∃ plugin s, open? cutFlat { edition := some .morrowind } none = .ok (plugin, s) ∧
      ∀ cs, ¬Chunk.Run cutFlat s.context.schema cs 0 cutFlat.size :=
    exists_not_run (by decide +kernel)
  obtain ⟨plugin, s, hopen, hno⟩ := hopens
  obtain ⟨cs, hrun | ⟨h, H, hskip, hnot⟩⟩ := framed_or_overrun hopen
  · exact absurd hrun (hno _)
  · exact ⟨plugin, s, cs, h, hopen, H, hskip, hnot⟩

/-- Files that end before their last record does can be opened. -/
theorem cut_files_open :
    (∃ plugin s, open? cutGlobal { edition := some .oblivion } none = .ok (plugin, s) ∧
      ∀ cs, ¬Chunk.Run cutGlobal s.context.schema cs 0 cutGlobal.size) ∧
    ∃ plugin s, open? cutFlat { edition := some .morrowind } none = .ok (plugin, s) ∧
      ∀ cs, ¬Chunk.Run cutFlat s.context.schema cs 0 cutFlat.size :=
  ⟨exists_not_run (by decide +kernel), exists_not_run (by decide +kernel)⟩

end Plugin

end GamePlugin

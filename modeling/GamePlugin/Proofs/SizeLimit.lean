import GamePlugin.Proofs.Inflation
import GamePlugin.Proofs.Obtained

/-!
# The size limit

A record is read only if its payload has no more bytes than the limit says, and a compressed payload
is inflated only as far as that. The limit is looked at in three places: when the shape of a record
is looked up, when the announced size is read, and while its stream is inflated. A record that is
read has passed all of them, so neither its payload nor what that inflates to exceeds the limit
(`Options.within_of_readRecord`).

All that a caller gets has been read, and whatever contains a registered record that cannot be read
fails as a whole. Records that are not registered are passed over before any size is looked at.

## Main definitions

* `Options.Within` — a record is within the limit.
-/

namespace GamePlugin

/-! ## Sizes -/

namespace Zlib

/-- A stream inflates to one thing only. -/
theorem Inflates.unique {stream plain plain' : Bytes} (h : Inflates stream plain)
    (h' : Inflates stream plain') : plain = plain' := by
  have hrun := (h.yields (max plain.length plain'.length) []).1 (Nat.le_max_left ..)
  have hrun' := (h'.yields (max plain.length plain'.length) []).1 (Nat.le_max_right ..)
  have harray : plain.toArray = plain'.toArray := Except.ok.inj (hrun.symm.trans hrun')
  exact congrArg Array.toList harray

end Zlib

/-- What a payload inflates to comes from its stream, and is within the limit. -/
theorem Payload.inflates_of_inflate {payload plain : Bytes} {form : FormId} {limit : Nat}
    (h : inflate payload form limit = .ok plain) :
    Zlib.Inflates (payload.drop 4) plain ∧ plain.length ≤ limit := by
  simp only [inflate] at h
  split at h
  · cases h
  split at h
  · cases h
  rename_i hlimit
  split at h
  case h_1 out hrun =>
    split at h
    · rename_i hsize
      cases h
      refine ⟨⟨_, hrun⟩, ?_⟩
      rw [Array.length_toList]
      omega
    · cases h
  case h_2 => split at h <;> cases h
  case h_3 => split at h <;> cases h

namespace Options

/-- The record is within the size limit: neither its payload has more bytes than allowed nor, if it
is compressed, what its stream inflates to. -/
structure Within (o : Options) (image : Image) (h : RecordHeader) : Prop where
  dataSize_le : h.dataSize.toNat ≤ o.maxRecordSize
  inflated_le : h.isCompressed → ∃ plain,
    Zlib.Inflates ((image.slice h.position h.dataSize.toNat).drop 4) plain ∧
      plain.length ≤ o.maxRecordSize

variable {o : Options} {image : Image} {context : Context} {h : RecordHeader} {shape : Shape}
  {r : Record}

theorem not_within_of_inflates {plain : Bytes} (hcompressed : h.isCompressed)
    (hinflates : Zlib.Inflates ((image.slice h.position h.dataSize.toNat).drop 4) plain)
    (hlt : o.maxRecordSize < plain.length) : ¬o.Within image h := by
  intro H
  obtain ⟨plain', hinflates', hle⟩ := H.inflated_le hcompressed
  rw [hinflates.unique hinflates'] at hlt
  omega

theorem dataSize_le_of_shapeFor {edition : Edition}
    (hshape : o.shapeFor edition h = .ok (some shape)) : h.dataSize.toNat ≤ o.maxRecordSize := by
  simp only [shapeFor] at hshape
  split at hshape
  · cases hshape
  split at hshape
  · cases hshape
  · exact Nat.le_of_not_lt ‹_›

theorem within_of_decode {edition : Edition} (hshape : o.shapeFor edition h = .ok (some shape))
    (hdecode : Record.decode h shape (image.slice h.position h.dataSize.toNat) context
      o.maxRecordSize = .ok r) : o.Within image h := by
  refine ⟨dataSize_le_of_shapeFor hshape, fun hcompressed => ?_⟩
  simp only [Record.decode, if_pos hcompressed] at hdecode
  cases hinflate : Payload.inflate (image.slice h.position h.dataSize.toNat) h.form
      o.maxRecordSize with
  | error e => rw [hinflate] at hdecode; cases hdecode
  | ok plain => exact ⟨plain, Payload.inflates_of_inflate hinflate⟩

/-- A record that is read is within the limit. -/
theorem within_of_readRecord (hread : o.readRecord image context h = .ok (some r)) :
    o.Within image h := by
  simp only [readRecord] at hread
  cases hshape : o.shapeFor context.edition h with
  | error e => rw [hshape] at hread; cases hread
  | ok shape? =>
    rw [hshape] at hread
    cases shape? with
    | none => cases hread
    | some shape =>
      simp only [bind, Except.bind] at hread
      split at hread
      · cases hread
      cases hdecode : Record.decode h shape (image.slice h.position h.dataSize.toNat) context
          o.maxRecordSize with
      | error e => rw [hdecode] at hread; cases hread
      | ok r' => exact within_of_decode hshape hdecode

end Options

namespace Outline

/-- A record that is read by outline is within the limit. -/
theorem within_of_decodeEntry {o : Options} {image : Image} {context : Context} {e : RecordEntry}
    {r : Record} (hread : decodeEntry image context o e = .ok (some r)) :
    r.header = e.header ∧ o.Within image e.header := by
  simp only [decodeEntry] at hread
  cases hshape : o.shapeFor context.edition e.header with
  | error e => rw [hshape] at hread; cases hread
  | ok shape? =>
    rw [hshape] at hread
    cases shape? with
    | none => cases hread
    | some shape =>
      simp only [bind, Except.bind] at hread
      split at hread
      · cases hread
      cases hdecode : Record.decode e.header shape
          (image.slice e.header.position e.header.dataSize.toNat) context o.maxRecordSize with
      | error e => rw [hdecode] at hread; cases hread
      | ok r' =>
        rw [hdecode] at hread
        cases hread
        exact ⟨Record.header_of_decode hdecode, Options.within_of_decode hshape hdecode⟩

end Outline

/-! ## Contents within the limit -/

namespace Source

variable {src : Source} {deep : Bool} {h : GroupHeader} {k : RecordHeader} {cs : List Chunk}

theorem ReadsRegistered.within (H : src.ReadsRegistered cs) (hk : k ∈ cs.filterMap Chunk.record?)
    (hregistered : src.registered k) : src.options.Within src.image k := by
  obtain ⟨r, hr⟩ := H k hk hregistered
  exact Options.within_of_readRecord hr

/-- The registered records of a group that can be read are within the limit. -/
theorem Clear.within (H : src.Clear deep h) (hk : src.Contains deep k h)
    (hregistered : src.registered k) : src.options.Within src.image k := by
  induction hk with
  | direct hk =>
    obtain ⟨-, hreads, -⟩ := H
    exact hreads.within hk hregistered
  | inside hdeep hin _ ih =>
    obtain ⟨-, -, hgroups⟩ := H
    exact ih (hgroups hdeep _ hin)

end Source

/-- All that is decoded by outline is within the limit. -/
theorem Outline.within_of_decode {o : Outline} {image : Image} {context : Context}
    {options : Options} {rs : List Record} (h : o.decode image context options = .ok rs)
    {r : Record} (hr : r ∈ rs) : options.Within image r.header := by
  rw [decode] at h
  cases hmap : o.records.toList.mapM (decodeEntry image context options) with
  | error e => rw [hmap] at h; cases h
  | ok xs =>
    rw [hmap] at h
    cases h
    obtain ⟨x, hx, rfl⟩ := List.mem_filterMap.mp hr
    obtain ⟨e, -, hread⟩ := (of_mapM_eq_ok hmap).2 _ hx
    obtain ⟨hheader, hwithin⟩ := within_of_decodeEntry hread
    rwa [hheader]

/-- Whatever is done with an open plugin, all that it has got is within the limit. -/
theorem Plugin.within_of_has {image : Image} {options : Options} {length? : Option Nat}
    {plugin : Plugin} {s₀ s : Session} {r : Record}
    (hopen : open? image options length? = .ok (plugin, s₀)) (hreach : plugin.Reaches s₀ s)
    (h : plugin.Has s r) : options.Within image r.header := by
  obtain ⟨context, hread⟩ := read_of_has hopen hreach h
  exact Options.within_of_readRecord hread

/-! ## The main result -/

/-- **No record beyond the size limit is read.** All that an open plugin has got from its file is
within the limit, whatever was done with it, and so is all that an operation gives. A group that
contains a registered record beyond the limit does not load, alone if the record lies directly in
it, or deep if it lies anywhere below; a file without groups that contains one does not open, and
none can be decoded by outline. Records that are not registered do not count: all of this fails
only for framing and for registered records. -/
theorem no_record_beyond_limit (image : Image) (options : Options) :
    (∀ {length? : Option Nat} {plugin : Plugin} {s₀ s : Session},
      Plugin.open? image options length? = .ok (plugin, s₀) → plugin.Reaches s₀ s →
      (∀ r, plugin.Has s r → options.Within image r.header) ∧
      (∀ op rs t, plugin.gives op s = .ok rs t → ∀ r ∈ rs, options.Within image r.header) ∧
      (∀ shape reference r, plugin.resolve? s shape reference = some r →
        options.Within image r.header) ∧
      ∀ id g, s.group? id = some g → ∀ deep,
        ((∃ rs t, Session.load id deep s = .ok rs t) ↔
          ∀ h ∈ g.headers.toList, Source.Clear ⟨image, s₀.context, options⟩ deep h) ∧
        ∀ h ∈ g.headers.toList, ∀ k, Source.Contains ⟨image, s₀.context, options⟩ deep k h →
          Source.registered ⟨image, s₀.context, options⟩ k → ¬options.Within image k →
          ∀ rs t, Session.load id deep s ≠ .ok rs t) ∧
    (∀ {length? : Option Nat} {root : Record} {content : Root} {context : Context}
        {cs : List Chunk}, Schema.detect image = .ok .tes3 →
      Plugin.checkEdition options .tes3 = .ok () →
      Plugin.readRoot image options .tes3 = .ok (root, content, context) →
      Chunk.Trail image .tes3 (length?.getD image.size) cs root.header.stop →
      ((∃ x, Plugin.open? image options length? = .ok x) ↔
        Source.ReadsRegistered ⟨image, context, options⟩ cs) ∧
      ∀ k ∈ cs.filterMap Chunk.record?, Source.registered ⟨image, context, options⟩ k →
        ¬options.Within image k → ∀ x, Plugin.open? image options length? ≠ .ok x) ∧
    ∀ (o : Outline) (context : Context),
      ((∃ rs, o.decode image context options = .ok rs) ↔
        ∀ e ∈ o.records.toList, Source.registered ⟨image, context, options⟩ e.header →
          ∃ r, Outline.decodeEntry image context options e = .ok (some r)) ∧
      (∀ rs, o.decode image context options = .ok rs → ∀ r ∈ rs, options.Within image r.header) ∧
      ∀ e ∈ o.records.toList, Source.registered ⟨image, context, options⟩ e.header →
        ¬options.Within image e.header → ∀ rs, o.decode image context options ≠ .ok rs := by
  refine ⟨fun {length? plugin s₀ s} hopen hreach => ⟨fun r hr => ?_, fun op rs t hgives r hr => ?_,
    fun shape reference r hr => ?_, fun id g hid deep => ?_⟩,
    fun {length? root content context cs} hdetect hedition hroot htrail => ?_,
    fun o context => ⟨Outline.decode_eq_ok_iff, fun rs hrs r hr => Outline.within_of_decode hrs hr,
      fun e he hregistered hnot rs hrs => ?_⟩⟩
  · exact Plugin.within_of_has hopen hreach hr
  · exact Plugin.within_of_has hopen (hreach.gives hgives) (Plugin.has_of_gives hgives hr)
  · exact Plugin.within_of_has hopen hreach (Plugin.has_of_resolve? hr)
  · obtain ⟨tops, H₀, -⟩ := Plugin.exists_rooted_of_open? hopen
    have hiff := (hreach.of_stable Session.Rooted.stable H₀).load_eq_ok_iff hid deep
    refine ⟨hiff, fun h hh k hk hregistered hnot rs t hload => hnot ?_⟩
    exact (hiff.mp ⟨rs, t, hload⟩ h hh).within hk hregistered
  · have hiff := Plugin.open?_of_trail hdetect hedition hroot htrail
    refine ⟨hiff, fun k hk hregistered hnot x hx => hnot ?_⟩
    exact (hiff.mp ⟨x, hx⟩).within hk hregistered
  · obtain ⟨r, hr⟩ := Outline.decode_eq_ok_iff.mp ⟨rs, hrs⟩ e he hregistered
    exact hnot (Outline.within_of_decodeEntry hr).2

/-- A file with a compressed variable that inflates to forty bytes, although fewer are announced,
and a group with a record of forty bytes that has no shape. -/
def bulky : Image :=
  .ofBytes (Draft.encodeAll .tes4
    [.record .TES4 0 ⟨0⟩ [72, 69, 68, 82, 12, 0, 0, 0, 128, 63, 4, 0, 0, 0, 0, 8, 0, 0],
     .group Tag.GLOB.code .top
      [.record .GLOB RecordHeader.compressedFlag ⟨7⟩
        [20, 0, 0, 0, 120, 218, 75, 76, 36, 14, 0, 0, 54, 235, 15, 41]],
     .group Tag.MISC.code .top [.record .XXXX 0 ⟨8⟩ (List.replicate 40 0)]])

/-- Options for that file: payloads may have up to 32 bytes. -/
def narrow : Options := { edition := some .oblivion, maxRecordSize := 32 }

/-- Whether the record is the compressed variable of that file. -/
def isBulkyVariable (context : Context) (k : RecordHeader) : Bool :=
  k.position = 78 && k.dataSize.toNat = 16 && k.isCompressed &&
    Source.registered ⟨bulky, context, narrow⟩ k

theorem not_within_of_isBulkyVariable {context : Context} {k : RecordHeader}
    (hk : isBulkyVariable context k) : ¬narrow.Within bulky k := by
  have hrun : (Zlib.inflate 40 ((bulky.slice 78 16).drop 4)).toOption =
      some (List.replicate 40 97).toArray := by
    decide +kernel
  have hinflates : Zlib.Inflates ((bulky.slice 78 16).drop 4) (List.replicate 40 97) := by
    refine ⟨40, ?_⟩
    cases heq : Zlib.inflate 40 ((bulky.slice 78 16).drop 4) with
    | error e => rw [heq] at hrun; cases hrun
    | ok out => rw [heq] at hrun; rw [Option.some.inj hrun]
  simp only [isBulkyVariable, Bool.and_eq_true, decide_eq_true_eq] at hk
  obtain ⟨⟨⟨hposition, hsize⟩, hcompressed⟩, -⟩ := hk
  rw [← hposition, ← hsize] at hinflates
  exact Options.not_within_of_inflates hcompressed hinflates (by decide)

/-- With a limit of 32 bytes the first group does not load, and the file cannot be decoded by
outline. The second group does load. -/
theorem no_record_beyond_limit_bulky :
    ∃ plugin s₀ g h k o, Plugin.open? bulky narrow none = .ok (plugin, s₀) ∧
      s₀.group? 0 = some g ∧ h ∈ g.headers.toList ∧
      Source.Contains ⟨bulky, s₀.context, narrow⟩ false k h ∧
      isBulkyVariable s₀.context k ∧ ¬narrow.Within bulky k ∧
      (∀ rs t, Session.load 0 false s₀ ≠ .ok rs t) ∧
      Outline.ofImage bulky = .ok o ∧ (∀ rs, o.decode bulky s₀.context narrow ≠ .ok rs) ∧
      narrow.Within bulky plugin.root.header ∧ ∃ rs t, Session.load 1 true s₀ = .ok rs t := by
  have hopens : ((Plugin.open? bulky narrow none).toOption.map fun x =>
      (x.2.group? 0).any (fun g => g.headers.toList.any fun h =>
        (Source.recordsIn ⟨bulky, x.2.context, narrow⟩ h).any (isBulkyVariable x.2.context)) &&
      (Outline.ofImage bulky).toOption.any (fun o =>
        o.records.toList.any fun e => isBulkyVariable x.2.context e.header) &&
      ((Session.load 1 true).run' x.2).isSome) = some true := by
    decide +kernel
  have houtline : ((Outline.ofImage bulky).toOption.map fun o => o.groups.size) = some 2 := by
    decide +kernel
  obtain ⟨⟨plugin, s₀⟩, hopen, hfacts⟩ := exists_eq_ok_of_map hopens
  obtain ⟨o, ho, -⟩ := exists_eq_ok_of_map houtline
  have hoption : (Outline.ofImage bulky).toOption = some o := by rw [ho]; rfl
  simp only [Bool.and_eq_true, Option.any_eq_true, List.any_eq_true, hoption,
    Option.any_some] at hfacts
  obtain ⟨⟨⟨g, hid, h, hh, k, hk, hvariable⟩, e, he, hentry⟩, hsecond⟩ := hfacts
  have hregistered {k : RecordHeader} (hk : isBulkyVariable s₀.context k) :
      Source.registered ⟨bulky, s₀.context, narrow⟩ k := by
    simp only [isBulkyVariable, Bool.and_eq_true] at hk
    exact hk.2
  obtain ⟨hopened, -, hdecode⟩ := no_record_beyond_limit bulky narrow
  obtain ⟨hhas, -, -, hgroups⟩ := hopened hopen .refl
  obtain ⟨-, -, hrefused⟩ := hdecode o s₀.context
  obtain ⟨rs, hrs⟩ := Option.isSome_iff_exists.mp hsecond
  have hnot := not_within_of_isBulkyVariable hvariable
  exact ⟨plugin, s₀, g, h, k, o, hopen, hid, hh, .direct hk, hvariable, hnot,
    (hgroups 0 g hid false).2 h hh k (.direct hk) (hregistered hvariable) hnot, ho,
    hrefused e he (hregistered hentry) (not_within_of_isBulkyVariable hentry), hhas _ .root, rs, _,
    Session.eq_ok_of_run' hrs⟩

end GamePlugin

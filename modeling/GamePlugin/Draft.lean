import GamePlugin.Chunk
import GamePlugin.Field.Sequence
import GamePlugin.Payload

/-!
# Writing plugins

A draft says what a file is to hold; encoding it gives the bytes. Groups are written with their
total size, so what is written can be read back chunk by chunk.

## Main definitions

* `Draft` — a chunk to be written; `Draft.encode` — its bytes.
* `PluginDraft` — a whole file; `PluginDraft.encode` — its bytes.
-/

namespace GamePlugin

/-- A chunk to be written. -/
inductive Draft where
  | record (tag : Tag) (flags : UInt32) (form : FormId) (payload : Bytes)
  | group (label : UInt32) (kind : GroupKind) (chunks : List Draft)
  /-- Bytes that are written as they are. -/
  | raw (bytes : Bytes)
deriving Inhabited

namespace Draft

/-- A record without flags. -/
def plain (tag : Tag) (form : FormId) (payload : Bytes) : Draft := record tag 0 form payload

/-- A record whose payload is compressed. -/
def compressed (deflater : Bytes → Bytes) (tag : Tag) (form : FormId) (payload : Bytes) : Draft :=
  record tag RecordHeader.compressedFlag form (Payload.deflate deflater payload)

/-- The form version that the longest record headers carry. -/
def formVersion : UInt32 := 44

/-- A record header and its payload. -/
def encodeRecord (schema : Schema) (tag : Tag) (flags : UInt32) (form : FormId)
    (payload : Bytes) : Bytes :=
  let words : List UInt32 :=
    match schema with
    | .tes3 => [0, flags]
    | .tes4 => [flags, form.value, 0]
    | .tes5 => [flags, form.value, 0, formVersion]
  tag.bytes ++ Bytes.ofNat 4 payload.length ++ words.flatMap Bytes.ofUInt32 ++ payload

/-- A group header and what is in the group. -/
def encodeGroup (schema : Schema) (label : UInt32) (kind : GroupKind) (content : Bytes) : Bytes :=
  Tag.GRUP.bytes ++ Bytes.ofNat 4 (schema.groupHeaderSize + content.length) ++
    Bytes.ofUInt32 label ++ Bytes.ofNat 4 kind.number ++
    Bytes.zeros (schema.groupHeaderSize - 16) ++ content

mutual

/-- The bytes of a chunk. -/
def encode (schema : Schema) : Draft → Bytes
  | record tag flags form payload => encodeRecord schema tag flags form payload
  | group label kind chunks => encodeGroup schema label kind (encodeAll schema chunks)
  | raw bytes => bytes

/-- The bytes of chunks in a row. -/
def encodeAll (schema : Schema) : List Draft → Bytes
  | [] => []
  | d :: ds => encode schema d ++ encodeAll schema ds

end

mutual

/-- Headers of the groups in a chunk that is written at an offset. A group comes after those in it.
-/
def groupHeaders (schema : Schema) (offset : Nat) : Draft → List GroupHeader
  | record .. => []
  | group label kind chunks =>
    let position := offset + schema.groupHeaderSize
    let dataSize := UInt32.ofNat (encodeAll schema chunks).length
    groupHeadersAll schema position chunks ++ [{ label, kind, dataSize, position }]
  | raw _ => []

/-- Headers of the groups in chunks that are written in a row from an offset on. -/
def groupHeadersAll (schema : Schema) (offset : Nat) : List Draft → List GroupHeader
  | [] => []
  | d :: ds =>
    groupHeaders schema offset d ++
      groupHeadersAll schema (offset + (encode schema d).length) ds

end

end Draft

/-! ## Files -/

/-- The kind of root record that a file gets. -/
inductive RootDraft where
  | plain
  /-- Texts are in string tables. -/
  | localized
  /-- The file builds on others. -/
  | masters (names : List String)
deriving DecidableEq

namespace RootDraft

/-- Flags of the root record. -/
def flags : RootDraft → UInt32
  | plain => 0
  | localized => RecordHeader.localizedFlag
  | masters _ => RecordHeader.masterFlag

/-- Names of the files that it builds on. -/
def names : RootDraft → List String
  | plain => []
  | localized => []
  | masters names => names

/-- The author that is written. -/
def author : String := "bgs-esm"

/-- The description that is written, where the header has room for one. -/
def description : String := "Synthetic test master"

/-- The fields that every root record starts with. -/
def headerFields (edition : Edition) : Bytes :=
  let version := Bytes.ofUInt32 edition.fileVersion.toBits
  match edition.schema with
  | .tes3 =>
    Field.encode .tes3 .HEDR (version ++ Bytes.ofNat 4 1 ++
      Bytes.padTo 32 (Text.Utf8.encode author) ++
      Bytes.padTo 256 (Text.Utf8.encode description) ++ Bytes.ofNat 4 0)
  | schema =>
    Field.encode schema .HEDR (version ++ Bytes.ofNat 4 0 ++ Bytes.ofNat 4 0x800) ++
      Field.encode schema .CNAM (Text.terminated author)

/-- The fields for one file that it builds on. -/
def masterFields (schema : Schema) (name : String) : Bytes :=
  Field.encode schema .MAST (Text.terminated name) ++ Field.encode schema .DATA (Bytes.zeros 8)

/-- The root record. -/
def draft (r : RootDraft) (edition : Edition) : Draft :=
  let tag := if edition.schema = .tes3 then Tag.TES3 else Tag.TES4
  .record tag r.flags .none
    (headerFields edition ++ r.names.flatMap (masterFields edition.schema))

end RootDraft

/-- A file to be written. -/
structure PluginDraft where
  edition : Edition
  root : RootDraft := .plain
  chunks : List Draft := []

namespace PluginDraft

/-- All chunks, the root record first. -/
def allChunks (p : PluginDraft) : List Draft := p.root.draft p.edition :: p.chunks

/-- The bytes of the file. -/
def encode (p : PluginDraft) : Bytes := Draft.encodeAll p.edition.schema p.allChunks

/-- Length of the file after each of its outermost chunks. -/
def lengths (p : PluginDraft) : List Nat :=
  let sizes := p.allChunks.map fun d => (d.encode p.edition.schema).length
  (List.range sizes.length).map fun i => (sizes.take (i + 1)).foldl (· + ·) 0

/-- Headers of all groups. A group comes after those in it. -/
def groupHeaders (p : PluginDraft) : List GroupHeader :=
  Draft.groupHeadersAll p.edition.schema 0 p.allChunks

end PluginDraft

end GamePlugin

import GamePlugin.Error
import GamePlugin.Zlib.Inflate

/-!
# Compressed payloads

A compressed payload is the size of the plain one in four bytes, then a stream that inflates to it.
The announced size is binding: it must be within the limit before anything is inflated, and the
stream must inflate to exactly that many bytes.

A stream that goes on past the announced size is only told apart from one that does not, so the
error says one byte more than announced. A stream is read a piece at a time and inflated a window at
a time: a fault counts only if it is met before the piece or the window with that byte is done.

Which of the streams that inflate to a payload is written is left to a deflater.
-/

namespace GamePlugin.Payload

/-- Bytes that are inflated at a time. -/
def window : Nat := 32768

/-- Bytes of a stream that are read at a time. -/
def piece : Nat := 32768

/-- Why a payload cannot be inflated, for any fault in its stream. -/
def corruptText : String := "corrupt deflate stream"

/-- Inflates a stream up to the end of the window with the first byte past the announced size. -/
def inflateStream (expected : Nat) (stream : Bytes) : Zlib.Run Zlib.Output :=
  Zlib.inflate ((expected / window + 1) * window) stream

/-- Whether the pieces before a fault inflate to more than announced. -/
def overrunsBeforeFault (expected : Nat) (stream : Bytes) : Bool :=
  (List.range (stream.length / piece + 1)).any fun pieces =>
    match inflateStream expected (stream.take (pieces * piece)) with
    | .error (.truncated, out) => expected < out.size
    | _ => false

/-- The plain payload of a compressed one. -/
def inflate (payload : Bytes) (form : FormId) (limit : Nat) : Except Error Bytes :=
  if payload.length < 4 then
    throw (.inflate form s!"payload of {payload.length} bytes has no size prefix")
  else
    let expected := (Bytes.word32 payload).toNat
    let stream := payload.drop 4
    let mismatch (produced : Nat) : Error :=
      .inflatedSize form expected (min produced (expected + 1))
    if limit < expected then throw (.memoryLimit expected limit)
    else
      match inflateStream expected stream with
      | .ok out => if out.size = expected then pure out.toList else throw (mismatch out.size)
      | .error (.corrupt, out) =>
        if expected < out.size && overrunsBeforeFault expected stream then
          throw (mismatch (expected + 1))
        else throw (.inflate form corruptText)
      | .error (_, out) =>
        if expected < out.size then throw (mismatch out.size)
        else throw (.inflate form corruptText)

/-- A compressed payload for a plain one, with the stream that a deflater gives. -/
def deflate (deflater : Bytes → Bytes) (payload : Bytes) : Bytes :=
  Bytes.ofNat 4 payload.length ++ deflater payload

end GamePlugin.Payload

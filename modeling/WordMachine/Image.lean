import WordMachine.Segment
import WordMachine.Host.OsError

/-!
# Executable images

An image is what a machine starts from: the code segment, one byte per address, and the data
segment, one word per address. On disk it is the code bytes followed by the data words, high byte
first. A longer file carries the image in front; the bytes after it are ignored and counted.
-/

namespace WordMachine

/-- The contents a machine is loaded with. -/
structure Image where
  code : Segment UInt8
  data : Segment Word

/-- Why a file does not give an image. -/
inductive ImageError where
  | access (path : String) (cause : OsError)
  | tooSmall (size : Nat)
  deriving DecidableEq, Repr

namespace Image

/-- The length of the written form: 65536 code bytes and two bytes for each data word. -/
abbrev byteSize : Nat := 3 * segmentSize

/-- The image of an empty program. -/
def empty : Image := ⟨.fill 0, .fill 0⟩

instance : Inhabited Image := ⟨empty⟩

/-- The bytes of an image on disk. -/
def toBytes (img : Image) : ByteArray :=
  ⟨img.code.toArray ++ (Word.bigEndian img.data.toArray.toList).toArray⟩

/-- The image at the front of some bytes, and the number of bytes after it. -/
def parse (bytes : ByteArray) : Except ImageError (Image × Nat) :=
  if bytes.size < byteSize then
    .error (.tooSmall bytes.size)
  else
    let code := Segment.ofFn fun i => bytes[i]?.getD 0
    let data := Segment.ofFn fun i =>
      Word.ofBytes (bytes[segmentSize + 2 * i]?.getD 0) (bytes[segmentSize + 2 * i + 1]?.getD 0)
    .ok (⟨code, data⟩, bytes.size - byteSize)

end Image

/-- The report of an image failure. -/
def ImageError.message : ImageError → String
  | access path cause => "cannot access image " ++ path ++ ": " ++ cause.message
  | tooSmall size =>
    "image is " ++ size.repr ++ " bytes, expected at least " ++ Image.byteSize.repr ++ " bytes"

/-- The short text that stands for an image in diagnostics. -/
def Image.summary (img : Image) : String :=
  "Image \x7b code_used: " ++ img.code.used.repr ++ ", data_used: " ++ img.data.used.repr ++ " \x7d"

end WordMachine

import SectionArchive.Error
import SectionArchive.Stream.Delivery
import SectionArchive.Xz.Encoding
/-!
Packing and unpacking, into a writer or into a buffer. A buffer for unpacking is bounded by the
expected size and remembers when it was offered more, which decides the error whatever the stream
does afterwards.
-/

namespace SectionArchive.Codec

def pack : Option Method → Bytes → Bytes
  | none, bs => bs
  | some .zlib, bs => Zlib.encode bs
  | some .xz, bs => Xz.encode bs

def forward {σ : Type} (d : Delivery) (w : Writer σ) : EStateM StreamFault σ Unit := fun s =>
  match w.writePieces d.pieces s with
  | .error f s => .error (.io f) s
  | .ok () s =>
    match d.failure with
    | some f => .error f s
    | none => .ok () s

/-- What a source delivers when packed: bytes as they come, or the whole packed form once the
source has ended. -/
def packed (method : Option Method) (source : Source) : Delivery :=
  match method, source.failure with
  | none, _ => .stored source
  | some _, some f => .ofBytes [] (some (.io f))
  | some _, none => .ofBytes (pack method source.data) none

def asError {σ : Type} (wrap : StreamFault → CodecError) (m : EStateM StreamFault σ Unit) :
    EStateM CodecError σ Unit := fun s =>
  match m s with
  | .ok () s => .ok () s
  | .error f s => .error (wrap f) s

def compressStream {σ : Type} (method : Option Method) (source : Source) (w : Writer σ) :
    EStateM CodecError σ Unit :=
  asError .compression (forward (packed method source) w)

def decompressStream {σ : Type} (method : Option Method) (source : Source) (w : Writer σ) :
    EStateM CodecError σ Unit :=
  asError .decompression (forward (.unpack method source) w)

def compress (method : Option Method) (bs : Bytes) : Except CodecError Bytes :=
  match compressStream method (.whole bs) Sink.write .unlimited with
  | .ok () s => .ok s.bytes
  | .error e _ => .error e

/-- A buffer that refuses to grow past its limit. -/
structure Buffer where
  limit : Nat
  bytes : Array UInt8 := #[]
  overflowed : Bool := false

def Buffer.write : Writer Buffer := fun data b =>
  if b.limit < b.bytes.size + data.length then .error .oversized { b with overflowed := true }
  else .ok data.length { b with bytes := b.bytes ++ data }

/-- Unpack a byte string that must come to exactly `expected` bytes. -/
def decompress (method : Option Method) (bs : Bytes) (expected : Nat) : Except CodecError Bytes :=
  let result := decompressStream method (.whole bs) Buffer.write { limit := expected }
  let (failure, b) := match result with
    | .ok () b => (none, b)
    | .error e b => (some e, b)
  if b.overflowed then .error (.sizeMismatch expected (expected + 1))
  else
    match failure with
    | some e => .error e
    | none =>
      if b.bytes.size ≠ expected then .error (.sizeMismatch expected b.bytes.size)
      else .ok b.bytes.toList

end SectionArchive.Codec

import SectionArchive.Section.Encoding
import SectionArchive.Storage
/-!
Payloads on storage. A payload is read whole and verified before it is handed out, or streamed into
a writer through a meter that counts, bounds and checksums what it forwards; then the verdict comes
when the bytes have already gone.
-/

namespace SectionArchive.Section

def onStorage {α : Type} (m : Storage.Action α) : EStateM Error Storage α := fun s =>
  match m s with
  | .ok a s => .ok a s
  | .error f s => .error (.io f) s

def readPacked (h : SectionHeader) : EStateM Error Storage Bytes := do
  onStorage (Storage.seek h.pointer.toNat)
  let packed ← onStorage (Storage.read h.csize.toNat)
  if packed.length ≠ h.csize.toNat then
    throw (.io (.truncatedPayload packed.length h.csize.toNat))
  return packed

def read (index : Nat) (h : SectionHeader) : EStateM Error Storage Bytes := do
  match decode index h (← readPacked h) with
  | .ok raw => return raw
  | .error e => throw e

/-- A writer that counts and checksums what it forwards, and forwards no more than a limit. -/
structure Meter (σ : Type) where
  inner : σ
  running : Checksum.Running
  count : Nat := 0
  limit : Nat

def Meter.write {σ : Type} (w : Writer σ) : Writer (Meter σ) := fun data m =>
  if m.limit < m.count + data.length then .error .oversized m
  else
    match w data m.inner with
    | .error f inner => .error f { m with inner }
    | .ok n inner =>
      .ok n { m with inner, running := m.running.push (data.take n), count := m.count + n }

def locate (h : SectionHeader) : EStateM Error Storage Source := do
  let available ← onStorage Storage.seekEnd
  if available < h.stop.toNat then
    throw (.io (.truncatedPayload (available - h.pointer.toNat) h.csize.toNat))
  onStorage (Storage.seek h.pointer.toNat)
  fun s =>
    match Storage.read h.csize.toNat s with
    | .ok packed s => .ok (.buffered packed) s
    | .error f s => .ok { data := [], slice := Source.defaultSlice, failure := some f } s

def forward {σ : Type} (index : Nat) (h : SectionHeader) (method : Option Method)
    (kind : Checksum.Kind) (source : Source) (w : Writer σ) : EStateM Error σ Nat := fun inner =>
  match Codec.decompressStream method source (Meter.write w)
    { inner, running := kind.start, limit := h.size.toNat } with
  | .error e m => .error (.ofCodec e) m.inner
  | .ok () m =>
    if m.count ≠ h.size.toNat then
      .error (.ofCodec (.sizeMismatch h.size.toNat m.count)) m.inner
    else
      match check index kind h.checksum m.running.finish with
      | .error e => .error e m.inner
      | .ok () => .ok m.count m.inner

def stream {σ : Type} (index : Nat) (h : SectionHeader) (w : Writer σ) :
    EStateM Error (Storage × σ) Nat := fun (storage, sink) =>
  match h.selection index with
  | .error e => .error e (storage, sink)
  | .ok (method, kind) =>
    match locate h storage with
    | .error e storage => .error e (storage, sink)
    | .ok source storage =>
      match forward index h method kind source w sink with
      | .error e sink => .error e (storage, sink)
      | .ok n sink => .ok n (storage, sink)

end SectionArchive.Section

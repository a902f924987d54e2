import SectionArchive.Lzma.Packet
import SectionArchive.Lzma.RangeDecoder
/-!
Chunked LZMA data. Each chunk starts with a control byte that says whether it is packed, how much
of the coder's memory it forgets, and how long it is; a zero byte ends the data.
-/

namespace SectionArchive.Lzma

/-- The part of the output that copies may reach into. -/
structure Dictionary where
  /-- Where in the output it starts. -/
  origin : Nat
  /-- How far back copies may reach. -/
  window : Nat

namespace Dictionary

def position (d : Dictionary) (out : Array UInt8) : Nat := out.size - d.origin

def back (d : Dictionary) (out : Array UInt8) (distance : Nat) : UInt8 :=
  if distance ≤ d.position out then out.getD (out.size - distance) 0 else 0

def reaches (d : Dictionary) (out : Array UInt8) (distance : Nat) : Bool :=
  distance ≤ min (d.position out) d.window

def context (d : Dictionary) (settings : Settings) (history : History) (out : Array UInt8) :
    Context where
  settings
  history
  position := d.position out
  previous := d.back out 1
  matched := d.back out history.rep0

end Dictionary

structure PacketRun where
  decoder : RangeDecoder
  history : History
  out : Array UInt8
  /-- Why the end of the chunk was not reached, if it was not. -/
  stop : Option Stop

/-- Read packets until the output reaches `stop`. A copy that would go past it is corrupt, and is
made as far as the end of the chunk. -/
def takePackets (dictionary : Dictionary) (settings : Settings) (stop : Nat) :
    (fuel : Nat) → RangeDecoder → History → Array UInt8 → PacketRun
  | 0, r, history, out => ⟨r, history, out, some .starved⟩
  | fuel + 1, r, history, out =>
    if stop ≤ out.size then ⟨r, history, out, none⟩
    else
      match RangeDecoder.run (Packet.program (dictionary.context settings history out)) r with
      | .error e r => ⟨r, history, out, some e⟩
      | .ok packet r =>
        match packet, history.step packet with
        | .literal b, (_, history) =>
          takePackets dictionary settings stop fuel r history (out.push b)
        | _, (none, history) => ⟨r, history, out, some .corrupt⟩
        | _, (some (length, distance), history) =>
          if !dictionary.reaches out distance then ⟨r, history, out, some .corrupt⟩
          else
            let room := stop - out.size
            if room < length then
              ⟨r, history, Lz77.copyFrom distance room out, some .corrupt⟩
            else
              takePackets dictionary settings stop fuel r history
                (Lz77.copyFrom distance length out)

structure Unpacker where
  input : Bytes
  taken : Nat := 0
  settings : Settings := .usual
  history : History := {}
  probs : Array Nat := #[]
  out : Array UInt8 := #[]
  dictionary : Dictionary
  /-- Whether the dictionary must be reset before anything else. -/
  needsReset : Bool := true
  /-- Whether settings must come before packed data. -/
  needsSettings : Bool := true

abbrev Unpack := EStateM Stop Unpacker

namespace Unpacker

def start (input : Bytes) (window : Nat) : Unpacker where
  input
  dictionary := { origin := 0, window }

def takeByte : Unpack UInt8 := fun s =>
  match s.input with
  | [] => .error .starved s
  | b :: rest => .ok b { s with input := rest, taken := s.taken + 1 }

def takeStored : (n : Nat) → Unpack Unit
  | 0 => pure ()
  | n + 1 => do
    let b ← takeByte
    modify fun s => { s with out := s.out.push b }
    takeStored n

def takeSize : Unpack Nat := do
  let high ← takeByte
  let low ← takeByte
  return high.toNat * 256 + low.toNat + 1

def resetState : Unpack Unit :=
  modify fun s => { s with
    history := {}
    probs := Array.replicate (Slot.count s.settings) evenOdds }

def takeSettings : Unpack Unit := do
  match Settings.ofByte? (← takeByte) with
  | none => throw .corrupt
  | some settings => modify fun s => { s with settings, needsSettings := false }

def takePacked (size packed : Nat) : Unpack Unit := fun s =>
  let fresh : RangeDecoder :=
    { input := s.input, taken := s.taken, budget := packed, range := 0, code := 0, probs := s.probs }
  match RangeDecoder.start fresh with
  | .error e r => .error e { s with input := r.input, taken := r.taken }
  | .ok _ r =>
    let run := takePackets s.dictionary s.settings (s.out.size + size) (size + 1) r s.history s.out
    let s := { s with history := run.history, out := run.out }
    match run.stop with
    | some e => .error e { s with input := run.decoder.input, taken := run.decoder.taken }
    | none =>
      match RangeDecoder.finish run.decoder with
      | .error e r => .error e { s with input := r.input, taken := r.taken }
      | .ok _ r => .ok () { s with input := r.input, taken := r.taken, probs := r.probs }

def packedChunk (control : Nat) : Unpack Unit := do
  if control < 0xC0 ∧ (← get).needsSettings then throw .corrupt
  let size := (control % 32) * 65536 + (← takeSize)
  let packed ← takeSize
  if 0xC0 ≤ control then takeSettings
  if 0xA0 ≤ control then resetState
  takePacked size packed

def resetDictionary (control : Nat) : Unpack Unit := do
  if 0xE0 ≤ control ∨ control = 1 then
    modify fun s => { s with
      dictionary := { s.dictionary with origin := s.out.size }
      needsReset := false
      needsSettings := true }
  else if (← get).needsReset then throw .corrupt

def takeChunks : (fuel : Nat) → Unpack Unit
  | 0 => throw .starved
  | fuel + 1 => do
    let control := (← takeByte).toNat
    if control = 0 then pure ()
    else
      resetDictionary control
      if 0x80 ≤ control then packedChunk control
      else if control ≤ 2 then
        let size ← takeSize
        takeStored size
      else throw .corrupt
      takeChunks fuel

end Unpacker

end SectionArchive.Lzma

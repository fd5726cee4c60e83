import Ostinato.Midi.Message
import Ostinato.Text.Encoding

/-!
# MIDI files as bytes

A file is a header chunk and a chunk for each track. Numbers are big-endian; distances and lengths
are quantities of as many seven-bit groups as they need. A channel message whose status byte is that
of the message before it leaves it out; any other message ends such a run.
-/

namespace Ostinato.Midi

/-- The lowest `count` bytes of a number, the most significant one first. -/
def bigEndian : Nat → Nat → List UInt8
  | 0, _ => []
  | count + 1, n => bigEndian count (n / 256) ++ [UInt8.ofNat n]

/-- The groups of a quantity in front of its last one. -/
def quantityHead (n : Nat) : List UInt8 :=
  if _ : n = 0 then []
  else quantityHead (n / 128) ++ [UInt8.ofNat (128 + n % 128)]
termination_by n
decreasing_by omega

/-- A quantity: groups of seven bits, of which all but the last have their high bit set. -/
def quantity (n : Nat) : List UInt8 := quantityHead (n / 128) ++ [UInt8.ofNat (n % 128)]

/-- A byte of a message. -/
def byte (i : Int) : UInt8 := UInt8.ofNat i.toNat

/-- A message that is no channel message: its number, the length of its data and its data. -/
def metaBytes (number : UInt8) (data : List UInt8) : List UInt8 :=
  0xff :: number :: quantity data.length ++ data

/-- A message in bytes: a status byte that following messages may share, if it has one, and the
rest. -/
def Message.bytes : Message → Option UInt8 × List UInt8
  | trackName text => (none, metaBytes 0x03 (Text.latinBytes text))
  | setTempo n => (none, metaBytes 0x51 (bigEndian 3 n.toNat))
  | endOfTrack => (none, metaBytes 0x2f [])
  | noteOff c n v => (some (0x80 + byte c), [byte n, byte v])
  | noteOn c n v => (some (0x90 + byte c), [byte n, byte v])
  | programChange c p => (some (0xc0 + byte c), [byte p])

/-- Why a file has no bytes. -/
inductive WriteFault
  /-- A number of the header does not fit into sixteen bits. -/
  | header
  /-- A message stands before the one before it. -/
  | negativeDelta
  deriving DecidableEq, Repr

/-- What is wrong when a file has no bytes. -/
def WriteFault.message : WriteFault → String
  | header => "a number does not fit into the file header"
  | negativeDelta => "message time must be non-negative in MIDI file"

/-- The messages of a track, after a running status. -/
def messageBytes (running : Option UInt8) : List Timed → Except WriteFault (List UInt8)
  | [] => .ok []
  | ⟨delta, message⟩ :: rest =>
    if delta < 0 then .error .negativeDelta
    else
      let (status, body) := message.bytes
      let shown := if status = running then [] else status.toList
      match messageBytes status rest with
      | .error fault => .error fault
      | .ok more => .ok (quantity delta.toNat ++ shown ++ body ++ more)

/-- A chunk: its name, the length of its body and its body. -/
def chunk (name : String) (body : List UInt8) : List UInt8 :=
  Text.latinBytes name ++ bigEndian 4 body.length ++ body

/-- The chunk of a track. -/
def trackChunk (messages : List Timed) : Except WriteFault (List UInt8) :=
  match messageBytes none messages with
  | .error fault => .error fault
  | .ok body => .ok (chunk "MTrk" body)

/-- A signed integer of sixteen bits. -/
def word (i : Int) : Except WriteFault (List UInt8) :=
  if i < -0x8000 ∨ 0x7fff < i then .error .header
  else .ok (bigEndian 2 (i % 0x10000).toNat)

/-- The header chunk of a file. -/
def headerChunk (f : File) : Except WriteFault (List UInt8) :=
  match word simultaneous, word f.tracks.length, word f.ticksPerBeat with
  | .ok format, .ok count, .ok resolution => .ok (chunk "MThd" (format ++ count ++ resolution))
  | _, _, _ => .error .header

/-- Writes chunks after what is written already: the bytes, and the fault that ended the writing. A
chunk is written whole or not at all. -/
def writeChunks : List UInt8 → List (Except WriteFault (List UInt8)) →
    List UInt8 × Option WriteFault
  | written, [] => (written, none)
  | written, .error fault :: _ => (written, some fault)
  | written, .ok bytes :: rest => writeChunks (written ++ bytes) rest

/-- What writing a file leaves: the bytes, and the fault that ended the writing. -/
def File.write (f : File) : List UInt8 × Option WriteFault :=
  writeChunks [] (headerChunk f :: f.tracks.map trackChunk)

/-- The bytes of a file. -/
def File.bytes (f : File) : Except WriteFault (List UInt8) :=
  match f.write with
  | (bytes, none) => .ok bytes
  | (_, some fault) => .error fault

end Ostinato.Midi

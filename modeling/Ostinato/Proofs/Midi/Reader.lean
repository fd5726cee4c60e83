import Mathlib.Data.Nat.Basic
import Mathlib.Order.Basic
import Ostinato.Midi.Message

/-!
# Reading MIDI files

A reader for standard MIDI files. It knows the format and nothing of how files are written here:
chunks go by the lengths that they state, quantities may have any number of bytes, and a channel
message without a status byte has the running one. First bytes become chunks and events
(`readChunks`, `readEvents`), then events become messages (`Message.ofEvent?`). Every byte must have
its place; whatever is cut off or left over makes the reader fail.
-/

namespace Ostinato.Midi

/-! ## Numbers -/

/-- The number that big-endian bytes spell. -/
def ofBigEndian (bytes : List UInt8) : Nat := bytes.foldl (fun n b => n * 256 + b.toNat) 0

/-- The first bytes, and those behind them. -/
def cut? (count : Nat) (bytes : List UInt8) : Option (List UInt8 × List UInt8) :=
  if count ≤ bytes.length then some (bytes.take count, bytes.drop count) else none

/-- A quantity whose first groups are read already. A byte with its high bit set is not the last. -/
def readQuantity (n : Nat) : List UInt8 → Option (Nat × List UInt8)
  | [] => none
  | b :: rest =>
    if b < 0x80 then some (n * 128 + b.toNat, rest)
    else readQuantity (n * 128 + (b.toNat - 128)) rest

/-- Data behind a quantity that says how long they are. -/
def readSized (bytes : List UInt8) : Option (List UInt8 × List UInt8) :=
  match readQuantity 0 bytes with
  | none => none
  | some (size, rest) => cut? size rest

/-! ## Events -/

/-- What can stand in a track. -/
inductive Event
  /-- A channel message. -/
  | voice (status : UInt8) (data : List UInt8)
  /-- A message about the file, with its number. -/
  | notice (number : UInt8) (data : List UInt8)
  /-- A message for devices of one kind. -/
  | exclusive (status : UInt8) (data : List UInt8)
  deriving DecidableEq, Repr

/-- The number of data bytes of a channel message. -/
def dataSize (status : UInt8) : Nat :=
  if status.toNat / 16 = 0xc ∨ status.toNat / 16 = 0xd then 1 else 2

/-- The data of a channel message, none of which has its high bit set. -/
def readVoice (status : UInt8) (bytes : List UInt8) : Option (Event × List UInt8) :=
  match cut? (dataSize status) bytes with
  | none => none
  | some (data, rest) =>
    if data.all fun b => decide (b < 0x80) then some (.voice status data, rest) else none

/-- An event after a running status, the running status after it, and the bytes behind it. Only
channel messages leave a running status. -/
def readEvent (running : Option UInt8) : List UInt8 → Option (Event × Option UInt8 × List UInt8)
  | [] => none
  | b :: rest =>
    if b < 0x80 then
      match running with
      | none => none
      | some status => (readVoice status (b :: rest)).map fun r => (r.1, some status, r.2)
    else if b < 0xf0 then (readVoice b rest).map fun r => (r.1, some b, r.2)
    else if b = 0xff then
      match rest with
      | [] => none
      | number :: rest => (readSized rest).map fun r => (.notice number r.1, none, r.2)
    else if b = 0xf0 ∨ b = 0xf7 then
      (readSized rest).map fun r => (.exclusive b r.1, none, r.2)
    else none

/-- An event with its distance from the one before it. -/
def readTimed (running : Option UInt8) (bytes : List UInt8) :
    Option ((Nat × Event) × Option UInt8 × List UInt8) :=
  match readQuantity 0 bytes with
  | none => none
  | some (delta, rest) =>
    (readEvent running rest).map fun r => ((delta, r.1), r.2.1, r.2.2)

section Progress

variable {bytes rest data : List UInt8} {running running' : Option UInt8}

/-- What is left by a cut is no longer than all. -/
theorem length_le_of_cut? {count : Nat} (h : cut? count bytes = some (data, rest)) :
    rest.length ≤ bytes.length := by
  rw [cut?] at h
  split at h
  · cases h
    rw [List.length_drop]
    omega
  · cases h

/-- A quantity takes at least a byte. -/
theorem length_lt_of_readQuantity {n m : Nat} (h : readQuantity n bytes = some (m, rest)) :
    rest.length < bytes.length := by
  induction bytes generalizing n with
  | nil => cases h
  | cons b bytes ih =>
    rw [readQuantity] at h
    split at h
    · cases h
      exact Nat.lt_succ_self _
    · exact (ih h).trans (Nat.lt_succ_self _)

/-- What is left by a sized piece is no longer than all. -/
theorem length_le_of_readSized (h : readSized bytes = some (data, rest)) :
    rest.length ≤ bytes.length := by
  rw [readSized] at h
  split at h
  next => cases h
  next size rest' hsize =>
    exact (length_le_of_cut? h).trans (length_lt_of_readQuantity hsize).le

/-- What is left by a voice event is no longer than all. -/
theorem length_le_of_readVoice {status : UInt8} {event : Event}
    (h : readVoice status bytes = some (event, rest)) : rest.length ≤ bytes.length := by
  rw [readVoice] at h
  split at h
  next => cases h
  next data rest' hcut =>
    split at h
    · cases h
      exact length_le_of_cut? hcut
    · cases h

/-- What is left by an event is no longer than all. -/
theorem length_le_of_readEvent {event : Event}
    (h : readEvent running bytes = some (event, running', rest)) : rest.length ≤ bytes.length := by
  cases bytes with
  | nil => cases h
  | cons b bytes =>
    have hstep : bytes.length ≤ (b :: bytes).length := Nat.le_succ _
    simp only [readEvent] at h
    split at h
    next =>
      -- without a status byte
      split at h
      next => cases h
      next status =>
        obtain ⟨r, hr, heq⟩ := Option.map_eq_some_iff.mp h
        cases heq
        exact length_le_of_readVoice hr
    next =>
      split at h
      next =>
        obtain ⟨r, hr, heq⟩ := Option.map_eq_some_iff.mp h
        cases heq
        exact (length_le_of_readVoice hr).trans hstep
      next =>
        split at h
        next =>
          split at h
          next => cases h
          next number bytes =>
            obtain ⟨r, hr, heq⟩ := Option.map_eq_some_iff.mp h
            cases heq
            exact ((length_le_of_readSized hr).trans (Nat.le_succ _)).trans hstep
        next =>
          split at h
          next =>
            obtain ⟨r, hr, heq⟩ := Option.map_eq_some_iff.mp h
            cases heq
            exact (length_le_of_readSized hr).trans hstep
          next => cases h

/-- Every event takes at least the byte of its distance. -/
theorem length_lt_of_readTimed {event : Nat × Event}
    (h : readTimed running bytes = some (event, running', rest)) : rest.length < bytes.length := by
  rw [readTimed] at h
  split at h
  next => cases h
  next delta rest' hdelta =>
    obtain ⟨r, hr, heq⟩ := Option.map_eq_some_iff.mp h
    cases heq
    exact (length_le_of_readEvent hr).trans_lt (length_lt_of_readQuantity hdelta)

end Progress

/-- All the events of a track with their distances, after a running status. -/
def readEvents (running : Option UInt8) (bytes : List UInt8) : Option (List (Nat × Event)) :=
  if bytes = [] then some []
  else
    match _h : readTimed running bytes with
    | none => none
    | some (event, running, rest) => (readEvents running rest).map (event :: ·)
termination_by bytes.length
decreasing_by exact length_lt_of_readTimed ‹_›

/-- No bytes are no events. -/
@[simp]
theorem readEvents_nil (running : Option UInt8) : readEvents running [] = some [] := by
  rw [readEvents, if_pos rfl]

/-- One event after the other: the rest is read with the running status that the first one
leaves. -/
theorem readEvents_of_readTimed {running running' : Option UInt8} {bytes rest : List UInt8}
    {event : Nat × Event} (h : readTimed running bytes = some (event, running', rest)) :
    readEvents running bytes = (readEvents running' rest).map (event :: ·) := by
  have hne : bytes ≠ [] := by
    intro hnil
    rw [hnil] at h
    cases h
  rw [readEvents, if_neg hne]
  split
  next hnone =>
    rw [h] at hnone
    cases hnone
  next event' status rest' hsome =>
    rw [h] at hsome
    cases hsome
    rfl

/-! ## Messages -/

/-- The text of Latin-1 bytes. -/
def ofLatin (bytes : List UInt8) : String := String.ofList (bytes.map fun b => Char.ofNat b.toNat)

/-- The message that an event is. -/
def Message.ofEvent? : Event → Option Message
  | .notice number data =>
    if number = 0x03 then some (.trackName (ofLatin data))
    else if number = 0x51 ∧ data.length = 3 then some (.setTempo (ofBigEndian data))
    else if number = 0x2f ∧ data = [] then some .endOfTrack
    else none
  | .voice status data =>
    let channel : Nat := status.toNat % 16
    match status.toNat / 16, data with
    | 0x8, [note, velocity] => some (.noteOff channel note.toNat velocity.toNat)
    | 0x9, [note, velocity] => some (.noteOn channel note.toNat velocity.toNat)
    | 0xc, [program] => some (.programChange channel program.toNat)
    | _, _ => none
  | .exclusive _ _ => none

/-- The messages of the body of a track chunk. -/
def readTrack (body : List UInt8) : Option (List Timed) :=
  match readEvents none body with
  | none => none
  | some events => events.mapM fun e => (Message.ofEvent? e.2).map (Timed.mk e.1)

/-! ## Chunks -/

/-- A chunk. -/
structure Chunk where
  name : List UInt8
  body : List UInt8
  deriving DecidableEq, Repr

/-- A chunk and the bytes behind it: four bytes of name, four of length, and the body. -/
def readChunk (bytes : List UInt8) : Option (Chunk × List UInt8) :=
  match cut? 4 bytes with
  | none => none
  | some (name, rest) =>
    match cut? 4 rest with
    | none => none
    | some (size, rest) => (cut? (ofBigEndian size) rest).map fun r => (⟨name, r.1⟩, r.2)

/-- A chunk takes at least a byte. -/
theorem length_lt_of_readChunk {bytes rest : List UInt8} {c : Chunk}
    (h : readChunk bytes = some (c, rest)) : rest.length < bytes.length := by
  rw [readChunk] at h
  split at h
  next => cases h
  next name rest₁ hname =>
    split at h
    next => cases h
    next size rest₂ hsize =>
      obtain ⟨r, hr, heq⟩ := Option.map_eq_some_iff.mp h
      cases heq
      have hfirst : rest₁.length < bytes.length := by
        rw [cut?] at hname
        split at hname
        · cases hname
          rw [List.length_drop]
          omega
        · cases hname
      exact ((length_le_of_cut? hr).trans (length_le_of_cut? hsize)).trans_lt hfirst

/-- The chunks of a file. -/
def readChunks (bytes : List UInt8) : Option (List Chunk) :=
  if bytes = [] then some []
  else
    match _h : readChunk bytes with
    | none => none
    | some (chunk, rest) => (readChunks rest).map (chunk :: ·)
termination_by bytes.length
decreasing_by exact length_lt_of_readChunk ‹_›

/-- No bytes are no chunks. -/
@[simp]
theorem readChunks_nil : readChunks [] = some [] := by
  rw [readChunks, if_pos rfl]

/-- Chunks are read one after the other. -/
theorem readChunks_of_readChunk {bytes rest : List UInt8} {c : Chunk}
    (h : readChunk bytes = some (c, rest)) :
    readChunks bytes = (readChunks rest).map (c :: ·) := by
  have hne : bytes ≠ [] := by
    intro hnil
    rw [hnil] at h
    cases h
  rw [readChunks, if_neg hne]
  split
  next hnone =>
    rw [h] at hnone
    cases hnone
  next c' rest' hsome =>
    rw [h] at hsome
    cases hsome
    rfl

/-! ## Files -/

/-- What a file says: the numbers of its header, and its tracks. -/
structure Contents where
  format : Nat
  trackCount : Nat
  ticksPerBeat : Nat
  tracks : List (List Timed)
  deriving DecidableEq, Repr

/-- The name of the header chunk, `MThd`. -/
def headerChunkName : List UInt8 := [0x4d, 0x54, 0x68, 0x64]

/-- The name of a track chunk, `MTrk`. -/
def trackChunkName : List UInt8 := [0x4d, 0x54, 0x72, 0x6b]

/-- Reads a file: the header chunk comes first, and every other chunk is that of a track. With its
high bit set the resolution would not be one in ticks per beat. -/
def readFile (bytes : List UInt8) : Option Contents :=
  match readChunks bytes with
  | some (⟨name, [a, b, c, d, e, f]⟩ :: chunks) =>
    if name = headerChunkName ∧ e < 0x80 ∧
        chunks.all fun chunk => decide (chunk.name = trackChunkName) then
      (chunks.mapM fun chunk => readTrack chunk.body).map
        (Contents.mk (ofBigEndian [a, b]) (ofBigEndian [c, d]) (ofBigEndian [e, f]))
    else none
  | _ => none

end Ostinato.Midi

import Mathlib.Algebra.Order.Group.Nat
import Ostinato.Midi.Bytes
import Ostinato.Proofs.Midi.Reader
import Ostinato.Score.Basic

/-!
# Tracks read back

Reading the bytes of a track gives its messages. The proof goes up through the layers of the format:
numbers, events, messages, and the whole track. Each layer is shown with arbitrary bytes behind it,
so that the next one can put it in front of something else.
-/

namespace Ostinato.Midi

/-! ## Numbers -/

/-- A number is written with as many bytes as are asked for. -/
theorem length_bigEndian (count n : Nat) : (bigEndian count n).length = count := by
  induction count generalizing n with
  | zero => rfl
  | succ count ih => simp [bigEndian, ih]

/-- A number that fits its bytes is read back from them. -/
theorem ofBigEndian_bigEndian {count n : Nat} (h : n < 256 ^ count) :
    ofBigEndian (bigEndian count n) = n := by
  induction count generalizing n with
  | zero =>
    have hzero : n = 0 := by omega
    rw [hzero]
    rfl
  | succ count ih =>
    have hhead : n / 256 < 256 ^ count := by
      rw [Nat.pow_succ] at h
      omega
    have hsplit : ofBigEndian (bigEndian (count + 1) n)
        = ofBigEndian (bigEndian count (n / 256)) * 256 + (UInt8.ofNat n).toNat := by
      simp [ofBigEndian, bigEndian, List.foldl_append]
    rw [hsplit, ih hhead, UInt8.toNat_ofNat']
    omega

/-- A cut gives back the bytes in front of the others. -/
theorem cut?_append (data rest : List UInt8) :
    cut? data.length (data ++ rest) = some (data, rest) := by
  rw [cut?, if_pos (by simp), List.take_left, List.drop_left]

/-- The groups in front of the last one are read as the number that they spell. -/
theorem readQuantity_quantityHead (n : Nat) (rest : List UInt8) :
    readQuantity 0 (quantityHead n ++ rest) = readQuantity n rest := by
  induction n using quantityHead.induct generalizing rest with
  | case1 => simp [quantityHead]
  | case2 n hn ih =>
    have hbyte : (UInt8.ofNat (128 + n % 128)).toNat = 128 + n % 128 := by
      rw [UInt8.toNat_ofNat']
      omega
    have hhigh : ¬ UInt8.ofNat (128 + n % 128) < 0x80 := by
      rw [UInt8.lt_iff_toNat_lt, hbyte]
      simp
    have hvalue : n / 128 * 128 + (128 + n % 128 - 128) = n := by omega
    rw [quantityHead, dif_neg hn, List.append_assoc, ih, List.singleton_append, readQuantity,
      if_neg hhigh, hbyte, hvalue]

/-- A quantity is read back, whatever stands behind it. -/
theorem readQuantity_quantity (n : Nat) (rest : List UInt8) :
    readQuantity 0 (quantity n ++ rest) = some (n, rest) := by
  have hbyte : (UInt8.ofNat (n % 128)).toNat = n % 128 := by
    rw [UInt8.toNat_ofNat']
    omega
  have hlow : UInt8.ofNat (n % 128) < 0x80 := by
    rw [UInt8.lt_iff_toNat_lt, hbyte]
    exact Nat.mod_lt n (by decide)
  have hvalue : n / 128 * 128 + n % 128 = n := by omega
  rw [quantity, List.append_assoc, readQuantity_quantityHead, List.singleton_append, readQuantity,
    if_pos hlow, hbyte, hvalue]

/-- A sized piece is read back, whatever stands behind it. -/
theorem readSized_append (data rest : List UInt8) :
    readSized (quantity data.length ++ data ++ rest) = some (data, rest) := by
  rw [readSized, List.append_assoc, readQuantity_quantity]
  exact cut?_append data rest

/-! ## Events -/

/-- An event whose status byte and data are what the format allows. -/
def Event.Allowed : Event → Prop
  | voice status data =>
    0x80 ≤ status ∧ status < 0xf0 ∧ data.length = dataSize status ∧ ∀ b ∈ data, b < 0x80
  | notice _ _ => True
  | exclusive status _ => status = 0xf0 ∨ status = 0xf7

/-- An event in bytes: a status byte that following events may share, if it has one, and the
rest. -/
def Event.bytes : Event → Option UInt8 × List UInt8
  | voice status data => (some status, data)
  | notice number data => (none, 0xff :: number :: quantity data.length ++ data)
  | exclusive status data => (none, status :: quantity data.length ++ data)

/-- The data of a voice event are read back, whatever stands behind them. -/
theorem readVoice_append {status : UInt8} {data : List UInt8}
    (hsize : data.length = dataSize status) (hdata : ∀ b ∈ data, b < 0x80) (rest : List UInt8) :
    readVoice status (data ++ rest) = some (.voice status data, rest) := by
  have hall : (data.all fun b => decide (b < 0x80)) = true :=
    List.all_eq_true.mpr fun b hb => decide_eq_true (hdata b hb)
  rw [readVoice, ← hsize, cut?_append]
  dsimp only
  rw [if_pos hall]

/-- Without a status byte the running status holds. -/
theorem readEvent_running {b : UInt8} (h : b < 0x80) (status : UInt8) (rest : List UInt8) :
    readEvent (some status) (b :: rest)
      = (readVoice status (b :: rest)).map fun r => (r.1, some status, r.2) := by
  simp only [readEvent, if_pos h]

/-- A voice event with its status is read by that status, which runs on. -/
theorem readEvent_status {status : UInt8} (hhigh : 0x80 ≤ status) (hlow : status < 0xf0)
    (running : Option UInt8) (rest : List UInt8) :
    readEvent running (status :: rest)
      = (readVoice status rest).map fun r => (r.1, some status, r.2) := by
  have hstatus : ¬ status < 0x80 := UInt8.not_lt.mpr hhigh
  simp only [readEvent, if_neg hstatus, if_pos hlow]

/-- A notice is read by its number, and no status runs on. -/
theorem readEvent_notice (running : Option UInt8) (number : UInt8) (rest : List UInt8) :
    readEvent running (0xff :: number :: rest)
      = (readSized rest).map fun r => (.notice number r.1, none, r.2) :=
  rfl

/-- A system exclusive event is read by its status, which does not run on. -/
theorem readEvent_exclusive {status : UInt8} (h : status = 0xf0 ∨ status = 0xf7)
    (running : Option UInt8) (rest : List UInt8) :
    readEvent running (status :: rest)
      = (readSized rest).map fun r => (.exclusive status r.1, none, r.2) := by
  rcases h with rfl | rfl <;> rfl

/-- The status byte of an event, if it must be there after a running status. -/
def Event.shown (running : Option UInt8) (event : Event) : List UInt8 :=
  if event.bytes.1 = running then [] else event.bytes.1.toList

/-- An event is read whether or not its status byte was left out. -/
theorem readEvent_append {event : Event} (h : event.Allowed) (running : Option UInt8)
    (rest : List UInt8) :
    readEvent running (event.shown running ++ event.bytes.2 ++ rest)
      = some (event, event.bytes.1, rest) := by
  cases event with
  | voice status data =>
    obtain ⟨hhigh, hlow, hsize, hdata⟩ := h
    have hread := readVoice_append hsize hdata rest
    by_cases hrunning : some status = running
    · -- the first data byte shows that the status byte is missing
      subst hrunning
      have hshown : Event.shown (some status) (.voice status data) = [] := if_pos rfl
      cases data with
      | nil =>
        rw [dataSize] at hsize
        split at hsize <;> cases hsize
      | cons b data =>
        rw [hshown, List.nil_append, Event.bytes, List.cons_append,
          readEvent_running (hdata b List.mem_cons_self), ← List.cons_append, hread]
        rfl
    · have hshown : Event.shown running (.voice status data) = [status] := if_neg hrunning
      rw [hshown, Event.bytes, List.append_assoc, List.singleton_append,
        readEvent_status hhigh hlow, hread]
      rfl
  | notice number data =>
    have hshown : Event.shown running (.notice number data) = [] := ite_self _
    rw [hshown, List.nil_append, Event.bytes, List.cons_append, List.cons_append, List.cons_append,
      List.cons_append, readEvent_notice, readSized_append]
    rfl
  | exclusive status data =>
    have hshown : Event.shown running (.exclusive status data) = [] := ite_self _
    rw [hshown, List.nil_append, Event.bytes, List.cons_append, List.cons_append,
      readEvent_exclusive h, readSized_append]
    rfl

/-! ## Messages -/

/-- The event that a message is. -/
def Message.event : Message → Event
  | trackName text => .notice 0x03 (Text.latinBytes text)
  | setTempo n => .notice 0x51 (bigEndian 3 n.toNat)
  | endOfTrack => .notice 0x2f []
  | noteOff c n v => .voice (0x80 + byte c) [byte n, byte v]
  | noteOn c n v => .voice (0x90 + byte c) [byte n, byte v]
  | programChange c p => .voice (0xc0 + byte c) [byte p]

/-- A message is written as its event. -/
theorem Message.bytes_eq (m : Message) : m.bytes = m.event.bytes := by
  cases m <;> rfl

/-- A number for a channel. -/
def IsChannel (c : Int) : Prop := 0 ≤ c ∧ c ≤ maxChannel

/-- A number for a data byte. -/
def IsData (n : Int) : Prop := 0 ≤ n ∧ n ≤ maxData

/-- A message whose numbers and characters have room in their bytes. -/
def Message.Fits : Message → Prop
  | trackName text => ∀ c ∈ text.toList, c.toNat ≤ 0xff
  | setTempo n => 0 ≤ n ∧ n ≤ 0xffffff
  | endOfTrack => True
  | noteOff c n v => IsChannel c ∧ IsData n ∧ IsData v
  | noteOn c n v => IsChannel c ∧ IsData n ∧ IsData v
  | programChange c p => IsChannel c ∧ IsData p

/-- A data number is its byte. -/
theorem IsData.toNat_byte {n : Int} (h : IsData n) : ((byte n).toNat : Int) = n := by
  obtain ⟨hnonneg, hle⟩ := h
  rw [maxData] at hle
  rw [byte, UInt8.toNat_ofNat']
  omega

/-- The byte of a data number has no high bit. -/
theorem IsData.byte_lt {n : Int} (h : IsData n) : byte n < 0x80 := by
  have hbyte := h.toNat_byte
  obtain ⟨hnonneg, hle⟩ := h
  rw [maxData] at hle
  have hlt : (byte n).toNat < 0x80 := by omega
  exact UInt8.lt_iff_toNat_lt.mpr hlt

/-- The kind of a channel message and its channel are the two halves of its status byte. -/
theorem IsChannel.halves {c : Int} (h : IsChannel c) {kind : UInt8} (hkind : kind.toNat % 16 = 0) :
    (kind + byte c).toNat / 16 = kind.toNat / 16 ∧
      (((kind + byte c).toNat % 16 : Nat) : Int) = c := by
  obtain ⟨hnonneg, hle⟩ := h
  rw [maxChannel] at hle
  have hlt := kind.toNat_lt
  rw [UInt8.toNat_add, byte, UInt8.toNat_ofNat']
  omega

/-- A voice event of a channel is allowed with data of its size. -/
theorem allowed_voice {c : Int} (h : IsChannel c) {kind : UInt8} (hkind : kind.toNat % 16 = 0)
    (hhigh : 0x80 ≤ kind.toNat) (hlow : kind.toNat < 0xf0) {data : List UInt8}
    (hsize : data.length = dataSize kind) (hdata : ∀ b ∈ data, b < 0x80) :
    (Event.voice (kind + byte c) data).Allowed := by
  obtain ⟨hhalf, -⟩ := h.halves hkind
  have hhigh' : 0x80 ≤ (kind + byte c).toNat := by omega
  have hlow' : (kind + byte c).toNat < 0xf0 := by omega
  refine ⟨UInt8.le_iff_toNat_le.mpr hhigh', UInt8.lt_iff_toNat_lt.mpr hlow', ?_, hdata⟩
  rw [dataSize, hhalf, hsize]
  rfl

/-- A message that fits is an allowed event. -/
theorem allowed_event {m : Message} (h : m.Fits) : m.event.Allowed := by
  have hpair : ∀ {n v : Int}, IsData n → IsData v → ∀ b ∈ [byte n, byte v], b < 0x80 := by
    intro n v hn hv b hb
    rcases List.mem_cons.mp hb with rfl | hb
    · exact hn.byte_lt
    · rw [List.mem_singleton.mp hb]
      exact hv.byte_lt
  cases m with
  | trackName text => trivial
  | setTempo n => trivial
  | endOfTrack => trivial
  | noteOff c n v =>
    obtain ⟨hc, hn, hv⟩ := h
    exact allowed_voice hc (by decide) (by decide) (by decide) rfl (hpair hn hv)
  | noteOn c n v =>
    obtain ⟨hc, hn, hv⟩ := h
    exact allowed_voice hc (by decide) (by decide) (by decide) rfl (hpair hn hv)
  | programChange c p =>
    obtain ⟨hc, hp⟩ := h
    refine allowed_voice hc (by decide) (by decide) (by decide) rfl fun b hb => ?_
    rw [List.mem_singleton.mp hb]
    exact hp.byte_lt

/-- What fits into Latin-1 is read as it was. -/
theorem ofLatin_latinBytes {text : String} (h : ∀ c ∈ text.toList, c.toNat ≤ 0xff) :
    ofLatin (Text.latinBytes text) = text := by
  have hchars : (Text.latinBytes text).map (fun b => Char.ofNat b.toNat) = text.toList := by
    rw [Text.latinBytes, List.map_map]
    refine (List.map_congr_left fun c hc => ?_).trans (List.map_id _)
    have hle := h c hc
    have hbyte : c.toNat % 2 ^ 8 = c.toNat := Nat.mod_eq_of_lt (by omega)
    simp only [Function.comp_apply, Text.latinChar, if_pos hle, UInt8.toNat_ofNat', hbyte,
      Char.ofNat_toNat, id_eq]
  rw [ofLatin, hchars, String.ofList_toList]

/-- A message that fits is read back from its event. -/
theorem ofEvent?_event {m : Message} (h : m.Fits) : Message.ofEvent? m.event = some m := by
  cases m with
  | trackName text =>
    rw [Message.event, Message.ofEvent?, if_pos rfl, ofLatin_latinBytes h]
  | setTempo n =>
    obtain ⟨hnonneg, hle⟩ := h
    have hvalue : ofBigEndian (bigEndian 3 n.toNat) = n.toNat :=
      ofBigEndian_bigEndian (by omega)
    rw [Message.event, Message.ofEvent?, if_neg (by decide),
      if_pos ⟨rfl, length_bigEndian 3 n.toNat⟩, hvalue, Int.toNat_of_nonneg hnonneg]
  | endOfTrack => rfl
  | noteOff c n v =>
    obtain ⟨hc, hn, hv⟩ := h
    obtain ⟨hhalf, hchannel⟩ := hc.halves (by decide : (0x80 : UInt8).toNat % 16 = 0)
    have hkind : (0x80 : UInt8).toNat / 16 = 8 := rfl
    simp only [Message.event, Message.ofEvent?, hhalf, hkind, hchannel, hn.toNat_byte,
      hv.toNat_byte]
  | noteOn c n v =>
    obtain ⟨hc, hn, hv⟩ := h
    obtain ⟨hhalf, hchannel⟩ := hc.halves (by decide : (0x90 : UInt8).toNat % 16 = 0)
    have hkind : (0x90 : UInt8).toNat / 16 = 9 := rfl
    simp only [Message.event, Message.ofEvent?, hhalf, hkind, hchannel, hn.toNat_byte,
      hv.toNat_byte]
  | programChange c p =>
    obtain ⟨hc, hp⟩ := h
    obtain ⟨hhalf, hchannel⟩ := hc.halves (by decide : (0xc0 : UInt8).toNat % 16 = 0)
    have hkind : (0xc0 : UInt8).toNat / 16 = 0xc := rfl
    simp only [Message.event, Message.ofEvent?, hhalf, hkind, hchannel, hp.toNat_byte]

/-! ## Tracks -/

/-- A message that can be written: it does not stand before the one before it, and it fits. -/
structure Timed.Fits (m : Timed) : Prop where
  delta_nonneg : 0 ≤ m.delta
  message : m.message.Fits

/-- A message is written in front of the others: its distance, the status if it is shown, and the
data. -/
theorem messageBytes_cons {running : Option UInt8} {m : Timed} {ms : List Timed}
    (h : 0 ≤ m.delta) {more : List UInt8}
    (hmore : messageBytes m.message.event.bytes.1 ms = .ok more) :
    messageBytes running (m :: ms)
      = .ok (quantity m.delta.toNat ++ m.message.event.shown running ++ m.message.event.bytes.2
          ++ more) := by
  simp only [messageBytes, if_neg (Int.not_lt.mpr h), Message.bytes_eq, hmore]
  rfl

/-- A timed event is read off the front of some bytes. -/
theorem readTimed_append (delta : Nat) {event : Event} (h : event.Allowed)
    (running : Option UInt8) (rest : List UInt8) :
    readTimed running (quantity delta ++ event.shown running ++ event.bytes.2 ++ rest)
      = some ((delta, event), event.bytes.1, rest) := by
  rw [readTimed, List.append_assoc, List.append_assoc, readQuantity_quantity]
  dsimp only
  rw [← List.append_assoc, readEvent_append h]
  rfl

/-- The bytes of a track are read event by event. Writer and reader go through it with the same
running status, which is that of the last event. -/
theorem readEvents_messageBytes (running : Option UInt8) {ms : List Timed}
    (h : ∀ m ∈ ms, m.Fits) :
    ∃ body, messageBytes running ms = .ok body ∧
      readEvents running body = some (ms.map fun m => (m.delta.toNat, m.message.event)) := by
  induction ms generalizing running with
  | nil => exact ⟨[], rfl, readEvents_nil running⟩
  | cons m ms ih =>
    obtain ⟨hdelta, hmessage⟩ := h m List.mem_cons_self
    obtain ⟨more, hmore, hread⟩ :=
      ih m.message.event.bytes.1 fun m' hm' => h m' (List.mem_cons_of_mem m hm')
    have htimed := readTimed_append m.delta.toNat (allowed_event hmessage) running more
    refine ⟨_, messageBytes_cons hdelta hmore, ?_⟩
    rw [readEvents_of_readTimed htimed, hread]
    rfl

/-- A reader that gives back each element gives back the list. -/
theorem mapM_eq_some_self {α : Type} {f : α → Option α} {xs : List α}
    (h : ∀ x ∈ xs, f x = some x) : xs.mapM f = some xs := by
  induction xs with
  | nil => rfl
  | cons x xs ih =>
    rw [List.mapM_cons, h x List.mem_cons_self, ih fun x' hx' => h x' (List.mem_cons_of_mem x hx')]
    rfl

/-- What is written as a track is read as this track. -/
theorem readTrack_messageBytes {ms : List Timed} (h : ∀ m ∈ ms, m.Fits) :
    ∃ body, messageBytes none ms = .ok body ∧ readTrack body = some ms := by
  obtain ⟨body, hbody, hevents⟩ := readEvents_messageBytes none h
  refine ⟨body, hbody, ?_⟩
  rw [readTrack, hevents]
  dsimp only
  rw [List.mapM_map]
  refine mapM_eq_some_self fun m hm => ?_
  obtain ⟨hdelta, hmessage⟩ := h m hm
  rw [Function.comp_apply, ofEvent?_event hmessage, Int.toNat_of_nonneg hdelta]
  rfl

end Ostinato.Midi

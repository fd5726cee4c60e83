import Mathlib
import Ostinato.Build.Basic
import Ostinato.Proofs.Disk.Tree
import Ostinato.Proofs.Midi.Placement
import Ostinato.Proofs.Midi.RoundTrip

/-!
# Files read back

A file is a sequence of chunks, each of which states its own length. Reading the chunks and then the
tracks in them gives the file that was written, and what the disk holds is what was written. The
main result, `readFile_of_writeMidi`, says this for the files of scores.
-/

namespace Ostinato.Midi

/-! ## Chunks -/

/-- A chunk in bytes. -/
def Chunk.bytes (c : Chunk) : List UInt8 := c.name ++ bigEndian 4 c.body.length ++ c.body

/-- A chunk whose name has four bytes and whose length has room in four. -/
structure Chunk.Fits (c : Chunk) : Prop where
  name : c.name.length = 4
  body : c.body.length < 2 ^ 32

/-- A chunk that fits is read back, whatever stands behind it. -/
theorem readChunk_append {c : Chunk} (h : c.Fits) (rest : List UInt8) :
    readChunk (c.bytes ++ rest) = some (c, rest) := by
  obtain ⟨name, body⟩ := c
  obtain ⟨hname, hbody⟩ := h
  have hsize : (bigEndian 4 body.length).length = 4 := length_bigEndian 4 body.length
  have hcutName := cut?_append name (bigEndian 4 body.length ++ (body ++ rest))
  have hcutSize := cut?_append (bigEndian 4 body.length) (body ++ rest)
  rw [hname] at hcutName
  rw [hsize] at hcutSize
  rw [readChunk, Chunk.bytes, List.append_assoc, List.append_assoc, hcutName]
  dsimp only
  rw [hcutSize]
  dsimp only
  rw [ofBigEndian_bigEndian (by simpa using hbody), cut?_append]
  rfl

/-- Chunks that follow one another are read chunk by chunk. -/
theorem readChunks_flatMap {cs : List Chunk} (h : ∀ c ∈ cs, c.Fits) :
    readChunks (cs.flatMap Chunk.bytes) = some cs := by
  induction cs with
  | nil => exact readChunks_nil
  | cons c cs ih =>
    have hread := readChunk_append (h c List.mem_cons_self) (cs.flatMap Chunk.bytes)
    rw [List.flatMap_cons, readChunks_of_readChunk hread,
      ih fun c' hc' => h c' (List.mem_cons_of_mem c hc')]
    rfl

/-- If every chunk has bytes, all of them are written. -/
theorem writeChunks_ok (written : List UInt8) (cs : List Chunk) :
    writeChunks written (cs.map fun c => .ok c.bytes)
      = (written ++ cs.flatMap Chunk.bytes, none) := by
  induction cs generalizing written with
  | nil => simp [writeChunks]
  | cons c cs ih => simp [writeChunks, ih]

/-! ## Whole files -/

/-- A file that can be written: the numbers of its header have room in their bytes, its messages can
be written, and no track has more bytes than a chunk can state. -/
structure File.Fits (f : File) : Prop where
  ticksPerBeat_nonneg : 0 ≤ f.ticksPerBeat
  ticksPerBeat_le : f.ticksPerBeat ≤ 0x7fff
  count : f.tracks.length ≤ 0x7fff
  messages : ∀ ms ∈ f.tracks, ∀ m ∈ ms, m.Fits
  size : ∀ ms ∈ f.tracks, ∀ body, messageBytes none ms = .ok body → body.length < 2 ^ 32

/-- A word that is not negative is written in two bytes. -/
theorem word_eq {i : Int} (hnonneg : 0 ≤ i) (hle : i ≤ 0x7fff) :
    word i = .ok (bigEndian 2 i.toNat) := by
  have hvalue : (i % 0x10000).toNat = i.toNat := by omega
  rw [word, if_neg (by omega), hvalue]

/-- The header chunk of a file. -/
def File.header (f : File) : Chunk :=
  ⟨headerChunkName,
    bigEndian 2 1 ++ bigEndian 2 f.tracks.length ++ bigEndian 2 f.ticksPerBeat.toNat⟩

/-- The header of a file that fits is written as a chunk. -/
theorem headerChunk_eq {f : File} (h : f.Fits) : headerChunk f = .ok f.header.bytes := by
  have hformat : word simultaneous = .ok (bigEndian 2 1) := rfl
  have hcount : (f.tracks.length : Int) ≤ 0x7fff := by exact_mod_cast h.count
  rw [headerChunk, hformat, word_eq (Int.natCast_nonneg _) hcount,
    word_eq h.ticksPerBeat_nonneg h.ticksPerBeat_le]
  rfl

/-- Messages that can be written are a track chunk. -/
theorem trackChunk_eq {ms : List Timed} {body : List UInt8} (h : messageBytes none ms = .ok body) :
    trackChunk ms = .ok (Chunk.bytes ⟨trackChunkName, body⟩) := by
  rw [trackChunk, h]
  rfl

/-- The tracks of a file have bodies from which they are read. -/
theorem exists_bodies {tracks : List (List Timed)} (h : ∀ ms ∈ tracks, ∀ m ∈ ms, m.Fits) :
    ∃ cs : List Chunk,
      tracks.map trackChunk = cs.map (fun c => .ok c.bytes) ∧
      cs.mapM (fun c => readTrack c.body) = some tracks ∧
      ∀ c ∈ cs, c.name = trackChunkName ∧ ∃ ms ∈ tracks, messageBytes none ms = .ok c.body := by
  induction tracks with
  | nil => exact ⟨[], rfl, rfl, fun c hc => absurd hc List.not_mem_nil⟩
  | cons ms tracks ih =>
    obtain ⟨body, hbody, hread⟩ := readTrack_messageBytes (h ms List.mem_cons_self)
    obtain ⟨cs, hchunks, hreads, hcs⟩ := ih fun ms' hms' => h ms' (List.mem_cons_of_mem ms hms')
    refine ⟨⟨trackChunkName, body⟩ :: cs, ?_, ?_, ?_⟩
    · rw [List.map_cons, List.map_cons, trackChunk_eq hbody, hchunks]
    · rw [List.mapM_cons, hread, hreads]
      rfl
    · intro c hc
      rcases List.mem_cons.mp hc with rfl | hc
      · exact ⟨rfl, ms, List.mem_cons_self, hbody⟩
      · obtain ⟨hname, ms', hms', hbody'⟩ := hcs c hc
        exact ⟨hname, ms', List.mem_cons_of_mem ms hms', hbody'⟩

/-- The chunks of a file that fits are read as that file if its tracks are. -/
theorem readFile_flatMap {f : File} (h : f.Fits) {cs : List Chunk}
    (hfits : ∀ c ∈ f.header :: cs, c.Fits) (hnames : ∀ c ∈ cs, c.name = trackChunkName)
    (hreads : cs.mapM (fun c => readTrack c.body) = some f.tracks) :
    readFile ((f.header :: cs).flatMap Chunk.bytes)
      = some ⟨simultaneous.toNat, f.tracks.length, f.ticksPerBeat.toNat, f.tracks⟩ := by
  have hall : (cs.all fun c => decide (c.name = trackChunkName)) = true :=
    List.all_eq_true.mpr fun c hc => decide_eq_true (hnames c hc)
  have hword : ∀ {n : Nat}, n ≤ 0x7fff →
      ofBigEndian [UInt8.ofNat (n / 256), UInt8.ofNat n] = n := by
    intro n hn
    have hlt : n < 256 ^ 2 := by omega
    exact ofBigEndian_bigEndian hlt
  have hticks : f.ticksPerBeat.toNat ≤ 0x7fff := by
    have hle := h.ticksPerBeat_le
    omega
  have hlow : UInt8.ofNat (f.ticksPerBeat.toNat / 256) < 0x80 := by
    rw [UInt8.lt_iff_toNat_lt, UInt8.toNat_ofNat']
    exact (Nat.mod_le _ _).trans_lt (Nat.div_lt_of_lt_mul (hticks.trans_lt (by decide)))
  rw [readFile, readChunks_flatMap hfits]
  simp only [File.header, bigEndian, List.nil_append, List.cons_append, hall, hlow, and_self,
    if_true, hreads, Option.map_some, hword h.count, hword hticks]
  rfl

/-- A file that can be written is written as chunks, and read from them. -/
theorem readFile_write {f : File} (h : f.Fits) :
    ∃ bytes, f.write = (bytes, none) ∧
      readFile bytes
        = some ⟨simultaneous.toNat, f.tracks.length, f.ticksPerBeat.toNat, f.tracks⟩ ∧
      ∃ cs : List Chunk, bytes = cs.flatMap Chunk.bytes ∧ ∀ c ∈ cs, c.Fits := by
  obtain ⟨cs, hchunks, hreads, hcs⟩ := exists_bodies h.messages
  have hfits : ∀ c ∈ f.header :: cs, c.Fits := by
    intro c hc
    rcases List.mem_cons.mp hc with rfl | hc
    · refine ⟨rfl, ?_⟩
      simp only [File.header, List.length_append, length_bigEndian]
      decide
    · obtain ⟨hname, ms, hms, hbody⟩ := hcs c hc
      exact ⟨hname ▸ rfl, h.size ms hms c.body hbody⟩
  have hwrite : f.write = ((f.header :: cs).flatMap Chunk.bytes, none) := by
    rw [File.write, headerChunk_eq h, hchunks]
    exact writeChunks_ok [] (f.header :: cs)
  exact ⟨_, hwrite, readFile_flatMap h hfits (fun c hc => (hcs c hc).1) hreads, _, rfl, hfits⟩

/-! ## The files of scores -/

/-- The characters of a text in Latin 1 fit a byte. -/
theorem latin_le {text : String} {c : Char} (h : c ∈ (Text.latin text).toList) :
    c.toNat ≤ 0xff := by
  rw [Text.latin, String.toList_ofList] at h
  obtain ⟨c', -, rfl⟩ := List.mem_map.mp h
  rw [Text.latinChar]
  split
  · assumption
  · decide

/-- A track in range has only messages in range, whatever the tempo and the resolution. -/
theorem message_fits_of_mem_ofTrack {tempo ticksPerBeat : Int} {t : Track} (ht : t.Valid)
    {m : Timed} (hm : m ∈ ofTrack tempo ticksPerBeat t) : m.message.Fits := by
  have hchannel : IsChannel t.channel := ⟨ht.channel_nonneg, ht.channel_le⟩
  rw [ofTrack, List.mem_append, List.mem_append, trackHead, List.mem_append] at hm
  rcases hm with ((hname | hprogram) | hnote) | hend
  · split at hname
    · cases hname
    · rw [List.mem_singleton.mp hname]
      exact fun c => latin_le
  · obtain ⟨p, hp, rfl⟩ := List.mem_map.mp hprogram
    have hp' : p ∈ t.program := Option.mem_toList.mp hp
    exact ⟨hchannel, ht.program_nonneg p hp', ht.program_le p hp'⟩
  · have hmessage := List.mem_map_of_mem (f := Timed.message) hnote
    rw [map_message_deltasFrom] at hmessage
    obtain ⟨q, hq, heq⟩ := List.mem_map.mp hmessage
    rw [← heq]
    obtain ⟨n, hn, rfl | rfl⟩ := mem_placeNotes.mp hq
    all_goals
      have hpitch : IsData n.pitch := ⟨(ht.notes n hn).pitch_nonneg, (ht.notes n hn).pitch_le⟩
    · exact ⟨hchannel, hpitch, by decide, by decide⟩
    · exact ⟨hchannel, hpitch, by decide, by decide⟩
  · rw [List.mem_singleton.mp hend]
    trivial

/-- A track in range has only messages that can be written, wherever its notes are. -/
theorem fits_of_mem_ofTrack {tempo ticksPerBeat : Int} {t : Track} (ht : t.Valid)
    (htempo : 0 ≤ tempo) (hticks : 0 ≤ ticksPerBeat) {m : Timed}
    (hm : m ∈ ofTrack tempo ticksPerBeat t) : m.Fits := by
  have hspeed : 0 ≤ tempo * ticksPerBeat := Int.mul_nonneg htempo hticks
  exact ⟨delta_nonneg_of_mem_ofTrack ht.notes hspeed hm, message_fits_of_mem_ofTrack ht hm⟩

/-- A score with a tempo that fits is exported with the tempo first and then its tracks in order. -/
theorem ofScore_eq {s : Score} (htempo : 0 < s.tempo) (hbeat : Int.tdiv 60000000 s.tempo ≤ 0xffffff)
    (ticksPerBeat : Int) :
    ofScore ticksPerBeat s = .ok ⟨ticksPerBeat, tempoTrack (Int.tdiv 60000000 s.tempo)
      :: s.tracks.map (ofTrack s.tempo ticksPerBeat)⟩ := by
  have hnonneg : 0 ≤ Int.tdiv 60000000 s.tempo := Int.tdiv_nonneg (by decide) htempo.le
  have hmicroseconds : microsecondsPerBeat s.tempo = .ok (Int.tdiv 60000000 s.tempo) := by
    rw [microsecondsPerBeat, if_neg htempo.ne']
    exact if_neg (by omega)
  rw [ofScore, hmicroseconds]

/-- The messages of the tempo track fit. -/
theorem fits_of_mem_tempoTrack {n : Int} (hnonneg : 0 ≤ n) (hle : n ≤ 0xffffff) {m : Timed}
    (hm : m ∈ tempoTrack n) : m.Fits := by
  rcases List.mem_cons.mp hm with rfl | hm
  · exact ⟨le_rfl, hnonneg, hle⟩
  · rw [List.mem_singleton.mp hm]
    exact ⟨le_rfl, trivial⟩

/-- The tempo track takes eleven bytes. -/
theorem length_of_tempoTrack {n : Int} {body : List UInt8}
    (h : messageBytes none (tempoTrack n) = .ok body) : body.length = 11 := by
  have hsize : ∀ m < 128, (quantity m).length = 1 := by
    intro m hm
    have hzero : m / 128 = 0 := by omega
    rw [quantity, hzero, quantityHead, dif_pos rfl]
    rfl
  simp only [tempoTrack, messageBytes, Message.bytes, metaBytes] at h
  cases h
  simp [length_bigEndian, hsize]

/-- Once a file that can be written is open, it is written, and the disk has its bytes. -/
theorem read_of_writeMidi {f : File} {bytes : List UInt8} (h : f.write = (bytes, none))
    {before made opened : FileTree} {path : Path} {place : Place}
    (hmade : before.ensureDirectory path.parent = .ok made)
    (hopened : made.openForWriting path = .ok (place, opened)) :
    ∃ after, Build.writeMidi before path f = (.ok (), after) ∧ after.read path = .ok bytes := by
  refine ⟨opened.set place (.file bytes), ?_, FileTree.read_of_openForWriting hopened bytes⟩
  simp only [Build.writeMidi, FileTree.ensureDirectory_eq_ok_iff.mp hmade, hopened, h]

/-- Whatever score is written, however its notes overlap and in whatever order they are, a reader
gets the messages of its file back: format, resolution, number of tracks, and each message with its
distance. The tempo has to fit into its message, the resolution and the number of tracks into the
header, and the size of each track into the header of its chunk. -/
theorem readFile_of_writeMidi {s : Score} {ticksPerBeat : Int} (hs : s.Valid) (htempo : 0 < s.tempo)
    (hbeat : Int.tdiv 60000000 s.tempo ≤ 0xffffff) (hticks : 1 ≤ ticksPerBeat)
    (hticks' : ticksPerBeat ≤ 0x7fff) (hcount : s.tracks.length ≤ 32766)
    (hsize : ∀ t ∈ s.tracks, ∀ bytes, trackChunk (ofTrack s.tempo ticksPerBeat t) = .ok bytes →
      bytes.length < 2 ^ 32) :
    ∃ f bytes, ofScore ticksPerBeat s = .ok f ∧
      (∀ (before made opened : FileTree) (path : Path) (place : Place),
        before.ensureDirectory path.parent = .ok made →
        made.openForWriting path = .ok (place, opened) →
        ∃ after, Build.writeMidi before path f = (.ok (), after) ∧ after.read path = .ok bytes) ∧
      readFile bytes
        = some ⟨simultaneous.toNat, f.tracks.length, f.ticksPerBeat.toNat, f.tracks⟩ ∧
      ∃ cs : List Chunk, readChunks bytes = some cs ∧ bytes = cs.flatMap Chunk.bytes ∧
        ∀ c ∈ cs, ofBigEndian (bigEndian 4 c.body.length) = c.body.length := by
  have hnonneg : 0 ≤ Int.tdiv 60000000 s.tempo := Int.tdiv_nonneg (by decide) htempo.le
  have hfits : File.Fits ⟨ticksPerBeat, tempoTrack (Int.tdiv 60000000 s.tempo)
      :: s.tracks.map (ofTrack s.tempo ticksPerBeat)⟩ := by
    refine ⟨(by omega : 0 ≤ ticksPerBeat), hticks', ?_, fun ms hms => ?_,
      fun ms hms body hbody => ?_⟩
    · simp only [List.length_cons, List.length_map]
      omega
    · rcases List.mem_cons.mp hms with rfl | hms
      · exact fun m => fits_of_mem_tempoTrack hnonneg hbeat
      · obtain ⟨t, ht, rfl⟩ := List.mem_map.mp hms
        exact fun m => fits_of_mem_ofTrack (hs t ht) htempo.le (by omega)
    · rcases List.mem_cons.mp hms with rfl | hms
      · rw [length_of_tempoTrack hbody]
        decide
      · obtain ⟨t, ht, rfl⟩ := List.mem_map.mp hms
        have hchunk := hsize t ht _ (trackChunk_eq hbody)
        simp only [Chunk.bytes, List.length_append] at hchunk
        omega
  obtain ⟨bytes, hwrite, hread, cs, hbytes, hcs⟩ := readFile_write hfits
  refine ⟨_, bytes, ofScore_eq htempo hbeat ticksPerBeat, ?_, hread, cs, ?_, hbytes, ?_⟩
  · exact fun before made opened path place hmade hopened => read_of_writeMidi hwrite hmade hopened
  · rw [hbytes]
    exact readChunks_flatMap hcs
  · exact fun c hc => ofBigEndian_bigEndian (by simpa using (hcs c hc).body)

/-- Two overlapping notes of one pitch, the later one first, under a name that Latin-1 cannot
write. -/
theorem readFile_of_writeMidi_overlapping :
    ∃ f bytes after, ofScore 480 ⟨120, [⟨"é→", 3, some 5, [⟨60, 1 / 2, 1⟩, ⟨60, 0, 1⟩]⟩]⟩ = .ok f ∧
      Build.writeMidi .empty ⟨.working, ["out.mid"]⟩ f = (.ok (), after) ∧
      after.read ⟨.working, ["out.mid"]⟩ = .ok bytes ∧
      readFile bytes
        = some ⟨simultaneous.toNat, f.tracks.length, f.ticksPerBeat.toNat, f.tracks⟩ := by
  have hvalid : Score.Valid ⟨120, [⟨"é→", 3, some 5, [⟨60, 1 / 2, 1⟩, ⟨60, 0, 1⟩]⟩]⟩ := by
    intro t ht
    obtain rfl := List.mem_singleton.mp ht
    refine ⟨by decide, by decide, by simp, by simp [maxData], fun n hn => ?_⟩
    rcases List.mem_cons.mp hn with rfl | hn
    · exact ⟨by decide, by decide, by norm_num, by norm_num⟩
    · obtain rfl := List.mem_singleton.mp hn
      exact ⟨by decide, by decide, by norm_num, by norm_num⟩
  have hlength : (trackChunk (ofTrack 120 480
      ⟨"é→", 3, some 5, [⟨60, 1 / 2, 1⟩, ⟨60, 0, 1⟩]⟩)).toOption.map List.length = some 38 := by
    cbv
  obtain ⟨f, bytes, hf, hwrite, hread, -⟩ := readFile_of_writeMidi hvalid
    (by decide : (0 : Int) < 120) (by decide) (by decide : (1 : Int) ≤ 480) (by decide) (by decide)
    (by
      intro t ht bytes hbytes
      obtain rfl := List.mem_singleton.mp ht
      rw [hbytes] at hlength
      rw [Option.some.inj hlength]
      decide)
  obtain ⟨after, hafter, hdisk⟩ := hwrite .empty .empty
    ⟨[(⟨false, ["out.mid"]⟩, .file [])]⟩ ⟨.working, ["out.mid"]⟩ ⟨false, ["out.mid"]⟩
    (by cbv) (by cbv)
  exact ⟨f, bytes, after, hf, hafter, hdisk, hread⟩

end Ostinato.Midi

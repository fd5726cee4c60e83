import Ostinato.Proofs.Build.Directory
import Ostinato.Proofs.Build.Loading
import Ostinato.Proofs.Disk.Addition

/-!
# Instruments that do not play

All that a score has of its instruments is who plays the types that its parts ask for. So a file
more among the instruments, of which no part comes to hear, leaves a build as it was: the score, the
MIDI file and its bytes (`build_with_idle_instrument`). No part hears of an instrument if none asks
for its type, or if a file in front of its own has an instrument of this type.
-/

namespace Ostinato

namespace Build

/-- A tree that gets one instrument more, in the directory at `here`, that does not play: no track
asks for its type, or an earlier file has an instrument of this type. -/
structure AddsIdle (t t' : FileTree) (c : Config) (here : Place) (name : String)
    (data : List UInt8) (i : Instrument) : Prop where
  wellFormed : t.WellFormed
  wellFormed' : t'.WellFormed
  find : t.find c.instruments = .ok here
  /-- Tracks are elsewhere. -/
  apart : t.find c.tracks ≠ .ok here
  gains : t.Gains t' (here.child name) data
  descriptor : Descriptor.isDescriptor (c.instruments.child name) = true
  readable : readInstrument t' (c.instruments.child name) = .ok i
  stem : ∀ p ∈ files t c.instruments, p.stem ≠ (c.instruments.child name).stem
  idle : (∀ p ∈ files t c.tracks, ∀ part, readPart t p = .ok part → part.instrument ≠ i.type) ∨
    ∃ p ∈ files t c.instruments, p.name < name ∧ ∃ j, readInstrument t p = .ok j ∧ j.type = i.type

variable {t t' : FileTree} {c : Config} {here : Place} {name : String} {data : List UInt8}
  {i : Instrument}

/-! ## Reading -/

/-- What could be read from a file is read from it still. -/
theorem read_of_gains {α : Type} {place : Place} (h : t.Gains t' place data) {path : Path}
    {key : String} {check : Pool → Value → Checked α} {a : α}
    (hread : Descriptor.read t path key check = .ok a) :
    Descriptor.read t' path key check = .ok a := by
  unfold Descriptor.read at hread ⊢
  cases hbytes : t.read path with
  | error fault =>
    rw [hbytes] at hread
    cases hread
  | ok bytes =>
    rw [hbytes] at hread
    rw [h.read_eq_ok hbytes]
    exact hread

/-- An instrument that can be read is read as before in a tree with one more file. -/
theorem readInstrument_of_gains {place : Place} (h : t.Gains t' place data) {path : Path}
    {j : Instrument} (hread : readInstrument t path = .ok j) : readInstrument t' path = .ok j := by
  rw [readInstrument, map_eq_ok_iff] at hread ⊢
  obtain ⟨definition, hdefinition, hj⟩ := hread
  exact ⟨definition, read_of_gains h hdefinition, hj⟩

/-- Instruments that can be read are the same in a tree with one more file. -/
theorem instruments_of_gains {place : Place} (h : t.Gains t' place data) {paths : List Path}
    (hreadable : ∀ p ∈ paths, ∃ j, readInstrument t p = .ok j) :
    instruments t' paths = instruments t paths := by
  refine List.filterMap_congr fun p hp => ?_
  obtain ⟨j, hj⟩ := hreadable p hp
  rw [hj, readInstrument_of_gains h hj]

namespace AddsIdle

variable (h : AddsIdle t t' c here name data i)

include h

/-! ## Listing -/

/-- The new file is found where it stands. -/
theorem find_child : t'.find (c.instruments.child name) = .ok (here.child name) := by
  obtain ⟨definition, hread, -⟩ := map_eq_ok_iff.mp h.readable
  have hfound : ∃ place, t'.find (c.instruments.child name) = .ok place := by
    unfold Descriptor.read FileTree.read FileTree.look at hread
    cases hfind : t'.find (c.instruments.child name) with
    | error fault =>
      rw [hfind] at hread
      cases hread
    | ok place => exact ⟨place, rfl⟩
  obtain ⟨place, hplace⟩ := hfound
  rw [hplace, FileTree.eq_child_of_find (h.gains.find_eq_ok_iff.mpr h.find)
    (Descriptor.ne_up_of_isDescriptor h.descriptor) hplace]

/-- The new file takes its place among the instruments, behind those whose names are smaller. -/
theorem exists_files : ∃ before after, files t c.instruments = before ++ after ∧
    files t' c.instruments = before ++ c.instruments.child name :: after ∧
    ∀ p ∈ files t c.instruments, p.name < name → p ∈ before := by
  have hperm := h.gains.filesIn_perm_cons h.wellFormed h.wellFormed' h.find h.find_child
  unfold files
  rw [Descriptor.sorted_eq_of_perm hperm]
  exact Descriptor.exists_sorted_cons _ h.descriptor

/-- All among the instruments can be looked up still, and the new file too: it was read. -/
theorem listable (hlistable : t.Listable c.instruments) : t'.Listable c.instruments :=
  h.gains.listable h.wellFormed h.wellFormed' hlistable fun _ htooLong => by
    rw [h.find_child] at htooLong
    cases htooLong

/-- The idle file is not among the tracks. -/
theorem list_tracks (hlistable : t.Listable c.tracks) :
    Descriptor.list t' c.tracks = Descriptor.list t c.tracks :=
  Descriptor.list_eq_of_perm (h.gains.isDirectory_eq _) hlistable
    (h.gains.listable h.wellFormed h.wellFormed' hlistable fun hfind => absurd hfind h.apart)
    (h.gains.filesIn_perm h.wellFormed h.wellFormed' h.apart)

/-! ## Loading -/

/-- With the new file an ensemble is made as without it. -/
theorem exists_ensemble {e : Ensemble} (he : (loadEnsemble t c.instruments).outcome = .ok e) :
    ∃ e', (loadEnsemble t' c.instruments).outcome = .ok e' := by
  obtain ⟨before, after, hfiles, hfiles', -⟩ := h.exists_files
  obtain ⟨hdirectory, hlistable, hreadable, hstems⟩ := exists_loadEnsemble_iff.mp ⟨e, he⟩
  have hstem := h.stem
  rw [hfiles] at hreadable hstems hstem
  rw [exists_loadEnsemble_iff, h.gains.isDirectory_eq, hfiles']
  refine ⟨hdirectory, h.listable hlistable, fun p hp => ?_, ?_⟩
  · rw [List.mem_append, List.mem_cons, or_left_comm, ← List.mem_append] at hp
    rcases hp with rfl | hold
    · exact ⟨i, h.readable⟩
    · obtain ⟨j, hj⟩ := hreadable p hold
      exact ⟨j, readInstrument_of_gains h.gains hj⟩
  · rw [List.map_append, List.map_cons, List.nodup_middle, ← List.map_append, List.nodup_cons]
    refine ⟨fun hmem => ?_, hstems⟩
    obtain ⟨p, hp, hsame⟩ := List.mem_map.mp hmem
    exact hstem p hp hsame

/-- Where the new file stands among the others, its instrument does. -/
theorem instruments_insert {before after : List Path}
    (hreadable : ∀ p ∈ before ++ after, ∃ j, readInstrument t p = .ok j) :
    instruments t' (before ++ c.instruments.child name :: after)
      = instruments t before ++ i :: instruments t after := by
  have hbefore := instruments_of_gains h.gains fun p hp =>
    hreadable p (List.mem_append_left after hp)
  have hafter := instruments_of_gains h.gains fun p hp =>
    hreadable p (List.mem_append_right before hp)
  rw [← hbefore, ← hafter]
  simp [instruments, h.readable, Except.toOption]

/-- For every type that a track asks for the ensembles answer alike. -/
theorem findByType_eq {e e' : Ensemble} (he : (loadEnsemble t c.instruments).outcome = .ok e)
    (he' : (loadEnsemble t' c.instruments).outcome = .ok e') {p : Path} (hp : p ∈ files t c.tracks)
    {part : Part} (hpart : readPart t p = .ok part) :
    e'.findByType part.instrument = e.findByType part.instrument := by
  obtain ⟨before, after, hfiles, hfiles', hsmaller⟩ := h.exists_files
  obtain ⟨-, -, hreadable, -⟩ := exists_loadEnsemble_iff.mp ⟨e, he⟩
  have hholds := (loaded_of_loadEnsemble he).holds
  have hholds' := (loaded_of_loadEnsemble he').holds
  rw [hfiles] at hreadable
  rw [hfiles, instruments, List.filterMap_append] at hholds
  rw [hfiles', h.instruments_insert hreadable] at hholds'
  refine hholds.findByType_insert hholds' ?_
  obtain hunasked | ⟨q, hq, hname, j, hj, htype⟩ := h.idle
  · exact Or.inl (Ne.symm (hunasked p hp part hpart))
  · refine Or.inr ⟨j, List.mem_filterMap.mpr ⟨q, hsmaller q hq hname, ?_⟩, htype⟩
    rw [hj]
    rfl

/-! ## Compiling -/

/-- What compiles without the idle file compiles to the same with it. -/
theorem compile_eq_ok {ticksPerBeat : Int} {result : Compiled}
    (hresult : (compile t c ticksPerBeat).outcome = .ok result) :
    (compile t' c ticksPerBeat).outcome = .ok result := by
  obtain ⟨e, he, hscore, hmidi⟩ := compile_eq_ok_iff.mp hresult
  obtain ⟨paths, a, hpaths, ha, hassembled⟩ := assembleDirectory_eq_ok_iff.mp hscore
  obtain ⟨e', he'⟩ := h.exists_ensemble he
  obtain ⟨-, hlistable, hfiles⟩ := Descriptor.list_eq_ok_iff.mp hpaths
  have hread : ∀ p ∈ paths, readPart t' p = readPart t p := by
    intro p hp
    obtain ⟨part, hpart⟩ := exists_readPart_of_compileParts ha hp
    rw [hpart]
    exact read_of_gains h.gains hpart
  have hplayer : ∀ p ∈ paths, ∀ part, readPart t p = .ok part →
      e'.findByType part.instrument = e.findByType part.instrument := by
    rw [hfiles]
    exact fun p hp part hpart => h.findByType_eq he he' hp hpart
  have hscore' : (assembleDirectory t' e' c.loops c.tempo c.tracks).outcome
      = .ok (result.score, result.sources) := by
    refine assembleDirectory_eq_ok_iff.mpr ⟨paths, a, ?_, ?_, hassembled⟩
    · rw [h.list_tracks hlistable, hpaths]
    · rw [compileParts_congr hread hplayer, ha]
  exact compile_eq_ok_iff.mpr ⟨e', he', hscore', hmidi⟩

end AddsIdle

/-! ## Writing -/

/-- A file is written in both trees alike if the way to it does not come by the new one. -/
theorem exists_writeMidi_of_gains {place : Place} (h : t.Gains t' place data) {p : Path}
    {f : Midi.File} {tree : FileTree} (hwrite : writeMidi t p f = (.ok (), tree))
    (havoids : tree.Avoids p place) :
    ∃ tree', writeMidi t' p f = (.ok (), tree') ∧ tree.Gains tree' place data := by
  obtain ⟨made, q, opened, bytes, hmade, hopened, hbytes, rfl⟩ := writeMidi_eq_ok_iff.mp hwrite
  obtain ⟨hfind, hfree, rfl⟩ := FileTree.openForWriting_eq_ok_iff.mp hopened
  have hwrote := wrote_of_grows (FileTree.grows_of_ensureDirectory hmade) hfind hfree bytes
  have hne : q ≠ place := by
    rintro rfl
    exact havoids p ⟨rfl, List.prefix_rfl⟩ hwrote.find
  -- no directory is made where the new file stands, or the way to the output would come by
  have hplace : made.get? place ≠ some .directory := by
    intro hdirectory
    rw [← FileTree.get?_set_of_ne (Ne.symm hne) (e := .file []),
      ← FileTree.get?_set_of_ne (Ne.symm hne) (e := .file bytes)] at hdirectory
    obtain hsame | ⟨-, -, above, ⟨hroot, hparts⟩, hfind⟩ := hwrote.others place (Ne.symm hne)
    · rw [hsame, h.absent] at hdirectory
      cases hdirectory
    · exact havoids above ⟨hroot, hparts.trans (List.dropLast_prefix p.parts)⟩ hfind
  obtain ⟨made', hmade', hgains⟩ := h.ensureDirectory hmade hplace
  obtain ⟨opened', hopened', hgains'⟩ := hgains.openForWriting hopened hne
  exact ⟨opened'.set q (.file bytes),
    writeMidi_eq_ok_iff.mpr ⟨made', q, opened', bytes, hmade', hopened', hbytes, rfl⟩,
    hgains'.set hne (FileTree.isBase_eq_false hfree) (.file bytes)⟩

end Build

/-! ## Builds -/

/-- Ensembles that answer alike for the types of some parts assemble them alike. So a valid file
more in the directory of instruments, whatever its place among the others, does not show in a build
that succeeds, if its stem is new and its type is one that no track asks for or that an earlier file
has too: the score with its events, the MIDI file and the names of the tracks are the same, and a
build that writes writes the same bytes. The tracks are in another directory, and the way to the
output, once the directories on it are made, does not come by the new file, as no way does that
stays outside the directory of instruments. -/
theorem build_with_idle_instrument :
    (∀ (e e' : Ensemble) (loops tempo : Int) (parts : List (String × Part)),
      (∀ p ∈ parts, e'.findByType p.2.instrument = e.findByType p.2.instrument) →
      assemble e' loops tempo parts = assemble e loops tempo parts) ∧
    ∀ (t t' : FileTree) (c : Config) (here : Place) (name : String) (data : List UInt8)
      (i : Instrument), Build.AddsIdle t t' c here name data i →
      ∀ (write : Bool) (ticksPerBeat : Int) (result : Build.Compiled),
        (build t c write ticksPerBeat).outcome = .ok result →
        (write = true → (build t c write ticksPerBeat).tree.Avoids c.output (here.child name)) →
        (build t' c write ticksPerBeat).outcome = .ok result ∧
        (build t c write ticksPerBeat).tree.Gains (build t' c write ticksPerBeat).tree
          (here.child name) data ∧
        (write = true → ∃ bytes, result.midi.write = (bytes, none) ∧
          (build t c write ticksPerBeat).tree.read c.output = .ok bytes ∧
          (build t' c write ticksPerBeat).tree.read c.output = .ok bytes) := by
  refine ⟨fun e e' loops tempo parts h => assemble_congr tempo h, ?_⟩
  intro t t' c here name data i h write ticksPerBeat result hresult havoids
  cases write with
  | false =>
    rw [build_without_writing.1] at hresult
    rw [build_without_writing.1, build_without_writing.2, build_without_writing.2]
    exact ⟨h.compile_eq_ok hresult, h.gains, fun hwrite => absurd hwrite Bool.false_ne_true⟩
  | true =>
    obtain ⟨hcompiled, hwrite⟩ := build_writes_iff.mp ⟨hresult, rfl⟩
    obtain ⟨tree', hwrite', hgains⟩ :=
      Build.exists_writeMidi_of_gains h.gains hwrite (havoids rfl)
    obtain ⟨houtcome, rfl⟩ := build_writes_iff.mpr ⟨h.compile_eq_ok hcompiled, hwrite'⟩
    obtain ⟨place, bytes, hbytes, hwrote⟩ := Build.wrote_of_writeMidi hwrite
    exact ⟨houtcome, hgains, fun _ => ⟨bytes, hbytes, hwrote.read_eq,
      hgains.read_eq_ok hwrote.read_eq⟩⟩

/-- A directory with one instrument and one with one track. -/
def soloTree (instrument track : List UInt8) : FileTree := ⟨[
  (⟨false, ["i"]⟩, .directory),
  (⟨false, ["i", "b.yaml"]⟩, .file instrument),
  (⟨false, ["t"]⟩, .directory),
  (⟨false, ["t", "a.yaml"]⟩, .file track)]⟩

/-- The same with another file among the instruments. -/
def duoTree (instrument track : List UInt8) (name : String) (data : List UInt8) : FileTree :=
  (soloTree instrument track).set ⟨false, ["i", name]⟩ (.file data)

/-- A build of the two directories into a third one. -/
def soloConfig : Config :=
  ⟨⟨.working, ["i"]⟩, ⟨.working, ["t"]⟩, ⟨.working, ["o", "out.mid"]⟩, 1, 120⟩

section Solo

variable (instrument track : List UInt8)

/-- The tree of one instrument and one track is well formed. -/
theorem wellFormed_soloTree : (soloTree instrument track).WellFormed where
  nodup := by simp [soloTree]
  proper := by
    simp only [soloTree, List.forall_mem_cons]
    decide

/-- What stands in the two files. -/
theorem read_soloTree :
    (soloTree instrument track).read ⟨.working, ["i", "b.yaml"]⟩ = .ok instrument ∧
      (soloTree instrument track).read ⟨.working, ["t", "a.yaml"]⟩ = .ok track := ⟨by cbv, by cbv⟩

/-- Each directory holds its one file as a descriptor. -/
theorem files_soloTree :
    Build.files (soloTree instrument track) soloConfig.instruments
        = [⟨.working, ["i", "b.yaml"]⟩] ∧
      Build.files (soloTree instrument track) soloConfig.tracks
        = [⟨.working, ["t", "a.yaml"]⟩] := ⟨by cbv, by cbv⟩

/-- What is listed of the two directories. -/
theorem list_soloTree :
    Descriptor.list (soloTree instrument track) soloConfig.instruments
        = .ok [⟨.working, ["i", "b.yaml"]⟩] ∧
      Descriptor.list (soloTree instrument track) soloConfig.tracks
        = .ok [⟨.working, ["t", "a.yaml"]⟩] := by
  have hinstruments : ((soloTree instrument track).namesIn soloConfig.instruments).Perm
      ["b.yaml"] := List.perm_singleton.mpr (by cbv)
  have htracks : ((soloTree instrument track).namesIn soloConfig.tracks).Perm ["a.yaml"] :=
    List.perm_singleton.mpr (by cbv)
  refine ⟨Descriptor.list_of_namesIn (by cbv) hinstruments (by decide) ?_,
    Descriptor.list_of_namesIn (by cbv) htracks (by decide) ?_⟩
  · exact List.forall_mem_singleton.mpr ⟨by cbv, by cbv⟩
  · exact List.forall_mem_singleton.mpr ⟨by cbv, by cbv⟩

/-- What is read of a file that was added. -/
theorem readInstrument_duoTree {name : String} {data : List UInt8} {d : Definition}
    (hfind : (soloTree instrument track).find ⟨.working, ["i", name]⟩ = .ok ⟨false, ["i", name]⟩)
    (hnew : (soloTree instrument track).get? ⟨false, ["i", name]⟩ = none)
    (hparse : (Descriptor.parse ⟨.working, ["i", name]⟩ "instrument" Definition.ofValue
      data).toOption = some d) :
    Build.readInstrument (duoTree instrument track name data) ⟨.working, ["i", name]⟩
      = .ok ⟨(⟨.working, ["i", name]⟩ : Path).stem, d⟩ := by
  have hread := FileTree.read_set hfind (by simp [hnew]) data
  rw [Build.readInstrument, duoTree, Descriptor.read_eq_ok hread hparse]
  rfl

variable {instrument track}

/-- If the two files are read as an instrument and a track for it, the build succeeds. -/
theorem build_soloTree
    (hinstrument : Descriptor.read (soloTree instrument track) ⟨.working, ["i", "b.yaml"]⟩
      "instrument" Definition.ofValue = .ok ⟨"keys", some 1, none⟩)
    (htrack : Build.readPart (soloTree instrument track) ⟨.working, ["t", "a.yaml"]⟩
      = .ok ⟨"keys", [⟨"4", .single "c4"⟩]⟩) :
    ∃ result, (build (soloTree instrument track) soloConfig true 480).outcome = .ok result := by
  obtain ⟨hlist, hlist'⟩ := list_soloTree instrument track
  have hload : (Build.loadEnsemble (soloTree instrument track) soloConfig.instruments).outcome
      = .ok ⟨[⟨"b", ⟨"keys", some 1, none⟩⟩], [("keys", ⟨"b", ⟨"keys", some 1, none⟩⟩)]⟩ := by
    simp only [Build.loadEnsemble, Build.loadInstruments, Build.loadInstrument, hinstrument,
      hlist, Logged.outcome_bind, Logged.outcome_lift, Logged.outcome_emit,
      Except.mapError, Except.bind]
    cbv
  have hcompile : (Build.compileParts (soloTree instrument track)
      ⟨[⟨"b", ⟨"keys", some 1, none⟩⟩], [("keys", ⟨"b", ⟨"keys", some 1, none⟩⟩)]⟩ 1 (.start 120) []
        [⟨.working, ["t", "a.yaml"]⟩]).outcome
      = .ok (⟨⟨120, [⟨"b", 0, some 0, [⟨60, 0, 1⟩]⟩]⟩, 1⟩, ["a.yaml"]) := by
    rw [Build.outcome_compileParts le_rfl (mapM_singleton_eq_ok_iff.mpr ⟨_, htrack, rfl⟩)]
    cbv
  obtain ⟨midi, bytes, hmidi, hbytes⟩ : ∃ midi bytes,
      Midi.ofScore 480 ⟨120, [⟨"b", 0, some 0, [⟨60, 0, 1⟩]⟩]⟩ = .ok midi ∧
        midi.write = (bytes, none) := ⟨_, _, by cbv, by cbv⟩
  have hmade : (soloTree instrument track).ensureDirectory soloConfig.output.parent
      = .ok ((soloTree instrument track).set ⟨false, ["o"]⟩ .directory) := by cbv
  have hopened : ((soloTree instrument track).set ⟨false, ["o"]⟩ .directory).openForWriting
      soloConfig.output = .ok (⟨false, ["o", "out.mid"]⟩,
        ((soloTree instrument track).set ⟨false, ["o"]⟩ .directory).set ⟨false, ["o", "out.mid"]⟩
          (.file [])) := by cbv
  have hwrite := Build.writeMidi_eq_ok_iff.mpr ⟨_, _, _, _, hmade, hopened, hbytes, rfl⟩
  have hassembled := Build.assembleDirectory_eq_ok_iff.mpr ⟨_, _, hlist', hcompile, rfl⟩
  have hcompiled : (Build.compile (soloTree instrument track) soloConfig 480).outcome
      = .ok ⟨⟨120, [⟨"b", 0, some 0, [⟨60, 0, 1⟩]⟩]⟩, midi, ["a.yaml"]⟩ :=
    Build.compile_eq_ok_iff.mpr ⟨_, hload, hassembled, hmidi⟩
  exact ⟨_, (build_writes_iff.mpr ⟨hcompiled, hwrite⟩).1⟩

/-- Another file among the instruments does not play if its instrument is one that nobody asks for
or comes too late. -/
theorem addsIdle_duoTree {name : String} {data : List UInt8} {i j : Instrument} {part : Part}
    (hj : Build.readInstrument (soloTree instrument track) ⟨.working, ["i", "b.yaml"]⟩ = .ok j)
    (hpart : Build.readPart (soloTree instrument track) ⟨.working, ["t", "a.yaml"]⟩ = .ok part)
    (hnew : (soloTree instrument track).get? ⟨false, ["i", name]⟩ = none)
    (hdescriptor : Descriptor.isDescriptor ⟨.working, ["i", name]⟩ = true)
    (hstem : (⟨.working, ["i", "b.yaml"]⟩ : Path).stem ≠ (⟨.working, ["i", name]⟩ : Path).stem)
    (hi : Build.readInstrument (duoTree instrument track name data) ⟨.working, ["i", name]⟩ = .ok i)
    (hidle : part.instrument ≠ i.type ∨ "b.yaml" < name ∧ j.type = i.type) :
    Build.AddsIdle (soloTree instrument track) (duoTree instrument track name data) soloConfig
      ⟨false, ["i"]⟩ name data i := by
  have hbase : FileTree.isBase ⟨false, ["i", name]⟩ = false := by
    simp [FileTree.isBase]
  have hfind : (soloTree instrument track).find soloConfig.tracks = .ok ⟨false, ["t"]⟩ := by cbv
  obtain ⟨hinstruments, htracks⟩ := files_soloTree instrument track
  refine
    { wellFormed := wellFormed_soloTree instrument track
      wellFormed' := (wellFormed_soloTree instrument track).set hbase _
      find := by cbv
      apart := by rw [hfind]; simp
      gains := FileTree.gains_set hbase hnew data
      descriptor := hdescriptor
      readable := hi
      stem := ?_
      idle := ?_ }
  · rw [hinstruments, List.forall_mem_singleton]
    exact hstem
  · rw [hinstruments, htracks, List.forall_mem_singleton]
    obtain hne | ⟨hname, htype⟩ := hidle
    · refine Or.inl fun part' hpart' => ?_
      rw [hpart] at hpart'
      cases hpart'
      exact hne
    · exact Or.inr ⟨_, List.mem_singleton_self _, hname, j, hj, htype⟩

end Solo

/-- Neither an instrument in front of the others that no track asks for nor one behind them whose
type is taken shows in a build. -/
theorem build_with_idle_instrument_of_solo :
    let piano := "instrument: {type: keys, program: 1}".toUTF8.toList
    let drums := "instrument: {type: drums, pitchMap: {snare: 38}}".toUTF8.toList
    let track := "track: {instrument: keys, notes: [{duration: 4, pitch: c4}]}".toUTF8.toList
    ∃ result, (build (soloTree piano track) soloConfig true 480).outcome = .ok result ∧
      ∀ t' ∈ [duoTree piano track "a.yml" drums, duoTree piano track "c.yml" piano],
        (build t' soloConfig true 480).outcome = .ok result ∧
          (build t' soloConfig true 480).tree.read soloConfig.output
            = (build (soloTree piano track) soloConfig true 480).tree.read soloConfig.output := by
  intro piano drums track
  obtain ⟨hpiano, htrack⟩ := read_soloTree piano track
  have hkeys : Descriptor.read (soloTree piano track) ⟨.working, ["i", "b.yaml"]⟩ "instrument"
      Definition.ofValue = .ok ⟨"keys", some 1, none⟩ :=
    Descriptor.read_eq_ok hpiano (by decide +kernel)
  have hpart : Build.readPart (soloTree piano track) ⟨.working, ["t", "a.yaml"]⟩
      = .ok ⟨"keys", [⟨"4", .single "c4"⟩]⟩ :=
    Descriptor.read_eq_ok htrack (by decide +kernel)
  have hj : Build.readInstrument (soloTree piano track) ⟨.working, ["i", "b.yaml"]⟩
      = .ok ⟨(⟨.working, ["i", "b.yaml"]⟩ : Path).stem, ⟨"keys", some 1, none⟩⟩ := by
    rw [Build.readInstrument, hkeys]
    rfl
  obtain ⟨result, hresult⟩ := build_soloTree hkeys hpart
  -- each of the two files is added by itself
  have hsame : ∀ name data i, Build.AddsIdle (soloTree piano track)
      (duoTree piano track name data) soloConfig ⟨false, ["i"]⟩ name data i →
      (build (duoTree piano track name data) soloConfig true 480).outcome = .ok result ∧
        (build (duoTree piano track name data) soloConfig true 480).tree.read soloConfig.output
          = (build (soloTree piano track) soloConfig true 480).tree.read soloConfig.output := by
    intro name data i h
    obtain ⟨-, hidle⟩ := build_with_idle_instrument
    have havoids : (build (soloTree piano track) soloConfig true 480).tree.Avoids soloConfig.output
        ((⟨false, ["i"]⟩ : Place).child name) := by
      refine FileTree.avoids_of_parts (by decide) fun _ hparts => ?_
      simp [Place.child, soloConfig] at hparts
    obtain ⟨houtcome, -, hwritten⟩ :=
      hidle _ _ soloConfig _ name data i h true 480 result hresult fun _ => havoids
    obtain ⟨bytes, -, hread, hread'⟩ := hwritten rfl
    exact ⟨houtcome, hread'.trans hread.symm⟩
  have hdrums : Build.readInstrument (duoTree piano track "a.yml" drums) ⟨.working, ["i", "a.yml"]⟩
      = .ok ⟨_, ⟨"drums", none, some [("snare", 38)]⟩⟩ :=
    readInstrument_duoTree piano track (by cbv) (by cbv) (by decide +kernel)
  have hlater : Build.readInstrument (duoTree piano track "c.yml" piano) ⟨.working, ["i", "c.yml"]⟩
      = .ok ⟨_, ⟨"keys", some 1, none⟩⟩ :=
    readInstrument_duoTree piano track (by cbv) (by cbv) (by decide +kernel)
  refine ⟨result, hresult, ?_⟩
  rw [List.forall_mem_cons, List.forall_mem_singleton]
  constructor
  · exact hsame _ _ _ (addsIdle_duoTree hj hpart (by cbv) (by cbv) (by cbv) hdrums
      (Or.inl (by decide)))
  · exact hsame _ _ _ (addsIdle_duoTree hj hpart (by cbv) (by cbv) (by cbv) hlater
      (Or.inr ⟨by decide, rfl⟩))

end Ostinato

import Ostinato.CommandLine.Run
import Ostinato.Proofs.Build.Effect
import Ostinato.Proofs.Check.Read

/-!
# The command and a direct build

The options of a command call for one configuration: each part of it is what its option is given,
or follows from the others where the option is left out. The command makes this configuration in two
steps, first the standard layout and then what replaces parts of it. The main result,
`run_agrees`, says that it nevertheless ends as a direct build of the configuration does.
-/

namespace Ostinato

/-- What an option comes to: a default if it is left out, and nothing if it is given nothing. -/
def chosen {α : Type} (default : α) : Option (Given α) → Option α
  | none => some default
  | some (.argument a) => some a
  | some .nothing => none

/-- The configuration that options call for, with a root, a style and an output; none if nothing
stands for one of its other parts. -/
def Options.target? (o : Options) (root : Path) (style : String) (output : Path) :
    Option Config := do
  let instruments ← chosen (root.child "instruments") o.instruments
  let tracks ← chosen ((root.child "styles").join (.ofText style)) o.tracks
  let loops ← chosen 4 o.loops
  return ⟨instruments, tracks, output, loops, 120⟩

/-- What a command leaves agrees with a direct build of a configuration: no configuration, or one
with numbers out of range, counts as a fault that is reported. -/
structure CommandResult.Agrees (r : CommandResult) (t : FileTree) (c? : Option Config) :
    Prop where
  success : r.ending.exitCode? = some 0 ↔ ∃ c ∈ c?, c.Valid ∧
    ∃ result, (build t c true Midi.defaultTicksPerBeat).outcome = .ok result
  failure : r.ending.exitCode? = some 1 ↔ (∀ c ∈ c?, ¬ c.Valid) ∨ ∃ c ∈ c?, c.Valid ∧
    ∃ fault, (build t c true Midi.defaultTicksPerBeat).outcome = .error fault ∧
      fault.isReported = true
  /-- Any other fault is let through as it is. -/
  escape : ∀ c ∈ c?, c.Valid → ∀ fault,
    (build t c true Midi.defaultTicksPerBeat).outcome = .error fault →
      fault.isReported = false → r.ending = .escape (.build fault)
  unchanged : r.ending.exitCode? = some 1 → r.tree = t
  tree : ∀ c ∈ c?, c.Valid → r.tree = (build t c true Midi.defaultTicksPerBeat).tree

/-! ## Configurations -/

/-- Values that spell every part of a configuration are accepted exactly if it is valid. -/
theorem Config.ofEntries_eq_ok_iff {instruments tracks output : Text} {loops tempo : Int}
    {c : Config} :
    Config.ofEntries [(.text "instruments_dir", .text instruments),
        (.text "tracks_dir", .text tracks), (.text "output_path", .text output),
        (.text "loop_count", .int loops), (.text "tempo_bpm", .int tempo)] = .ok c ↔
      c = ⟨.ofText instruments.string, .ofText tracks.string, .ofText output.string, loops, tempo⟩ ∧
        c.Valid := by
  simp only [ofEntries, map_eq_ok_iff, Checked.both_eq_ok_iff]
  constructor
  · rintro ⟨_, ⟨_, _, his, ⟨_, _, hts, ⟨_, _, houtput, ⟨ls, bpm, hls, hbpm, rfl⟩, rfl⟩, rfl⟩, rfl⟩,
      rfl⟩
    cases his
    cases hts
    cases houtput
    obtain ⟨hpos, rfl⟩ := Value.atLeast_eq_ok_iff.mp (Checked.under_eq_ok_iff.mp hls)
    obtain ⟨⟨hge, hle⟩, rfl⟩ :=
      Value.asIntegerIn_int_eq_ok_iff.mp (Checked.under_eq_ok_iff.mp hbpm)
    exact ⟨rfl, hpos, hge, hle⟩
  · rintro ⟨rfl, hpos, hge, hle⟩
    have hls := Value.atLeast_eq_ok_iff.mpr ⟨hpos, rfl⟩
    have hbpm := Value.asIntegerIn_int_eq_ok_iff.mpr ⟨⟨hge, hle⟩, rfl⟩
    exact ⟨_, ⟨_, _, rfl, ⟨_, _, rfl, ⟨_, _, rfl, ⟨loops, tempo, Checked.under_eq_ok_iff.mpr hls,
      Checked.under_eq_ok_iff.mpr hbpm, rfl⟩, rfl⟩, rfl⟩, rfl⟩, rfl⟩

/-- An argument that may be given passes its check if it chooses a value, or the default does. -/
theorem getD_check_eq_ok_iff {α : Type} {default a : α} {given : Option (Given α)}
    (complaint : Complaint) :
    (given.map (Given.check complaint)).getD (.ok default) = .ok a
      ↔ chosen default given = some a := by
  rcases given with - | - | - <;> simp [Given.check, chosen, Checked.refuse]

/-- A configuration is overridden if each argument chooses its value, and only the loops have a
bound. -/
theorem Config.override_eq_ok_iff {c c' : Config} {instruments tracks : Option (Checked Path)}
    {loops : Option (Checked Int)} :
    c.override instruments tracks loops = .ok c' ↔
      instruments.getD (.ok c.instruments) = .ok c'.instruments ∧
      tracks.getD (.ok c.tracks) = .ok c'.tracks ∧
      loops.getD (.ok c.loops) = .ok c'.loops ∧ 1 ≤ c'.loops ∧
      c'.output = c.output ∧ c'.tempo = c.tempo := by
  simp only [Config.override, map_eq_ok_iff, Checked.both_eq_ok_iff, Checked.under_eq_ok_iff,
    Checked.andThen_eq_ok_iff, Value.atLeast_eq_ok_iff]
  constructor
  · rintro ⟨_, ⟨is, _, his, ⟨ts, ls, hts, ⟨_, hls, hle, rfl⟩, rfl⟩, rfl⟩, rfl⟩
    exact ⟨his, hts, hls, hle, rfl, rfl⟩
  · obtain ⟨is, ts, output, ls, tempo⟩ := c'
    rintro ⟨his, hts, hls, hle, rfl, rfl⟩
    exact ⟨_, ⟨is, _, his, ⟨ts, ls, hts, ⟨ls, hls, hle, rfl⟩, rfl⟩, rfl⟩, rfl⟩

section Values

variable {o : Options} {root : Path} {style : String} {output : Path}

/-- Three arguments that are values make the layout of a data directory. -/
theorem Options.layout_eq (hdata : o.data = .argument root) (hstyle : o.style = .argument style)
    (houtput : o.output = .argument output) :
    o.layout = .ok (.ofDataRoot root style output) := by
  rw [layout, hdata, hstyle, houtput]
  rfl

/-- A configuration is meant by the options if each of its fields is chosen by one of them. -/
theorem Options.target?_eq_some_iff {c : Config} :
    o.target? root style output = some c ↔
      chosen (root.child "instruments") o.instruments = some c.instruments ∧
      chosen ((root.child "styles").join (.ofText style)) o.tracks = some c.tracks ∧
      chosen 4 o.loops = some c.loops ∧ c.output = output ∧ c.tempo = 120 := by
  obtain ⟨is, ts, output', ls, tempo⟩ := c
  simp only [target?, Option.bind_eq_bind, Option.bind_eq_some_iff, Option.pure_def,
    Option.some.injEq, Config.mk.injEq]
  constructor
  · rintro ⟨_, his, _, hts, _, hls, rfl, rfl, rfl, rfl, rfl⟩
    exact ⟨his, hts, hls, rfl, rfl⟩
  · rintro ⟨his, hts, hls, rfl, rfl⟩
    exact ⟨is, his, ts, hts, ls, hls, rfl, rfl, rfl, rfl, rfl⟩

/-- The two steps make the configuration that the options call for, if it is valid. -/
theorem Options.config_eq_ok_iff (hdata : o.data = .argument root)
    (hstyle : o.style = .argument style) (houtput : o.output = .argument output) {c : Config} :
    o.config = .ok c ↔ o.target? root style output = some c ∧ c.Valid := by
  have hoverride : o.config = .ok c ↔
      (Config.ofDataRoot root style output).override
        (o.instruments.map (Given.check .notPath)) (o.tracks.map (Given.check .notPath))
        (o.loops.map (Given.check .notInteger)) = .ok c := by
    rw [config, layout_eq hdata hstyle houtput]
    dsimp only
    split
    next c' hc' => rw [hc', Except.ok.injEq, Except.ok.injEq]
    next issues hissues => rw [hissues]; exact ⟨nofun, nofun⟩
  rw [hoverride, Config.override_eq_ok_iff, getD_check_eq_ok_iff, getD_check_eq_ok_iff,
    getD_check_eq_ok_iff, target?_eq_some_iff]
  constructor
  · rintro ⟨his, hts, hls, hle, houtput', htempo⟩
    have hordinary : c.tempo = 120 := htempo
    refine ⟨⟨his, hts, hls, houtput', hordinary⟩, hle, ?_, ?_⟩ <;> rw [hordinary] <;> decide
  · rintro ⟨⟨his, hts, hls, houtput', htempo⟩, hvalid⟩
    exact ⟨his, hts, hls, hvalid.loops_pos, houtput', htempo⟩

/-- Where the standard layout is sound, the only fault on the way to the configuration is one of its
values, and it is reported. -/
theorem Options.config_eq_error (hdata : o.data = .argument root)
    (hstyle : o.style = .argument style) (houtput : o.output = .argument output)
    {ending : Ending} (h : o.config = .error ending) :
    ∃ issues, ending = .failure (.config issues) := by
  rw [config, layout_eq hdata hstyle houtput] at h
  dsimp only at h
  split at h
  next => cases h
  next issues _ =>
    cases h
    exact ⟨issues, rfl⟩

end Values

/-! ## Options that are given arguments -/

/-- Options of which none is given nothing. -/
structure Options.Valued (o : Options) : Prop where
  data : o.data ≠ .nothing
  style : o.style ≠ .nothing
  instruments : o.instruments ≠ some .nothing
  tracks : o.tracks ≠ some .nothing
  output : o.output ≠ .nothing
  loops : o.loops ≠ some .nothing

/-- The options have values where nothing is given. -/
theorem Options.valued_default : Options.default.Valued :=
  ⟨nofun, nofun, nofun, nofun, nofun, nofun⟩

/-- Debugging changes no value. -/
theorem Options.Valued.withDebug {o : Options} (h : o.Valued) :
    { o with debug := true }.Valued :=
  ⟨h.data, h.style, h.instruments, h.tracks, h.output, h.loops⟩

/-- Where the mark is an argument as any other, no option is given nothing. -/
theorem Options.Valued.set {o o' : Options} (h : o.Valued) {flag : Flag} {word : String}
    (hset : o.set .kept flag word = .ok o') : o'.Valued := by
  obtain ⟨hdata, hstyle, hinstruments, htracks, houtput, hloops⟩ := h
  cases flag <;>
    simp only [Options.set, given, Given.map, Except.ok.injEq, map_eq_ok_iff, count] at hset
  case loops =>
    obtain ⟨n, hn, rfl⟩ := hset
    split at hn
    next =>
      cases hn
      exact ⟨hdata, hstyle, hinstruments, htracks, houtput, nofun⟩
    next => cases hn
  all_goals
    subst hset
    constructor <;> first | assumption | nofun

/-- Acting on words keeps it so, whatever they are. -/
theorem Options.Valued.act {o o' : Options} (h : o.Valued) {extra : List String} {ws : List Word}
    (hact : Options.act .kept o extra ws = .ok (.run o')) : o'.Valued := by
  -- every step that goes on has given an option an argument or has left all as they were
  fun_induction Options.act MarkRule.kept o extra ws <;>
    grind [Options.Valued.set, Options.Valued.withDebug]

/-- Where the mark is an argument as any other, a command line that is acted on gives every option
an argument. -/
theorem Options.valued_of_read {words : List String} {o : Options}
    (h : Options.read .kept words = .ok (.run o)) : o.Valued := by
  rw [Options.read] at h
  split at h
  next => cases h
  next => exact Options.valued_default.act h

/-! ## Builds -/

/-- A fault that is reported is found before anything is written. -/
theorem tree_build_of_isReported {t : FileTree} {c : Config} {ticksPerBeat : Int}
    {fault : BuildFault} (h : (build t c true ticksPerBeat).outcome = .error fault)
    (hreported : fault.isReported = true) : (build t c true ticksPerBeat).tree = t := by
  cases hcompiled : (Build.compile t c ticksPerBeat).outcome with
  | error earlier => exact (build_of_compile_error hcompiled).2
  | ok result =>
    obtain ⟨later, tree, hwrite, houtcome⟩ | ⟨tree, -, houtcome, -⟩ := build_of_compile_ok hcompiled
    · rw [houtcome] at h
      cases h
      rw [Build.isReported_of_writeMidi hwrite] at hreported
      cases hreported
    · rw [houtcome] at h
      cases h

/-- How the command ends once it has its configuration. -/
theorem runOptions_of_config {t : FileTree} {o : Options} {c : Config} (h : o.config = .ok c) :
    (runOptions t o).ending =
        (match (build t c true Midi.defaultTicksPerBeat).outcome with
          | .ok _ => .success
          | .error fault =>
            if fault.isReported then .failure (.build fault) else .escape (.build fault)) ∧
      (runOptions t o).tree = (build t c true Midi.defaultTicksPerBeat).tree := by
  rw [runOptions, h]
  dsimp only
  split
  next fault houtcome => exact ⟨by rw [houtcome], rfl⟩
  next compiled houtcome => exact ⟨by rw [houtcome], rfl⟩

/-! ## The command -/

/-- A command without a valid configuration reports that. -/
theorem agrees_of_invalid {t : FileTree} {o : Options} {c? : Option Config} {issues : List Issue}
    (hinvalid : ∀ c ∈ c?, ¬ c.Valid) (h : o.config = .error (.failure (.config issues))) :
    (runOptions t o).Agrees t c? := by
  have hrun : runOptions t o = ⟨.failure (.config issues), [], t⟩ := by rw [runOptions, h]
  rw [hrun]
  refine ⟨⟨nofun, ?success⟩, ⟨fun _ => Or.inl hinvalid, fun _ => rfl⟩, ?escape, fun _ => rfl, ?tree⟩
  case success => exact fun ⟨c, hc, hvalid, _⟩ => absurd hvalid (hinvalid c hc)
  case escape => exact fun c hc hvalid => absurd hvalid (hinvalid c hc)
  case tree => exact fun c hc hvalid => absurd hvalid (hinvalid c hc)

/-- A command with a valid configuration builds it. -/
theorem agrees_of_config {t : FileTree} {o : Options} {c : Config} (hvalid : c.Valid)
    (h : o.config = .ok c) : (runOptions t o).Agrees t (some c) := by
  obtain ⟨hending, htree⟩ := runOptions_of_config (t := t) h
  have hsame : ∀ c' ∈ some c, (runOptions t o).tree
      = (build t c' true Midi.defaultTicksPerBeat).tree := by
    rintro c' ⟨⟩
    exact htree
  -- a build succeeds, has a fault that is reported, or has one that is not
  cases houtcome : (build t c true Midi.defaultTicksPerBeat).outcome with
  | ok result =>
    rw [houtcome] at hending
    dsimp only at hending
    refine ⟨?_, ?_, ?_, ?_, fun c' hc' _ => hsame c' hc'⟩ <;>
      simp [hending, Ending.exitCode?, hvalid, houtcome]
  | error fault =>
    rw [houtcome] at hending
    dsimp only at hending
    cases hreported : fault.isReported with
    | false =>
      rw [hreported, if_neg Bool.false_ne_true] at hending
      refine ⟨?_, ?_, ?_, ?_, fun c' hc' _ => hsame c' hc'⟩ <;>
        simp [hending, Ending.exitCode?, hvalid, houtcome, hreported]
    | true =>
      rw [hreported, if_pos rfl] at hending
      refine ⟨?_, ?_, ?_, ?_, fun c' hc' _ => hsame c' hc'⟩ <;>
        simp [hending, htree, Ending.exitCode?, hvalid, houtcome, hreported,
          tree_build_of_isReported houtcome]

/-- A command line that is acted on ends as a direct build of the configuration that it calls for:
with a code of 0 if the configuration is valid and its build succeeds, with a code of 1 and nothing
changed if it is not valid or its build has a fault that is reported, and otherwise with the fault
of the build. For this its root, its style and its output are arguments, given or by default; where
the mark is an argument as any other, they always are, and so is all that is given besides. -/
theorem run_agrees {rule : MarkRule} {words : List String} {o : Options}
    (h : Options.read rule words = .ok (.run o)) (t : FileTree) :
    (rule = .kept → o.Valued) ∧
    ∀ root style output, o.data = .argument root → o.style = .argument style →
      o.output = .argument output →
        (run rule t words).Agrees t (o.target? root style output) := by
  have hrun : run rule t words = runOptions t o := by rw [run, h]
  rw [hrun]
  refine ⟨fun hrule => ?valued, fun root style output hdata hstyle houtput => ?agrees⟩
  case valued =>
    subst hrule
    exact Options.valued_of_read h
  case agrees =>
    have hconfig := fun c => Options.config_eq_ok_iff hdata hstyle houtput (c := c)
    cases hmade : o.config with
    | ok c =>
      obtain ⟨htarget, hvalid⟩ := (hconfig c).mp hmade
      rw [htarget]
      exact agrees_of_config hvalid hmade
    | error ending =>
      obtain ⟨issues, rfl⟩ := Options.config_eq_error hdata hstyle houtput hmade
      refine agrees_of_invalid (fun c hc hvalid => ?_) hmade
      rw [(hconfig c).mpr ⟨hc, hvalid⟩] at hmade
      cases hmade

/-- A style without tracks is built where the options say. With no loops at all the configuration is
not valid, and nothing is written. A mark behind an equals sign is a path as any other. -/
theorem run_agrees_of_silent_style :
    let silent : FileTree := ⟨[(⟨false, ["i"]⟩, .directory), (⟨false, ["t"]⟩, .directory)]⟩
    let c : Config := ⟨⟨.working, ["i"]⟩, ⟨.working, ["t"]⟩, ⟨.working, ["o", "out.mid"]⟩, 1, 120⟩
    let marked : Config := ⟨⟨.working, ["i"]⟩, ⟨.working, ["t"]⟩, ⟨.working, ["--"]⟩, 4, 120⟩
    let built := run .kept silent
      ["--instr", "i", "--tracks=t", "--output", "o/out.mid", "--loops", "1"]
    let refused := run .kept silent ["--instr", "i", "--tracks=t", "--loops", "0"]
    let written := run .kept silent ["--instr", "i", "--tracks=t", "--output=--"]
    built.ending.exitCode? = some 0 ∧
      built.tree = (build silent c true Midi.defaultTicksPerBeat).tree ∧
      refused.ending.exitCode? = some 1 ∧ refused.tree = silent ∧
      written.ending.exitCode? = some 0 ∧
      written.tree = (build silent marked true Midi.defaultTicksPerBeat).tree := by
  intro silent c marked built refused written
  let asked : Options := { Options.default with
    instruments := some (.argument ⟨.working, ["i"]⟩)
    tracks := some (.argument ⟨.working, ["t"]⟩) }
  have hbuilt : Options.read .kept
      ["--instr", "i", "--tracks=t", "--output", "o/out.mid", "--loops", "1"]
      = .ok (.run { asked with
        output := .argument ⟨.working, ["o", "out.mid"]⟩, loops := some (.argument 1) }) := by
    cbv
  have hrefused : Options.read .kept ["--instr", "i", "--tracks=t", "--loops", "0"]
      = .ok (.run { asked with loops := some (.argument 0) }) := by
    cbv
  have hwritten : Options.read .kept ["--instr", "i", "--tracks=t", "--output=--"]
      = .ok (.run { asked with output := .argument ⟨.working, ["--"]⟩ }) := by
    cbv
  have hvalid : c.Valid := ⟨by decide, by decide, by decide⟩
  have hvalid' : marked.Valid := ⟨by decide, by decide, by decide⟩
  obtain ⟨result, hresult⟩ : ∃ result,
      (build silent c true Midi.defaultTicksPerBeat).outcome = .ok result := ⟨_, by cbv⟩
  obtain ⟨result', hresult'⟩ : ∃ result,
      (build silent marked true Midi.defaultTicksPerBeat).outcome = .ok result := ⟨_, by cbv⟩
  have hagrees := (run_agrees hbuilt silent).2 _ _ _ rfl rfl rfl
  have hagrees' := (run_agrees hrefused silent).2 _ _ _ rfl rfl rfl
  have hagrees'' := (run_agrees hwritten silent).2 _ _ _ rfl rfl rfl
  have hcode : refused.ending.exitCode? = some 1 :=
    hagrees'.failure.mpr (Or.inl fun c' hc' hvalid' => by cases hc'; cases hvalid'.loops_pos)
  exact ⟨hagrees.success.mpr ⟨c, rfl, hvalid, result, hresult⟩, hagrees.tree c rfl hvalid, hcode,
    hagrees'.unchanged hcode, hagrees''.success.mpr ⟨marked, rfl, hvalid', result', hresult'⟩,
    hagrees''.tree marked rfl hvalid'⟩

end Ostinato

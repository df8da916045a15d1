/-
**The options of a run (`config.c`, and the start of `main`).**

`set_config_opts` fills the value of each option from the default, the environment, the first
`config` section and the command line, in this order. `main` calls it before the configuration file is
read, to know its name, and again with the file. The command line is the sequence of what
`getopt_long` reports on it, from left to right; both calls scan it from the start.

The scan ends at the first switch that is unknown, with an error that neither call of `main` looks at.
So every switch takes effect if and only if no unknown one stands in front of the first `-h` or `-v`
(`switches_takeEffect_iff`).
-/

import Genimage.Util.Errno
import Mathlib.Logic.Function.Basic
import Mathlib.Tactic

namespace Genimage

/-! ### The options -/

/-- `struct config`: `opt` is the name in the `config` section, if the option can stand there. -/
structure Config where
  name : String
  opt : Option String
  env : String
  default : Option String
deriving DecidableEq, Repr

/-- `opts` -/
def opts : List Config := [
  ⟨"loglevel", some "loglevel", "GENIMAGE_LOGLEVEL", some "1"⟩,
  ⟨"rootpath", some "rootpath", "GENIMAGE_ROOTPATH", some "root"⟩,
  ⟨"tmppath", some "tmppath", "GENIMAGE_TMPPATH", some "tmp"⟩,
  ⟨"inputpath", some "inputpath", "GENIMAGE_INPUTPATH", some "input"⟩,
  ⟨"outputpath", some "outputpath", "GENIMAGE_OUTPUTPATH", some "images"⟩,
  ⟨"includepath", some "includepath", "GENIMAGE_INCLUDEPATH", none⟩,
  ⟨"cpio", some "cpio", "GENIMAGE_CPIO", some "cpio"⟩,
  ⟨"dd", some "dd", "GENIMAGE_DD", some "dd"⟩,
  ⟨"debugfs", some "debugfs", "GENIMAGE_DEBUGFS", some "debugfs"⟩,
  ⟨"e2fsck", some "e2fsck", "GENIMAGE_E2FSCK", some "e2fsck"⟩,
  ⟨"genext2fs", some "genext2fs", "GENIMAGE_GENEXT2FS", some "genext2fs"⟩,
  ⟨"genisoimage", some "genisoimage", "GENIMAGE_GENISOIMAGE", some "genisoimage"⟩,
  ⟨"mcopy", some "mcopy", "GENIMAGE_MCOPY", some "mcopy"⟩,
  ⟨"mmd", some "mmd", "GENIMAGE_MMD", some "mmd"⟩,
  ⟨"mkcramfs", some "mkcramfs", "GENIMAGE_MKCRAMFS", some "mkfs.cramfs"⟩,
  ⟨"mkdosfs", some "mkdosfs", "GENIMAGE_MKDOSFS", some "mkdosfs"⟩,
  ⟨"mke2fs", some "mke2fs", "GENIMAGE_MKE2FS", some "mke2fs"⟩,
  ⟨"mkfserofs", some "mkfserofs", "GENIMAGE_MKFSEROFS", some "mkfs.erofs"⟩,
  ⟨"mkfsjffs2", some "mkfsjffs2", "GENIMAGE_MKFJFFS2", some "mkfs.jffs2"⟩,
  ⟨"mkfsf2fs", some "mkfsf2fs", "GENIMAGE_MKFSF2FS", some "mkfs.f2fs"⟩,
  ⟨"mkfsbtrfs", some "mkfsfbtrfs", "GENIMAGE_MKFSBTRFS", some "mkfs.btrfs"⟩,
  ⟨"openssl", some "openssl", "GENIMAGE_OPENSSL", some "openssl"⟩,
  ⟨"sloadf2fs", some "sloadf2fs", "GENIMAGE_SLOADF2FS", some "sload.f2fs"⟩,
  ⟨"mkfsubifs", some "mkfsubifs", "GENIMAGE_MKFSUBIFS", some "mkfs.ubifs"⟩,
  ⟨"mksquashfs", some "mksquashfs", "GENIMAGE_MKSQUASHFS", some "mksquashfs"⟩,
  ⟨"qemu-img", some "qemu-img", "GENIMAGE_QEMU", some "qemu-img"⟩,
  ⟨"randomseed", some "randomseed", "GENIMAGE_RANDOMSEED", none⟩,
  ⟨"rauc", some "rauc", "GENIMAGE_RAUC", some "rauc"⟩,
  ⟨"tar", some "tar", "GENIMAGE_TAR", some "tar"⟩,
  ⟨"tune2fs", some "tune2fs", "GENIMAGE_TUNE2FS", some "tune2fs"⟩,
  ⟨"ubinize", some "ubinize", "GENIMAGE_UBINIZE", some "ubinize"⟩,
  ⟨"mkimage", some "mkimage", "GENIMAGE_MKIMAGE", some "mkimage"⟩,
  ⟨"fiptool", some "fiptool", "GENIMAGE_FIPTOOL", some "fiptool"⟩,
  ⟨"veritysetup", some "veritysetup", "GENIMAGE_VERITYSETUP", some "veritysetup"⟩,
  ⟨"config", none, "GENIMAGE_CONFIG", some "genimage.cfg"⟩,
  ⟨"configdump", none, "GENIMAGE_CONFIGDUMP", none⟩]

/-- The values of the options, by name; `none` is a null pointer. -/
abbrev OptValues := String → Option String

/-- `get_opt` -/
def getOpt (values : OptValues) (name : String) : Option String :=
  if opts.any (·.name = name) then values name else none

/-- `set_opt` -/
def setOpt (name value : String) (values : OptValues) : Int × OptValues :=
  if opts.any (·.name = name) then (0, Function.update values name (some value))
  else (einval, values)

/-- What `getopt_long` reports: an option with its argument, `-h`, `-v`, or `'?'` for everything that
it does not know. -/
inductive Switch where
  | option (index : Fin opts.length) (optarg : String)
  | help
  | version
  | unknown
deriving DecidableEq, Repr

/-- The first `config` section of a configuration file. -/
structure ConfigSection where
  value : String → Option String
  gptShortcuts : List (String × String)

/-- What `set_config_opts` writes. -/
structure OptState where
  values : OptValues
  gptShortcuts : List (String × String)

/-- The loop body for one option in front of the command line. -/
def initOpt (env : String → Option String) (cfgsec : Option ConfigSection) (values : OptValues)
    (c : Config) : OptValues :=
  let values := c.default.elim values fun str => (setOpt c.name str values).2
  let values := (env c.env).elim values fun str => (setOpt c.name str values).2
  (cfgsec.bind fun cfgsec => c.opt.bind cfgsec.value).elim values fun str =>
    (setOpt c.name str values).2

/-- The loop over `getopt_long`; `none` is the exit after the help or the version. -/
def switchLoop : List Switch → OptValues → Option (Int × OptValues)
  | [], values => some (0, values)
  | .option index optarg :: rest, values =>
    let (ret, values) := setOpt (opts.get index).name optarg values
    if ret ≠ 0 then some (ret, values) else switchLoop rest values
  | .help :: _, _ => none
  | .version :: _, _ => none
  | .unknown :: _, values => some (einval, values)

/-- `set_config_opts`. `cfgsec` is the section of the file, if there is a file that has one. -/
def setConfigOpts (switches : List Switch) (env : String → Option String)
    (cfgsec : Option ConfigSection) (state : OptState) : Option (Int × OptState) :=
  let values := opts.foldl (initOpt env cfgsec) state.values
  let gptShortcuts := cfgsec.elim state.gptShortcuts ConfigSection.gptShortcuts
  (switchLoop switches values).map fun (ret, values) => (ret, ⟨values, gptShortcuts⟩)

/-- What `main` finds on the disk: whether an include path can be set, and the configuration file of
a name, read with this include path. -/
structure ConfigFiles where
  setIncludePath : String → Int
  cfgParse : Option String → Option String → Except Int (Option ConfigSection)

/-- Where `main` stands behind the second call. -/
inductive Started where
  | exited
  | stopped (ret : Int)
  | continues (state : OptState)

/-- `main` up to the second call of `set_config_opts`. -/
def mainOptions (switches : List Switch) (env : String → Option String) (files : ConfigFiles) :
    Started :=
  match setConfigOpts switches env none ⟨fun _ => none, []⟩ with
  | none => .exited
  | some (_, state) =>
    let ret := (getOpt state.values "includepath").elim 0 files.setIncludePath
    if ret ≠ 0 then .stopped ret
    else
      match files.cfgParse (getOpt state.values "includepath") (getOpt state.values "config") with
      | .error ret => .stopped ret
      | .ok cfgsec =>
        match setConfigOpts switches env cfgsec state with
        | none => .exited
        | some (_, state) => .continues state

/-! ### The rules -/

/-- The arguments of an option on the command line. -/
def argsOf (name : String) (switches : List Switch) : List String :=
  switches.filterMap fun
    | .option index optarg => if (opts.get index).name = name then some optarg else none
    | _ => none

/-- **The value of an option**: its last occurrence on the command line, else the value in the
section, else the environment variable, else the default. -/
def valueByRules (switches : List Switch) (env : String → Option String)
    (cfgsec : Option ConfigSection) (c : Config) : Option String :=
  (argsOf c.name switches).getLast?.or <|
    (cfgsec.bind fun cfgsec => c.opt.bind cfgsec.value).or <| (env c.env).or c.default

/-- The options that `main` reads between the calls. -/
def includepathOpt : Config := ⟨"includepath", some "includepath", "GENIMAGE_INCLUDEPATH", none⟩

def configOpt : Config := ⟨"config", none, "GENIMAGE_CONFIG", some "genimage.cfg"⟩

/-- **Every switch takes effect or the program stops.** If `main` goes on, every switch on the command
line is an option, the file that was read is the one that the rules give, and every option has the
value that the rules give. -/
structure TakeEffect (switches : List Switch) (env : String → Option String) (files : ConfigFiles)
    (state : OptState) : Prop where
  taken : ∀ switch ∈ switches, ∃ index optarg, switch = .option index optarg
  value : ∃ cfgsec, files.cfgParse (valueByRules switches env none includepathOpt)
      (valueByRules switches env none configOpt) = .ok cfgsec ∧
    ∀ c ∈ opts, getOpt state.values c.name = valueByRules switches env cfgsec c

/-! ### Filling the values -/

theorem nodup_opts : (opts.map Config.name).Nodup := by decide +kernel

theorem any_opts {c : Config} (member : c ∈ opts) : opts.any (·.name = c.name) = true :=
  List.any_eq_true.mpr ⟨c, member, decide_eq_true rfl⟩

theorem setOpt_of_mem {c : Config} (member : c ∈ opts) (value : String) (values : OptValues) :
    setOpt c.name value values = (0, Function.update values c.name (some value)) :=
  if_pos (any_opts member)

theorem getOpt_of_mem {c : Config} (member : c ∈ opts) (values : OptValues) :
    getOpt values c.name = values c.name :=
  if_pos (any_opts member)

section Fill

variable {env : String → Option String} {cfgsec : Option ConfigSection}

/-- The value that the loop body gives to its option; without any source the old one stays. -/
def filled (env : String → Option String) (cfgsec : Option ConfigSection) (c : Config)
    (old : Option String) : Option String :=
  (cfgsec.bind fun cfgsec => c.opt.bind cfgsec.value).or <| (env c.env).or (c.default.or old)

/-- One source of a value. -/
theorem elim_setOpt {c : Config} (member : c ∈ opts) (source : Option String) (values : OptValues) :
    (source.elim values fun str => (setOpt c.name str values).2) =
      Function.update values c.name (source.or (values c.name)) := by
  cases source with
  | none => exact (Function.update_eq_self c.name values).symm
  | some str =>
    show (setOpt c.name str values).2 = _
    rw [setOpt_of_mem member]
    rfl

theorem initOpt_eq {c : Config} (member : c ∈ opts) (values : OptValues) :
    initOpt env cfgsec values c =
      Function.update values c.name (filled env cfgsec c (values c.name)) := by
  unfold initOpt filled
  simp only [elim_setOpt member, Function.update_self, Function.update_idem]

/-- **The loop fills every option once.** -/
theorem foldl_initOpt {list : List Config} (among : list ⊆ opts)
    (nodup : (list.map Config.name).Nodup) (values : OptValues) :
    (∀ c ∈ list, list.foldl (initOpt env cfgsec) values c.name =
      filled env cfgsec c (values c.name)) ∧
    ∀ name, name ∉ list.map Config.name →
      list.foldl (initOpt env cfgsec) values name = values name := by
  induction list generalizing values with
  | nil => exact ⟨fun c member => absurd member List.not_mem_nil, fun _ _ => rfl⟩
  | cons d list ih =>
    rw [List.map_cons, List.nodup_cons] at nodup
    obtain ⟨fresh, nodup⟩ := nodup
    have first : initOpt env cfgsec values d =
        Function.update values d.name (filled env cfgsec d (values d.name)) :=
      initOpt_eq (among List.mem_cons_self) values
    obtain ⟨each, others⟩ := ih (fun c member => among (List.mem_cons_of_mem d member)) nodup
      (initOpt env cfgsec values d)
    constructor
    · intro c member
      rw [List.foldl_cons]
      rcases List.mem_cons.mp member with rfl | member
      · rw [others c.name fresh, first, Function.update_self]
      · have other : c.name ≠ d.name := by
          intro same
          exact fresh (same ▸ List.mem_map_of_mem member)
        rw [each c member, first, Function.update_of_ne other]
    · intro name without
      rw [List.map_cons, List.mem_cons, not_or] at without
      rw [List.foldl_cons, others name without.2, first, Function.update_of_ne without.1]

end Fill

/-! ### The command line -/

/-- **An unknown switch stands in front of the first `-h` or `-v`.** -/
def UnknownFirst (switches : List Switch) : Prop :=
  ∃ front rest, switches = front ++ .unknown :: rest ∧
    ∀ switch ∈ front, ∃ index optarg, switch = .option index optarg

theorem argsOf_option (name : String) (index : Fin opts.length) (optarg : String)
    (rest : List Switch) : argsOf name (.option index optarg :: rest) =
      if (opts.get index).name = name then optarg :: argsOf name rest else argsOf name rest := by
  unfold argsOf
  rw [List.filterMap_cons]
  dsimp only
  by_cases same : (opts.get index).name = name
  · rw [if_pos same, if_pos same]
  · rw [if_neg same, if_neg same]

/-- The first option of a command line gives way to later ones. -/
theorem argsOf_cons (name : String) (index : Fin opts.length) (optarg : String)
    (rest : List Switch) (old : Option String) :
    (argsOf name (.option index optarg :: rest)).getLast?.or old =
      (argsOf name rest).getLast?.or (if (opts.get index).name = name then some optarg else old) := by
  rw [argsOf_option]
  by_cases same : (opts.get index).name = name
  · rw [if_pos same, if_pos same, List.getLast?_cons]
    cases (argsOf name rest).getLast? with
    | none => rfl
    | some last => rfl
  · rw [if_neg same, if_neg same]

/-- One option of the command line. -/
theorem switchLoop_option (index : Fin opts.length) (optarg : String) (rest : List Switch)
    (values : OptValues) : switchLoop (.option index optarg :: rest) values =
      switchLoop rest (Function.update values (opts.get index).name (some optarg)) := by
  rw [switchLoop, setOpt_of_mem (List.get_mem opts index)]
  exact if_neg (not_not_intro rfl)

/-- **The scan up to the first switch that is no option.** -/
theorem switchLoop_options {front : List Switch}
    (options : ∀ switch ∈ front, ∃ index optarg, switch = .option index optarg)
    (rest : List Switch) (values : OptValues) :
    ∃ next, switchLoop (front ++ rest) values = switchLoop rest next ∧
      ∀ name, next name = (argsOf name front).getLast?.or (values name) := by
  induction front generalizing values with
  | nil => exact ⟨values, rfl, fun _ => rfl⟩
  | cons switch front ih =>
    obtain ⟨index, optarg, rfl⟩ := options switch List.mem_cons_self
    obtain ⟨next, run, value⟩ := ih (fun switch member => options switch
      (List.mem_cons_of_mem _ member)) (Function.update values (opts.get index).name (some optarg))
    refine ⟨next, by rw [List.cons_append, switchLoop_option, run], fun name => ?_⟩
    rw [value, argsOf_cons]
    by_cases same : (opts.get index).name = name
    · rw [if_pos same, ← same, Function.update_self]
    · rw [if_neg same, Function.update_of_ne (Ne.symm same)]

/-- **The ways a command line can go.** -/
theorem switches_cases (switches : List Switch) :
    (∀ switch ∈ switches, ∃ index optarg, switch = .option index optarg) ∨
    UnknownFirst switches ∨ ∀ values, switchLoop switches values = none := by
  induction switches with
  | nil => exact Or.inl fun switch member => absurd member List.not_mem_nil
  | cons switch switches ih =>
    cases switch with
    | option index optarg =>
      have here : ∀ front : List Switch,
          (∀ switch ∈ front, ∃ index optarg, switch = .option index optarg) →
          ∀ switch ∈ Switch.option index optarg :: front,
            ∃ index optarg, switch = .option index optarg := by
        intro front options switch member
        rcases List.mem_cons.mp member with rfl | member
        · exact ⟨index, optarg, rfl⟩
        · exact options switch member
      rcases ih with options | ⟨front, rest, rfl, options⟩ | exits
      · exact Or.inl (here switches options)
      · exact Or.inr (Or.inl ⟨.option index optarg :: front, rest, rfl, here front options⟩)
      · exact Or.inr (Or.inr fun values => by rw [switchLoop_option, exits])
    | help => exact Or.inr (Or.inr fun values => rfl)
    | version => exact Or.inr (Or.inr fun values => rfl)
    | unknown =>
      exact Or.inr (Or.inl ⟨[], switches, rfl, fun switch member => absurd member List.not_mem_nil⟩)

/-! ### Both calls -/

section Calls

variable {switches : List Switch} {env : String → Option String}

/-- **One call on a command line of options.** -/
theorem setConfigOpts_options
    (options : ∀ switch ∈ switches, ∃ index optarg, switch = .option index optarg)
    (env : String → Option String) (cfgsec : Option ConfigSection) (state : OptState) :
    ∃ next, setConfigOpts switches env cfgsec state = some (0, next) ∧
      ∀ c ∈ opts, next.values c.name = (argsOf c.name switches).getLast?.or
        (filled env cfgsec c (state.values c.name)) := by
  obtain ⟨values, run, value⟩ := switchLoop_options options []
    (opts.foldl (initOpt env cfgsec) state.values)
  rw [List.append_nil] at run
  refine ⟨⟨values, cfgsec.elim state.gptShortcuts ConfigSection.gptShortcuts⟩, ?_, ?_⟩
  · unfold setConfigOpts
    dsimp only
    rw [run]
    rfl
  · intro c member
    dsimp only
    rw [value, (foldl_initOpt (List.Subset.refl opts) nodup_opts state.values).1 c member]

/-- The first call gives the value of the rules without a file. -/
theorem first_value {c : Config} (member : c ∈ opts) {state : OptState}
    (value : ∀ c ∈ opts, state.values c.name =
      (argsOf c.name switches).getLast?.or (filled env none c none)) :
    getOpt state.values c.name = valueByRules switches env none c := by
  rw [getOpt_of_mem member, value c member, filled, valueByRules, Option.or_none]

/-- **The second call forgets the first one**, but for what the rules give again. -/
theorem second_value (last section_ env default : Option String) :
    last.or (section_.or (env.or (default.or (last.or (env.or default))))) =
      last.or (section_.or (env.or default)) := by
  cases last with
  | some value => rfl
  | none =>
    cases section_ with
    | some value => rfl
    | none =>
      cases env with
      | some value => rfl
      | none =>
        cases default with
        | some value => rfl
        | none => rfl

/-- A command line of options takes effect. -/
theorem takeEffect_options
    (options : ∀ switch ∈ switches, ∃ index optarg, switch = .option index optarg)
    {files : ConfigFiles} {state : OptState}
    (run : mainOptions switches env files = .continues state) :
    TakeEffect switches env files state := by
  obtain ⟨first, firstRun, firstValue⟩ := setConfigOpts_options options env none
    ⟨fun _ => none, []⟩
  have includepath := first_value (show includepathOpt ∈ opts by decide +kernel) firstValue
  have config := first_value (show configOpt ∈ opts by decide +kernel) firstValue
  unfold mainOptions at run
  rw [firstRun] at run
  dsimp only at run
  split at run
  · cases run
  · split at run
    · cases run
    · next cfgsec parsed =>
      obtain ⟨second, secondRun, secondValue⟩ :=
        setConfigOpts_options options env cfgsec first
      rw [secondRun] at run
      obtain rfl := Started.continues.inj run
      refine ⟨options, cfgsec, ?_, ?_⟩
      · rw [← includepath, ← config]
        exact parsed
      · intro c member
        have before := first_value member firstValue
        rw [getOpt_of_mem member] at before ⊢
        rw [secondValue c member, before, filled, valueByRules, valueByRules]
        exact second_value _ _ _ _

/-- **Behind an unknown switch `main` goes on.** -/
theorem continues_unknown (unknown : UnknownFirst switches) (env : String → Option String) :
    ∃ state, mainOptions switches env ⟨fun _ => 0, fun _ _ => .ok none⟩ = .continues state := by
  obtain ⟨front, rest, rfl, options⟩ := unknown
  have call : ∀ state, ∃ next,
      setConfigOpts (front ++ .unknown :: rest) env none state = some (einval, next) := by
    intro state
    obtain ⟨values, run, -⟩ := switchLoop_options options (.unknown :: rest)
      (opts.foldl (initOpt env none) state.values)
    unfold setConfigOpts
    dsimp only
    rw [run]
    exact ⟨_, rfl⟩
  obtain ⟨first, firstRun⟩ := call ⟨fun _ => none, []⟩
  obtain ⟨second, secondRun⟩ := call first
  refine ⟨second, ?_⟩
  have found : (getOpt first.values "includepath").elim 0 (fun _ => (0 : Int)) = 0 := by
    cases getOpt first.values "includepath" with
    | none => rfl
    | some path => rfl
  unfold mainOptions
  rw [firstRun]
  dsimp only
  rw [if_neg (not_not_intro found), secondRun]

end Calls

/-- **Every switch takes effect or the program stops**, for all configuration files, if and only if no
unknown switch stands in front of the first `-h` or `-v`. -/
theorem switches_takeEffect_iff (switches : List Switch) (env : String → Option String) :
    (∀ files state, mainOptions switches env files = .continues state →
      TakeEffect switches env files state) ↔ ¬ UnknownFirst switches := by
  constructor
  · intro effect unknown
    obtain ⟨state, run⟩ := continues_unknown unknown env
    obtain ⟨front, rest, rfl, -⟩ := unknown
    obtain ⟨index, optarg, same⟩ := (effect _ state run).taken .unknown (by simp)
    cases same
  · intro known files state run
    rcases switches_cases switches with options | unknown | exits
    · exact takeEffect_options options run
    · exact absurd unknown known
    · unfold mainOptions setConfigOpts at run
      dsimp only at run
      rw [exits] at run
      cases run

/-- `genimage --unknown --config other.cfg`: the run goes on with `genimage.cfg`. -/
theorem switches_dropped : ¬ ∀ files state,
    mainOptions [.unknown, .option ⟨34, by decide⟩ "other.cfg"] (fun _ => none) files =
      .continues state →
    TakeEffect [.unknown, .option ⟨34, by decide⟩ "other.cfg"] (fun _ => none) files state := by
  intro effect
  obtain ⟨state, run⟩ := continues_unknown
    ⟨[], [.option ⟨34, by decide⟩ "other.cfg"], rfl, fun _ member => absurd member List.not_mem_nil⟩
    (fun _ => none)
  obtain ⟨index, optarg, same⟩ := (effect _ state run).taken .unknown List.mem_cons_self
  cases same

end Genimage

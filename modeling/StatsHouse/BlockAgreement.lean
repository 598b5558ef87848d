import Mathlib.Data.List.FinRange
import StatsHouse.Ready

/-! # The metric blocks of the two modules

The stream module compiles the strings of a block while it reads it, the HTTP module keeps
them until all blocks are read. A directive `exists` and a property `exists=` are for the HTTP
module only, and a condition with several arguments is several conditions in the stream
module and the first of them in the HTTP module. Blocks without these come to the same.

* `blocks_agree`: on such blocks the two modules make the same metrics, or both none.
-/

namespace StatsHouse

open Once Threaded

variable {C : Type}

/-- A metric of the stream module, as its handler finds it. -/
def MetricBlock.streamConf (shc : MetricBlock C) : MetricConf (Option C) :=
  shc.conf false (some shc.blockValue.string) shc.condition (shc.keyList.map fun key =>
    key.elim ConfKey.unset fun key => key.conf (some key.string) false)

/-- A directive that both modules read alike. -/
structure BlockDirective.Plain (d : BlockDirective) : Prop where
  name : d.name ≠ ascii "exists"
  condition : d.name = ascii "condition" → d.args.length ≤ 1
  args : ∀ arg ∈ d.args.tail, ¬ IsExists arg

instance BlockDirective.decidablePlain (d : BlockDirective) : Decidable d.Plain :=
  decidable_of_iff
    (d.name ≠ ascii "exists" ∧ (d.name = ascii "condition" → d.args.length ≤ 1) ∧
      ∀ arg ∈ d.args.tail, ¬ IsExists arg)
    ⟨fun ⟨h₁, h₂, h₃⟩ => ⟨h₁, h₂, h₃⟩, fun ⟨h₁, h₂, h₃⟩ => ⟨h₁, h₂, h₃⟩⟩

/-! ## Compilation of a setting -/

/-- A setting with its strings compiled. -/
def Setting.compile (f : Str → Option C) : Setting Str → Option (Setting C)
  | .existsVar name => some (.existsVar name)
  | .condition cs => (cs.mapM f).map .condition
  | .phase s => some (.phase s)
  | .timeout n => some (.timeout n)
  | .value v => (f v.string).map fun s => .value ⟨s, v.type, v.split⟩
  | .key k a => (f a.string).map fun s => .key k ⟨s, a.name, a.existsVars, a.split⟩
  | .sample n => some (.sample n)

theorem Setting.compile_field {f : Str → Option C} {s : Setting Str} {s' : Setting C}
    (h : s.compile f = some s') : s'.field = s.field := by
  cases s with
  | condition cs =>
      rcases Option.map_eq_some_iff.mp h with ⟨a, -, rfl⟩
      rfl
  | value v =>
      rcases Option.map_eq_some_iff.mp h with ⟨a, -, rfl⟩
      rfl
  | key k a =>
      rcases Option.map_eq_some_iff.mp h with ⟨b, -, rfl⟩
      rfl
  | _ =>
      cases h
      rfl

section Directive

variable {cf : ConfSlots} {compile : Str → Option C}

theorem settingValue_compile (type : MetricType) (value : Str) (args : List Str) :
    (streamBlock cf compile).settingValue type value args =
      ((httpBlock cf).settingValue type value args).bind fun v =>
        (compile v.string).map fun s => ⟨s, v.type, v.split⟩ := by
  unfold BlockModule.settingValue
  by_cases hargs : ∀ arg ∈ args, IsSplit arg
  · rw [if_pos hargs, if_pos hargs]
    rfl
  · rw [if_neg hargs, if_neg hargs]
    rfl

theorem settingKey_compile (name value : Str) {args : List Str}
    (hargs : ∀ arg ∈ args, ¬ IsExists arg) :
    (streamBlock cf compile).settingKey name value args =
      ((httpBlock cf).settingKey name value args).bind fun a =>
        (compile a.string).map fun s => ⟨s, a.name, a.existsVars, a.split⟩ := by
  have hhttp : (∀ arg ∈ args, IsSplit arg ∨ (httpBlock cf).keyExists = true ∧ IsExists arg) ↔
      ∀ arg ∈ args, IsSplit arg :=
    forall₂_congr fun arg harg => or_iff_left fun h => hargs arg harg h.2
  have hstream : (∀ arg ∈ args,
      IsSplit arg ∨ (streamBlock cf compile).keyExists = true ∧ IsExists arg) ↔
      ∀ arg ∈ args, IsSplit arg :=
    forall₂_congr fun arg harg => or_iff_left fun h => hargs arg harg h.2
  -- without `exists=` both modules take `split` only
  unfold BlockModule.settingKey
  by_cases hsplit : ∀ arg ∈ args, IsSplit arg
  · rw [if_pos (hstream.mpr hsplit), if_pos (hhttp.mpr hsplit)]
    rfl
  · rw [if_neg fun h => hsplit (hstream.mp h), if_neg fun h => hsplit (hhttp.mp h)]
    rfl

/-- What a command says to the stream module is what it says to the HTTP module, compiled. -/
theorem settingArgs_compile {slot : BlockSlot} (hslot : slot ≠ .predicateSlot) (value : Str)
    {args : List Str} (hargs : ∀ arg ∈ args, ¬ IsExists arg) :
    (streamBlock cf compile).settingArgs slot value args =
      ((httpBlock cf).settingArgs slot value args).bind (Setting.compile compile) := by
  cases slot with
  | existsSlot => rfl
  | conditionSlot =>
      show (compile value).map (fun s => Setting.condition [s]) =
        ([value].mapM compile).map Setting.condition
      rw [List.mapM_cons, List.mapM_nil]
      cases compile value <;> rfl
  | predicateSlot => exact absurd rfl hslot
  | secSlot =>
      unfold BlockModule.settingArgs
      show (cf.parseTime value).map _ = Option.bind ((cf.parseTime value).map _) _
      cases cf.parseTime value <;> rfl
  | valueSlot type =>
      simp only [BlockModule.settingArgs, settingValue_compile]
      cases (httpBlock cf).settingValue type value args with
      | none => rfl
      | some v => simp [Setting.compile, Function.comp_def]
  | strSlot => rfl
  | keySlot k name =>
      simp only [BlockModule.settingArgs, settingKey_compile name value hargs]
      cases (httpBlock cf).settingKey name value args with
      | none => rfl
      | some a => simp [Setting.compile, Function.comp_def]
  | numSlot =>
      unfold BlockModule.settingArgs
      show (cf.atoi.parse value).map _ = Option.bind ((cf.atoi.parse value).map _) _
      cases cf.atoi.parse value <;> rfl

theorem command_http {name : Str} (hexists : name ≠ ascii "exists")
    (hcondition : name ≠ ascii "condition") :
    (httpBlock cf).command name = blockCommands.find? fun c => c.name = name := by
  show List.find? _ (_ :: _ :: blockCommands) = _
  rw [List.find?_cons_of_neg (by simpa using hexists.symm),
    List.find?_cons_of_neg (by simpa using hcondition.symm)]

theorem command_stream {name : Str} (hcondition : name ≠ ascii "condition") :
    (streamBlock cf compile).command name = blockCommands.find? fun c => c.name = name := by
  show List.find? _ (_ :: blockCommands) = _
  rw [List.find?_cons_of_neg (by simpa using hcondition.symm)]

/-- What the entries from `timeout` on do not do. -/
theorem blockCommands_slot : ∀ cmd ∈ blockCommands,
    cmd.slot ≠ .predicateSlot ∧ cmd.slot ≠ .existsSlot := by decide

/-- What a directive says to the stream module is what it says to the HTTP module,
compiled. -/
theorem setting_compile {d : BlockDirective} (hplain : d.Plain) :
    (streamBlock cf compile).setting d =
      ((httpBlock cf).setting d).bind (Setting.compile compile) := by
  unfold BlockModule.setting
  by_cases hcondition : d.name = ascii "condition"
  · have hlength := hplain.condition hcondition
    rw [hcondition]
    cases hargs : d.args with
    | nil => rfl
    -- one argument: the first is all that there is
    | cons value args =>
        rw [hargs, List.length_cons] at hlength
        have hnil : args = [] := List.length_eq_zero_iff.mp (by omega)
        subst hnil
        rfl
  -- the entries that both tables have
  · rw [command_http hplain.name hcondition, command_stream hcondition]
    cases hcommand : blockCommands.find? fun c => c.name = d.name with
    | none => rfl
    | some cmd =>
        cases hargs : d.args with
        | nil => rfl
        | cons value args =>
            have htail : ∀ arg ∈ args, ¬ IsExists arg := by
              have := hplain.args
              rwa [hargs] at this
            have hslot := (blockCommands_slot cmd (List.mem_of_find?_eq_some hcommand)).1
            show (if _ then _ else _) = Option.bind (if _ then _ else _) _
            by_cases hcount : cmd.take1 ∧ args ≠ []
            · rw [if_pos hcount, if_pos hcount]
              rfl
            · rw [if_neg hcount, if_neg hcount]
              exact settingArgs_compile hslot value htail

/-- A setting that asks for no variable to exist. -/
structure Setting.Bare {S : Type} (s : Setting S) : Prop where
  existsVars : s.existsVars = []
  key : ∀ k a, s = .key k a → a.existsVars = []

theorem settingArgs_bare {S : Type} {m : BlockModule S} {slot : BlockSlot}
    (hslot : slot ≠ .existsSlot) {value : Str} {args : List Str}
    (hargs : ∀ arg ∈ args, ¬ IsExists arg) {s : Setting S}
    (h : m.settingArgs slot value args = some s) : s.Bare := by
  cases slot with
  | existsSlot => exact absurd rfl hslot
  | keySlot k name =>
      rcases Option.map_eq_some_iff.mp h with ⟨a, ha, rfl⟩
      refine ⟨rfl, ?_⟩
      intro k' a' heq
      cases heq
      unfold BlockModule.settingKey at ha
      split at ha
      · rcases Option.map_eq_some_iff.mp ha with ⟨c, -, rfl⟩
        -- no property was an `exists=`
        have hnone : args.filter (IsExists ·) = [] := by simpa using hargs
        simp only [hnone, List.map_nil]
      · cases ha
  | strSlot =>
      cases h
      exact ⟨rfl, fun k a heq => nomatch heq⟩
  | _ =>
      rcases Option.map_eq_some_iff.mp h with ⟨a, -, rfl⟩
      exact ⟨rfl, fun k a heq => nomatch heq⟩

theorem setting_bare {d : BlockDirective} (hplain : d.Plain) {s : Setting Str}
    (h : (httpBlock cf).setting d = some s) : s.Bare := by
  rcases setting_eq_some h with ⟨cmd, value, args, hcommand, hargs, hset⟩
  have htail : ∀ arg ∈ args, ¬ IsExists arg := by
    have := hplain.args
    rwa [hargs] at this
  refine settingArgs_bare ?_ htail hset
  by_cases hcondition : d.name = ascii "condition"
  · rw [hcondition] at hcommand
    cases hcommand
    decide
  · rw [command_http hplain.name hcondition] at hcommand
    exact (blockCommands_slot cmd (List.mem_of_find?_eq_some hcommand)).2

end Directive

/-! ## Compilation of a block -/

/-- A value that is compiled. -/
def BlockValue.Compiled (f : Str → Option C) (v : BlockValue Str) (v' : BlockValue C) : Prop :=
  f v.string = some v'.string ∧ v.type = v'.type ∧ v.split = v'.split

/-- A key that is compiled. -/
def BlockKey.Compiled (f : Str → Option C) (a : BlockKey Str) (a' : BlockKey C) : Prop :=
  f a.string = some a'.string ∧ a.name = a'.name ∧ a.existsVars = a'.existsVars ∧
    a.split = a'.split

/-- A block whose strings are compiled. -/
structure Block.Compiled (f : Str → Option C) (shc : Block Str) (shc' : Block C) : Prop where
  name : shc.name = shc'.name
  phase : shc.phase = shc'.phase
  existsVars : shc.existsVars = shc'.existsVars
  condition : List.Forall₂ (fun s c => f s = some c) shc.condition shc'.condition
  timeout : shc.timeout = shc'.timeout
  value : Option.Rel (BlockValue.Compiled f) shc.value shc'.value
  keys : ∀ k, Option.Rel (BlockKey.Compiled f) (shc.keys k) (shc'.keys k)
  sample : shc.sample = shc'.sample

section Compiled

variable {f : Str → Option C}

theorem Block.init_compiled (name : Str) : (Block.init name).Compiled f (Block.init name) :=
  ⟨rfl, rfl, rfl, .nil, rfl, .none, fun _ => .none, rfl⟩

/-- A setting is put where it is put before it is compiled. -/
theorem Block.Compiled.put {shc : Block Str} {shc' : Block C} (h : shc.Compiled f shc')
    {s : Setting Str} {s' : Setting C} (hs : s.compile f = some s') :
    (Setting.put shc s).Compiled f (Setting.put shc' s') := by
  cases s with
  | existsVar name =>
      cases hs
      exact { h with existsVars := congrArg (· ++ [name]) h.existsVars }
  | condition cs =>
      rcases Option.map_eq_some_iff.mp hs with ⟨cs', hcs, rfl⟩
      exact { h with condition := List.rel_append h.condition (forall₂_of_mapM hcs) }
  | phase s =>
      cases hs
      exact { h with phase := rfl }
  | timeout n =>
      cases hs
      exact { h with timeout := rfl }
  | value v =>
      rcases Option.map_eq_some_iff.mp hs with ⟨c, hc, rfl⟩
      exact { h with value := .some ⟨hc, rfl, rfl⟩ }
  | key k a =>
      rcases Option.map_eq_some_iff.mp hs with ⟨c, hc, rfl⟩
      -- one place is set in both, the others stay as they are
      refine { h with keys := ?_ }
      intro j
      show Option.Rel _ (Function.update shc.keys k _ j) (Function.update shc'.keys k _ j)
      by_cases hj : j = k
      · subst hj
        rw [Function.update_self, Function.update_self]
        exact .some ⟨hc, rfl, rfl, rfl⟩
      · rw [Function.update_of_ne hj, Function.update_of_ne hj]
        exact h.keys j
  | sample n =>
      cases hs
      exact { h with sample := rfl }

theorem Block.Compiled.foldl_put {settings : List (Setting Str)} {settings' : List (Setting C)}
    (hsettings : List.Forall₂ (fun s s' => s.compile f = some s') settings settings')
    {shc : Block Str} {shc' : Block C} (h : shc.Compiled f shc') :
    (settings.foldl Setting.put shc).Compiled f (settings'.foldl Setting.put shc') := by
  induction hsettings generalizing shc shc' with
  | nil => exact h
  | cons hs _ ih => exact ih (h.put hs)

theorem fields_compile {settings : List (Setting Str)} {settings' : List (Setting C)}
    (hsettings : List.Forall₂ (fun s s' => s.compile f = some s') settings settings') :
    settings'.filterMap Setting.field = settings.filterMap Setting.field := by
  induction hsettings with
  | nil => rfl
  | cons hs _ ih =>
      have hfield := Setting.compile_field hs
      rw [List.filterMap_cons, List.filterMap_cons, hfield, ih]

theorem MetricBlock.blockValue_eq {S : Type} {shc : MetricBlock S} {v : BlockValue S}
    (h : shc.value = some v) : shc.blockValue = v := by
  unfold MetricBlock.blockValue
  simp only [h, Option.get_some]

theorem Block.Compiled.blockValue {shc : MetricBlock Str} {shc' : MetricBlock C}
    (h : shc.Compiled f shc'.toBlock) : shc.blockValue.Compiled f shc'.blockValue := by
  rcases Option.isSome_iff_exists.mp shc.valued with ⟨v, hv⟩
  rcases Option.isSome_iff_exists.mp shc'.valued with ⟨v', hv'⟩
  have hvalue := h.value
  rw [hv, hv'] at hvalue
  rw [MetricBlock.blockValue_eq hv, MetricBlock.blockValue_eq hv']
  cases hvalue with
  | some hcompiled => exact hcompiled

theorem Block.Compiled.conf_eq {shc : MetricBlock Str} {shc' : MetricBlock C}
    (h : shc.Compiled f shc'.toBlock) (disable : Bool) (value : Option C) (condition : List C)
    (keys : List (ConfKey (Option C))) :
    shc.conf disable value condition keys = shc'.conf disable value condition keys := by
  unfold MetricBlock.conf
  rcases h.blockValue with ⟨-, htype, hsplit⟩
  rw [h.name, h.timeout, h.phase, h.sample, htype, hsplit]

/-- A block that asks for no variable to exist. -/
structure Block.Bare (shc : Block Str) : Prop where
  existsVars : shc.existsVars = []
  keys : ∀ k a, shc.keys k = some a → a.existsVars = []

theorem Block.Declared.bare {name : Str} {settings : List (Setting Str)} {shc : Block Str}
    (h : shc.Declared name settings) (hbare : ∀ s ∈ settings, s.Bare) : shc.Bare := by
  constructor
  · rw [h.existsVars, List.flatMap_eq_nil_iff]
    exact fun s hs => (hbare s hs).existsVars
  · intro k a ha
    have hget : shc.get (.key k) = some (.key k a) := by
      show (shc.keys k).map (Setting.key k) = _
      rw [ha]
      rfl
    exact (hbare _ ((h.fields _ _).mp hget).1).key k a rfl

variable {cc : Compiler C} {vars vars' : Variables}

theorem run_of_compile {s : Str} {c : C} (h : cc.compile s = some c) (vars : Variables) :
    ∃ vars', cc.run vars s = some (c, vars') := by
  unfold Compiler.run
  rw [h]
  exact ⟨_, rfl⟩

theorem compile_of_run {s : Str} {r : C × Variables} (h : cc.run vars s = some r) :
    cc.compile s = some r.1 := by
  rcases Option.map_eq_some_iff.mp h with ⟨c, hc, rfl⟩
  exact hc

theorem initKey_of_compiled {key : Option (BlockKey Str)} {key' : Option (BlockKey C)}
    (h : Option.Rel (BlockKey.Compiled cc.compile) key key')
    (hbare : ∀ a, key = some a → a.existsVars = []) (vars : Variables) :
    ∃ vars', initKey cc vars key =
      some (key'.elim ConfKey.unset fun a => a.conf (some a.string) false, vars') := by
  cases h with
  | none => exact ⟨vars, rfl⟩
  | @some a a' ha =>
      rcases ha with ⟨hstring, hname, -, hsplit⟩
      rcases run_of_compile hstring vars with ⟨vars', hrun⟩
      -- nothing has to exist, so the key is compiled
      have hall : existAll vars a.existsVars = true := by
        rw [hbare a rfl]
        rfl
      refine ⟨vars', ?_⟩
      unfold initKey BlockKey.conf
      simp only [hall, if_true, hrun, Option.map_some, Option.elim_some, hname, hsplit]

/-- `ngx_http_statshouse_init_complex` makes of a block what the stream module makes of it. -/
theorem Block.Compiled.initConf {shc : MetricBlock Str} {shc' : MetricBlock C}
    (h : shc.Compiled cc.compile shc'.toBlock) (hbare : shc.Bare) (vars : Variables) :
    ∃ vars', initConf cc vars shc = some (shc'.streamConf, vars') := by
  have hkeys : List.Forall₂ (fun key key' => ∀ vars, ∃ vars',
      initKey cc vars key = some (key', vars')) shc.keyList
      (shc'.keyList.map fun key =>
        key.elim ConfKey.unset fun a => a.conf (some a.string) false) := by
    unfold Block.keyList
    rw [List.ofFn_eq_map, List.ofFn_eq_map, List.map_map, List.forall₂_map_left_iff,
      List.forall₂_map_right_iff, List.forall₂_same]
    intro k _
    exact initKey_of_compiled (h.keys k) (hbare.keys k)
  have hall : existAll vars shc.existsVars = true := by
    rw [hbare.existsVars]
    rfl
  rcases run_of_compile h.blockValue.1 vars with ⟨vars₁, hvalue⟩
  have hrun : ∀ vars (s : Str) (c : C), cc.compile s = some c →
      ∃ vars', cc.run vars s = some (c, vars') := fun vars s c hc => run_of_compile hc vars
  rcases mapAccum_of_forall₂ hrun h.condition vars₁ with ⟨vars₂, hcondition⟩
  rcases mapAccum_of_forall₂ (fun s _ _ hkey => hkey s) hkeys vars₂ with ⟨vars₃, hkeys⟩
  refine ⟨vars₃, ?_⟩
  unfold StatsHouse.initConf
  rw [if_pos hall, hvalue, Option.bind_some, hcondition, Option.bind_some, hkeys, Option.map_some,
    h.conf_eq]
  rfl

/-- Where `ngx_http_statshouse_init_complex` succeeds, all strings compile. -/
theorem compile_of_initConf {name : Str} {settings : List (Setting Str)} {shc : MetricBlock Str}
    (hdeclared : shc.Declared name settings) (hbare : shc.Bare)
    {r : MetricConf (Option C) × Variables} (h : initConf cc vars shc = some r) :
    ∀ s ∈ settings, (s.compile cc.compile).isSome := by
  have hall : existAll vars shc.existsVars = true := by
    rw [hbare.existsVars]
    rfl
  unfold initConf at h
  rw [if_pos hall] at h
  rcases Option.bind_eq_some_iff.mp h with ⟨value, hvalue, h⟩
  rcases Option.bind_eq_some_iff.mp h with ⟨condition, hcondition, h⟩
  rcases Option.map_eq_some_iff.mp h with ⟨keys, hkeys, -⟩
  have hconditions : ∀ s ∈ shc.condition, (cc.compile s).isSome := by
    refine forall_of_mapAccum_left ?_ hcondition
    intro vars s c vars' hrun
    rw [compile_of_run hrun]
    rfl
  have hkeyStrings : ∀ key ∈ shc.keyList, ∀ a, key = some a → a.existsVars = [] →
      (cc.compile a.string).isSome := by
    refine forall_of_mapAccum_left ?_ hkeys
    rintro vars key key' vars' hkey a rfl ha
    unfold initKey at hkey
    simp only [ha] at hkey
    rcases Option.map_eq_some_iff.mp hkey with ⟨c, hrun, -⟩
    rw [compile_of_run hrun]
    rfl
  -- a setting with a string is a field of the block, whose string was compiled
  intro s hs
  cases s with
  | condition cs =>
      have hmem : ∀ c ∈ cs, c ∈ shc.condition := by
        intro c hc
        rw [hdeclared.condition]
        exact List.mem_flatMap.mpr ⟨_, hs, hc⟩
      have hcs : cs.mapM cc.compile = some (cs.filterMap cc.compile) :=
        mapM_eq_some_iff.mpr ⟨fun c hc => hconditions c (hmem c hc), rfl⟩
      show ((cs.mapM cc.compile).map Setting.condition).isSome
      rw [hcs]
      rfl
  | value v =>
      have hget : shc.get .value = some (.value v) := (hdeclared.fields _ _).mpr ⟨hs, rfl⟩
      rcases Option.map_eq_some_iff.mp hget with ⟨v', hv', heq⟩
      cases heq
      rw [MetricBlock.blockValue_eq hv'] at hvalue
      show ((cc.compile v.string).map _).isSome
      rw [compile_of_run hvalue]
      rfl
  | key k a =>
      have hget : shc.get (.key k) = some (.key k a) := (hdeclared.fields _ _).mpr ⟨hs, rfl⟩
      rcases Option.map_eq_some_iff.mp hget with ⟨a', ha', heq⟩
      cases heq
      have hmem : some a ∈ shc.keyList := List.mem_ofFn.mpr ⟨k, ha'⟩
      show ((cc.compile a.string).map _).isSome
      rw [Option.isSome_map]
      exact hkeyStrings _ hmem a rfl (hbare.keys k a ha')
  | _ => rfl

section Taken

variable {name : Str} {settings : List (Setting Str)} {settings' : List (Setting C)}

theorem foldl_put_compiled (h : settings.mapM (Setting.compile f) = some settings') :
    (settings.foldl Setting.put (Block.init name)).Compiled f
      (settings'.foldl Setting.put (Block.init name)) :=
  Block.Compiled.foldl_put (forall₂_of_mapM h) (Block.init_compiled name)

/-- Settings that are taken are taken when they are compiled. -/
theorem taken_compiled (h : settings.mapM (Setting.compile f) = some settings') {shc : Block Str}
    (htaken : settings.foldlM blockForm.add (Block.init name) = some shc) :
    ∃ shc', settings'.foldlM blockForm.add (Block.init name) = some shc' ∧ shc.Compiled f shc' := by
  have hfields : blockForm.fields settings' = blockForm.fields settings :=
    fields_compile (forall₂_of_mapM h)
  rcases Form.foldlM_add_iff.mp htaken with ⟨hnodup, -, rfl⟩
  exact ⟨_, Form.foldlM_add_iff.mpr ⟨hfields ▸ hnodup, free_init settings', rfl⟩,
    foldl_put_compiled h⟩

/-- Compiled settings that are taken were taken before. -/
theorem taken_of_compiled (h : settings.mapM (Setting.compile f) = some settings')
    {shc' : Block C} (htaken : settings'.foldlM blockForm.add (Block.init name) = some shc') :
    ∃ shc, settings.foldlM blockForm.add (Block.init name) = some shc ∧ shc.Compiled f shc' := by
  have hfields : blockForm.fields settings' = blockForm.fields settings :=
    fields_compile (forall₂_of_mapM h)
  rcases Form.foldlM_add_iff.mp htaken with ⟨hnodup, -, rfl⟩
  exact ⟨_, Form.foldlM_add_iff.mpr ⟨hfields ▸ hnodup, free_init settings, rfl⟩,
    foldl_put_compiled h⟩

end Taken

theorem Block.Compiled.valued {shc : Block Str} {shc' : Block C} (h : shc.Compiled f shc') :
    shc.value.isSome ↔ shc'.value.isSome := by
  have hvalue := h.value
  generalize shc.value = v at hvalue ⊢
  generalize shc'.value = v' at hvalue ⊢
  cases hvalue <;> rfl

end Compiled

/-! ## Agreement -/

section Agreement

variable {cc : Compiler C} {cf : ConfSlots}

/-- One block, from whatever the blocks before it made nginx know. -/
theorem block_agrees {block : List BlockDirective} (hplain : ∀ d ∈ block, d.Plain) (name : Str)
    (vars : Variables) :
    (((httpBlock cf).metricSlot name block).toOption.bind fun shc =>
        (initConf cc vars shc).map Prod.fst) =
      ((streamBlock cf cc.compile).metricSlot name block).toOption.map
        MetricBlock.streamConf := by
  have hsettings : block.mapM ((streamBlock cf cc.compile).setting) =
      (block.mapM ((httpBlock cf).setting)).bind fun settings =>
        settings.mapM (Setting.compile cc.compile) := by
    rw [mapM_bind_mapM]
    exact mapM_congr fun d hd => setting_compile (hplain d hd)
  have hbare : ∀ {settings}, block.mapM ((httpBlock cf).setting) = some settings →
      ∀ s ∈ settings, s.Bare := by
    intro settings hread s hs
    rcases mapM_eq_some_iff.mp hread with ⟨-, rfl⟩
    rcases List.mem_filterMap.mp hs with ⟨d, hd, hset⟩
    exact setting_bare (hplain d hd) hset
  apply Option.ext
  intro conf
  rw [Option.bind_eq_some_iff, Option.map_eq_some_iff]
  constructor
  · rintro ⟨shc, hslot, hconf⟩
    rcases Option.map_eq_some_iff.mp hconf with ⟨r, hinit, rfl⟩
    rcases Option.bind_eq_some_iff.mp (metricSlot_foldlM.mp (toOption_eq_some.mp hslot)) with
      ⟨settings, hread, htaken⟩
    have hdeclared : shc.Declared name settings := declared_iff.mpr htaken
    have hshc : shc.Bare := hdeclared.bare (hbare hread)
    -- all strings compile, since they were compiled
    have hcompile : settings.mapM (Setting.compile cc.compile) = some _ :=
      mapM_eq_some_iff.mpr ⟨compile_of_initConf hdeclared hshc hinit, rfl⟩
    rcases taken_compiled hcompile htaken with ⟨shc', htaken', hcompiled⟩
    have hslot' : (streamBlock cf cc.compile).metricSlot name block =
        .ok ⟨shc', hcompiled.valued.mp shc.valued⟩ := by
      rw [metricSlot_foldlM, hsettings, hread, Option.bind_some, hcompile]
      exact htaken'
    have hcompiled' : shc.Compiled cc.compile
        (MetricBlock.mk shc' (hcompiled.valued.mp shc.valued)).toBlock := hcompiled
    rcases hcompiled'.initConf hshc vars with ⟨vars', hinit'⟩
    rw [hinit] at hinit'
    cases hinit'
    exact ⟨_, toOption_eq_some.mpr hslot', rfl⟩
  · rintro ⟨shc', hslot', rfl⟩
    rcases Option.bind_eq_some_iff.mp (metricSlot_foldlM.mp (toOption_eq_some.mp hslot')) with
      ⟨settings', hread', htaken'⟩
    rw [hsettings] at hread'
    rcases Option.bind_eq_some_iff.mp hread' with ⟨settings, hread, hcompile⟩
    rcases taken_of_compiled hcompile htaken' with ⟨shc, htaken, hcompiled⟩
    have hslot : (httpBlock cf).metricSlot name block =
        .ok ⟨shc, hcompiled.valued.mpr shc'.valued⟩ := by
      rw [metricSlot_foldlM, hread]
      exact htaken
    have hshc : shc.Bare := (declared_iff.mpr htaken).bare (hbare hread)
    have hcompiled' : (MetricBlock.mk shc (hcompiled.valued.mpr shc'.valued)).Compiled cc.compile
        shc'.toBlock := hcompiled
    rcases hcompiled'.initConf hshc vars with ⟨vars', hinit⟩
    exact ⟨_, toOption_eq_some.mpr hslot, by rw [hinit]; rfl⟩

/-- The metrics of blocks, by the HTTP module: all are read, and then initialised. -/
def httpMetrics (cc : Compiler C) (cf : ConfSlots) (vars : Variables)
    (blocks : List (Str × List BlockDirective)) : Option (List (MetricConf (Option C))) :=
  (blocks.mapM fun block => ((httpBlock cf).metricSlot block.1 block.2).toOption).bind
    fun confs => (initComplex cc vars confs).map Prod.fst

/-- The metrics of blocks, by the stream module. -/
def streamMetrics (cc : Compiler C) (cf : ConfSlots)
    (blocks : List (Str × List BlockDirective)) : Option (List (MetricConf (Option C))) :=
  blocks.mapM fun block =>
    ((streamBlock cf cc.compile).metricSlot block.1 block.2).toOption.map
      MetricBlock.streamConf

/-- What is made of a plain block does not depend on the blocks before it. -/
theorem initComplex_plain {blocks : List (Str × List BlockDirective)}
    (hplain : ∀ block ∈ blocks, ∀ d ∈ block.2, d.Plain) {confs : List (MetricBlock Str)}
    (hread : (blocks.mapM fun block =>
      ((httpBlock cf).metricSlot block.1 block.2).toOption) = some confs)
    (vars : Variables) :
    (initComplex cc vars confs).map Prod.fst =
      confs.mapM fun shc => (initConf cc vars shc).map Prod.fst := by
  have hstep : ∀ shc ∈ confs, ∀ vars₁ vars₂ : Variables, True → True →
      Alike (fun _ => True) (initConf cc vars₁ shc) (initConf cc vars₂ shc) := by
    intro shc hshc vars₁ vars₂ _ _
    rcases mapM_eq_some_iff.mp hread with ⟨-, rfl⟩
    rcases List.mem_filterMap.mp hshc with ⟨block, hmem, hslot⟩
    have hblock : ∀ vars, (((httpBlock cf).metricSlot block.1 block.2).toOption.bind
        fun shc => (initConf cc vars shc).map Prod.fst) = _ :=
      fun vars => block_agrees (hplain block hmem) block.1 vars
    have h₁ := hblock vars₁
    have h₂ := hblock vars₂
    rw [hslot] at h₁ h₂
    -- both are what the stream module makes of the block
    exact Alike.of_fst_eq (h₁.trans h₂.symm)
  exact mapAccum_alone hstep trivial trivial

/-- Of blocks without `exists`, and with one argument to each condition, the two modules make
the same metrics, or both reject them; in the HTTP module whatever variables nginx knows. -/
theorem blocks_agree (cc : Compiler C) (cf : ConfSlots) (vars : Variables)
    (blocks : List (Str × List BlockDirective))
    (hplain : ∀ block ∈ blocks, ∀ d ∈ block.2, d.Plain) :
    httpMetrics cc cf vars blocks = streamMetrics cc cf blocks := by
  have hblock : ∀ block ∈ blocks, ∀ vars,
      (((httpBlock cf).metricSlot block.1 block.2).toOption.bind fun shc =>
          (initConf cc vars shc).map Prod.fst) =
        ((streamBlock cf cc.compile).metricSlot block.1 block.2).toOption.map
          MetricBlock.streamConf :=
    fun block hmem vars => block_agrees (hplain block hmem) block.1 vars
  have hstream : streamMetrics cc cf blocks =
      (blocks.mapM fun block => ((httpBlock cf).metricSlot block.1 block.2).toOption).bind
        fun confs => confs.mapM fun shc => (initConf cc vars shc).map Prod.fst := by
    rw [mapM_bind_mapM]
    exact mapM_congr fun block hmem => (hblock block hmem vars).symm
  rw [hstream]
  unfold httpMetrics
  apply Option.bind_congr
  intro confs hread
  exact initComplex_plain hplain hread vars

end Agreement

theorem blocks_agree_sample :
    httpMetrics sampleCompiler plainSlots sampleVariables [(ascii "m", sampleBlock)] =
      streamMetrics sampleCompiler plainSlots [(ascii "m", sampleBlock)] :=
  blocks_agree sampleCompiler plainSlots sampleVariables [(ascii "m", sampleBlock)] (by decide)

end StatsHouse

import StatsHouse.BlockAgreement
import StatsHouse.Receiver

/-! # The keys of a stat

The name of a key is not written in a configuration: it comes from the table of commands,
by the directive. A stat has room for `NGX_STATSHOUSE_STAT_KEYS_MAX` keys, and
`ngx_statshouse_stat_key` does not look whether there is room left.

* `worker_keys`: in what a worker sends of metrics that were read from blocks, the names of
  the keys are those of the directives, in the order of the table and each at most once.
-/

namespace StatsHouse

open Once Threaded

variable {C P ε S : Type}

/-! ## Names -/

/-- The names of the keys, in the order of their places. -/
def keyNames : List Str :=
  [ascii "0", ascii "1", ascii "2", ascii "3", ascii "4", ascii "5", ascii "6", ascii "7",
    ascii "8", ascii "9", ascii "10", ascii "11", ascii "12", ascii "13", ascii "14",
    ascii "15", ascii "_s"]

theorem keyNames_nodup : keyNames.Nodup := by decide

theorem length_keyNames : keyNames.length = keysMax := by decide

/-- A command for a key gives it the name of its place. -/
def BlockSlot.Named : BlockSlot → Prop
  | .keySlot k name => keyNames[(k : Nat)]? = some name
  | _ => True

instance (slot : BlockSlot) : Decidable slot.Named := by
  cases slot <;> unfold BlockSlot.Named <;> infer_instance

/-- All commands of a module do. -/
def BlockModule.Named (m : BlockModule S) : Prop := ∀ cmd ∈ m.commands, cmd.slot.Named

theorem httpBlock_named (cf : ConfSlots) : (httpBlock cf).Named := by
  show ∀ cmd ∈ ⟨ascii "exists", .existsSlot, false⟩ ::
    ⟨ascii "condition", .conditionSlot, false⟩ :: blockCommands, cmd.slot.Named
  decide

theorem streamBlock_named (cf : ConfSlots) (compile : Str → Option S) :
    (streamBlock cf compile).Named := by
  show ∀ cmd ∈ ⟨ascii "condition", .predicateSlot, false⟩ :: blockCommands, cmd.slot.Named
  decide

/-- The keys of a block have the names of their places. -/
def Block.Named (shc : Block S) : Prop :=
  ∀ k a, shc.keys k = some a → keyNames[(k : Nat)]? = some a.name

theorem metricSlot_named {m : BlockModule S} (hm : m.Named) {name : Str}
    {block : List BlockDirective} {shc : MetricBlock S}
    (h : m.metricSlot name block = .ok shc) : shc.Named := by
  rcases metricSlot_iff.mp h with ⟨-, hdeclared⟩
  intro k a ha
  have hget : shc.get (.key k) = some (.key k a) := by
    show (shc.keys k).map (Setting.key k) = _
    rw [ha]
    rfl
  -- the key was set by a directive, whose command gave it its name
  rcases List.mem_filterMap.mp ((hdeclared.fields _ _).mp hget).1 with ⟨d, -, hset⟩
  rcases setting_eq_some hset with ⟨cmd, value, args, hcommand, -, hset⟩
  have hnamed : cmd.slot.Named := hm cmd (List.mem_of_find?_eq_some hcommand)
  cases hslot : cmd.slot with
  | keySlot k' name =>
      rw [hslot] at hset hnamed
      rcases Option.map_eq_some_iff.mp hset with ⟨a', ha', heq⟩
      cases heq
      unfold BlockModule.settingKey at ha'
      split at ha'
      · rcases Option.map_eq_some_iff.mp ha' with ⟨c, -, rfl⟩
        exact hnamed
      · cases ha'
  | strSlot =>
      rw [hslot] at hset
      cases hset
  | existsSlot =>
      rw [hslot] at hset
      cases hset
  | _ =>
      rw [hslot] at hset
      rcases Option.map_eq_some_iff.mp hset with ⟨b, -, heq⟩
      cases heq

/-! ## Metrics -/

/-- The keys of a metric that have a name have that of their places. -/
def Conf.Named (conf : Conf C) : Prop :=
  ∀ (k : Nat) (key : ConfKey C), conf.keys[k]? = some key →
    key.name = [] ∨ keyNames[k]? = some key.name

/-- A place of the loop over the keys and what becomes of it. -/
def KeepsName (key : Option (BlockKey S)) (key' : ConfKey (Option C)) : Prop :=
  key'.name = key.elim [] BlockKey.name

theorem MetricBlock.conf_named {shc : MetricBlock S} (hnamed : shc.Named) (disable : Bool)
    (value : Option C) (condition : List C) {keys : List (ConfKey (Option C))}
    (hkeys : List.Forall₂ KeepsName shc.keyList keys) :
    (shc.conf disable value condition keys).Named := by
  intro k key hkey
  show key.name = [] ∨ _
  unfold MetricBlock.conf at hkey
  rw [List.getElem?_ofFn] at hkey
  split at hkey
  · rename_i hk
    cases hkey
    rw [List.getD_eq_getElem?_getD]
    cases hget : keys[k]? with
    -- a place that was not made
    | none => exact Or.inl rfl
    | some key =>
        rcases getElem?_of_forall₂ hkeys hget with ⟨key', hkey', hname⟩
        unfold Block.keyList at hkey'
        rw [List.getElem?_ofFn, dif_pos hk] at hkey'
        show key.name = [] ∨ keyNames[k]? = some key.name
        rw [hname]
        cases hplace : shc.keys ⟨k, hk⟩ with
        | none =>
            rw [hplace] at hkey'
            cases hkey'
            exact Or.inl rfl
        | some a =>
            rw [hplace] at hkey'
            cases hkey'
            exact Or.inr (hnamed _ a hplace)
  · cases hkey

theorem initKey_keepsName {cc : Compiler C} {vars vars' : Variables}
    {key : Option (BlockKey Str)} {key' : ConfKey (Option C)}
    (h : initKey cc vars key = some (key', vars')) : KeepsName key key' := by
  cases key with
  | none =>
      cases h
      rfl
  | some key =>
      unfold initKey at h
      simp only at h
      split at h
      · rcases Option.map_eq_some_iff.mp h with ⟨r, -, heq⟩
        cases heq
        rfl
      · cases h
        rfl

/-- Keys that are made one by one keep their names. -/
theorem keepsName_map {f : BlockKey S → ConfKey (Option C)} (hf : ∀ a, (f a).name = a.name)
    (keys : List (Option (BlockKey S))) :
    List.Forall₂ KeepsName keys (keys.map fun key => key.elim ConfKey.unset f) := by
  rw [List.forall₂_map_right_iff, List.forall₂_same]
  intro key _
  cases key with
  | none => rfl
  | some a => exact hf a

theorem initConf_named {cc : Compiler C} {vars vars' : Variables} {shc : MetricBlock Str}
    (hnamed : shc.Named) {conf : MetricConf (Option C)}
    (h : initConf cc vars shc = some (conf, vars')) : conf.Named := by
  unfold initConf at h
  split at h
  · rcases Option.bind_eq_some_iff.mp h with ⟨value, -, h⟩
    rcases Option.bind_eq_some_iff.mp h with ⟨condition, -, h⟩
    rcases Option.map_eq_some_iff.mp h with ⟨keys, hkeys, heq⟩
    cases heq
    exact shc.conf_named hnamed _ _ _
      (forall₂_of_mapAccum (fun _ _ _ _ h => initKey_keepsName h) hkeys)
  · cases h
    exact shc.conf_named hnamed _ _ _ (keepsName_map (fun _ => rfl) _)

theorem MetricBlock.streamConf_named {shc : MetricBlock C} (hnamed : shc.Named) :
    shc.streamConf.Named :=
  shc.conf_named hnamed _ _ _ (keepsName_map (fun _ => rfl) _)

theorem httpMetrics_named {cc : Compiler C} {cf : ConfSlots} {vars : Variables}
    {blocks : List (Str × List BlockDirective)} {confs : List (MetricConf (Option C))}
    (h : httpMetrics cc cf vars blocks = some confs) : ∀ conf ∈ confs, conf.Named := by
  rcases Option.bind_eq_some_iff.mp h with ⟨shcs, hread, hinit⟩
  rcases Option.map_eq_some_iff.mp hinit with ⟨⟨confs', vars'⟩, hloop, rfl⟩
  have hall : List.Forall₂ (fun shc conf => shc.Named → conf.Named) shcs confs' :=
    forall₂_of_mapAccum (fun _ _ _ _ h hnamed => initConf_named hnamed h) hloop
  intro conf hconf
  rcases List.getElem?_of_mem hconf with ⟨k, hk⟩
  rcases getElem?_of_forall₂ hall hk with ⟨shc, hshc, hnamed⟩
  rcases mapM_eq_some_iff.mp hread with ⟨-, rfl⟩
  rcases List.mem_filterMap.mp (List.mem_of_getElem? hshc) with ⟨block, -, hslot⟩
  exact hnamed (metricSlot_named (httpBlock_named cf) (toOption_eq_some.mp hslot))

theorem streamMetrics_named {cc : Compiler C} {cf : ConfSlots}
    {blocks : List (Str × List BlockDirective)} {confs : List (MetricConf (Option C))}
    (h : streamMetrics cc cf blocks = some confs) : ∀ conf ∈ confs, conf.Named := by
  rcases mapM_eq_some_iff.mp h with ⟨-, rfl⟩
  intro conf hconf
  rcases List.mem_filterMap.mp hconf with ⟨block, -, hslot⟩
  rcases Option.map_eq_some_iff.mp hslot with ⟨shc, hread, rfl⟩
  exact MetricBlock.streamConf_named
    (metricSlot_named (streamBlock_named cf cc.compile) (toOption_eq_some.mp hread))

/-! ## Stats -/

/-- The names of the keys of a stat are in the order of the table. -/
def Stat.Keyed (stat : Stat Value) : Prop := (stat.keys.map StatKey.name).Sublist keyNames

/-- The names of the keys of stat `j`. -/
def rowNames (sp : Splitter P ε) (complex : C → Option Str) (max j : Nat)
    (keys : List (ConfKey C)) : List Str :=
  ((activeKeys complex keys).filterMap (keyAt sp max j)).map StatKey.name

theorem name_of_keyAt {sp : Splitter P ε} {max j : Nat} {key : ConfKey C × Str} {k : StatKey}
    (h : keyAt sp max j key = some k) : k.name = key.1.name := by
  unfold keyAt at h
  split at h
  · rcases Option.map_eq_some_iff.mp h with ⟨item, -, rfl⟩
    rfl
  · cases h
    rfl

theorem rowNames_cons (sp : Splitter P ε) (complex : C → Option Str) (max j : Nat)
    (key : ConfKey C) (keys : List (ConfKey C)) :
    rowNames sp complex max j (key :: keys) = rowNames sp complex max j keys ∨
      key.name ≠ [] ∧
        rowNames sp complex max j (key :: keys) = key.name :: rowNames sp complex max j keys := by
  unfold rowNames activeKeys
  rw [List.filterMap_cons]
  -- a key is left out for its name or flag, for its string, or for its item
  by_cases hoff : key.name.length = 0 ∨ key.disable
  · rw [if_pos hoff]
    exact Or.inl rfl
  · rw [if_neg hoff]
    rw [not_or] at hoff
    have hname : key.name ≠ [] := fun h => hoff.1 (by rw [h]; rfl)
    cases complex key.complex with
    | none => exact Or.inl rfl
    | some str =>
        simp only
        by_cases hempty : statIsEmpty str
        · rw [if_pos hempty]
          exact Or.inl rfl
        · rw [if_neg hempty]
          simp only
          cases hkey : keyAt sp max j (key, str) with
          | none =>
              -- a split key whose string has no such item
              rw [List.filterMap_cons_none hkey]
              exact Or.inl rfl
          | some k =>
              rw [List.filterMap_cons_some hkey, List.map_cons, name_of_keyAt hkey]
              exact Or.inr ⟨hname, rfl⟩

/-- The keys that are there have names in the order of their places. -/
theorem rowNames_sublist (sp : Splitter P ε) (complex : C → Option Str) (max j : Nat)
    {keys : List (ConfKey C)} {names : List Str}
    (h : ∀ (k : Nat) (key : ConfKey C), keys[k]? = some key →
      key.name = [] ∨ names[k]? = some key.name) :
    (rowNames sp complex max j keys).Sublist names := by
  induction keys generalizing names with
  | nil => exact List.nil_sublist names
  | cons key keys ih =>
      have hrest : ∀ (k : Nat) (key : ConfKey C), keys[k]? = some key →
          key.name = [] ∨ names.tail[k]? = some key.name := by
        intro k key' hkey'
        have hnext := h (k + 1) key' hkey'
        rwa [← List.getElem?_tail] at hnext
      -- the head of the names is passed over, or it is the name of this key
      rcases rowNames_cons sp complex max j key keys with heq | ⟨hname, heq⟩
      · rw [heq]
        exact (ih hrest).trans (List.tail_sublist names)
      · rw [heq]
        rcases h 0 key rfl with hnil | hplace
        · exact absurd hnil hname
        · cases names with
          | nil => cases hplace
          | cons name names =>
              cases hplace
              exact (ih hrest).cons_cons _

/-- The names of the keys are in the order of the table and each is there at most once, so
that they have room. -/
def Stat.KeysInPlace (stat : Stat Value) : Prop :=
  (stat.keys.map StatKey.name).Sublist keyNames ∧ (stat.keys.map StatKey.name).Nodup ∧
    stat.keys.length ≤ keysMax

/-- A worker sends only stats with their keys in place of metrics that were read from blocks,
by either module, if the stats of the other modules are so too. With usable contexts those
are what the servers of the process are called with. -/
theorem worker_keys [Add Value] {cc : Compiler C} {cf : ConfSlots} {vars : Variables}
    {blocks : List (Str × List BlockDirective)} {confs : List (MetricConf (Option C))}
    (hread : httpMetrics cc cf vars blocks = some confs ∨
      streamMetrics cc cf blocks = some confs)
    {wc : WorkerConf (Option C) P ε}
    (hmetrics : ∀ ctx, ∀ metric ∈ wc.contexts.metrics ctx, wc.metric metric ∈ confs)
    {events : List (WorkerEvent (Option C))} (hevents : ∀ event ∈ events, event.Sends Stat.Keyed)
    (srv : Nat) :
    (∀ stat ∈ sendsOf ((Traffic.run wc events).calls srv), stat.KeysInPlace) ∧
      ((∀ event ∈ events, wc.Usable event) → ∃ p, Process.run wc events = .ok p ∧
        ∀ stat ∈ sendsOf (p.calls srv), stat.KeysInPlace) := by
  have hnamed : ∀ conf ∈ confs, conf.Named :=
    hread.elim httpMetrics_named streamMetrics_named
  have hmakes : wc.Makes Stat.Keyed := by
    intro ctx metric hmetric complex max stat hstat
    rcases row_of_mem_metricRows hstat with ⟨values, j, rfl⟩
    exact rowNames_sublist wc.sp complex max j (hnamed _ (hmetrics ctx metric hmetric))
  have htraffic : ∀ stat ∈ sendsOf ((Traffic.run wc events).calls srv), stat.KeysInPlace := by
    intro stat hstat
    -- a sublist of names that are all different, and no more than there is room for
    have hkeyed : stat.Keyed := Traffic.run_makes hmakes hevents srv stat hstat
    refine ⟨hkeyed, hkeyed.nodup keyNames_nodup, ?_⟩
    have hlength := hkeyed.length_le
    rwa [List.length_map, length_keyNames] at hlength
  refine ⟨htraffic, ?_⟩
  intro husable
  rcases Process.run_ok husable with ⟨p, hp, hrefines⟩
  refine ⟨p, hp, ?_⟩
  rw [hrefines.calls]
  exact htraffic

/-- A block with two keys, against the order of the table. -/
def keyedBlock : List BlockDirective :=
  [⟨ascii "count", [ascii "1"]⟩, ⟨ascii "key7", [ascii "$b"]⟩, ⟨ascii "key1", [ascii "$a"]⟩]

/-- Its metric. -/
def keyedMetric : MetricConf (Option Str) :=
  ((httpMetrics sampleCompiler plainSlots sampleVariables [(ascii "m", keyedBlock)]).getD []).headD
    readyMetric

/-- The worker of the example with this metric. -/
def keyedWorker : WorkerConf (Option Str) Split Fault :=
  { readyWorker with metric := fun _ => keyedMetric }

theorem keyedWorker_usable : keyedWorker.Usable (.request readyRequest) := by
  have hsize : sizeofStat * 1 < 2 ^ 64 := by decide
  have hkeys : ∀ key ∈ keyedMetric.keys, key.split = false := by decide
  have hholds : ∀ stat ∈ metricRows wholeDoubles statSplitter keyedMetric.toConf
      readyRequest.complex 1, sampleConf.Holds (sampleEnv Value) stat := by decide +kernel
  refine ⟨ServerPtr.noConfusion, ?_⟩
  intro srv _
  refine ⟨⟨Nat.one_pos, hsize⟩, ?_⟩
  intro metric _
  refine ⟨⟨?_, ?_⟩, hholds⟩
  · intro hsplit
    cases hsplit
  · intro key hkey hsplit
    rw [hkeys key hkey] at hsplit
    cases hsplit

attribute [local instance] sampleAdd in
theorem worker_keys_sample :
    (sendsOf ((Traffic.run keyedWorker [.request readyRequest]).calls 0)).map
        (fun stat => stat.keys.map StatKey.name) = [[ascii "1", ascii "7"]] ∧
      ∃ p, Process.run keyedWorker [.request readyRequest] = .ok p ∧
        ∀ stat ∈ sendsOf (p.calls 0), stat.KeysInPlace := by
  have hread : httpMetrics sampleCompiler plainSlots sampleVariables [(ascii "m", keyedBlock)] =
      some [keyedMetric] := by rfl
  refine ⟨by decide +kernel, (worker_keys (Or.inl hread) ?_ ?_ 0).2 ?_⟩
  · intro ctx metric _
    exact List.mem_singleton.mpr rfl
  · intro event hevent
    cases List.mem_singleton.mp hevent
    trivial
  · intro event hevent
    cases List.mem_singleton.mp hevent
    exact keyedWorker_usable

end StatsHouse

import StatsHouse.Block

/-! # What a block declares

What a directive says does not depend on the others, but for a field that is set already.

* `metricSlot_iff`: a block is accepted if each directive is good on its own, no two set one
  field and one is a value; then it holds what they say.
* `metricSlot_perm`: the order of the directives does not matter, but for the conditions
  and the `exists` among themselves.
-/

namespace StatsHouse

open Once

variable {S : Type}

/-- The block is what its directives say, no two of one field. -/
structure Block.Declared (name : Str) (settings : List (Setting S)) (shc : Block S) : Prop where
  name : shc.name = name
  once : (settings.filterMap Setting.field).Nodup
  fields : ∀ f s, shc.get f = some s ↔ s ∈ settings ∧ s.field = some f
  condition : shc.condition = settings.flatMap Setting.conditions
  existsVars : shc.existsVars = settings.flatMap Setting.existsVars

/-- A directive of a condition. -/
def BlockModule.IsCondition (m : BlockModule S) (d : BlockDirective) : Prop :=
  ∃ cmd, m.command d.name = some cmd ∧ (cmd.slot = .conditionSlot ∨ cmd.slot = .predicateSlot)

/-- A directive of a variable that has to exist. -/
def BlockModule.IsExistsVar (m : BlockModule S) (d : BlockDirective) : Prop :=
  ∃ cmd, m.command d.name = some cmd ∧ cmd.slot = .existsSlot

instance (m : BlockModule S) (d : BlockDirective) : Decidable (m.IsCondition d) :=
  decidable_of_iff
    (∃ cmd ∈ m.command d.name, cmd.slot = .conditionSlot ∨ cmd.slot = .predicateSlot) Iff.rfl

instance (m : BlockModule S) (d : BlockDirective) : Decidable (m.IsExistsVar d) :=
  decidable_of_iff (∃ cmd ∈ m.command d.name, cmd.slot = .existsSlot) Iff.rfl

/-! ## Blocks -/

theorem foldl_put_name (settings : List (Setting S)) (shc : Block S) :
    (settings.foldl Setting.put shc).name = shc.name := by
  induction settings generalizing shc with
  | nil => rfl
  | cons s settings ih =>
      rw [List.foldl_cons, ih]
      cases s <;> rfl

theorem foldl_put_condition (settings : List (Setting S)) (shc : Block S) :
    (settings.foldl Setting.put shc).condition =
      shc.condition ++ settings.flatMap Setting.conditions := by
  induction settings generalizing shc with
  | nil => simp
  | cons s settings ih =>
      rw [List.foldl_cons, ih, List.flatMap_cons]
      cases s <;> simp [Setting.put, Setting.conditions]

theorem foldl_put_existsVars (settings : List (Setting S)) (shc : Block S) :
    (settings.foldl Setting.put shc).existsVars =
      shc.existsVars ++ settings.flatMap Setting.existsVars := by
  induction settings generalizing shc with
  | nil => simp
  | cons s settings ih =>
      rw [List.foldl_cons, ih, List.flatMap_cons]
      cases s <;> simp [Setting.put, Setting.existsVars]

/-- A block is its name, its lists and its fields. -/
theorem Block.ext_get {shc shc' : Block S} (hname : shc.name = shc'.name)
    (hcondition : shc.condition = shc'.condition) (hexists : shc.existsVars = shc'.existsVars)
    (hget : ∀ f, shc.get f = shc'.get f) : shc = shc' := by
  have hphase : shc.phase = shc'.phase :=
    Option.map_injective (fun _ _ h => by injection h) (hget .phase)
  have htimeout : shc.timeout = shc'.timeout :=
    Option.map_injective (fun _ _ h => by injection h) (hget .timeout)
  have hvalue : shc.value = shc'.value :=
    Option.map_injective (fun _ _ h => by injection h) (hget .value)
  have hsample : shc.sample = shc'.sample :=
    Option.map_injective (fun _ _ h => by injection h) (hget .sample)
  have hkeys : shc.keys = shc'.keys := by
    funext k
    exact Option.map_injective (fun _ _ h => by injection h) (hget (.key k))
  cases shc
  cases shc'
  simp_all

section Blocks

variable {m : BlockModule S} {name : Str}

/-- Each directive is good, and all settings are taken. -/
theorem metricSlot_foldlM {block : List BlockDirective} {shc : MetricBlock S} :
    m.metricSlot name block = .ok shc ↔
      ((block.mapM m.setting).bind fun settings =>
        settings.foldlM blockForm.add (Block.init name)) = some shc.toBlock := by
  rw [← toOption_foldlM (m.handler_toOption)]
  unfold BlockModule.metricSlot
  cases block.foldlM (m.handler) (Block.init name) with
  | error e => exact iff_of_false (fun h => nomatch h) fun h => nomatch h
  | ok shc' =>
      show (if h : shc'.value.isSome then Except.ok (MetricBlock.mk shc' h)
        else Except.error BlockError.missed) = _ ↔ some shc' = some _
      rw [Option.some.injEq]
      -- a block without a value is read to its end, and then refused
      by_cases hvalue : shc'.value.isSome
      · rw [dif_pos hvalue, Except.ok.injEq]
        constructor
        · intro h
          rw [← h]
        · rintro rfl
          rfl
      · rw [dif_neg hvalue]
        refine iff_of_false (fun h => nomatch h) ?_
        rintro rfl
        exact hvalue shc.valued

theorem free_init (settings : List (Setting S)) : blockForm.Free (Block.init name) settings := by
  intro f _
  cases f <;> rfl

/-- The settings of a block that is declared are all taken. -/
theorem declared_iff {settings : List (Setting S)} {shc : Block S} :
    shc.Declared name settings ↔ settings.foldlM blockForm.add (Block.init name) = some shc := by
  have hform : settings.foldlM blockForm.add (Block.init name) = some shc ↔
      (settings.filterMap Setting.field).Nodup ∧ blockForm.Free (Block.init name) settings ∧
        shc = settings.foldl Setting.put (Block.init name) := Form.foldlM_add_iff
  -- a field that is not set at the start holds its one setting
  have hget : (settings.filterMap Setting.field).Nodup → ∀ f s,
      (settings.foldl Setting.put (Block.init name)).get f = some s ↔
        s ∈ settings ∧ s.field = some f := by
    intro hnodup f s
    have hinit : (Block.init name : Block S).get f = none := by cases f <;> rfl
    have hfields : (blockForm.fields settings).Nodup := hnodup
    have h : (settings.foldl Setting.put (Block.init name)).get f = some s ↔
        (Block.init name).get f = some s ∨ s ∈ settings ∧ s.field = some f :=
      Form.get_foldl_put hfields (free_init settings) f
    rw [h, hinit]
    simp
  rw [hform]
  constructor
  · intro h
    refine ⟨h.once, free_init settings, ?_⟩
    apply Block.ext_get
    · rw [h.name, foldl_put_name]
      rfl
    · rw [h.condition, foldl_put_condition]
      rfl
    · rw [h.existsVars, foldl_put_existsVars]
      rfl
    · intro f
      apply Option.ext
      intro s
      rw [h.fields f s, hget h.once f s]
  -- the other way, the block is made of its settings
  · rintro ⟨honce, -, rfl⟩
    constructor
    · rw [foldl_put_name]
      rfl
    · exact honce
    · exact hget honce
    · rw [foldl_put_condition]
      rfl
    · rw [foldl_put_existsVars]
      rfl

/-- A block is accepted, with the fields of `shc`, one of which is a value, if each of its
directives is good on its own, no two set one field and `shc` holds what they say. -/
theorem metricSlot_iff {block : List BlockDirective} {shc : MetricBlock S} :
    m.metricSlot name block = .ok shc ↔
      (∀ d ∈ block, (m.setting d).isSome) ∧
        shc.Declared name (block.filterMap m.setting) := by
  rw [metricSlot_foldlM, declared_iff, Option.bind_eq_some_iff]
  constructor
  · rintro ⟨settings, hread, hadd⟩
    rcases mapM_eq_some_iff.mp hread with ⟨hgood, rfl⟩
    exact ⟨hgood, hadd⟩
  · rintro ⟨hgood, hadd⟩
    exact ⟨_, mapM_eq_some_iff.mpr ⟨hgood, rfl⟩, hadd⟩

/-- A list that only some directives add to is made from these. -/
theorem flatMap_filter {α : Type} {p : BlockDirective → Prop} [DecidablePred p]
    {read : BlockDirective → Option (Setting S)} {list : Setting S → List α}
    (h : ∀ d s, read d = some s → ¬ p d → list s = []) (block : List BlockDirective) :
    ((block.filter (p ·)).filterMap read).flatMap list = (block.filterMap read).flatMap list := by
  induction block with
  | nil => rfl
  | cons d block ih =>
      by_cases hp : p d
      · rw [List.filter_cons_of_pos (by simpa using hp)]
        cases hread : read d with
        | none => rw [List.filterMap_cons_none hread, List.filterMap_cons_none hread, ih]
        | some s =>
            rw [List.filterMap_cons_some hread, List.filterMap_cons_some hread, List.flatMap_cons,
              List.flatMap_cons, ih]
      -- a directive that is dropped adds nothing
      · rw [List.filter_cons_of_neg (by simpa using hp), ih]
        cases hread : read d with
        | none => rw [List.filterMap_cons_none hread]
        | some s =>
            rw [List.filterMap_cons_some hread, List.flatMap_cons, h d s hread hp, List.nil_append]

/-- What says something is a command with arguments that it takes. -/
theorem setting_eq_some {d : BlockDirective} {s : Setting S} (h : m.setting d = some s) :
    ∃ cmd value args, m.command d.name = some cmd ∧ d.args = value :: args ∧
      m.settingArgs cmd.slot value args = some s := by
  unfold BlockModule.setting at h
  cases hcommand : m.command d.name with
  | none =>
      rw [hcommand] at h
      cases h
  | some cmd =>
      cases hargs : d.args with
      | nil =>
          rw [hcommand, hargs] at h
          cases h
      | cons value args =>
          rw [hcommand, hargs] at h
          simp only at h
          split at h
          · cases h
          · exact ⟨cmd, value, args, rfl, rfl, h⟩

theorem setting_conditions {d : BlockDirective} {s : Setting S} (h : m.setting d = some s)
    (hd : ¬ m.IsCondition d) : s.conditions = [] := by
  rcases setting_eq_some h with ⟨cmd, value, args, hcommand, -, hset⟩
  cases hslot : cmd.slot with
  | conditionSlot => exact absurd ⟨cmd, hcommand, Or.inl hslot⟩ hd
  | predicateSlot => exact absurd ⟨cmd, hcommand, Or.inr hslot⟩ hd
  | _ =>
      rw [hslot] at hset
      simp only [BlockModule.settingArgs, Option.map_eq_some_iff, Option.some.injEq] at hset
      rcases hset with ⟨a, -, rfl⟩
      rfl

theorem setting_existsVars {d : BlockDirective} {s : Setting S} (h : m.setting d = some s)
    (hd : ¬ m.IsExistsVar d) : s.existsVars = [] := by
  rcases setting_eq_some h with ⟨cmd, value, args, hcommand, -, hset⟩
  cases hslot : cmd.slot with
  | existsSlot => exact absurd ⟨cmd, hcommand, hslot⟩ hd
  | _ =>
      rw [hslot] at hset
      simp only [BlockModule.settingArgs, Option.map_eq_some_iff, Option.some.injEq] at hset
      rcases hset with ⟨a, -, rfl⟩
      rfl

theorem Block.Declared.perm {block block' : List BlockDirective} {shc : Block S}
    (h : shc.Declared name (block.filterMap m.setting)) (hperm : block.Perm block')
    (hcondition : block.filter (m.IsCondition ·) = block'.filter (m.IsCondition ·))
    (hexists : block.filter (m.IsExistsVar ·) = block'.filter (m.IsExistsVar ·)) :
    shc.Declared name (block'.filterMap m.setting) := by
  have hsettings := hperm.filterMap m.setting
  -- the lists keep the order of the directives that add to them, the fields need none
  constructor
  · exact h.name
  · exact (hsettings.filterMap Setting.field).nodup_iff.mp h.once
  · intro f s
    rw [h.fields f s, hsettings.mem_iff]
  · rw [h.condition, ← flatMap_filter fun d s => setting_conditions, hcondition,
      flatMap_filter fun d s => setting_conditions]
  · rw [h.existsVars, ← flatMap_filter fun d s => setting_existsVars, hexists,
      flatMap_filter fun d s => setting_existsVars]

/-- The order of the directives of a block does not matter, but for that of the conditions
among themselves, and of the variables that have to exist. -/
theorem metricSlot_perm {block block' : List BlockDirective} (hperm : block.Perm block')
    (hcondition : block.filter (m.IsCondition ·) = block'.filter (m.IsCondition ·))
    (hexists : block.filter (m.IsExistsVar ·) = block'.filter (m.IsExistsVar ·)) :
    (m.metricSlot name block).toOption = (m.metricSlot name block').toOption := by
  -- one direction, which is used with the orders exchanged as well
  have hto : ∀ block block' : List BlockDirective, block.Perm block' →
      block.filter (m.IsCondition ·) = block'.filter (m.IsCondition ·) →
      block.filter (m.IsExistsVar ·) = block'.filter (m.IsExistsVar ·) → ∀ shc,
      m.metricSlot name block = .ok shc → m.metricSlot name block' = .ok shc := by
    intro block block' hperm hcondition hexists shc h
    rcases metricSlot_iff.mp h with ⟨hgood, hdeclared⟩
    refine metricSlot_iff.mpr ⟨?_, hdeclared.perm hperm hcondition hexists⟩
    intro d hd
    exact hgood d (hperm.mem_iff.mpr hd)
  apply Option.ext
  intro shc
  rw [toOption_eq_some, toOption_eq_some]
  exact ⟨hto _ _ hperm hcondition hexists shc,
    hto _ _ hperm.symm hcondition.symm hexists.symm shc⟩

end Blocks

/-- A counter on a condition, with a key that is split. -/
def sampleBlock : List BlockDirective :=
  [⟨ascii "count", [ascii "1"]⟩, ⟨ascii "condition", [ascii "$a"]⟩,
    ⟨ascii "key1", [ascii "$b", ascii "split"]⟩]

/-- The example is accepted. -/
example : ((httpBlock plainSlots).metricSlot (ascii "m") sampleBlock).isOk = true := by decide

theorem metricSlot_perm_sample :
    ((httpBlock plainSlots).metricSlot (ascii "m") sampleBlock).toOption =
      ((httpBlock plainSlots).metricSlot (ascii "m") sampleBlock.reverse).toOption :=
  metricSlot_perm (List.reverse_perm sampleBlock).symm (by decide) (by decide)

end StatsHouse

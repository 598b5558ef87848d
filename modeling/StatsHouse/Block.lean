import StatsHouse.Lib.Once
import StatsHouse.Options

/-! # The block of a metric

nginx reads a `statshouse_metric` block directive by directive, and calls for each the
function that the table of commands of the module names. The functions of the two modules
are alike, but that the stream module compiles a string where the HTTP module keeps it.

A field that is not set (`NGX_CONF_UNSET`, a null pointer, an empty name, a type that is 0)
is `none` here.

* `handler_toOption`: a directive adds what it says on its own, unless its field is set.
-/

namespace StatsHouse

open Outcome Once

variable {S T : Type}

/-! ## Configuration -/

instance : NeZero keysMax := ⟨by decide⟩

/-- `ngx_statshouse_conf_value_t`. `S` is what a module keeps of a string. -/
structure BlockValue (S : Type) where
  string : S
  type : MetricType
  split : Bool
deriving DecidableEq

/-- `ngx_statshouse_conf_key_t`, before `disable` is set. -/
structure BlockKey (S : Type) where
  string : S
  name : Str
  existsVars : List Str
  split : Bool
deriving DecidableEq

/-- `ngx_statshouse_conf_t` while its block is read. -/
structure Block (S : Type) where
  name : Str
  phase : Option Str
  existsVars : List Str
  condition : List S
  timeout : Option Nat
  value : Option (BlockValue S)
  keys : Fin keysMax → Option (BlockKey S)
  sample : Option Nat

/-- A block that was accepted has a value. -/
structure MetricBlock (S : Type) extends Block S where
  valued : toBlock.value.isSome

/-- The fields before the block. -/
def Block.init (name : Str) : Block S :=
  { name := name, phase := none, existsVars := [], condition := [], timeout := none
    value := none, keys := fun _ => none, sample := none }

/-! ## Commands -/

/-- The function of a command, with what its entry says beside it. -/
inductive BlockSlot where
  | existsSlot
  | conditionSlot
  | predicateSlot
  | secSlot
  | valueSlot (type : MetricType)
  | strSlot
  | keySlot (k : Fin keysMax) (name : Str)
  | numSlot
deriving DecidableEq

/-- An entry of the table. The arguments are one (`NGX_CONF_TAKE1`), or one or more
(`NGX_CONF_1MORE`). -/
structure BlockCommand where
  name : Str
  slot : BlockSlot
  take1 : Bool

/-- The entries of both tables, from `timeout` on. -/
def blockCommands : List BlockCommand :=
  [⟨ascii "timeout", .secSlot, false⟩,
    ⟨ascii "count", .valueSlot .counter, false⟩,
    ⟨ascii "value", .valueSlot .value, false⟩,
    ⟨ascii "unique", .valueSlot .unique, false⟩,
    ⟨ascii "phase", .strSlot, true⟩,
    ⟨ascii "key0", .keySlot 0 (ascii "0"), false⟩,
    ⟨ascii "key1", .keySlot 1 (ascii "1"), false⟩,
    ⟨ascii "key2", .keySlot 2 (ascii "2"), false⟩,
    ⟨ascii "key3", .keySlot 3 (ascii "3"), false⟩,
    ⟨ascii "key4", .keySlot 4 (ascii "4"), false⟩,
    ⟨ascii "key5", .keySlot 5 (ascii "5"), false⟩,
    ⟨ascii "key6", .keySlot 6 (ascii "6"), false⟩,
    ⟨ascii "key7", .keySlot 7 (ascii "7"), false⟩,
    ⟨ascii "key8", .keySlot 8 (ascii "8"), false⟩,
    ⟨ascii "key9", .keySlot 9 (ascii "9"), false⟩,
    ⟨ascii "key10", .keySlot 10 (ascii "10"), false⟩,
    ⟨ascii "key11", .keySlot 11 (ascii "11"), false⟩,
    ⟨ascii "key12", .keySlot 12 (ascii "12"), false⟩,
    ⟨ascii "key13", .keySlot 13 (ascii "13"), false⟩,
    ⟨ascii "key14", .keySlot 14 (ascii "14"), false⟩,
    ⟨ascii "key15", .keySlot 15 (ascii "15"), false⟩,
    ⟨ascii "skey", .keySlot 16 (ascii "_s"), false⟩,
    ⟨ascii "sample", .numSlot, true⟩]

/-- A directive: its name and its arguments. -/
structure BlockDirective where
  name : Str
  args : List Str
deriving DecidableEq

/-- The function of a directive, if it is in the table and has the arguments it takes, with
the first argument and the others. -/
def findCommand (commands : List BlockCommand) (d : BlockDirective) :
    Option (BlockSlot × Str × List Str) :=
  match commands.find? (fun c => c.name = d.name), d.args with
  | some cmd, value :: args =>
    if cmd.take1 ∧ args ≠ [] then none else some (cmd.slot, value, args)
  | _, _ => none

/-- The functions of nginx that a block is read with, and what is relied on of them:
`ngx_conf_handler`, as it finds the function of a directive, and
`ngx_conf_set_str_array_slot`, `ngx_conf_set_sec_slot`, `ngx_conf_set_str_slot` and
`ngx_conf_set_num_slot`, on a field as it is and an argument. What they fail with is left
open. -/
structure ConfSlots where
  parseTime : Str → Option Nat
  atoi : Atoi
  handler : List BlockCommand → BlockDirective → Except String (BlockSlot × Str × List Str)
  strArray : List Str → Str → Except String (List Str)
  sec : Option Nat → Str → Except String Nat
  str : Option Str → Str → Except String Str
  num : Option Nat → Str → Except String Nat
  handler_toOption : ∀ commands d, (handler commands d).toOption = findCommand commands d
  strArray_toOption : ∀ field value, (strArray field value).toOption = some (field ++ [value])
  sec_toOption : ∀ field value,
    (sec field value).toOption = if field.isSome then none else parseTime value
  str_toOption : ∀ field value,
    (str field value).toOption = if field.isSome then none else some value
  num_toOption : ∀ field value,
    (num field value).toOption = if field.isSome then none else atoi.parse value

/-- Where the reading of a block ends: with a message of a slot function, an argument that
is no property, a string that does not compile, or a block without a value. -/
inductive BlockError where
  | message (message : String)
  | property (arg : Str)
  | compile
  | missed

/-- The block with what a function of nginx has for a field. -/
def setField {α β : Type} (res : Except String α) (put : α → β) : Except BlockError β :=
  (res.mapError .message).map put

theorem setField_toOption {α β : Type} (res : Except String α) (put : α → β) :
    (setField res put).toOption = res.toOption.map put := by
  cases res <;> rfl

/-- What the two modules do differently: the first entries of their tables, what is kept of
a string, `none` where it does not compile, how one is pushed to an array, and whether a key
has the property `exists=`. -/
structure BlockModule (S : Type) where
  slots : ConfSlots
  first : List BlockCommand
  string : Str → Option S
  push : List S → Str → Except BlockError (List S)
  keyExists : Bool
  push_toOption : ∀ array value,
    (push array value).toOption = (string value).map fun s => array ++ [s]

/-- The HTTP module, whose strings are compiled when all blocks are read. -/
def httpBlock (slots : ConfSlots) : BlockModule Str where
  slots := slots
  first := [⟨ascii "exists", .existsSlot, false⟩, ⟨ascii "condition", .conditionSlot, false⟩]
  string := some
  push := fun array value => setField (slots.strArray array value) id
  keyExists := true
  push_toOption := by
    intro array value
    rw [setField_toOption, slots.strArray_toOption]
    rfl

/-- What is kept of a string that compiles. -/
def compiled (compile : Str → Option S) (value : Str) : Except BlockError S :=
  match compile value with
  | none => .error .compile
  | some s => .ok s

theorem compiled_toOption (compile : Str → Option S) (value : Str) :
    (compiled compile value).toOption = compile value := by
  unfold compiled
  cases compile value <;> rfl

/-- The stream module, on `ngx_stream_compile_complex_value`. -/
def streamBlock (slots : ConfSlots) (compile : Str → Option S) : BlockModule S where
  slots := slots
  first := [⟨ascii "condition", .predicateSlot, false⟩]
  string := compile
  push := fun array value => do
    let s ← compiled compile value
    pure (array ++ [s])
  keyExists := false
  push_toOption := by
    intro array value
    rw [toOption_bind, compiled_toOption]
    cases compile value <;> rfl

/-! ## Slot functions -/

/-- A property that begins with `split`. -/
def IsSplit (arg : Str) : Prop := ascii "split" <+: arg

/-- A property that begins with `exists=`. -/
def IsExists (arg : Str) : Prop := ascii "exists=" <+: arg

instance (arg : Str) : Decidable (IsSplit arg) := inferInstanceAs (Decidable (_ <+: _))

instance (arg : Str) : Decidable (IsExists arg) := inferInstanceAs (Decidable (_ <+: _))

namespace BlockModule

variable (m : BlockModule S)

/-- `ngx_conf_set_str_array_slot`, for `exists`. It takes one argument. -/
def existsSlot (shc : Block S) (value : Str) : Except BlockError (Block S) :=
  setField (m.slots.strArray shc.existsVars value) fun vars => { shc with existsVars := vars }

/-- What is kept of a string. -/
def compile (value : Str) : Except BlockError S := compiled m.string value

/-- `ngx_conf_set_str_array_slot`, for `condition`, which takes one argument; in the stream
module the body of the loop over the arguments. -/
def conditionSlot (shc : Block S) (value : Str) : Except BlockError (Block S) := do
  let condition ← m.push shc.condition value
  pure { shc with condition := condition }

/-- `ngx_stream_statshouse_set_predicate_slot`. It takes all arguments. -/
def predicateSlot (shc : Block S) (values : List Str) : Except BlockError (Block S) :=
  values.foldlM m.conditionSlot shc

/-- `ngx_conf_set_sec_slot`, for `timeout`. -/
def secSlot (shc : Block S) (value : Str) : Except BlockError (Block S) :=
  setField (m.slots.sec shc.timeout value) fun n => { shc with timeout := some n }

/-- `ngx_conf_set_str_slot`, for `phase`. -/
def strSlot (shc : Block S) (value : Str) : Except BlockError (Block S) :=
  setField (m.slots.str shc.phase value) fun s => { shc with phase := some s }

/-- `ngx_conf_set_num_slot`, for `sample`. -/
def numSlot (shc : Block S) (value : Str) : Except BlockError (Block S) :=
  setField (m.slots.num shc.sample value) fun n => { shc with sample := some n }

/-- The loop over the properties of a value. -/
def valueProperty (value : BlockValue S) (arg : Str) : Except BlockError (BlockValue S) :=
  if IsSplit arg then .ok { value with split := true }
  else .error (.property arg)

/-- `ngx_http_statshouse_value_slot` and `ngx_stream_statshouse_value_slot`. -/
def valueSlot (type : MetricType) (shc : Block S) (value : Str) (args : List Str) :
    Except BlockError (Block S) :=
  if shc.value.isSome then .error (.message "is duplicate")
  else do
    let s ← m.compile value
    let field ← args.foldlM valueProperty ⟨s, type, false⟩
    pure { shc with value := some field }

/-- The loop over the properties of a key. -/
def keyProperty (key : BlockKey S) (arg : Str) : Except BlockError (BlockKey S) :=
  if IsSplit arg then .ok { key with split := true }
  else if m.keyExists ∧ IsExists arg then
    .ok { key with existsVars := key.existsVars ++ [arg.drop 7] }
  else .error (.property arg)

/-- `ngx_http_statshouse_key_slot` and `ngx_stream_statshouse_key_slot`. -/
def keySlot (k : Fin keysMax) (name : Str) (shc : Block S) (value : Str) (args : List Str) :
    Except BlockError (Block S) :=
  if (shc.keys k).isSome then .error (.message "is duplicate")
  else do
    let s ← m.compile value
    let key ← args.foldlM m.keyProperty ⟨s, name, [], false⟩
    pure { shc with keys := Function.update shc.keys k (some key) }

/-- The function of a command. -/
def set (slot : BlockSlot) (shc : Block S) (value : Str) (args : List Str) :
    Except BlockError (Block S) :=
  match slot with
  | .existsSlot => m.existsSlot shc value
  | .conditionSlot => m.conditionSlot shc value
  | .predicateSlot => m.predicateSlot shc (value :: args)
  | .secSlot => m.secSlot shc value
  | .valueSlot type => m.valueSlot type shc value args
  | .strSlot => m.strSlot shc value
  | .keySlot k name => m.keySlot k name shc value args
  | .numSlot => m.numSlot shc value

/-- The commands of a block. -/
def commands : List BlockCommand := m.first ++ blockCommands

/-- `ngx_conf_handler`, which calls the function of a directive. -/
def handler (shc : Block S) (d : BlockDirective) : Except BlockError (Block S) :=
  match m.slots.handler m.commands d with
  | .error message => .error (.message message)
  | .ok (slot, value, args) => m.set slot shc value args

/-- `ngx_http_statshouse_metric_slot` and `ngx_stream_statshouse_metric_slot`, on the
directives that `ngx_conf_parse` reads. -/
def metricSlot (name : Str) (block : List BlockDirective) : Except BlockError (MetricBlock S) := do
  let shc ← block.foldlM m.handler (Block.init name)
  if h : shc.value.isSome then .ok ⟨shc, h⟩ else .error .missed

end BlockModule

/-! ## What directives say -/

/-- The fields that are set once. -/
inductive BlockField where
  | phase
  | timeout
  | value
  | key (k : Fin keysMax)
  | sample
deriving DecidableEq

/-- What a directive says. -/
inductive Setting (S : Type) where
  | existsVar (name : Str)
  | condition (cs : List S)
  | phase (s : Str)
  | timeout (n : Nat)
  | value (v : BlockValue S)
  | key (k : Fin keysMax) (a : BlockKey S)
  | sample (n : Nat)

namespace Setting

def field : Setting S → Option BlockField
  | existsVar _ => none
  | condition _ => none
  | phase _ => some .phase
  | timeout _ => some .timeout
  | value _ => some .value
  | key k _ => some (.key k)
  | sample _ => some .sample

def conditions : Setting S → List S
  | condition cs => cs
  | _ => []

def existsVars : Setting S → List Str
  | existsVar name => [name]
  | _ => []

/-- The block with a setting. -/
def put (shc : Block S) : Setting S → Block S
  | existsVar name => { shc with existsVars := shc.existsVars ++ [name] }
  | condition cs => { shc with condition := shc.condition ++ cs }
  | phase s => { shc with phase := some s }
  | timeout n => { shc with timeout := some n }
  | value v => { shc with value := some v }
  | key k a => { shc with keys := Function.update shc.keys k (some a) }
  | sample n => { shc with sample := some n }

end Setting

/-- The setting that set a field. -/
def Block.get (shc : Block S) : BlockField → Option (Setting S)
  | .phase => shc.phase.map .phase
  | .timeout => shc.timeout.map .timeout
  | .value => shc.value.map .value
  | .key k => (shc.keys k).map (.key k)
  | .sample => shc.sample.map .sample

/-- A block is a form whose fields directives set. -/
def blockForm : Form BlockField (Setting S) (Block S) where
  field := Setting.field
  get := Block.get
  put := Setting.put
  get_put := by
    intro shc s f
    cases s with
    | key k a =>
        cases f with
        | key k' =>
            by_cases hk : k = k'
            · subst hk
              simp [Setting.field, Setting.put, Block.get]
            · simp [Setting.field, Setting.put, Block.get, Function.update_of_ne (Ne.symm hk), hk]
        | _ => simp [Setting.field, Setting.put, Block.get]
    | _ => cases f <;> simp [Setting.field, Setting.put, Block.get]

namespace BlockModule

variable (m : BlockModule S)

/-- The command with a name. -/
def command (name : Str) : Option BlockCommand := m.commands.find? fun c => c.name = name

/-- A value with its properties. -/
def settingValue (type : MetricType) (value : Str) (args : List Str) : Option (BlockValue S) :=
  if ∀ arg ∈ args, IsSplit arg then (m.string value).map fun s => ⟨s, type, args ≠ []⟩ else none

/-- A key with its properties. -/
def settingKey (name value : Str) (args : List Str) : Option (BlockKey S) :=
  if ∀ arg ∈ args, IsSplit arg ∨ m.keyExists ∧ IsExists arg then
    (m.string value).map fun s =>
      ⟨s, name, (args.filter (IsExists ·)).map (·.drop 7), args.any (IsSplit ·)⟩
  else none

/-- What the arguments of a command say. -/
def settingArgs (slot : BlockSlot) (value : Str) (args : List Str) : Option (Setting S) :=
  match slot with
  | .existsSlot => some (.existsVar value)
  | .conditionSlot => (m.string value).map fun s => .condition [s]
  | .predicateSlot => ((value :: args).mapM m.string).map .condition
  | .secSlot => (m.slots.parseTime value).map .timeout
  | .valueSlot type => (m.settingValue type value args).map .value
  | .strSlot => some (.phase value)
  | .keySlot k name => (m.settingKey name value args).map (.key k)
  | .numSlot => (m.slots.atoi.parse value).map .sample

/-- What a directive says on its own. -/
def setting (d : BlockDirective) : Option (Setting S) :=
  match m.command d.name, d.args with
  | some cmd, value :: args =>
    if cmd.take1 ∧ args ≠ [] then none else m.settingArgs cmd.slot value args
  | _, _ => none

end BlockModule

/-! ## One directive -/

theorem not_isExists_of_isSplit {arg : Str} (h : IsSplit arg) : ¬ IsExists arg := by
  have hne : Keywords.Incomparable (ascii "split") (ascii "exists=") := by decide
  exact hne.not_both h

theorem valueProperty_foldlM (v : BlockValue S) (args : List Str) :
    (args.foldlM BlockModule.valueProperty v).toOption =
      if ∀ arg ∈ args, IsSplit arg then some { v with split := v.split || args ≠ [] }
      else none := by
  induction args generalizing v with
  | nil => simp [Except.toOption, pure, Except.pure]
  | cons arg args ih =>
      rw [List.foldlM_cons, toOption_bind]
      unfold BlockModule.valueProperty
      by_cases harg : IsSplit arg
      -- once it is set it stays set
      · rw [if_pos harg]
        show (args.foldlM BlockModule.valueProperty { v with split := true }).toOption = _
        rw [ih]
        simp [harg]
      · rw [if_neg harg, if_neg fun h => harg (h arg List.mem_cons_self)]
        rfl

namespace BlockModule

variable (m : BlockModule S)

theorem keyProperty_foldlM (key : BlockKey S) (args : List Str) :
    (args.foldlM m.keyProperty key).toOption =
      if ∀ arg ∈ args, IsSplit arg ∨ m.keyExists ∧ IsExists arg then
        some { key with
          existsVars := key.existsVars ++ (args.filter (IsExists ·)).map (·.drop 7)
          split := key.split || args.any (IsSplit ·) }
      else none := by
  induction args generalizing key with
  | nil => simp [Except.toOption, pure, Except.pure]
  | cons arg args ih =>
      rw [List.foldlM_cons, toOption_bind]
      unfold keyProperty
      by_cases harg : IsSplit arg
      -- the two properties begin differently, so the order of the tests does not matter
      · have hexists := not_isExists_of_isSplit harg
        rw [if_pos harg]
        show (args.foldlM m.keyProperty { key with split := true }).toOption = _
        rw [ih]
        simp [harg, hexists]
      · rw [if_neg harg]
        by_cases hexists : m.keyExists ∧ IsExists arg
        · rw [if_pos hexists]
          show (args.foldlM m.keyProperty
            { key with existsVars := key.existsVars ++ [arg.drop 7] }).toOption = _
          rw [ih]
          simp [harg, hexists.1, hexists.2]
        · rw [if_neg hexists,
            if_neg fun h => (h arg List.mem_cons_self).elim harg hexists]
          rfl

theorem compile_toOption (value : Str) : (m.compile value).toOption = m.string value :=
  compiled_toOption m.string value

theorem conditionSlot_toOption (shc : Block S) (value : Str) :
    (m.conditionSlot shc value).toOption =
      (m.string value).map fun s => { shc with condition := shc.condition ++ [s] } := by
  unfold conditionSlot
  rw [toOption_bind, m.push_toOption]
  cases m.string value <;> rfl

theorem predicateSlot_toOption (shc : Block S) (values : List Str) :
    (m.predicateSlot shc values).toOption =
      (values.mapM m.string).map fun cs => { shc with condition := shc.condition ++ cs } := by
  unfold predicateSlot
  induction values generalizing shc with
  | nil =>
      show some shc = some { shc with condition := shc.condition ++ [] }
      rw [List.append_nil]
  | cons value values ih =>
      rw [List.foldlM_cons, toOption_bind, List.mapM_cons, conditionSlot_toOption]
      cases m.string value with
      | none => rfl
      | some s =>
          show (values.foldlM m.conditionSlot
            { shc with condition := shc.condition ++ [s] }).toOption = _
          rw [ih]
          show _ = Option.map _ ((values.mapM m.string).bind fun cs => some (s :: cs))
          cases values.mapM m.string <;> simp

theorem valueSlot_toOption (type : MetricType) (shc : Block S) (value : Str) (args : List Str) :
    (m.valueSlot type shc value args).toOption =
      if shc.value.isSome then none
      else (m.settingValue type value args).map fun v => { shc with value := some v } := by
  unfold valueSlot settingValue
  by_cases hset : shc.value.isSome
  · rw [if_pos hset, if_pos hset]
    rfl
  · rw [if_neg hset, if_neg hset, toOption_bind, compile_toOption]
    cases m.string value with
    | none => simp
    | some s =>
        show Except.toOption (_ >>= _) = _
        rw [toOption_bind, valueProperty_foldlM]
        by_cases hargs : ∀ arg ∈ args, IsSplit arg
        · rw [if_pos hargs, if_pos hargs]
          rfl
        · rw [if_neg hargs, if_neg hargs]
          rfl

theorem keySlot_toOption (k : Fin keysMax) (name : Str) (shc : Block S) (value : Str)
    (args : List Str) :
    (m.keySlot k name shc value args).toOption =
      if (shc.keys k).isSome then none
      else (m.settingKey name value args).map fun key =>
        { shc with keys := Function.update shc.keys k (some key) } := by
  unfold keySlot settingKey
  by_cases hset : (shc.keys k).isSome
  · rw [if_pos hset, if_pos hset]
    rfl
  · rw [if_neg hset, if_neg hset, toOption_bind, compile_toOption]
    cases m.string value with
    | none => simp
    | some s =>
        show Except.toOption (_ >>= _) = _
        rw [toOption_bind, keyProperty_foldlM]
        by_cases hargs : ∀ arg ∈ args, IsSplit arg ∨ m.keyExists ∧ IsExists arg
        · rw [if_pos hargs, if_pos hargs]
          rfl
        · rw [if_neg hargs, if_neg hargs]
          rfl

/-- A setting of a field is refused when the field is set. -/
theorem add_eq (shc : Block S) (s : Setting S) {f : BlockField} (hf : s.field = some f) :
    blockForm.add shc s = if (shc.get f).isSome then none else some (Setting.put shc s) := by
  have hget : (∀ g ∈ blockForm.field s, blockForm.get shc g = none) ↔ shc.get f = none := by
    show (∀ g ∈ s.field, _) ↔ _
    rw [hf]
    exact ⟨fun h => h f rfl, fun h g hg => Option.some.inj hg ▸ h⟩
  unfold Form.add
  by_cases hset : shc.get f = none
  · rw [if_pos (hget.mpr hset), hset]
    rfl
  · rw [if_neg fun h => hset (hget.mp h), if_pos (Option.isSome_iff_ne_none.mpr hset)]

/-- The function of a command adds what its arguments say. -/
theorem set_toOption (slot : BlockSlot) (shc : Block S) (value : Str) (args : List Str) :
    (m.set slot shc value args).toOption =
      (m.settingArgs slot value args).bind (blockForm.add shc) := by
  cases slot with
  | existsSlot =>
      show (m.existsSlot shc value).toOption = _
      unfold existsSlot
      rw [setField_toOption, m.slots.strArray_toOption]
      rfl
  | conditionSlot =>
      show (m.conditionSlot shc value).toOption = _
      rw [conditionSlot_toOption]
      unfold settingArgs
      cases m.string value <;> rfl
  | predicateSlot =>
      show (m.predicateSlot shc (value :: args)).toOption = _
      rw [predicateSlot_toOption]
      unfold settingArgs
      cases (value :: args).mapM m.string <;> rfl
  | secSlot =>
      show (m.secSlot shc value).toOption = _
      unfold secSlot settingArgs
      rw [setField_toOption, m.slots.sec_toOption]
      cases m.slots.parseTime value with
      -- a bad value fails whether or not the field is set
      | none => cases shc.timeout <;> rfl
      | some n =>
          show _ = blockForm.add shc (.timeout n)
          rw [add_eq shc _ rfl]
          unfold Block.get
          cases shc.timeout <;> rfl
  | valueSlot type =>
      show (m.valueSlot type shc value args).toOption = _
      rw [valueSlot_toOption]
      simp only [settingArgs]
      cases m.settingValue type value args with
      | none => simp
      | some v =>
          show _ = blockForm.add shc (.value v)
          rw [add_eq shc _ rfl]
          unfold Block.get
          cases shc.value <;> rfl
  | strSlot =>
      show (m.strSlot shc value).toOption = blockForm.add shc (.phase value)
      unfold strSlot
      rw [setField_toOption, m.slots.str_toOption, add_eq shc _ rfl]
      unfold Block.get
      cases shc.phase <;> rfl
  | keySlot k name =>
      show (m.keySlot k name shc value args).toOption = _
      rw [keySlot_toOption]
      simp only [settingArgs]
      cases m.settingKey name value args with
      | none => simp
      | some key =>
          show _ = blockForm.add shc (.key k key)
          rw [add_eq shc _ rfl]
          show _ = if ((shc.keys k).map (Setting.key k)).isSome then _ else _
          cases shc.keys k <;> rfl
  | numSlot =>
      show (m.numSlot shc value).toOption = _
      unfold numSlot settingArgs
      rw [setField_toOption, m.slots.num_toOption]
      cases m.slots.atoi.parse value with
      | none => cases shc.sample <;> rfl
      | some n =>
          show _ = blockForm.add shc (.sample n)
          rw [add_eq shc _ rfl]
          unfold Block.get
          cases shc.sample <;> rfl

/-- What a directive says is what the arguments of its function say. -/
theorem setting_eq (d : BlockDirective) :
    m.setting d = (findCommand m.commands d).bind fun c => m.settingArgs c.1 c.2.1 c.2.2 := by
  unfold setting findCommand command
  cases m.commands.find? fun c => c.name = d.name with
  | none => rfl
  | some cmd =>
      cases d.args with
      | nil => rfl
      | cons value args =>
          show (if _ then _ else _) = Option.bind (if _ then _ else _) _
          split <;> rfl

/-- A directive adds what it says on its own. -/
theorem handler_toOption (shc : Block S) (d : BlockDirective) :
    (m.handler shc d).toOption = (m.setting d).bind (blockForm.add shc) := by
  rw [setting_eq, ← m.slots.handler_toOption]
  unfold handler
  cases m.slots.handler m.commands d with
  | error message => rfl
  | ok c => exact set_toOption m c.1 shc c.2.1 c.2.2

end BlockModule

/-! ## Example -/

/-- A field that is set once. -/
def setOnce {α : Type} (field value : Option α) : Except String α :=
  if field.isSome then .error "is duplicate"
  else
    match value with
    | none => .error "invalid value"
    | some a => .ok a

theorem setOnce_toOption {α : Type} (field value : Option α) :
    (setOnce field value).toOption = if field.isSome then none else value := by
  unfold setOnce
  split
  · rfl
  · cases value <;> rfl

/-- Times are in seconds, without a unit. -/
def plainSlots : ConfSlots where
  parseTime := decimal.parse
  atoi := decimal
  handler := fun commands d => setOnce none (findCommand commands d)
  strArray := fun field value => .ok (field ++ [value])
  sec := fun field value => setOnce field (decimal.parse value)
  str := fun field value => setOnce field (some value)
  num := fun field value => setOnce field (decimal.parse value)
  handler_toOption := fun commands d => setOnce_toOption none (findCommand commands d)
  strArray_toOption := fun _ _ => rfl
  sec_toOption := fun field value => setOnce_toOption field (decimal.parse value)
  str_toOption := fun field value => setOnce_toOption field (some value)
  num_toOption := fun field value => setOnce_toOption field (decimal.parse value)

end StatsHouse

import StatsHouse.Compile
import StatsHouse.Lib.Keywords

/-! # The arguments of `statshouse_server`

The option loops of `ngx_http_statshouse_server_slot` and of
`ngx_stream_statshouse_server_slot` are copies of each other. An option is
recognised by a comparison of its first bytes, and what is parsed begins at an
offset; both numbers are written by hand.

* `own_names_iff`: what the loop of the HTTP module makes of its arguments is what
  their names say, unless an argument begins like a name and goes on differently.
-/

namespace StatsHouse

open Keywords Outcome

/-- The bytes of a string literal of the source. -/
def ascii (s : String) : Str := s.toList.map fun c => UInt8.ofNat c.toNat

/-! ## Parameters -/

/-- A parameter that an option with a value sets. -/
inductive ServerParam where
  | bufferSize
  | aggregateSize
  | aggregateValues
  | flush
  | splitsMax
deriving DecidableEq, Repr

/-- The variables of the slot function that the options set. -/
structure ServerParams where
  bufferSize : Nat
  aggregateSize : Nat
  aggregateValues : Nat
  flushAfterRequest : Bool
  splitsMax : Nat
  flush : Nat
deriving DecidableEq, Repr

/-- Before the options are read. -/
def ServerParams.init : ServerParams :=
  { bufferSize := 4 * 1024, aggregateSize := 0, aggregateValues := 24
    flushAfterRequest := false, splitsMax := 16, flush := 1000 }

def ServerParams.get (params : ServerParams) : ServerParam → Nat
  | .bufferSize => params.bufferSize
  | .aggregateSize => params.aggregateSize
  | .aggregateValues => params.aggregateValues
  | .flush => params.flush
  | .splitsMax => params.splitsMax

def ServerParams.set (params : ServerParams) (p : ServerParam) (n : Nat) : ServerParams :=
  match p with
  | .bufferSize => { params with bufferSize := n }
  | .aggregateSize => { params with aggregateSize := n }
  | .aggregateValues => { params with aggregateValues := n }
  | .flush => { params with flush := n }
  | .splitsMax => { params with splitsMax := n }

/-- The functions of nginx that parse an argument, which answer `none` for `NGX_ERROR`:
`ngx_parse_url`, of whose addresses only the first is used, as the bytes of its
`sockaddr`; `ngx_parse_size`; `ngx_parse_time`, for milliseconds; `ngx_atoi`. -/
structure Parsers where
  url : Str → Option Str
  size : Str → Option Nat
  time : Str → Option Nat
  atoi : Atoi

/-- The function that parses the value of an option. -/
def Parsers.value (ps : Parsers) : ServerParam → Str → Option Nat
  | .bufferSize => ps.size
  | .aggregateSize => ps.size
  | .aggregateValues => ps.atoi.parse
  | .flush => ps.time
  | .splitsMax => ps.atoi.parse

/-! ## The option loop -/

/-- A test of the option loop: the literal and the length of the comparison, the offset of
the value and the message of the error. -/
structure ServerOption where
  param : ServerParam
  literal : Str
  cmp : Nat
  offset : Nat
  message : String
deriving DecidableEq, Repr

/-- The bytes that are compared. An argument ends with a zero byte, which is not one of
them, so that a shorter argument does not compare equal. -/
def ServerOption.key (o : ServerOption) : Str := o.literal.take o.cmp

/-- The tests of a module in their order, and the last one, for a flag. -/
structure SlotModule where
  options : List ServerOption
  flag : Str
  flagCmp : Nat

/-- The bytes that are compared for the flag. -/
def SlotModule.flagKey (m : SlotModule) : Str := m.flag.take m.flagCmp

/-- The tests of `ngx_http_statshouse_server_slot`. -/
def httpModule : SlotModule :=
  { options :=
      [⟨.bufferSize, ascii "buffer=", 7, 7, "invalid buffer size"⟩,
        ⟨.aggregateSize, ascii "aggregate=", 10, 10, "invalid aggregate size"⟩,
        ⟨.aggregateValues, ascii "aggregate_values=", 17, 17, "invalid aggregate values max"⟩,
        ⟨.flush, ascii "flush=", 6, 6, "invalid flush time"⟩,
        ⟨.splitsMax, ascii "splits_max=", 6, 11, "invalid splits_max size"⟩]
    flag := ascii "flush_after_request", flagCmp := 19 }

/-- The tests of `ngx_stream_statshouse_server_slot`. -/
def streamModule : SlotModule :=
  { options :=
      [⟨.bufferSize, ascii "buffer=", 7, 7, "invalid buffer size"⟩,
        ⟨.aggregateSize, ascii "aggregate=", 10, 10, "invalid aggregate size"⟩,
        ⟨.aggregateValues, ascii "aggregate_values=", 17, 10, "invalid aggregate values max"⟩,
        ⟨.flush, ascii "flush=", 6, 6, "invalid flush time"⟩,
        ⟨.splitsMax, ascii "splits_max=", 6, 11, "invalid splits_max size"⟩]
    flag := ascii "flush_after_session", flagCmp := 19 }

/-- Where a slot function ends without `NGX_CONF_OK`. `outside` is a value that begins
behind the end of its argument, after which nothing more is said. -/
inductive SlotError where
  | duplicate
  | address
  | invalid (message : String) (arg : Str)
  | outside (arg : Str)
deriving DecidableEq, Repr

/-- Subtraction of a `size_t`. -/
def sizeSub (a b : Nat) : Nat := if b ≤ a then a - b else 2 ^ 64 - (b - a)

/-- The `len` bytes from `start` on, if they are in the argument. -/
def bytesAt (arg : Str) (start len : Nat) : Option Str :=
  if start + len ≤ arg.length then some ((arg.drop start).take len) else none

/-- The test that an argument passes. -/
def SlotModule.option (m : SlotModule) (arg : Str) : Option ServerOption :=
  lookup ServerOption.key m.options arg

/-- `s.data` and `s.len` for the function that parses the value: where it begins in the
argument, and its length. -/
def SlotModule.span (m : SlotModule) (arg : Str) : Option (Nat × Nat) :=
  (m.option arg).map fun o => (o.offset, sizeSub arg.length o.offset)

/-- The body of the option loop. -/
def parseOption (ps : Parsers) (m : SlotModule) (params : ServerParams) (arg : Str) :
    Except SlotError ServerParams :=
  match m.option arg with
  | some o =>
    match bytesAt arg o.offset (sizeSub arg.length o.offset) with
    | none => .error (.outside arg)
    | some s =>
      match ps.value o.param s with
      | none => .error (.invalid o.message arg)
      | some n => .ok (params.set o.param n)
  | none =>
    if m.flagKey.isPrefixOf arg then .ok { params with flushAfterRequest := true }
    else .error (.invalid "invalid parameter" arg)

/-- What a directive asks for. -/
inductive ServerArgs where
  | off
  | server (addr : Str) (params : ServerParams)
deriving DecidableEq, Repr

/-- The arguments of a directive: the first, and the options behind it. -/
def parseArgs (ps : Parsers) (m : SlotModule) (url : Str) (options : List Str) :
    Except SlotError ServerArgs :=
  if options = [] ∧ (ascii "off").isPrefixOf url then .ok .off
  else
    match ps.url url with
    | none => .error .address
    | some addr => do
      let params ← options.foldlM (parseOption ps m) ServerParams.init
      pure (.server addr params)

/-! ## The tests of the two modules -/

@[simp] theorem ServerParams.get_set (params : ServerParams) (p q : ServerParam) (n : Nat) :
    (params.set p n).get q = if q = p then n else params.get q := by
  cases p <;> cases q <;> rfl

@[simp] theorem ServerParams.set_flushAfterRequest (params : ServerParams) (p : ServerParam)
    (n : Nat) : (params.set p n).flushAfterRequest = params.flushAfterRequest := by
  cases p <;> rfl

/-- An argument passes at most one of the tests. -/
structure SlotModule.Distinct (m : SlotModule) : Prop where
  options : PrefixFree ServerOption.key m.options
  flag : ∀ o ∈ m.options, Incomparable m.flagKey o.key

theorem httpModule_distinct : httpModule.Distinct := ⟨by decide, by decide⟩

theorem streamModule_distinct : streamModule.Distinct := ⟨by decide, by decide⟩

section Tests

variable {ps : Parsers} {m : SlotModule} {arg : Str}

theorem SlotModule.Distinct.option_eq (hm : m.Distinct) {o : ServerOption} (ho : o ∈ m.options)
    (harg : o.key <+: arg) : m.option arg = some o :=
  (lookup_eq_some_iff hm.options).mpr ⟨ho, harg⟩

theorem SlotModule.Distinct.option_flag (hm : m.Distinct) (harg : m.flagKey <+: arg) :
    m.option arg = none := by
  apply lookup_eq_none_iff.mpr
  intro o ho
  exact (hm.flag o ho).not_both harg

/-- The value of an option is what is behind its offset, if that is in the argument. -/
theorem bytesAt_sizeSub {start : Nat} (h : start ≤ arg.length) :
    bytesAt arg start (sizeSub arg.length start) = some (arg.drop start) := by
  rw [sizeSub, if_pos h, bytesAt, if_pos (by omega)]
  congr 1
  apply List.take_of_length_le
  rw [List.length_drop]

theorem bytesAt_sizeSub_of_lt {start : Nat} (h : arg.length < start) :
    bytesAt arg start (sizeSub arg.length start) = none := by
  rw [bytesAt, if_neg (by omega)]

/-- An argument that a module takes, by itself: its value parses, or it is the flag. -/
def SlotModule.Takes (ps : Parsers) (m : SlotModule) (arg : Str) : Prop :=
  (∃ o ∈ m.options, o.key <+: arg ∧ o.offset ≤ arg.length ∧
    (ps.value o.param (arg.drop o.offset)).isSome) ∨ m.flagKey <+: arg

/-- What an argument that is taken does to the parameters. -/
inductive SlotModule.Sets (ps : Parsers) (m : SlotModule) (arg : Str) (params : ServerParams) :
    ServerParams → Prop where
  | value (o : ServerOption) (n : Nat) (ho : o ∈ m.options) (hkey : o.key <+: arg)
      (hoffset : o.offset ≤ arg.length) (hvalue : ps.value o.param (arg.drop o.offset) = some n) :
      Sets ps m arg params (params.set o.param n)
  | flag (hkey : m.flagKey <+: arg) :
      Sets ps m arg params { params with flushAfterRequest := true }

/-- The body of the loop, for a module whose tests exclude each other. -/
theorem parseOption_ok_iff (hm : m.Distinct) {params params' : ServerParams} :
    parseOption ps m params arg = .ok params' ↔ m.Sets ps arg params params' := by
  constructor
  · intro h
    unfold parseOption at h
    cases hoption : m.option arg with
    | none =>
        rw [hoption] at h
        simp only at h
        split at h
        · rename_i hflag
          cases h
          exact .flag (List.isPrefixOf_iff_prefix.mp hflag)
        · cases h
    | some o =>
        rcases mem_of_lookup hoption with ⟨ho, hkey⟩
        rw [hoption] at h
        simp only at h
        by_cases hoffset : o.offset ≤ arg.length
        · rw [bytesAt_sizeSub hoffset] at h
          simp only at h
          split at h
          · cases h
          · rename_i n hvalue
            cases h
            exact .value o n ho hkey hoffset hvalue
        · rw [bytesAt_sizeSub_of_lt (by omega)] at h
          cases h
  · intro h
    cases h with
    | value o n ho hkey hoffset hvalue =>
        simp only [parseOption, hm.option_eq ho hkey, bytesAt_sizeSub hoffset, hvalue]
    | flag hkey =>
        simp only [parseOption, hm.option_flag hkey, List.isPrefixOf_iff_prefix.mpr hkey, if_true]

theorem parseOption_isOk_iff (hm : m.Distinct) (params : ServerParams) :
    (∃ params', parseOption ps m params arg = .ok params') ↔ m.Takes ps arg := by
  constructor
  · rintro ⟨params', h⟩
    cases (parseOption_ok_iff hm).mp h with
    | value o n ho hkey hoffset hvalue =>
        exact Or.inl ⟨o, ho, hkey, hoffset, Option.isSome_iff_exists.mpr ⟨n, hvalue⟩⟩
    | flag hkey => exact Or.inr hkey
  · rintro (⟨o, ho, hkey, hoffset, hvalue⟩ | hkey)
    · obtain ⟨n, hn⟩ := Option.isSome_iff_exists.mp hvalue
      exact ⟨_, (parseOption_ok_iff hm).mpr (.value o n ho hkey hoffset hn)⟩
    · exact ⟨_, (parseOption_ok_iff hm).mpr (.flag hkey)⟩

theorem parseArgs_off_iff {url : Str} {options : List Str} :
    parseArgs ps m url options = .ok .off ↔ options = [] ∧ ascii "off" <+: url := by
  unfold parseArgs
  rw [← List.isPrefixOf_iff_prefix]
  split
  · rename_i hoff
    exact iff_of_true rfl hoff
  · rename_i hoff
    refine iff_of_false (fun h => ?_) hoff
    split at h
    · cases h
    · cases hloop : options.foldlM (parseOption ps m) ServerParams.init with
      | error e =>
          rw [hloop] at h
          cases h
      | ok params =>
          rw [hloop] at h
          cases h

theorem parseArgs_server_iff {url addr : Str} {options : List Str} {params : ServerParams} :
    parseArgs ps m url options = .ok (.server addr params) ↔
      ¬ (options = [] ∧ ascii "off" <+: url) ∧ ps.url url = some addr ∧
        options.foldlM (parseOption ps m) ServerParams.init = .ok params := by
  have hoffIff : parseArgs ps m url options = .ok .off ↔ _ := parseArgs_off_iff
  rw [← hoffIff]
  by_cases hoff : parseArgs ps m url options = .ok .off
  · rw [hoff]
    simp
  · have hnot : ¬ (options = [] ∧ (ascii "off").isPrefixOf url) := by
      rw [List.isPrefixOf_iff_prefix, ← hoffIff]
      exact hoff
    rw [and_iff_right hoff, parseArgs, if_neg hnot]
    cases hurl : ps.url url with
    | none => simp
    | some addr' =>
        cases hloop : options.foldlM (parseOption ps m) ServerParams.init with
        | error e =>
            refine iff_of_false (fun h => ?_) (by simp)
            cases h
        | ok params' =>
            show Except.ok (ServerArgs.server addr' params') = _ ↔ _
            simp

/-- The directive is accepted with a server, exactly if the address parses and each option
is taken. -/
theorem parseArgs_isOk_iff (hm : m.Distinct) {url : Str} {options : List Str} :
    (∃ addr params, parseArgs ps m url options = .ok (.server addr params)) ↔
      ¬ (options = [] ∧ ascii "off" <+: url) ∧ (ps.url url).isSome ∧
        ∀ arg ∈ options, m.Takes ps arg := by
  have hbody : ∀ (params : ServerParams) (arg : Str),
      (∃ params', parseOption ps m params arg = .ok params') ↔ m.Takes ps arg :=
    fun params arg => parseOption_isOk_iff hm params
  rw [← foldlM_isOk_iff hbody ServerParams.init, Option.isSome_iff_exists]
  simp only [parseArgs_server_iff]
  constructor
  · rintro ⟨addr, params, hoff, hurl, hloop⟩
    exact ⟨hoff, ⟨addr, hurl⟩, ⟨params, hloop⟩⟩
  · rintro ⟨hoff, ⟨addr, hurl⟩, ⟨params, hloop⟩⟩
    exact ⟨addr, params, hoff, hurl, hloop⟩

/-- With an option, the directive is rejected for its address or for an option. -/
theorem parseArgs_error_iff (hm : m.Distinct) {url : Str} {options : List Str}
    (hne : options ≠ []) :
    (∃ e, parseArgs ps m url options = .error e) ↔
      ps.url url = none ∨ ∃ arg ∈ options, ¬ m.Takes ps arg := by
  have hserver : (∃ addr params, parseArgs ps m url options = .ok (.server addr params)) ↔
      (ps.url url).isSome ∧ ∀ arg ∈ options, m.Takes ps arg := by
    rw [parseArgs_isOk_iff hm, and_iff_right fun hoff => hne hoff.1]
  cases hargs : parseArgs ps m url options with
  | error e =>
      refine iff_of_true ⟨e, rfl⟩ ?_
      by_contra hok
      push Not at hok
      obtain ⟨addr, params, hserver⟩ :=
        hserver.mpr ⟨Option.isSome_iff_ne_none.mpr hok.1, hok.2⟩
      rw [hargs] at hserver
      cases hserver
  | ok args =>
      refine iff_of_false ?_ ?_
      · rintro ⟨e, he⟩
        cases he
      · cases args with
        | off => exact absurd (parseArgs_off_iff.mp hargs).1 hne
        | server addr params =>
            obtain ⟨hurl, htakes⟩ := hserver.mp ⟨addr, params, hargs⟩
            rintro (hnone | ⟨arg, harg, hnot⟩)
            · rw [hnone] at hurl
              cases hurl
            · exact hnot (htakes arg harg)

end Tests

/-! ## What the names say -/

/-- The name of an option with a value, as it is documented. -/
def ServerParam.name : ServerParam → Str
  | .bufferSize => ascii "buffer"
  | .aggregateSize => ascii "aggregate"
  | .aggregateValues => ascii "aggregate_values"
  | .flush => ascii "flush"
  | .splitsMax => ascii "splits_max"

/-- The byte between a name and a value. -/
def equals : UInt8 := 0x3d

/-- The name and the byte behind it. -/
def ServerParam.before (p : ServerParam) : Str := p.name ++ [equals]

/-- An option as it is documented. -/
def OptionForm (arg : Str) : Prop :=
  arg = ascii "flush_after_request" ∨ ∃ (p : ServerParam) (value : Str), arg = p.before ++ value

/-- The `len` bytes from `start` on are what is behind the first `=`. -/
def AfterEquals (arg : Str) (start len : Nat) : Prop :=
  ∃ name value : Str, arg = name ++ [equals] ++ value ∧ equals ∉ name ∧ start = name.length + 1 ∧
    len = value.length

/-- The values an option gives to a parameter, in order. -/
def valuesOf (p : ServerParam) (options : List Str) : List Str :=
  options.filterMap fun arg =>
    if p.before.isPrefixOf arg then some (arg.drop p.before.length) else none

/-- The last value, or the default. -/
def declaredValue (ps : Parsers) (options : List Str) (p : ServerParam) : Nat :=
  (((valuesOf p options).getLast?).bind (ps.value p)).getD (ServerParams.init.get p)

/-- The parameters are those the options declare. -/
def Declares (ps : Parsers) (options : List Str) (params : ServerParams) : Prop :=
  (∀ p, params.get p = declaredValue ps options p) ∧
    (params.flushAfterRequest = true ↔ ascii "flush_after_request" ∈ options)

/-- What is said of the arguments of `ngx_http_statshouse_server_slot`: `form` and `span` are about
each option the loop comes to, behind options that were accepted. -/
structure OwnNames (ps : Parsers) (url : Str) (options : List Str) : Prop where
  off : parseArgs ps httpModule url options = .ok .off → options = [] ∧ url = ascii "off"
  form : ∀ before arg after params, options = before ++ arg :: after → (ps.url url).isSome →
    before.foldlM (parseOption ps httpModule) ServerParams.init = .ok params →
    (∃ params', parseOption ps httpModule params arg = .ok params') → OptionForm arg
  span : ∀ before arg after params, options = before ++ arg :: after → (ps.url url).isSome →
    before.foldlM (parseOption ps httpModule) ServerParams.init = .ok params →
    ∀ start len, httpModule.span arg = some (start, len) → AfterEquals arg start len
  last : ∀ addr params, parseArgs ps httpModule url options = .ok (.server addr params) →
    ps.url url = some addr ∧ Declares ps options params

/-- An option that is right by its name: the flag, or a value that parses. -/
def Acceptable (ps : Parsers) (arg : Str) : Prop :=
  arg = ascii "flush_after_request" ∨
    ∃ (p : ServerParam) (value : Str), arg = p.before ++ value ∧ (ps.value p value).isSome

/-- An option that begins like another: the flag and something behind it, or "splits"
without the rest of the name. In the second case no harm is done if its first `=` happens
to be where that of `splits_max=` is and what is behind it is no number. -/
def Misread (ps : Parsers) (arg : Str) : Prop :=
  (ascii "flush_after_request" <+: arg ∧ arg ≠ ascii "flush_after_request") ∨
    (ascii "splits" <+: arg ∧ ¬ ascii "splits_max=" <+: arg ∧
      ¬ (AfterEquals arg 11 (arg.length - 11) ∧ ps.atoi.parse (arg.drop 11) = none))

/-- The condition on the arguments. -/
structure PlainArgs (ps : Parsers) (url : Str) (options : List Str) : Prop where
  off : options = [] → ascii "off" <+: url → url = ascii "off"
  plain : ∀ before arg after, options = before ++ arg :: after → (ps.url url).isSome →
    (∀ a ∈ before, Acceptable ps a) → ¬ Misread ps arg

/-! ## One option -/

theorem httpModule_flagKey : httpModule.flagKey = ascii "flush_after_request" := by decide

/-- Each parameter has its test, with its name and the length of it as the offset. -/
theorem exists_httpOption (p : ServerParam) :
    ∃ o ∈ httpModule.options, o.param = p ∧ o.literal = p.before ∧ o.offset = p.before.length := by
  cases p <;> decide

/-- All but one of the tests compare the whole name. -/
theorem httpOption_cases : ∀ o ∈ httpModule.options,
    o.literal = o.param.before ∧ o.offset = o.param.before.length ∧
      (o.key = o.literal ∨ (o.param = .splitsMax ∧ o.key = ascii "splits")) := by
  decide

theorem equals_notMem_name (p : ServerParam) : equals ∉ p.name := by
  cases p <;> decide

theorem equals_notMem_flag : equals ∉ ascii "flush_after_request" := by decide

theorem before_unique {p q : ServerParam} {arg : Str} (hp : p.before <+: arg)
    (hq : q.before <+: arg) : p = q := by
  have hfree : ∀ p q : ServerParam, p.before <+: q.before → p = q := by
    intro p q
    cases p <;> cases q <;> decide
  rcases List.prefix_or_prefix_of_prefix hp hq with hle | hle
  · exact hfree p q hle
  · exact (hfree q p hle).symm

theorem before_ne_flag {p : ServerParam} {arg : Str} (hp : p.before <+: arg) :
    arg ≠ ascii "flush_after_request" := by
  rintro rfl
  apply equals_notMem_flag
  apply hp.subset
  exact List.mem_append_right _ (List.mem_singleton_self equals)

/-- Behind the name and the `=` is what is behind the first `=`. -/
theorem afterEquals_of_before {p : ServerParam} {arg : Str} (hp : p.before <+: arg) :
    AfterEquals arg p.before.length (arg.length - p.before.length) := by
  rcases hp with ⟨value, rfl⟩
  refine ⟨p.name, value, rfl, equals_notMem_name p, ?_, ?_⟩
  · simp [ServerParam.before]
  · simp

section OneOption

variable {ps : Parsers} {arg : Str} {o : ServerOption}

/-- A test that an argument passes is that of its name, unless it is misread. -/
theorem before_of_plain (hplain : ¬ Misread ps arg) (ho : o ∈ httpModule.options)
    (hkey : o.key <+: arg) :
    o.param.before <+: arg ∨
      (o.param = .splitsMax ∧ o.offset = 11 ∧ AfterEquals arg 11 (arg.length - 11) ∧
        ps.atoi.parse (arg.drop 11) = none) := by
  rcases httpOption_cases o ho with ⟨hliteral, hoffset, hwhole | ⟨hsplits, hpart⟩⟩
  · left
    rw [← hliteral, ← hwhole]
    exact hkey
  · by_cases hname : ascii "splits_max=" <+: arg
    · left
      rw [hsplits]
      exact hname
    · right
      rw [hpart] at hkey
      have hharmless : AfterEquals arg 11 (arg.length - 11) ∧
          ps.atoi.parse (arg.drop 11) = none := by
        by_contra hharm
        exact hplain (Or.inr ⟨hkey, hname, hharm⟩)
      refine ⟨hsplits, ?_, hharmless⟩
      rw [hoffset, hsplits]
      rfl

theorem flag_of_plain (hplain : ¬ Misread ps arg) (hkey : httpModule.flagKey <+: arg) :
    arg = ascii "flush_after_request" := by
  rw [httpModule_flagKey] at hkey
  by_contra hne
  exact hplain (Or.inl ⟨hkey, hne⟩)

/-- With a value that parses, the test is that of the name. -/
theorem before_of_value {n : Nat} (hplain : ¬ Misread ps arg) (ho : o ∈ httpModule.options)
    (hkey : o.key <+: arg) (hvalue : ps.value o.param (arg.drop o.offset) = some n) :
    o.param.before <+: arg := by
  rcases before_of_plain hplain ho hkey with hname | ⟨hsplits, hoffset, -, hnone⟩
  · exact hname
  · rw [hsplits, hoffset] at hvalue
    have hsome : ps.atoi.parse (arg.drop 11) = some n := hvalue
    rw [hnone] at hsome
    cases hsome

theorem acceptable_of_takes (hplain : ¬ Misread ps arg) (h : httpModule.Takes ps arg) :
    Acceptable ps arg := by
  rcases h with ⟨o, ho, hkey, -, hvalue⟩ | hkey
  · obtain ⟨n, hn⟩ := Option.isSome_iff_exists.mp hvalue
    rcases before_of_value hplain ho hkey hn with ⟨value, rfl⟩
    rw [(httpOption_cases o ho).2.1, List.drop_left] at hvalue
    exact Or.inr ⟨o.param, value, rfl, hvalue⟩
  · exact Or.inl (flag_of_plain hplain hkey)

/-- An option that is right by its name is taken. -/
theorem takes_of_acceptable (h : Acceptable ps arg) : httpModule.Takes ps arg := by
  rcases h with rfl | ⟨p, value, rfl, hvalue⟩
  · right
    rw [httpModule_flagKey]
  · obtain ⟨o, ho, rfl, hliteral, hoffset⟩ := exists_httpOption p
    refine Or.inl ⟨o, ho, ?_, ?_, ?_⟩
    · rw [← hliteral]
      exact (List.take_prefix _ _).trans (List.prefix_append _ _)
    · rw [hoffset, List.length_append]
      exact Nat.le_add_right _ _
    · rw [hoffset, List.drop_left]
      exact hvalue

theorem form_of_acceptable (h : Acceptable ps arg) : OptionForm arg := by
  rcases h with hflag | ⟨p, value, hvalue, -⟩
  · exact Or.inl hflag
  · exact Or.inr ⟨p, value, hvalue⟩

/-- What is handed to the function that parses the value. -/
theorem span_eq_some {start len : Nat} (h : httpModule.span arg = some (start, len)) :
    ∃ o ∈ httpModule.options, o.key <+: arg ∧ start = o.offset ∧
      len = sizeSub arg.length o.offset := by
  obtain ⟨o, ho, heq⟩ := Option.map_eq_some_iff.mp h
  rcases mem_of_lookup ho with ⟨hmem, hkey⟩
  cases heq
  exact ⟨o, hmem, hkey, rfl, rfl⟩

theorem span_of_key (ho : o ∈ httpModule.options) (hkey : o.key <+: arg) :
    httpModule.span arg = some (o.offset, sizeSub arg.length o.offset) := by
  rw [SlotModule.span, httpModule_distinct.option_eq ho hkey]
  rfl

theorem AfterEquals.length_eq {start len : Nat} (h : AfterEquals arg start len) :
    start + len = arg.length := by
  rcases h with ⟨name, value, rfl, -, rfl, rfl⟩
  simp only [List.length_append, List.length_singleton]

/-- The value of an argument that is not misread is behind its first `=`. -/
theorem span_of_plain (hplain : ¬ Misread ps arg) {start len : Nat}
    (h : httpModule.span arg = some (start, len)) : AfterEquals arg start len := by
  obtain ⟨o, ho, hkey, rfl, rfl⟩ := span_eq_some h
  have hafter : AfterEquals arg o.offset (arg.length - o.offset) := by
    rcases before_of_plain hplain ho hkey with hname | ⟨-, hoffset, hafter, -⟩
    · rw [(httpOption_cases o ho).2.1]
      exact afterEquals_of_before hname
    · rw [hoffset]
      exact hafter
  have hle := hafter.length_eq
  rw [sizeSub, if_pos (by omega)]
  exact hafter

/-- "splits" and something else than the rest of the name is no option. -/
theorem not_form_of_splits (hsplits : ascii "splits" <+: arg)
    (hname : ¬ ascii "splits_max=" <+: arg) : ¬ OptionForm arg := by
  rintro (rfl | ⟨p, value, rfl⟩)
  · revert hsplits
    decide
  · -- the only name that begins so is the one that is excluded
    have hother : ∀ p : ServerParam, p ≠ .splitsMax → Incomparable p.before (ascii "splits") := by
      intro p
      cases p <;> decide
    by_cases hp : p = .splitsMax
    · rw [hp] at hname
      exact hname (List.prefix_append _ _)
    · exact (hother p hp).not_both (List.prefix_append _ _) hsplits

/-- The flag and something behind it is no option. -/
theorem not_form_of_flag (hflag : ascii "flush_after_request" <+: arg)
    (hne : arg ≠ ascii "flush_after_request") : ¬ OptionForm arg := by
  rintro (heq | ⟨p, value, rfl⟩)
  · exact hne heq
  · have hother : Incomparable p.before (ascii "flush_after_request") := by
      cases p <;> decide
    exact hother.not_both (List.prefix_append _ _) hflag

/-- A misread option is taken without having the form of an option, or its value is not
behind its first `=`. -/
theorem misread_cases (ps : Parsers) (h : Misread ps arg) :
    (httpModule.Takes ps arg ∧ ¬ OptionForm arg) ∨
      ∃ start len, httpModule.span arg = some (start, len) ∧ ¬ AfterEquals arg start len := by
  rcases h with ⟨hflag, hne⟩ | ⟨hsplits, hname, hharm⟩
  · left
    refine ⟨Or.inr ?_, not_form_of_flag hflag hne⟩
    rw [httpModule_flagKey]
    exact hflag
  · obtain ⟨o, ho, hparam, hkey, hoffset⟩ : ∃ o ∈ httpModule.options,
        o.param = .splitsMax ∧ o.key = ascii "splits" ∧ o.offset = 11 := by decide
    rw [← hkey] at hsplits
    by_cases hafter : AfterEquals arg 11 (arg.length - 11)
    · -- the value is in its place, and it is a number
      left
      have hsome : (ps.atoi.parse (arg.drop 11)).isSome := by
        rw [Option.isSome_iff_ne_none]
        exact fun hnone => hharm ⟨hafter, hnone⟩
      have hlength := hafter.length_eq
      refine ⟨Or.inl ⟨o, ho, hsplits, by omega, ?_⟩, ?_⟩
      · rw [hparam, hoffset]
        exact hsome
      · rw [hkey] at hsplits
        exact not_form_of_splits hsplits hname
    · right
      refine ⟨_, _, span_of_key ho hsplits, ?_⟩
      rw [hoffset]
      intro hspan
      have hlength := hspan.length_eq
      rw [sizeSub] at hspan hlength
      split at hspan
      · exact hafter hspan
      · rename_i hlt
        rw [if_neg hlt] at hlength
        omega

end OneOption

/-! ## The loop -/

section Loop

variable {ps : Parsers} {arg url : Str} {before options : List Str} {params params' : ServerParams}

theorem declaredValue_snoc_of_not {p : ServerParam} (h : ¬ p.before <+: arg) :
    declaredValue ps (before ++ [arg]) p = declaredValue ps before p := by
  have hvalues : valuesOf p (before ++ [arg]) = valuesOf p before := by
    simp [valuesOf, h]
  rw [declaredValue, hvalues, declaredValue]

theorem declaredValue_snoc {p : ServerParam} {n : Nat} (h : p.before <+: arg)
    (hvalue : ps.value p (arg.drop p.before.length) = some n) :
    declaredValue ps (before ++ [arg]) p = n := by
  have hvalues : valuesOf p (before ++ [arg]) =
      valuesOf p before ++ [arg.drop p.before.length] := by
    simp [valuesOf, h]
  rw [declaredValue, hvalues, List.getLast?_concat]
  simp [hvalue]

theorem declares_init : Declares ps [] ServerParams.init := by
  constructor
  · intro p
    rfl
  · simp [ServerParams.init]

/-- One option more, which is not misread. -/
theorem Declares.snoc (h : Declares ps before params) (hplain : ¬ Misread ps arg)
    (hsets : httpModule.Sets ps arg params params') : Declares ps (before ++ [arg]) params' := by
  cases hsets with
  | value o n ho hkey hoffset hvalue =>
      have hname := before_of_value hplain ho hkey hvalue
      constructor
      · intro q
        rw [ServerParams.get_set]
        split
        · rename_i hq
          rw [hq]
          rw [(httpOption_cases o ho).2.1] at hvalue
          exact (declaredValue_snoc hname hvalue).symm
        · rename_i hq
          rw [declaredValue_snoc_of_not fun hother => hq (before_unique hother hname)]
          exact h.1 q
      · rw [ServerParams.set_flushAfterRequest, h.2, List.mem_append, List.mem_singleton]
        simp [(before_ne_flag hname).symm]
  | flag hkey =>
      have hflag := flag_of_plain hplain hkey
      constructor
      · intro q
        rw [declaredValue_snoc_of_not fun hname => before_ne_flag hname hflag]
        exact h.1 q
      · simp [hflag]

/-- The options up to any place, of a loop that came so far. -/
theorem PlainArgs.loop (h : PlainArgs ps url options) (hurl : (ps.url url).isSome)
    {after : List Str} (hoptions : options = before ++ after)
    (hloop : before.foldlM (parseOption ps httpModule) ServerParams.init = .ok params) :
    (∀ a ∈ before, Acceptable ps a) ∧ Declares ps before params := by
  induction before using List.reverseRecOn generalizing after params with
  | nil =>
      cases hloop
      refine ⟨?_, declares_init⟩
      intro a ha
      cases ha
  | append_singleton before arg ih =>
      rw [List.append_assoc, List.singleton_append] at hoptions
      obtain ⟨params₀, hbefore, hbody⟩ := foldlM_snoc_ok_iff.mp hloop
      obtain ⟨haccept, hdeclares⟩ := ih hoptions hbefore
      have hplain := h.plain before arg after hoptions hurl haccept
      have harg : Acceptable ps arg :=
        acceptable_of_takes hplain
          ((parseOption_isOk_iff httpModule_distinct params₀).mp ⟨_, hbody⟩)
      constructor
      · intro a ha
        rcases List.mem_append.mp ha with ha | ha
        · exact haccept a ha
        · rw [List.mem_singleton.mp ha]
          exact harg
      · exact hdeclares.snoc hplain ((parseOption_ok_iff httpModule_distinct).mp hbody)

/-- The loop comes to each option behind options that are right by their names. -/
theorem exists_loop_of_acceptable (h : ∀ a ∈ before, Acceptable ps a) :
    ∃ params, before.foldlM (parseOption ps httpModule) ServerParams.init = .ok params := by
  have hbody : ∀ (params : ServerParams) (arg : Str),
      (∃ params', parseOption ps httpModule params arg = .ok params') ↔ httpModule.Takes ps arg :=
    fun params arg => parseOption_isOk_iff httpModule_distinct params
  exact (foldlM_isOk_iff hbody ServerParams.init before).mpr fun a ha =>
    takes_of_acceptable (h a ha)

theorem PlainArgs.ownNames (h : PlainArgs ps url options) : OwnNames ps url options := by
  constructor
  · intro hoff
    rcases parseArgs_off_iff.mp hoff with ⟨hnil, hurl⟩
    exact ⟨hnil, h.off hnil hurl⟩
  · intro before arg after params hoptions hurl hloop hok
    have hplain := h.plain before arg after hoptions hurl (h.loop hurl hoptions hloop).1
    have htakes := (parseOption_isOk_iff httpModule_distinct params).mp hok
    exact form_of_acceptable (acceptable_of_takes hplain htakes)
  · intro before arg after params hoptions hurl hloop start len hspan
    have hplain := h.plain before arg after hoptions hurl (h.loop hurl hoptions hloop).1
    exact span_of_plain hplain hspan
  · intro addr params hargs
    rcases parseArgs_server_iff.mp hargs with ⟨-, hurl, hloop⟩
    have hsome : (ps.url url).isSome := Option.isSome_iff_exists.mpr ⟨addr, hurl⟩
    exact ⟨hurl, (h.loop hsome (List.append_nil options).symm hloop).2⟩

theorem OwnNames.plainArgs (h : OwnNames ps url options) : PlainArgs ps url options := by
  constructor
  · intro hnil hurl
    exact (h.off (parseArgs_off_iff.mpr ⟨hnil, hurl⟩)).2
  · intro before arg after hoptions hurl haccept hmisread
    obtain ⟨params, hloop⟩ := exists_loop_of_acceptable haccept
    rcases misread_cases ps hmisread with ⟨htakes, hform⟩ | ⟨start, len, hspan, hafter⟩
    · have hok := (parseOption_isOk_iff httpModule_distinct params).mpr htakes
      exact hform (h.form before arg after params hoptions hurl hloop hok)
    · exact hafter (h.span before arg after params hoptions hurl hloop start len hspan)

/-- The arguments are read by their names, exactly if a single argument that begins with
"off" is "off", and no option the loop comes to is misread. -/
theorem own_names_iff (ps : Parsers) (url : Str) (options : List Str) :
    OwnNames ps url options ↔ PlainArgs ps url options :=
  ⟨OwnNames.plainArgs, PlainArgs.ownNames⟩

/-- Sizes in bytes and times in seconds, without a unit; an address stands for itself. -/
def plainParsers : Parsers :=
  { url := some
    size := decimal.parse
    time := fun s => (decimal.parse s).map (· * 1000)
    atoi := decimal }

/-- A host whose name begins with "off", the flag with something behind it, and a value that
begins behind the end of its argument. -/
theorem not_own_names :
    ¬ OwnNames plainParsers (ascii "office:13337") [] ∧
      ¬ OwnNames plainParsers (ascii "stats:13337") [ascii "flush_after_requests"] ∧
      ¬ OwnNames plainParsers (ascii "stats:13337") [ascii "splits=5"] := by
  refine ⟨?_, ?_, ?_⟩
  · intro h
    have hoff := (h.off (by decide)).2
    revert hoff
    decide
  · intro h
    have hform := h.form [] _ [] _ rfl rfl rfl ⟨_, rfl⟩
    exact not_form_of_flag (by decide) (by decide) hform
  · intro h
    -- eleven bytes into an argument of eight
    have hspan := h.span [] _ [] _ rfl rfl rfl 11 (2 ^ 64 - 3) (by decide)
    have hlength := hspan.length_eq
    revert hlength
    decide

end Loop

end StatsHouse

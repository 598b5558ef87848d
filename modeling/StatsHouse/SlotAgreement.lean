import StatsHouse.ServerSlot

/-! # The slot functions of the two modules

`ngx_stream_statshouse_server_slot` is a copy of `ngx_http_statshouse_server_slot`
with another name for the flag, and with the offset 10 for the value of
`aggregate_values=`: what is parsed there begins with "values=", which is no number.

* `slots_agree_iff`: with the flag renamed the two agree, unless a directive that
  the HTTP module accepts has the option `aggregate_values=`.
-/

namespace StatsHouse

open Keywords Outcome

/-- An option with the name of the flag in one module replaced by that in the other. The
flag is what is compared, the first 19 bytes. -/
def renameFlag (arg : Str) : Str :=
  if httpModule.flagKey.isPrefixOf arg then
    streamModule.flagKey ++ arg.drop httpModule.flagKey.length
  else if streamModule.flagKey.isPrefixOf arg then
    httpModule.flagKey ++ arg.drop streamModule.flagKey.length
  else arg

/-- Both slot functions reject the directive, or both accept it and the context has the
same server, or none, after it. -/
def SlotsAgree (c : Nat) (http stream : Except SlotError SlotState) : Prop :=
  match http, stream with
  | .ok s, .ok t => s.attached c = t.attached c
  | .error _, .error _ => True
  | _, _ => False

/-! ## One option -/

/-- The name of the option that the stream module misses. -/
def aggregateValuesKey : Str := ascii "aggregate_values="

/-- The other options are those of both modules. -/
theorem options_agree :
    (∀ o ∈ httpModule.options, o.key ≠ aggregateValuesKey → o ∈ streamModule.options) ∧
      ∀ o ∈ streamModule.options, o.key ≠ aggregateValuesKey → o ∈ httpModule.options := by
  decide

/-- The two flags and the keys exclude each other. -/
theorem flags_incomparable :
    Incomparable streamModule.flagKey httpModule.flagKey ∧
      (∀ o ∈ httpModule.options, Incomparable o.key httpModule.flagKey ∧
        Incomparable o.key streamModule.flagKey) ∧
      ∀ o ∈ streamModule.options, Incomparable httpModule.flagKey o.key ∧
        Incomparable streamModule.flagKey o.key := by
  decide

section OneOption

variable {ps : Parsers} {arg : Str} {params params' : ServerParams}

theorem renameFlag_flag (h : httpModule.flagKey <+: arg) :
    streamModule.flagKey <+: renameFlag arg := by
  rw [renameFlag, if_pos (List.isPrefixOf_iff_prefix.mpr h)]
  exact List.prefix_append _ _

/-- No flag of the stream module comes from an option that is no flag. -/
theorem flag_of_renameFlag (h : streamModule.flagKey <+: renameFlag arg) :
    httpModule.flagKey <+: arg := by
  unfold renameFlag at h
  split at h
  · rename_i hhttp
    exact List.isPrefixOf_iff_prefix.mp hhttp
  · split at h
    · exact absurd (List.prefix_append _ _) (flags_incomparable.1.not_both h)
    · rename_i hstream
      exact absurd (List.isPrefixOf_iff_prefix.mpr h) hstream

/-- An option that begins with a key is not renamed. -/
theorem renameFlag_of_key {o : ServerOption} (ho : o ∈ httpModule.options) (h : o.key <+: arg) :
    renameFlag arg = arg := by
  rcases flags_incomparable.2.1 o ho with ⟨hhttp, hstream⟩
  unfold renameFlag
  rw [if_neg, if_neg]
  · exact fun hflag => hstream.not_both h (List.isPrefixOf_iff_prefix.mp hflag)
  · exact fun hflag => hhttp.not_both h (List.isPrefixOf_iff_prefix.mp hflag)

/-- An option with a key in the stream module was not renamed. -/
theorem key_of_renameFlag {o : ServerOption} (ho : o ∈ streamModule.options)
    (h : o.key <+: renameFlag arg) : renameFlag arg = arg := by
  rcases flags_incomparable.2.2 o ho with ⟨hhttp, hstream⟩
  unfold renameFlag at h ⊢
  split at h
  · exact absurd h (hstream.not_both (List.prefix_append _ _))
  · split at h
    · exact absurd h (hhttp.not_both (List.prefix_append _ _))
    · rename_i hnothttp hnotstream
      rw [if_neg hnothttp, if_neg hnotstream]

/-- The modules do the same with every option but that one. -/
theorem sets_renameFlag_iff (h : ¬ aggregateValuesKey <+: arg) :
    streamModule.Sets ps (renameFlag arg) params params' ↔
      httpModule.Sets ps arg params params' := by
  constructor
  · intro hsets
    cases hsets with
    | value o n ho hkey hoffset hvalue =>
        have hsame := key_of_renameFlag ho hkey
        rw [hsame] at hkey hoffset hvalue
        have hne : o.key ≠ aggregateValuesKey := fun heq => h (heq ▸ hkey)
        exact .value o n (options_agree.2 o ho hne) hkey hoffset hvalue
    | flag hkey => exact .flag (flag_of_renameFlag hkey)
  · intro hsets
    cases hsets with
    | value o n ho hkey hoffset hvalue =>
        have hne : o.key ≠ aggregateValuesKey := fun heq => h (heq ▸ hkey)
        rw [renameFlag_of_key ho hkey]
        exact .value o n (options_agree.1 o ho hne) hkey hoffset hvalue
    | flag hkey => exact .flag (renameFlag_flag hkey)

/-- The stream module does not take that one: it parses "values=" and what is behind it. -/
theorem not_takes_renameFlag (h : aggregateValuesKey <+: arg) :
    ¬ streamModule.Takes ps (renameFlag arg) := by
  obtain ⟨o, ho, hkey⟩ : ∃ o ∈ httpModule.options, o.key = aggregateValuesKey := by decide
  have hsame : renameFlag arg = arg := renameFlag_of_key ho (by rw [hkey]; exact h)
  obtain ⟨o', ho', hkey', hparam, hoffset⟩ : ∃ o ∈ streamModule.options,
      o.key = aggregateValuesKey ∧ o.param = .aggregateValues ∧ o.offset = 10 := by decide
  rw [hsame]
  rintro (⟨o'', ho'', hkey'', -, hvalue⟩ | hflag)
  · have heq : o'' = o' :=
      streamModule_distinct.options.unique ho'' ho' hkey'' (by rw [hkey']; exact h)
    rcases h with ⟨value, rfl⟩
    rw [heq, hparam, hoffset] at hvalue
    have hnone : ps.atoi.parse (ascii "values=" ++ value) = none :=
      ps.atoi.digit _ _ (by decide)
    have hsome : (ps.atoi.parse (ascii "values=" ++ value)).isSome := hvalue
    rw [hnone] at hsome
    cases hsome
  · rw [← hkey] at h
    exact (flags_incomparable.2.1 o ho).2.not_both h hflag

end OneOption

/-! ## One directive -/

section Directive

variable {ps : Parsers} {url : Str} {options : List Str}

theorem parseArgs_renameFlag_iff (h : ∀ arg ∈ options, ¬ aggregateValuesKey <+: arg)
    {args : ServerArgs} :
    parseArgs ps streamModule url (options.map renameFlag) = .ok args ↔
      parseArgs ps httpModule url options = .ok args := by
  cases args with
  | off => simp only [parseArgs_off_iff, List.map_eq_nil_iff]
  | server addr params =>
      have hbody : ∀ arg ∈ options, ∀ params params',
          parseOption ps streamModule params (renameFlag arg) = .ok params' ↔
            parseOption ps httpModule params arg = .ok params' := by
        intro arg harg params params'
        rw [parseOption_ok_iff streamModule_distinct, parseOption_ok_iff httpModule_distinct]
        exact sets_renameFlag_iff (h arg harg)
      simp only [parseArgs_server_iff, List.map_eq_nil_iff, foldlM_map_ok_iff hbody]

/-- The stream module rejects a directive with that option. -/
theorem parseArgs_stream_error {arg : Str} (harg : arg ∈ options)
    (hkey : aggregateValuesKey <+: arg) (args : ServerArgs) :
    parseArgs ps streamModule url (options.map renameFlag) ≠ .ok args := by
  intro hargs
  cases args with
  | off =>
      rw [parseArgs_off_iff, List.map_eq_nil_iff] at hargs
      rw [hargs.1] at harg
      cases harg
  | server addr params =>
      have htakes := ((parseArgs_isOk_iff streamModule_distinct).mp ⟨addr, params, hargs⟩).2.2
      exact not_takes_renameFlag hkey (htakes _ (List.mem_map_of_mem harg))

/-- What a context gets depends on the list of the servers alone. -/
theorem SlotState.attached_attach_congr {s t : SlotState} {c : Nat}
    (hservers : t.servers = s.servers) (hs : (s.locs c).server = .unset)
    (ht : (t.locs c).server = .unset) (args : ServerArgs) :
    (s.attach c args).attached c = (t.attach c args).attached c := by
  cases args with
  | off => simp [attach, attached, hs, ht]
  | server addr params =>
      rw [attach_server, attach_server, hservers]
      simp [attached]

end Directive

/-- For any arguments and two contexts that are not configured yet, with the same servers
before them: the slot functions agree, exactly if there is no option `aggregate_values=`,
or the directive is rejected by the HTTP module for its address or for an option. -/
theorem slots_agree_iff (ps : Parsers) (s t : SlotState) (c : Nat) (url : Str)
    (options : List Str) (hservers : t.servers = s.servers) (hs : (s.locs c).server = .unset)
    (ht : (t.locs c).server = .unset) :
    SlotsAgree c (httpServerSlot ps s c url options)
        (streamServerSlot ps t c url (options.map renameFlag)) ↔
      (∀ arg ∈ options, ¬ aggregateValuesKey <+: arg) ∨ ps.url url = none ∨
        ∃ arg ∈ options, ¬ httpModule.Takes ps arg := by
  rw [httpServerSlot, streamServerSlot, serverSlot_eq hs, serverSlot_eq ht]
  by_cases hnone : ∀ arg ∈ options, ¬ aggregateValuesKey <+: arg
  · -- the arguments are read the same
    refine iff_of_true ?_ (Or.inl hnone)
    cases hhttp : parseArgs ps httpModule url options with
    | error e =>
        cases hstream : parseArgs ps streamModule url (options.map renameFlag) with
        | error e' => trivial
        | ok args =>
            rw [(parseArgs_renameFlag_iff hnone).mp hstream] at hhttp
            cases hhttp
    | ok args =>
        rw [(parseArgs_renameFlag_iff hnone).mpr hhttp]
        exact SlotState.attached_attach_congr hservers hs ht args
  · -- the stream module rejects them
    rw [or_iff_right hnone]
    push Not at hnone
    obtain ⟨arg, harg, hkey⟩ := hnone
    cases hstream : parseArgs ps streamModule url (options.map renameFlag) with
    | ok args => exact absurd hstream (parseArgs_stream_error harg hkey args)
    | error e' =>
        rw [← parseArgs_error_iff httpModule_distinct (List.ne_nil_of_mem harg)]
        cases parseArgs ps httpModule url options with
        | error e => exact iff_of_true trivial ⟨e, rfl⟩
        | ok args =>
            refine iff_of_false id ?_
            rintro ⟨e, he⟩
            cases he

/-- Without that option: a buffer and the flag, in both modules. -/
theorem slots_agree_buffer :
    SlotsAgree 0
      (httpServerSlot plainParsers SlotState.init 0 (ascii "stats:13337")
        [ascii "buffer=1024", ascii "flush_after_request"])
      (streamServerSlot plainParsers SlotState.init 0 (ascii "stats:13337")
        ([ascii "buffer=1024", ascii "flush_after_request"].map renameFlag)) :=
  (slots_agree_iff plainParsers SlotState.init SlotState.init 0 _ _ rfl rfl rfl).mpr
    (Or.inl (by decide))

/-- With it: the HTTP module accepts the directive and the stream module does not. -/
theorem aggregate_values_disagree :
    ¬ SlotsAgree 0
      (httpServerSlot plainParsers SlotState.init 0 (ascii "stats:13337")
        [ascii "aggregate_values=32"])
      (streamServerSlot plainParsers SlotState.init 0 (ascii "stats:13337")
        ([ascii "aggregate_values=32"].map renameFlag)) := by
  have hstream : streamServerSlot plainParsers SlotState.init 0 (ascii "stats:13337")
      ([ascii "aggregate_values=32"].map renameFlag) =
      .error (.invalid "invalid aggregate values max" (ascii "aggregate_values=32")) := by
    rfl
  rw [hstream]
  exact id

end StatsHouse

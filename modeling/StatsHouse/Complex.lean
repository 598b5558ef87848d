import StatsHouse.Declared
import StatsHouse.Lib.Threaded
import StatsHouse.Request

/-! # Complex values

When all blocks are read, `ngx_http_statshouse_init_complex` compiles the strings of the
metrics, and disables a metric or a key whose `exists` names a variable that nginx does not
know. A string that is compiled makes nginx know the variables in it, so that a metric may
see what the metrics before it mention. The stream module has its strings compiled by then.

* `initComplex_alone`: where the metrics name by `exists` what they mention and nginx does
  not know, each is initialised as it would be alone, and nginx comes to know no other
  variable.
-/

namespace StatsHouse

open Threaded

variable {C S : Type}

/-! ## Variables -/

/-- The variables nginx knows: by a prefix, by an index (`cmcf->variables`), and those that
are defined (`cmcf->variables_keys`). -/
structure Variables where
  prefixes : List Str
  indexed : List Str
  keys : List Str

def dollar : UInt8 := 0x24

/-- `ngx_http_statshouse_variable_exists`. -/
def variableExists (vars : Variables) (name : Str) : Rc :=
  if name.length < 2 ∨ name.head? ≠ some dollar then .error
  else
    let name := name.tail
    if vars.prefixes.any fun pv => pv.length ≤ name.length && strncmpEq name pv then .ok
    else if vars.indexed.any fun v => name.length = v.length && strncmpEq name v then .ok
    else if vars.keys.any fun key => name.length = key.length && strncmpEq name key then .ok
    else .declined

/-- The loop over the variables of an `exists`, which breaks at the first that does not. -/
def existAll (vars : Variables) (names : List Str) : Bool :=
  names.all fun name => variableExists vars name = .ok

/-! ## Compilation -/

/-- `ngx_http_compile_complex_value`: the complex value of a string, and the variables in
it, each of which gets an index. -/
structure Compiler (C : Type) where
  compile : Str → Option C
  mentions : Str → List Str

section Init

variable (cc : Compiler C)

/-- A string is compiled. -/
def Compiler.run (vars : Variables) (s : Str) : Option (C × Variables) :=
  (cc.compile s).map fun c => (c, { vars with indexed := vars.indexed ++ cc.mentions s })

/-- A key as `ngx_statshouse_stat_compile` finds it. -/
def BlockKey.conf (key : BlockKey S) (complex : Option C) (disable : Bool) : ConfKey (Option C) :=
  { complex := complex, name := key.name, split := key.split, disable := disable }

/-- A key that is not set. -/
def ConfKey.unset : ConfKey (Option C) :=
  { complex := none, name := [], split := false, disable := false }

/-- The body of the loop over the keys. -/
def initKey (vars : Variables) (key : Option (BlockKey Str)) :
    Option (ConfKey (Option C) × Variables) :=
  match key with
  | none => some (ConfKey.unset, vars)
  | some key =>
    if existAll vars key.existsVars then
      (cc.run vars key.string).map fun r => (key.conf (some r.1) false, r.2)
    else some (key.conf none true, vars)

/-- The value of a metric. -/
def MetricBlock.blockValue (shc : MetricBlock S) : BlockValue S := shc.value.get shc.valued

/-- The keys in their places. -/
def Block.keyList (shc : Block S) : List (Option (BlockKey S)) := List.ofFn shc.keys

/-- What `ngx_statshouse_stat_compile` and the handlers find of a metric. A null pointer
stands for no conditions. -/
def MetricBlock.conf (shc : MetricBlock S) (disable : Bool) (value : Option C) (condition : List C)
    (keys : List (ConfKey (Option C))) : MetricConf (Option C) :=
  { name := shc.name
    condition := if condition.isEmpty then none else some (condition.map some)
    timeout := shc.timeout.getD 0
    disable := disable
    value := { complex := value, type := shc.blockValue.type, split := shc.blockValue.split }
    keys := List.ofFn fun k : Fin keysMax => keys.getD k ConfKey.unset
    length_keys := List.length_ofFn
    phase := shc.phase.getD []
    sample := shc.sample.getD 0 }

/-- A metric that is disabled. -/
def MetricBlock.disabled (shc : MetricBlock S) : MetricConf (Option C) :=
  shc.conf true none [] (shc.keyList.map fun key =>
    key.elim ConfKey.unset fun key => key.conf none false)

/-- The body of the loop over the metrics. -/
def initConf (vars : Variables) (shc : MetricBlock Str) :
    Option (MetricConf (Option C) × Variables) :=
  if existAll vars shc.existsVars then
    (cc.run vars shc.blockValue.string).bind fun value =>
    (mapAccum cc.run value.2 shc.condition).bind fun condition =>
    (mapAccum (initKey cc) condition.2 shc.keyList).map fun keys =>
      (shc.conf false (some value.1) condition.1 keys.1, keys.2)
  -- `disable` is set and the strings are never compiled
  else some (shc.disabled, vars)

/-- `ngx_http_statshouse_init_complex`, on the blocks of `smcf->confs`. -/
def initComplex (vars : Variables) (confs : List (MetricBlock Str)) :
    Option (List (MetricConf (Option C)) × Variables) :=
  mapAccum (initConf cc) vars confs

end Init

/-! ## What nginx knows -/

/-- The names are equal for `ngx_strncmp`. -/
def SameName (x v : Str) : Prop := x.length = v.length ∧ strncmpEq x v = true

/-- nginx knows the variable with this name, which is without the dollar here. -/
def Variables.Knows (vars : Variables) (x : Str) : Prop :=
  (∃ pv ∈ vars.prefixes, pv.length ≤ x.length ∧ strncmpEq x pv = true) ∨
    (∃ v ∈ vars.indexed, SameName x v) ∨ ∃ key ∈ vars.keys, SameName x key

instance (x v : Str) : Decidable (SameName x v) := inferInstanceAs (Decidable (_ ∧ _))

instance (vars : Variables) (x : Str) : Decidable (vars.Knows x) :=
  inferInstanceAs (Decidable (_ ∨ _ ∨ _))

theorem strncmpEq_refl (x : Str) : strncmpEq x x = true := by
  induction x with
  | nil => rfl
  | cons a x ih => simp [strncmpEq, ih]

/-- A name that equals another equals what the other equals, up to its length. -/
theorem strncmpEq_trans {x y v : Str} (hlength : x.length = y.length) (hxy : strncmpEq x y = true)
    (hyv : strncmpEq y v = true) : strncmpEq x v = true := by
  induction x generalizing y v with
  | nil => unfold strncmpEq; rfl
  | cons a x ih =>
      cases y with
      | nil => cases hlength
      | cons b y =>
          cases v with
          | nil => rfl
          | cons c v =>
              simp only [strncmpEq, Bool.and_eq_true, Bool.or_eq_true, decide_eq_true_eq] at *
              rcases hxy with ⟨rfl, hrest⟩
              rcases hyv with ⟨rfl, hrest'⟩
              refine ⟨rfl, ?_⟩
              -- the comparison ends at a null byte in any of the three
              rcases hrest with hnull | hrest
              · exact Or.inl hnull
              · rcases hrest' with hnull | hrest'
                · exact Or.inl hnull
                · exact Or.inr (ih (Nat.succ.inj hlength) hrest hrest')

theorem Variables.Knows.of_same {vars : Variables} {x y : Str} (h : vars.Knows y)
    (hxy : SameName x y) : vars.Knows x := by
  rcases hxy with ⟨hlength, hname⟩
  rcases h with ⟨pv, hpv, hle, hyv⟩ | ⟨v, hv, hlength', hyv⟩ | ⟨key, hkey, hlength', hyv⟩
  · exact Or.inl ⟨pv, hpv, hlength ▸ hle, strncmpEq_trans hlength hname hyv⟩
  · exact Or.inr (Or.inl ⟨v, hv, hlength.trans hlength', strncmpEq_trans hlength hname hyv⟩)
  · exact Or.inr (Or.inr ⟨key, hkey, hlength.trans hlength', strncmpEq_trans hlength hname hyv⟩)

theorem variableExists_ok_iff {vars : Variables} {name : Str} :
    variableExists vars name = .ok ↔ ∃ x, name = dollar :: x ∧ x ≠ [] ∧ vars.Knows x := by
  unfold variableExists
  by_cases hform : name.length < 2 ∨ name.head? ≠ some dollar
  · rw [if_pos hform]
    refine iff_of_false (fun h => nomatch h) ?_
    rintro ⟨x, rfl, hx, -⟩
    rcases hform with hlength | hhead
    · have := List.length_pos_iff.mpr hx
      rw [List.length_cons] at hlength
      omega
    · exact hhead rfl
  -- the name without its dollar, which the three loops compare
  · rw [if_neg hform]
    rw [not_or, not_lt, not_not] at hform
    rcases List.head?_eq_some_iff.mp hform.2 with ⟨x, rfl⟩
    have hx : x ≠ [] := by
      rintro rfl
      exact absurd hform.1 (by decide)
    have hknows : (∃ y, dollar :: x = dollar :: y ∧ y ≠ [] ∧ vars.Knows y) ↔ vars.Knows x := by
      constructor
      · rintro ⟨y, heq, -, hknows⟩
        cases heq
        exact hknows
      · intro hknows
        exact ⟨x, rfl, hx, hknows⟩
    rw [hknows]
    unfold Variables.Knows SameName
    show (if vars.prefixes.any fun pv => pv.length ≤ x.length && strncmpEq x pv then Rc.ok
      else if vars.indexed.any fun v => x.length = v.length && strncmpEq x v then Rc.ok
      else if vars.keys.any fun key => x.length = key.length && strncmpEq x key then Rc.ok
      else Rc.declined) = Rc.ok ↔ _
    simp only [List.any_eq_true, Bool.and_eq_true, decide_eq_true_eq]
    split
    · rename_i hpre
      exact iff_of_true rfl (Or.inl hpre)
    · rename_i hpre
      split
      · rename_i hindexed
        exact iff_of_true rfl (Or.inr (Or.inl hindexed))
      · rename_i hindexed
        split
        · rename_i hkey
          exact iff_of_true rfl (Or.inr (Or.inr hkey))
        · rename_i hkey
          refine iff_of_false (fun h => nomatch h) ?_
          rintro (h | h | h)
          · exact hpre h
          · exact hindexed h
          · exact hkey h

/-- The same variables are known. -/
def SameKnown (vars vars' : Variables) : Prop := ∀ x, vars'.Knows x ↔ vars.Knows x

theorem SameKnown.existAll {vars vars' : Variables} (h : SameKnown vars vars') (names : List Str) :
    existAll vars' names = existAll vars names := by
  unfold StatsHouse.existAll
  apply List.all_congr rfl
  intro name
  have hiff : variableExists vars' name = .ok ↔ variableExists vars name = .ok := by
    rw [variableExists_ok_iff, variableExists_ok_iff]
    simp only [h _]
  exact decide_eq_decide.mpr hiff

/-- Names that were known are given an index, and nothing else becomes known. -/
theorem SameKnown.index {vars vars' : Variables} (h : SameKnown vars vars') {names : List Str}
    (hnames : ∀ y ∈ names, vars.Knows y) :
    SameKnown vars { vars' with indexed := vars'.indexed ++ names } := by
  intro x
  constructor
  · rintro (hpre | ⟨v, hv, hname⟩ | hkey)
    · exact (h x).mp (Or.inl hpre)
    · rcases List.mem_append.mp hv with hv | hv
      · exact (h x).mp (Or.inr (Or.inl ⟨v, hv, hname⟩))
      -- a name that is as good as one that was known
      · exact (hnames v hv).of_same hname
    · exact (h x).mp (Or.inr (Or.inr hkey))
  · intro hx
    rcases (h x).mpr hx with hpre | ⟨v, hv, hname⟩ | hkey
    · exact Or.inl hpre
    · exact Or.inr (Or.inl ⟨v, List.mem_append_left _ hv, hname⟩)
    · exact Or.inr (Or.inr hkey)

/-! ## Metrics that name what they need -/

section Alone

variable {cc : Compiler C} {vars vars₁ vars₂ : Variables}

/-- The strings of a metric mention what nginx knows, or what an `exists` that guards them
names. -/
structure MetricBlock.Guarded (cc : Compiler C) (vars : Variables) (shc : MetricBlock Str) :
    Prop where
  value : ∀ x ∈ cc.mentions shc.blockValue.string, vars.Knows x ∨ dollar :: x ∈ shc.existsVars
  condition : ∀ s ∈ shc.condition, ∀ x ∈ cc.mentions s, vars.Knows x ∨ dollar :: x ∈ shc.existsVars
  keys : ∀ k key, shc.keys k = some key → ∀ x ∈ cc.mentions key.string,
    vars.Knows x ∨ dollar :: x ∈ shc.existsVars ∨ dollar :: x ∈ key.existsVars

theorem knows_of_existAll {names : List Str} {x : Str} (h : existAll vars names = true)
    (hx : dollar :: x ∈ names) : vars.Knows x := by
  unfold existAll at h
  have hok := List.all_eq_true.mp h _ hx
  rcases variableExists_ok_iff.mp (of_decide_eq_true hok) with ⟨y, heq, -, hknows⟩
  cases heq
  exact hknows

theorem run_alike {s : Str} (hs : ∀ x ∈ cc.mentions s, vars.Knows x) (h₁ : SameKnown vars vars₁)
    (h₂ : SameKnown vars vars₂) : Alike (SameKnown vars) (cc.run vars₁ s) (cc.run vars₂ s) := by
  unfold Compiler.run
  cases cc.compile s with
  | none => exact Option.Rel.none
  | some c => exact Alike.some (h₁.index hs) (h₂.index hs)

theorem initKey_alike {key : Option (BlockKey Str)}
    (hkey : ∀ k, key = some k → existAll vars k.existsVars = true →
      ∀ x ∈ cc.mentions k.string, vars.Knows x)
    (h₁ : SameKnown vars vars₁) (h₂ : SameKnown vars vars₂) :
    Alike (SameKnown vars) (initKey cc vars₁ key) (initKey cc vars₂ key) := by
  cases key with
  | none => exact Alike.some h₁ h₂
  | some key =>
      unfold initKey
      simp only
      rw [h₁.existAll, h₂.existAll]
      cases hall : existAll vars key.existsVars with
      | false => exact Alike.some h₁ h₂
      | true =>
          exact (run_alike (hkey key rfl hall) h₁ h₂).map fun c => key.conf (some c) false

theorem initConf_alike {shc : MetricBlock Str} (hguarded : shc.Guarded cc vars)
    (h₁ : SameKnown vars vars₁) (h₂ : SameKnown vars vars₂) :
    Alike (SameKnown vars) (initConf cc vars₁ shc) (initConf cc vars₂ shc) := by
  unfold initConf
  rw [h₁.existAll, h₂.existAll]
  cases hall : existAll vars shc.existsVars with
  | false => exact Alike.some h₁ h₂
  | true =>
      -- the metric is enabled, so what it guards with `exists` is known
      have hknown : ∀ {x : Str}, vars.Knows x ∨ dollar :: x ∈ shc.existsVars → vars.Knows x :=
        fun h => h.elim id (knows_of_existAll hall)
      have hvalue : ∀ x ∈ cc.mentions shc.blockValue.string, vars.Knows x :=
        fun x hx => hknown (hguarded.value x hx)
      refine (run_alike hvalue h₁ h₂).bind ?_
      intro value vars₁ vars₂ h₁ h₂
      have hcondition : ∀ s ∈ shc.condition, ∀ vars₁ vars₂, SameKnown vars vars₁ →
          SameKnown vars vars₂ → Alike (SameKnown vars) (cc.run vars₁ s) (cc.run vars₂ s) :=
        fun s hs _ _ => run_alike fun x hx => hknown (hguarded.condition s hs x hx)
      refine (Alike.mapAccum hcondition h₁ h₂).bind ?_
      intro condition vars₁ vars₂ h₁ h₂
      refine (Alike.mapAccum ?_ h₁ h₂).map fun keys =>
        shc.conf false (some value) condition keys
      intro key hkey vars₁ vars₂ h₁ h₂
      refine initKey_alike ?_ h₁ h₂
      -- a key is compiled only if its own `exists` holds too
      rintro a rfl hkeyAll x hx
      rcases List.mem_ofFn.mp hkey with ⟨k, hk⟩
      rcases hguarded.keys k a hk x hx with hx | hx | hx
      · exact hx
      · exact knows_of_existAll hall hx
      · exact knows_of_existAll hkeyAll hx

/-- Where each metric guards what it mentions and nginx does not know, each is initialised
as it would be alone, whatever stands before it, and every variable that is given an index
was known before: no metric makes nginx stop at a variable it does not know. -/
theorem initComplex_alone {confs : List (MetricBlock Str)}
    (hguarded : ∀ shc ∈ confs, shc.Guarded cc vars) :
    (initComplex cc vars confs).map Prod.fst =
        confs.mapM (fun shc => (initConf cc vars shc).map Prod.fst) ∧
      ∀ confs' vars', initComplex cc vars confs = some (confs', vars') →
        ∀ x ∈ vars'.indexed, vars.Knows x := by
  have hstep : ∀ shc ∈ confs, ∀ vars₁ vars₂, SameKnown vars vars₁ → SameKnown vars vars₂ →
      Alike (SameKnown vars) (initConf cc vars₁ shc) (initConf cc vars₂ shc) :=
    fun shc hshc _ _ h₁ h₂ => initConf_alike (hguarded shc hshc) h₁ h₂
  -- the state that the metrics cannot tell apart: what nginx knows
  have hself : SameKnown vars vars := fun x => Iff.rfl
  refine ⟨mapAccum_alone hstep hself hself, ?_⟩
  intro confs' vars' h x hx
  have hkept : SameKnown vars vars' := (Alike.mapAccum hstep hself hself).keeps h
  exact (hkept x).mp (Or.inr (Or.inl ⟨x, hx, rfl, strncmpEq_refl x⟩))

end Alone

/-- Strings that are their own complex value; one that begins with a dollar is a variable. -/
def sampleCompiler : Compiler Str where
  compile := some
  mentions := fun s => if s.head? = some dollar then [s.tail] else []

/-- A counter of the variable "a", which has to exist. -/
def sampleMetric : MetricBlock Str :=
  { Block.init [0x6d] with
    existsVars := [ascii "$a"]
    value := some ⟨ascii "$a", .counter, false⟩
    valued := rfl }

/-- nginx knows the variable "b". -/
def sampleVariables : Variables := { prefixes := [], indexed := [], keys := [ascii "b"] }

/-- A counter with a condition on "b", and with keys of "b" and of "a", which has to exist. -/
def conditionMetric : MetricBlock Str :=
  { (Block.init [0x6e] : Block Str) with
    condition := [ascii "$b"]
    value := some ⟨ascii "1", .counter, false⟩
    keys := fun k =>
      if k = 1 then some ⟨ascii "$b", ascii "1", [], false⟩
      else if k = 2 then some ⟨ascii "$a", ascii "2", [ascii "$a"], false⟩
      else none
    valued := rfl }

/-- A counter of "b", which has to exist, with a key of it. -/
def existsMetric : MetricBlock Str :=
  { Block.init [0x65] with
    existsVars := [ascii "$b"]
    value := some ⟨ascii "$b", .counter, false⟩
    keys := fun k => if k = 1 then some ⟨ascii "$b", ascii "1", [], false⟩ else none
    valued := rfl }

theorem sampleMetrics_guarded : ∀ shc ∈ [conditionMetric, existsMetric, sampleMetric],
    shc.Guarded sampleCompiler sampleVariables := by
  intro shc hshc
  simp only [List.mem_cons, List.not_mem_nil, or_false] at hshc
  rcases hshc with rfl | rfl | rfl
  · refine ⟨by decide, by decide, ?_⟩
    intro k key hkey
    change (if k = 1 then _ else if k = 2 then _ else none) = some key at hkey
    split at hkey
    · cases hkey
      decide
    · split at hkey
      · cases hkey
        decide
      · cases hkey
  · refine ⟨by decide, by decide, ?_⟩
    intro k key hkey
    change (if k = 1 then _ else none) = some key at hkey
    split at hkey
    · cases hkey
      decide
    · cases hkey
  · refine ⟨by decide, by decide, ?_⟩
    intro k key hkey
    cases hkey

/-- The first metric mentions what the second names by `exists`; the third is disabled. -/
theorem initComplex_alone_sample :
    (initComplex sampleCompiler sampleVariables [conditionMetric, existsMetric, sampleMetric]).map
        (fun r => (r.1.map fun conf => conf.disable, r.2.indexed)) =
      some ([false, false, true], List.replicate 4 (ascii "b")) ∧
    (initComplex sampleCompiler sampleVariables [conditionMetric, existsMetric, sampleMetric]).map
        Prod.fst =
      [conditionMetric, existsMetric, sampleMetric].mapM (fun shc =>
        (initConf sampleCompiler sampleVariables shc).map Prod.fst) ∧
    ∀ confs' vars', initComplex sampleCompiler sampleVariables
        [conditionMetric, existsMetric, sampleMetric] = some (confs', vars') →
      ∀ x ∈ vars'.indexed, sampleVariables.Knows x :=
  ⟨by decide, initComplex_alone sampleMetrics_guarded⟩

end StatsHouse

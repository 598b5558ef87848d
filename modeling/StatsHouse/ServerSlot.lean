import Mathlib.Logic.Function.Basic
import StatsHouse.Lib.Intern
import StatsHouse.Options

/-! # Servers of the configuration

A `statshouse_server` directive attaches a server object to its context. Directives
that agree share one: `smcf->servers` is searched for an object with the parameters
of the directive before a new one is made. The comparison leaves out `flush`.

* `shared_server_iff`: every context has what its directive declares, unless two
  directives differ in nothing but `flush`.
-/

namespace StatsHouse

open Intern Keywords Outcome

/-! ## State -/

/-- The fields of `ngx_statshouse_server_t` that a slot function sets. -/
structure ServerObject where
  addr : Str
  params : ServerParams
deriving DecidableEq, Repr

/-- `slcf->server`: `NGX_CONF_UNSET_PTR`, null, or an object by its place in
`smcf->servers`. -/
inductive ServerPtr where
  | unset
  | null
  | object (i : Nat)
deriving DecidableEq, Repr

/-- The location configuration of a context, without `confs`. `enable` is `none` for
`NGX_CONF_UNSET`. -/
structure LocConf where
  server : ServerPtr
  enable : Option Bool
deriving DecidableEq, Repr

/-- `ngx_http_statshouse_create_loc_conf`. -/
def LocConf.create : LocConf := { server := .unset, enable := none }

/-- `smcf->servers`, of which no elements are as good as a null pointer, and the
configuration of each context. -/
structure SlotState where
  servers : List ServerObject
  locs : Nat → LocConf

def SlotState.init : SlotState := { servers := [], locs := fun _ => LocConf.create }

/-- The comparison of an object with the variables of the slot function. The length of the
`sockaddr` is that of its bytes. -/
def sameServer (server : ServerObject) (addr : Str) (params : ServerParams) : Bool :=
  server.addr = addr ∧
    server.params.flushAfterRequest = params.flushAfterRequest ∧
    server.params.splitsMax = params.splitsMax ∧
    server.params.aggregateSize = params.aggregateSize ∧
    server.params.aggregateValues = params.aggregateValues ∧
    server.params.bufferSize = params.bufferSize

/-- The slot function behind the arguments. -/
def SlotState.attach (s : SlotState) (c : Nat) : ServerArgs → SlotState
  | .off => { s with locs := Function.update s.locs c { s.locs c with enable := some false } }
  | .server addr params =>
    match s.servers.findIdx? fun server => sameServer server addr params with
    | some i =>
      { s with locs := Function.update s.locs c { server := .object i, enable := some true } }
    | none =>
      { servers := s.servers ++ [{ addr := addr, params := params }]
        locs := Function.update s.locs c
          { server := .object s.servers.length, enable := some true } }

def serverSlot (ps : Parsers) (m : SlotModule) (s : SlotState) (c : Nat) (url : Str)
    (options : List Str) : Except SlotError SlotState :=
  if (s.locs c).server ≠ .unset then .error .duplicate
  else do
    let args ← parseArgs ps m url options
    pure (s.attach c args)

/-- `ngx_http_statshouse_server_slot`. -/
def httpServerSlot (ps : Parsers) : SlotState → Nat → Str → List Str → Except SlotError SlotState :=
  serverSlot ps httpModule

/-- `ngx_stream_statshouse_server_slot`. -/
def streamServerSlot (ps : Parsers) :
    SlotState → Nat → Str → List Str → Except SlotError SlotState :=
  serverSlot ps streamModule

/-- The object a context points to. -/
def SlotState.attached (s : SlotState) (c : Nat) : Option ServerObject :=
  match (s.locs c).server with
  | .object i => s.servers[i]?
  | _ => none

/-! ## One directive -/

/-- What the comparison looks at. -/
def ServerObject.shared (server : ServerObject) : ServerObject :=
  { server with params := { server.params with flush := 0 } }

theorem sameServer_eq (server : ServerObject) (addr : Str) (params : ServerParams) :
    sameServer server addr params =
      decide (server.shared = ServerObject.shared { addr := addr, params := params }) := by
  rcases server with ⟨addr', params'⟩
  rcases params with ⟨b, s, v, f, m, t⟩
  rcases params' with ⟨b', s', v', f', m', t'⟩
  simp only [sameServer, ServerObject.shared, ServerObject.mk.injEq, ServerParams.mk.injEq]
  congr 1
  simp only [and_true, eq_iff_iff]
  tauto

/-- The search, and the new object where it finds none. -/
theorem SlotState.attach_server (s : SlotState) (c : Nat) (addr : Str) (params : ServerParams) :
    s.attach c (.server addr params) =
      { servers := (intern ServerObject.shared s.servers ⟨addr, params⟩).1
        locs := Function.update s.locs c
          { server := .object (intern ServerObject.shared s.servers ⟨addr, params⟩).2
            enable := some true } } := by
  simp only [attach, intern, sameServer_eq]
  cases s.servers.findIdx? fun server =>
    decide (server.shared = ServerObject.shared { addr := addr, params := params }) <;> rfl

section Attach

variable {ps : Parsers} {m : SlotModule} {s s' : SlotState} {c : Nat} {url : Str}
  {options : List Str} {addr : Str} {params : ServerParams}

theorem serverSlot_ok_iff :
    serverSlot ps m s c url options = .ok s' ↔
      (s.locs c).server = .unset ∧
        ∃ args, parseArgs ps m url options = .ok args ∧ s' = s.attach c args := by
  unfold serverSlot
  by_cases hunset : (s.locs c).server = .unset
  · rw [if_neg (by simp [hunset]), and_iff_right hunset]
    cases hargs : parseArgs ps m url options with
    | error e =>
        refine iff_of_false (fun h => ?_) (by simp)
        cases h
    | ok args =>
        show Except.ok (s.attach c args) = .ok s' ↔ _
        simp [eq_comm]
  · rw [if_pos hunset]
    simp [hunset]

theorem serverSlot_eq (h : (s.locs c).server = .unset) :
    serverSlot ps m s c url options = (parseArgs ps m url options).map (s.attach c) := by
  unfold serverSlot
  rw [if_neg (by simp [h])]
  cases parseArgs ps m url options <;> rfl

theorem SlotState.attach_locs_of_ne (s : SlotState) {c d : Nat} (hd : d ≠ c) (args : ServerArgs) :
    (s.attach c args).locs d = s.locs d := by
  cases args with
  | off => exact Function.update_of_ne hd ..
  | server addr params =>
      rw [attach_server]
      exact Function.update_of_ne hd ..

/-- Objects keep their places. -/
theorem SlotState.getElem?_attach {i : Nat} {server : ServerObject}
    (h : s.servers[i]? = some server) (c : Nat) (args : ServerArgs) :
    (s.attach c args).servers[i]? = some server := by
  cases args with
  | off => exact h
  | server addr params =>
      rw [attach_server]
      exact getElem?_intern h

theorem SlotState.attached_eq_some {server : ServerObject} (h : s.attached c = some server) :
    ∃ i, (s.locs c).server = .object i ∧ s.servers[i]? = some server := by
  unfold attached at h
  split at h
  · rename_i i hloc
    exact ⟨i, hloc, h⟩
  · cases h

theorem SlotState.attached_of_object {i : Nat} (h : (s.locs c).server = .object i) :
    s.attached c = s.servers[i]? := by
  rw [attached, h]

/-- A context that has an object is not changed by the directive of another one. -/
theorem SlotState.attached_attach_of_ne {server : ServerObject} {d : Nat}
    (h : s.attached d = some server) (hd : d ≠ c) (args : ServerArgs) :
    (s.attach c args).attached d = some server := by
  obtain ⟨i, hloc, hget⟩ := attached_eq_some h
  rw [← s.attach_locs_of_ne hd args] at hloc
  rw [attached_of_object hloc]
  exact getElem?_attach hget c args

/-- The context of the directive has an object that agrees with it, but for `flush`. -/
theorem SlotState.attached_attach (s : SlotState) (c : Nat) (addr : Str) (params : ServerParams) :
    ∃ server, (s.attach c (.server addr params)).attached c = some server ∧
      server.shared = ServerObject.shared { addr := addr, params := params } := by
  obtain ⟨server, hget, hshared⟩ :=
    exists_intern ServerObject.shared s.servers { addr := addr, params := params }
  refine ⟨server, ?_, hshared⟩
  rw [attach_server]
  unfold attached
  simp only [Function.update_self]
  exact hget

end Attach

/-! ## All directives -/

/-- A `statshouse_server` directive: its context, its first argument and its options. -/
structure ServerDirective where
  ctx : Nat
  url : Str
  options : List Str
deriving DecidableEq, Repr

/-- The object a directive asks for, if it is not "off". -/
def ServerDirective.declared (ps : Parsers) (d : ServerDirective) : Option ServerObject :=
  match parseArgs ps httpModule d.url d.options with
  | .ok (.server addr params) => some { addr := addr, params := params }
  | _ => none

/-- The directives of a configuration, in order. -/
def httpServerSlots (ps : Parsers) (ds : List ServerDirective) : Except SlotError SlotState :=
  ds.foldlM (fun s d => httpServerSlot ps s d.ctx d.url d.options) SlotState.init

/-- After the directives: the objects are declared, no two agree, and the context of each
directive has one that agrees with it. -/
structure SlotState.Inv (ps : Parsers) (ds : List ServerDirective) (s : SlotState) : Prop where
  declared : ∀ server ∈ s.servers, ∃ d ∈ ds, d.declared ps = some server
  nodup : (s.servers.map ServerObject.shared).Nodup
  attached : ∀ d ∈ ds, ∀ a, d.declared ps = some a →
    ∃ server, s.attached d.ctx = some server ∧ server.shared = a.shared

section Run

variable {ps : Parsers} {ds : List ServerDirective} {s : SlotState}

theorem SlotState.init_inv (ps : Parsers) : SlotState.init.Inv ps [] := by
  constructor
  · intro server hserver
    cases hserver
  · exact List.nodup_nil
  · intro d hd
    cases hd

/-- The contexts of the directives before keep their objects: the context of the next one
has none yet. -/
theorem SlotState.Inv.attached_attach (h : s.Inv ps ds) {c : Nat}
    (hunset : (s.locs c).server = .unset) (args : ServerArgs) :
    ∀ d ∈ ds, ∀ a, d.declared ps = some a →
      ∃ server, (s.attach c args).attached d.ctx = some server ∧ server.shared = a.shared := by
  intro d hd a ha
  obtain ⟨server, hattached, hshared⟩ := h.attached d hd a ha
  have hother : d.ctx ≠ c := by
    intro heq
    obtain ⟨i, hloc, -⟩ := attached_eq_some hattached
    rw [heq, hunset] at hloc
    cases hloc
  exact ⟨server, attached_attach_of_ne hattached hother args, hshared⟩

theorem SlotState.Inv.attach (h : s.Inv ps ds) {d : ServerDirective} {args : ServerArgs}
    (hunset : (s.locs d.ctx).server = .unset)
    (hargs : parseArgs ps httpModule d.url d.options = .ok args) :
    (s.attach d.ctx args).Inv ps (ds ++ [d]) := by
  have hold := h.attached_attach hunset args
  cases args with
  | off =>
      have hnone : d.declared ps = none := by rw [ServerDirective.declared, hargs]
      constructor
      · intro server hserver
        obtain ⟨d', hd', hdeclared⟩ := h.declared server hserver
        exact ⟨d', List.mem_append_left _ hd', hdeclared⟩
      · exact h.nodup
      · intro d' hd' a ha
        rcases List.mem_append.mp hd' with hd' | hd'
        · exact hold d' hd' a ha
        · rw [List.mem_singleton.mp hd', hnone] at ha
          cases ha
  | server addr params =>
      have hsome : d.declared ps = some { addr := addr, params := params } := by
        rw [ServerDirective.declared, hargs]
      constructor
      · intro server hserver
        rw [attach_server] at hserver
        rcases mem_intern hserver with hmem | hnew
        · obtain ⟨d', hd', hdeclared⟩ := h.declared server hmem
          exact ⟨d', List.mem_append_left _ hd', hdeclared⟩
        · refine ⟨d, List.mem_append_right _ (List.mem_singleton_self d), ?_⟩
          rw [hnew]
          exact hsome
      · rw [attach_server]
        exact nodup_intern h.nodup
      · intro d' hd' a ha
        rcases List.mem_append.mp hd' with hd' | hd'
        · exact hold d' hd' a ha
        · rw [List.mem_singleton.mp hd'] at ha ⊢
          rw [hsome] at ha
          cases ha
          exact s.attached_attach d.ctx addr params

theorem httpServerSlots_inv (h : httpServerSlots ps ds = .ok s) : s.Inv ps ds := by
  induction ds using List.reverseRecOn generalizing s with
  | nil =>
      cases h
      exact SlotState.init_inv ps
  | append_singleton ds d ih =>
      obtain ⟨s₀, hbefore, hslot⟩ := foldlM_snoc_ok_iff.mp h
      obtain ⟨hunset, args, hargs, rfl⟩ := serverSlot_ok_iff.mp hslot
      exact (ih hbefore).attach hunset hargs

/-- After any accepted directives, the object of each context is the one its directive
declares, exactly if directives that agree on what is compared agree on `flush` too. -/
theorem shared_server_iff (ps : Parsers) (ds : List ServerDirective) (s : SlotState)
    (h : httpServerSlots ps ds = .ok s) :
    (∀ d ∈ ds, ∀ a, d.declared ps = some a → s.attached d.ctx = some a) ↔
      ∀ d ∈ ds, ∀ d' ∈ ds, ∀ a b, d.declared ps = some a → d'.declared ps = some b →
        a.shared = b.shared → a.params.flush = b.params.flush := by
  have hinv := httpServerSlots_inv h
  have hmem : ∀ c server, s.attached c = some server → server ∈ s.servers := by
    intro c server hattached
    obtain ⟨i, -, hget⟩ := SlotState.attached_eq_some hattached
    exact List.mem_of_getElem? hget
  constructor
  · intro hall d hd d' hd' a b ha hb hshared
    have hsame := List.inj_on_of_nodup_map hinv.nodup (hmem _ _ (hall d hd a ha))
      (hmem _ _ (hall d' hd' b hb)) hshared
    rw [hsame]
  · intro hflush d hd a ha
    obtain ⟨server, hattached, hshared⟩ := hinv.attached d hd a ha
    obtain ⟨d', hd', hserver⟩ := hinv.declared server (hmem _ _ hattached)
    have hsame := hflush d' hd' d hd server a hserver ha hshared
    rw [hattached]
    congr 1
    -- equal but for `flush`, and in `flush`
    rcases server with ⟨addr, ⟨b, g, v, f, m, t⟩⟩
    rcases a with ⟨addr', ⟨b', g', v', f', m', t'⟩⟩
    simp only [ServerObject.shared, ServerObject.mk.injEq, ServerParams.mk.injEq] at hshared hsame ⊢
    tauto

end Run

/-- Two contexts with servers that differ in their buffers. -/
def twoBuffers : List ServerDirective :=
  [{ ctx := 0, url := ascii "stats:13337", options := [ascii "buffer=1024"] },
    { ctx := 1, url := ascii "stats:13337", options := [] }]

/-- Each has the one it declares. -/
theorem shared_server_buffers :
    ∃ s, httpServerSlots plainParsers twoBuffers = .ok s ∧
      ∀ d ∈ twoBuffers, ∀ a, d.declared plainParsers = some a → s.attached d.ctx = some a := by
  have hflush : ∀ d ∈ twoBuffers,
      (d.declared plainParsers).map (fun a => a.params.flush) = some 1000 := by
    decide
  refine ⟨_, rfl, (shared_server_iff plainParsers twoBuffers _ rfl).mpr ?_⟩
  intro d hd d' hd' a b ha hb _
  have hd := hflush d hd
  have hd' := hflush d' hd'
  rw [ha, Option.map_some, Option.some.injEq] at hd
  rw [hb, Option.map_some, Option.some.injEq] at hd'
  rw [hd, hd']

/-- Two contexts with servers that differ in how long they keep what is not sent. -/
def twoFlushes : List ServerDirective :=
  [{ ctx := 0, url := ascii "stats:13337", options := [ascii "flush=1"] },
    { ctx := 1, url := ascii "stats:13337", options := [ascii "flush=5"] }]

/-- The second gets the server of the first, which is flushed after a second. -/
theorem flush_not_shared :
    ∃ s, httpServerSlots plainParsers twoFlushes = .ok s ∧
      ¬ ∀ d ∈ twoFlushes, ∀ a, d.declared plainParsers = some a → s.attached d.ctx = some a := by
  refine ⟨_, rfl, ?_⟩
  intro h
  have hsecond := h _ (List.mem_cons_of_mem _ List.mem_cons_self) _ rfl
  have hflush := congrArg (Option.map fun server => server.params.flush) hsecond
  revert hflush
  decide

end StatsHouse

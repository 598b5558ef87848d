import StatsHouse.EndToEnd
import StatsHouse.Series

/-! # The account of a server, series by series

A server and its aggregator account for the stats that were accepted. Where the type, the
checksum and the total length of the key values tell the series apart that are sent, the
stats of a record are all of the record's series.

* `System.step_inSeries`: every callback keeps such an account.
-/

namespace StatsHouse

open Ledger

/-- What an aggregator looks records up by tells these stats apart. -/
def ToldApart {V : Type} (crc : Crc32) (stats : List (Stat V)) : Prop :=
  ∀ s ∈ stats, ∀ t ∈ stats, s.type = t.type → valuesLength s = valuesLength t →
    crc.checksum (hashBytes s) = crc.checksum (hashBytes t) → SameSeries s t

instance {V : Type} (crc : Crc32) (stats : List (Stat V)) : Decidable (ToldApart crc stats) :=
  inferInstanceAs (Decidable (∀ s ∈ stats, _))

section Account

variable [Add Value] {env : Env Value} {net : Net} {conf : ServerConf} {exiting : Bool} {now : Nat}
  {sent accepted : List (Stat Value)} {a : Aggregate Value} {server : Server} {stat : Stat Value}

/-! ## The aggregator -/

/-- An item holds stats that were sent, all of its own series. -/
def HoldsSeries (values : Nat) (sent group : List (Stat Value)) (item : Item) : Prop :=
  ItemHolds values group item ∧ ∀ s ∈ group, s ∈ sent ∧ SameSeries s item.stat

/-- The account of an aggregator by series, and the keys of its records. -/
structure InSeriesWith (env : Env Value) (conf : ServerConf) (exiting : Bool) (now : Nat)
    (sent accepted : List (Stat Value)) (a : Aggregate Value) (server : Server) : Prop where
  account : AccountedWith conf.aggregate exiting now Sum.inr
    (fun stat => tlMetricsLen [stat] ≤ conf.bufferSize) Server.Keeps
    (HoldsSeries conf.aggregateValues sent) accepted a server
  keyed : ∀ p ∈ a.queue, Keyed env (a.mem p)

theorem InSeriesWith.dropHead (hnet : net.Healthy conf) {p : Nat} {rest : List Nat}
    (h : InSeriesWith env conf exiting now sent accepted a server)
    (hqueue : a.queue = p :: rest) (hexpired : Expired conf.aggregate exiting now (a.mem p)) :
    InSeriesWith env conf exiting now sent accepted (a.dropHead env p rest)
      (aggregateHandler net conf exiting now (some (a.mem p).stat) server).2 :=
  ⟨h.account.dropHead (aggregateHandler_takes hnet exiting now) hqueue hexpired,
    fun q hq => h.keyed q (by rw [hqueue]; exact List.mem_cons_of_mem _ hq)⟩

theorem InSeriesWith.null (hnet : net.Healthy conf)
    (h : InSeriesWith env conf exiting now sent accepted a server) :
    InSeriesWith env conf exiting now sent accepted a
      (aggregateHandler net conf exiting now none server).2 :=
  ⟨h.account.null (aggregateHandler_takes hnet exiting now), h.keyed⟩

/-- A record that a lookup finds for a stat that is sent is of the series of each stat that
it holds. -/
theorem HoldsSeries.found (hapart : ToldApart env.crc sent) (hstat : stat ∈ sent)
    (hregular : Regular env conf.aggregate stat) {group : List (Stat Value)} {p : Nat}
    (hinv : a.Inv conf.aggregate) (hp : Found env conf.aggregate a stat p)
    (hkeyed : Keyed env (a.mem p))
    (h : HoldsSeries conf.aggregateValues sent group (.inr (a.mem p).stat)) :
    SameSeries stat (a.mem p).stat := by
  rcases h with ⟨hmerged, hseries⟩
  rcases of_aggregateLookup hp with ⟨-, hkey, hsize, htype⟩
  rcases hmerged.created with ⟨s, rest, rfl, hs⟩
  have hsized := (hinv.sized p (hinv.of_found hp).1).size
  -- the size of a record tells the length of the key values
  have hlength : valuesLength s = valuesLength stat := by
    have hlength' : valuesLength (a.mem p).stat = valuesLength stat :=
      valuesLength_eq_of_recordSize htype (hsized.symm.trans
        (hsize.trans (aggregateSize_eq_recordSize hregular.2)))
    rw [← hlength']
    unfold valuesLength
    rw [hs.2.2]
  -- a record that was not retired has the checksum of its stat
  have hdigest : env.crc.checksum (hashBytes s) = env.crc.checksum (hashBytes stat) := by
    rw [hs.hashBytes_eq, ← aggregateHash_eq, ← aggregateHash_eq,
      ← hkeyed (hinv.of_found hp).2, hkey]
  have hsame : SameSeries s stat :=
    hapart s (hseries s List.mem_cons_self).1 stat hstat (hs.1.trans htype) hlength hdigest
  exact ⟨hsame.1.symm.trans hs.1, hsame.2.1.symm.trans hs.2.1, hsame.2.2.symm.trans hs.2.2⟩

/-- A stat that joins the record that a lookup finds for it. -/
theorem accounts_join (hapart : ToldApart env.crc sent) (hstat : stat ∈ sent)
    (hregular : Regular env conf.aggregate stat) {b : Aggregate Value} {p : Nat}
    {change : AStat Value → AStat Value} {out : List Item} (hinv : a.Inv conf.aggregate)
    (hchanged : a.Changed b p change) (hp : Found env conf.aggregate a stat p)
    (hkeyed : Keyed env (a.mem p))
    (hacc : Accounts (HoldsSeries conf.aggregateValues sent) accepted
      (out ++ a.stats.map Sum.inr))
    (hmerge : ∀ group, Merged conf.aggregateValues group (a.mem p).stat →
      Merged conf.aggregateValues (group ++ [stat]) (change (a.mem p)).stat)
    (hsame : SameSeries (a.mem p).stat (change (a.mem p)).stat) :
    Accounts (HoldsSeries conf.aggregateValues sent) (accepted ++ [stat])
      (out ++ b.stats.map Sum.inr) := by
  rcases hchanged.stats hinv.live with ⟨before, after, hstats, hstats'⟩
  rw [hstats, List.map_append, List.map_cons, ← List.append_assoc] at hacc
  rw [hstats', List.map_append, List.map_cons, ← List.append_assoc]
  -- the item of the record takes one stat more
  apply hacc.merge
  intro group hgroup
  refine ⟨hmerge group hgroup.1, ?_⟩
  intro s hs
  rcases List.mem_append.mp hs with hs | hs
  · exact ⟨(hgroup.2 s hs).1, (hgroup.2 s hs).2.trans hsame⟩
  · rw [List.mem_singleton.mp hs]
    exact ⟨hstat, (hgroup.found hapart hstat hregular hinv hp hkeyed).trans hsame⟩

/-- A call of `aggregate` keeps the account by series. -/
theorem aggregate_inSeries (hnet : net.Healthy conf) (hapart : ToldApart env.crc sent)
    (hstat : stat ∈ sent)
    (hregular : Admitted conf.aggregate exiting stat → Regular env conf.aggregate stat)
    (hinv : a.Inv conf.aggregate) (h : InSeriesWith env conf exiting now sent accepted a server) :
    Post (fun rc a server => a.Inv conf.aggregate ∧ (∀ p ∈ a.queue, Keyed env (a.mem p)) ∧
        ∃ out, server.Keeps out ∧
          Accounts (HoldsSeries conf.aggregateValues sent)
            (if rc = .ok then accepted ++ [stat] else accepted) (out ++ a.stats.map Sum.inr))
      (aggregate env conf.aggregate (aggregateHandler net conf exiting now) exiting stat now a
        server) := by
  rcases h.account.1 with ⟨out, hout, hacc⟩
  refine aggregate_rule_inv (P := InSeriesWith env conf exiting now sent accepted) hregular hinv
    ?_ ?_ ?_ ?_ ?_ ?_ ?_ ?_ ?_
  · exact ⟨h.keyed, out, hout, by rw [if_neg (by simp)]; exact hacc⟩
  · -- a counter joins the record of its series
    intro hadm p hp htype hchanged
    refine ⟨hchanged.forall (P := Keyed env) (fun hr => hr) h.keyed, out, hout, ?_⟩
    rw [if_pos rfl]
    exact accounts_join hapart hstat (hregular hadm) hinv hchanged hp
      (h.keyed p (hinv.of_found hp).1) hacc
      (fun group hgroup => hgroup.addCounter ((of_aggregateLookup hp).2.2.2.trans htype) htype)
      ⟨rfl, rfl, rfl⟩
  · -- a value joins the record of its series
    intro hadm p hp htype hroom hchanged
    refine ⟨hchanged.forall (P := Keyed env) (fun hr => hr) h.keyed, out, hout, ?_⟩
    have htype' : (a.mem p).stat.type = stat.type := (of_aggregateLookup hp).2.2.2
    rw [if_pos rfl]
    exact accounts_join hapart hstat (hregular hadm) hinv hchanged hp
      (h.keyed p (hinv.of_found hp).1) hacc
      (fun group hgroup => hgroup.appendValue (fun hc => htype (htype'.symm.trans hc))
        htype'.symm hroom)
      ⟨rfl, rfl, rfl⟩
  · -- a retired record stays queued with what it holds
    intro _ p _ _ _ hchanged
    have hstats : (a.retire env p).stats = a.stats :=
      hchanged.map (g := fun _ r => r.stat) fun _ _ => rfl
    refine ⟨⟨⟨out, hout, by rw [hstats]; exact hacc⟩, ?_⟩, ?_⟩
    · exact hchanged.forall
        (P := fun r => Expired conf.aggregate exiting now r →
          tlMetricsLen [r.stat] ≤ conf.bufferSize) (fun hr => hr) h.account.2
    · exact hchanged.forall (P := Keyed env) (fun _ hret => Bool.noConfusion hret) h.keyed
  · intro _ _
    exact h
  · intro a server p rest _ h hqueue hexpired
    exact h.dropHead hnet hqueue hexpired
  · intro a server h
    exact h.null hnet
  · rintro rc a server hrc ⟨⟨⟨out, hout, hacc⟩, -⟩, hkeyed⟩
    exact ⟨hkeyed, out, hout, by rw [if_neg hrc]; exact hacc⟩
  · -- a new record holds its stat alone
    rintro a server p alloc r hadm hinv ⟨⟨⟨out, hout, hacc⟩, -⟩, hkeyed⟩ hr hsized hp
    obtain ⟨ev, hev⟩ := aggregateTimer_eq conf.aggregate now (a.insert env alloc p r)
    rw [if_pos rfl, hev]
    refine ⟨keyed_insert hinv hr hsized hp hkeyed, out, hout, ?_⟩
    have hholds : HoldsSeries conf.aggregateValues sent [stat] (.inr r.stat) := by
      rw [hr]
      refine ⟨merged_newRecord hadm.1 _ _ _, ?_⟩
      intro s hs
      rw [List.mem_singleton.mp hs]
      exact ⟨hstat, rfl, rfl, rfl⟩
    have hstats : (a.insert env alloc p r).stats = a.stats ++ [r.stat] :=
      hinv.map_insert hsized hp fun _ r => r.stat
    show Accounts _ _ (out ++ (a.insert env alloc p r).stats.map Sum.inr)
    rw [hstats, List.map_append, List.map_singleton, ← List.append_assoc]
    exact hacc.add hholds

/-- A call of `process` keeps the account by series. -/
theorem aggregateProcess_inSeries (hnet : net.Healthy conf) (hinv : a.Inv conf.aggregate)
    (h : InSeriesWith env conf exiting now sent accepted a server) :
    Post (fun _ a server => a.Inv conf.aggregate ∧
        InSeriesWith env conf exiting now sent accepted a server)
      (aggregateProcess env conf.aggregate (aggregateHandler net conf exiting now) exiting now a
        server) :=
  aggregateProcess_rule_inv (fun _ _ _ _ _ h hqueue hexpired => h.dropHead hnet hqueue hexpired)
    (fun _ _ h => h.null hnet) hinv h

/-! ## The system -/

/-- A system whose account is by series. -/
structure System.InSeries (env : Env Value) (conf : ServerConf) (sent : List (Stat Value))
    (sys : System) : Prop where
  inv : sys.Inv conf
  keyed : ∀ a, sys.aggregate = some a → ∀ p ∈ a.queue, Keyed env (a.mem p)
  account : ∃ out, sys.server.Keeps out ∧
    Accounts (HoldsSeries conf.aggregateValues sent) sys.accepted
      (out ++ sys.queued.map Sum.inr)

/-- The account as the handler of the aggregator sees it. -/
theorem System.InSeries.with {sys : System} {event : Event} (h : sys.InSeries env conf sent)
    (hfits : EventFits env conf sys event) (ha : sys.aggregate = some a) :
    InSeriesWith env conf event.exiting event.now sent sys.accepted a sys.server := by
  rcases h.account with ⟨out, hkeeps, hacc⟩
  have hqueued : sys.queued = a.stats := by simp [System.queued, ha]
  rw [hqueued] at hacc
  exact ⟨⟨⟨out, hkeeps, hacc⟩, hfits.2 a ha⟩, h.keyed a ha⟩

theorem System.InSeries.of_some {sys : System} (h : sys.InSeries env conf sent)
    (ha : sys.aggregate = some a) {b : Aggregate Value} (hinv : b.Inv conf.aggregate)
    (hkeyed : ∀ p ∈ b.queue, Keyed env (b.mem p))
    (hacc : ∃ out, server.Keeps out ∧ Accounts (HoldsSeries conf.aggregateValues sent) accepted
      (out ++ b.stats.map Sum.inr)) :
    System.InSeries env conf sent ⟨server, some b, accepted⟩ := by
  refine ⟨h.inv.replace ha hinv server accepted, ?_, hacc⟩
  intro c hc
  cases hc
  exact hkeyed

/-- A stat that is sent alone is an item of its own. -/
theorem accounts_alone (hnet : net.Healthy conf) (hstat : stat ∈ sent) {out queued : List Item}
    (hkeeps : server.Keeps out)
    (hacc : Accounts (HoldsSeries conf.aggregateValues sent) accepted (out ++ queued)) :
    ∃ out', (server.sendToBuffer net conf exiting now stat).2.Keeps out' ∧
      Accounts (HoldsSeries conf.aggregateValues sent)
        (if (server.sendToBuffer net conf exiting now stat).1 = .ok then accepted ++ [stat]
          else accepted) (out' ++ queued) := by
  have hkeeps' : (server.sendToBuffer net conf exiting now stat).2.Keeps _ :=
    hkeeps.sendToBuffer hnet exiting now (.inl stat)
  refine ⟨_, hkeeps', ?_⟩
  show Accounts _ _
    ((if (server.sendToBuffer net conf exiting now stat).1 = .ok then _ else _) ++ _)
  split
  · have hholds : HoldsSeries conf.aggregateValues sent [stat] (.inl stat) := by
      refine ⟨rfl, ?_⟩
      intro s hs
      rw [List.mem_singleton.mp hs]
      exact ⟨hstat, rfl, rfl, rfl⟩
    apply (hacc.add hholds).perm
    simp only [List.append_assoc]
    exact List.perm_append_comm.append_left out
  · exact hacc

theorem System.InSeries.send (hnet : net.Healthy conf) (hapart : ToldApart env.crc sent)
    {sys : System} {event : Event} (hfits : EventFits env conf sys event)
    (hsend : event.callback = .send stat) (hstat : stat ∈ sent)
    (h : sys.InSeries env conf sent) : (sys.step env net conf event).InSeries env conf sent := by
  unfold System.step
  simp only [hsend]
  cases hagg : sys.aggregate with
  | none =>
      rcases h.account with ⟨out, hkeeps, hacc⟩
      have hqueued : sys.queued = [] := by simp [System.queued, hagg]
      rw [hqueued] at hacc
      refine ⟨System.inv_none conf _ _, ?_, accounts_alone hnet hstat hkeeps hacc⟩
      intro a ha
      cases ha
  | some a =>
      rcases aggregate_inSeries hnet hapart hstat (h.inv.regular hfits.1 hsend hagg)
        (h.inv.aggregate a hagg) (h.with hfits hagg) with ⟨hinv, hkeyed, out, hkeeps, hacc⟩
      simp only [StatsHouse.send]
      split
      · exact h.of_some hagg hinv hkeyed ⟨out, hkeeps, hacc⟩
      · -- the aggregator declined the stat, which goes to the buffer alone
        rename_i hrc
        rw [if_neg fun hok => hrc (Or.inr hok)] at hacc
        exact h.of_some hagg hinv hkeyed (accounts_alone hnet hstat hkeeps hacc)

theorem System.InSeries.fire (hnet : net.Healthy conf) {sys : System} {event : Event}
    {armed : TimerEvent → Bool} {clear : TimerEvent → TimerEvent}
    (hfits : EventFits env conf sys event) (h : sys.InSeries env conf sent) :
    (fire env net conf event armed clear sys).InSeries env conf sent := by
  unfold StatsHouse.fire
  split
  · exact h
  · rename_i a ha
    split
    · have hwith : InSeriesWith env conf event.exiting event.now sent sys.accepted
          { a with timerEvent := clear a.timerEvent } sys.server :=
        ⟨⟨(h.with hfits ha).account.1, (h.with hfits ha).account.2⟩, (h.with hfits ha).keyed⟩
      -- clearing the event leaves the records alone
      rcases aggregateProcess_inSeries hnet
        ((h.inv.aggregate a ha).timerEvent (clear a.timerEvent)) hwith with ⟨hinv', hout, hkeyed⟩
      simp only [aggregateTimerHandler]
      obtain ⟨ev, hev⟩ := aggregateTimer_eq conf.aggregate event.now
        (aggregateProcess env conf.aggregate
          (aggregateHandler net conf event.exiting event.now) event.exiting event.now
          { a with timerEvent := clear a.timerEvent } sys.server).2.1
      rw [hev]
      exact h.of_some ha (hinv'.timerEvent ev) hkeyed hout.1
    · exact h

end Account

end StatsHouse

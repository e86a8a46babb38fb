import DesAodv.LinkLoss

/-!
# The neighbors a daemon has heard

The calls a daemon makes to its neighbor table are those of a history of HELLO
answers. So over its whole life a RREQ or RREP is let through exactly if its
sender has answered a HELLO recently enough and since the last reset.
-/

namespace DesAodv

open Deadlines

namespace NeighborTable

theorem SameNeighbors.pairs {nt nt' : NeighborTable} (h : SameNeighbors nt nt') :
    nt'.entries.map (fun e => (e.key, e.ptr)) = nt.entries.map fun e => (e.key, e.ptr) := by
  have hzip : ∀ l : List NeighborEntry,
      l.map (fun e => (e.key, e.ptr)) = (l.map NeighborEntry.key).zip (l.map NeighborEntry.ptr) :=
    fun l => List.zip_map'.symm
  rw [hzip, hzip, h.keys, h.ptrs]

theorem SameNeighbors.live {nt nt' : NeighborTable} (h : SameNeighbors nt nt') (hn : nt.Ok) : nt'.live = nt.live := by
  have hmem : ∀ x, (∃ e ∈ nt'.entries, (e.key, e.ptr) = x) ↔ ∃ e ∈ nt.entries, (e.key, e.ptr) = x := by
    intro x
    rw [← List.mem_map, ← List.mem_map, h.pairs]
  funext k
  refine Option.ext fun t => ?_
  unfold NeighborTable.live
  rw [byKey_eq_some (hn.same h).tracked.keys, byKey_eq_some hn.tracked.keys, h.ts]
  constructor
  · intro hx
    obtain ⟨e, he, hk, ht⟩ := hx
    obtain ⟨e', he', heq⟩ := (hmem (e.key, e.ptr)).mp ⟨e, he, rfl⟩
    obtain ⟨hk', hp'⟩ := Prod.mk.inj heq
    exact ⟨e', he', hk'.trans hk, hp' ▸ ht⟩
  · intro hx
    obtain ⟨e, he, hk, ht⟩ := hx
    obtain ⟨e', he', heq⟩ := (hmem (e.key, e.ptr)).mpr ⟨e, he, rfl⟩
    obtain ⟨hk', hp'⟩ := Prod.mk.inj heq
    exact ⟨e', he', hk'.trans hk, hp' ▸ ht⟩

end NeighborTable

open NeighborTable

theorem Follows.same {clock : Timeval} {h : NtHistory} {nt nt' : NeighborTable} (hf : Follows clock h nt)
    (hs : SameNeighbors nt nt') : Follows clock h nt' := by
  have hl := hs.live hf.ok
  refine ⟨hf.ok.same hs, hs.ts ▸ hf.timeout, ?_, ?_⟩
  · rw [hl]
    exact hf.live
  · rw [hl]
    exact hf.gone

theorem Follows.later {clock clock' : Timeval} {h : NtHistory} {nt : NeighborTable} (hf : Follows clock h nt)
    (hle : clock ≤ clock') : Follows clock' h nt :=
  ⟨hf.ok, hf.timeout, hf.live, fun k t0 hl hk => Nat.le_trans (hf.gone k t0 hl hk) hle⟩

/-! ## The calls of a daemon -/

/-- A HELLO that has been to its receiver and back: `aodv_handle_hello` makes its sender a neighbor. -/
def HelloAnswered (env : RxEnv) (msg : DessertMsg) : Prop :=
  msg.getHello.isSome ∧ ¬ 1 ≤ msg.ttl - 1 ∧ env.iface.hwaddr = msg.l2Dhost

instance (env : RxEnv) (msg : DessertMsg) : Decidable (HelloAnswered env msg) :=
  inferInstanceAs (Decidable (_ ∧ _ ∧ _))

/-- A RREQ or a RREP that is not the own one: `aodv_drop_errors` asks for its sender. -/
def AsksForNeighbor (env : RxEnv) (msg : DessertMsg) : Prop :=
  env.lflags.l2Src = false ∧ env.lflags.l25Src = false ∧ (msg.getRreq.isSome || msg.getRrep.isSome)

instance (env : RxEnv) (msg : DessertMsg) : Decidable (AsksForNeighbor env msg) :=
  inferInstanceAs (Decidable (_ ∧ _ ∧ _))

namespace Node

section
variable (n : Node) (env : RxEnv) (msg : DessertMsg)

theorem ntOp_dropErrors : n.ntOp (.mesh .dropErrors env msg) =
    if AsksForNeighbor env msg then some (.check2Dneigh msg.l2Shost env.iface env.now) else none := by
  simp only [ntOp, AsksForNeighbor]
  by_cases h₁ : env.lflags.l2Src = true
  · simp [h₁]
  · by_cases h₂ : env.lflags.l25Src = true
    · simp [h₁, h₂]
    · simp [h₁, h₂]

theorem ntOp_handleHello : n.ntOp (.mesh .handleHello env msg) =
    if HelloAnswered env msg then some (.cap2Dneigh n.cfg msg.l2Shost msg.u16 env.iface env.now env.now) else none := by
  have hnone : msg.getHello.isNone = true ↔ ¬ msg.getHello.isSome = true := by simp
  by_cases hans : HelloAnswered env msg
  · rw [if_pos hans]
    simp only [ntOp]
    rw [if_neg fun h => hnone.mp h hans.1, if_neg hans.2.1, if_pos hans.2.2]
  · rw [if_neg hans]
    simp only [ntOp]
    split
    · rfl
    · rename_i hh
      split
      · rfl
      · rename_i ht
        exact if_neg fun hi => hans ⟨not_not.mp (mt hnone.mpr hh), ht, hi⟩

/-- A RREQ or RREP of another node is kept exactly if its sender is in the neighbor table then. -/
theorem dropErrors_verdict (hask : AsksForNeighbor env msg) : (n.aodvDropErrors env msg).2 = .keep ↔
    (dbNtCheck2Dneigh n.nt n.st msg.l2Shost env.iface env.now).2 = true := by
  obtain ⟨h₁, h₂, h₃⟩ := hask
  simp only [aodvDropErrors, h₁, h₂, h₃, Bool.false_eq_true, if_false, if_true]
  cases hk : (dbNtCheck2Dneigh n.nt n.st msg.l2Shost env.iface env.now).2 <;> simp

end

end Node

/-! ## Histories of a daemon -/

/-- What an event adds to the history of the neighbor table. -/
def NodeEvent.heard (helloInterval : UInt16) (h : NtHistory) : NodeEvent → NtHistory
  | .mesh .handleHello env msg =>
    if HelloAnswered env msg then { h with last := Function.update h.last (msg.l2Shost, env.iface) (some env.now) }
    else h
  | .neighborReset => .init helloInterval
  | _ => h

/-- The sender has answered a HELLO at the time `t0`, and the neighbors have not been reset since. -/
def Heard (evs : List NodeEvent) (k : NeighborKey) (t0 : Timeval) : Prop :=
  ∃ pre env msg post, evs = pre ++ .mesh .handleHello env msg :: post ∧ HelloAnswered env msg ∧
    (msg.l2Shost, env.iface) = k ∧ env.now = t0 ∧ .neighborReset ∉ post

section
variable {evs : List NodeEvent} {k : NeighborKey} {t0 : Timeval}

theorem heard_nil : ¬ Heard [] k t0 := by
  intro h
  obtain ⟨pre, env, msg, post, he, -⟩ := h
  cases pre <;> cases he

theorem heard_concat {ev : NodeEvent} : Heard (evs ++ [ev]) k t0 ↔
    (∃ env msg, ev = .mesh .handleHello env msg ∧ HelloAnswered env msg ∧ (msg.l2Shost, env.iface) = k ∧
      env.now = t0) ∨ Heard evs k t0 ∧ ev ≠ .neighborReset := by
  constructor
  · intro h
    obtain ⟨pre, env, msg, post, he, hans, hk, ht, hpost⟩ := h
    rcases List.eq_nil_or_concat post with rfl | ⟨post, last, rfl⟩
    · obtain ⟨-, hev⟩ := List.append_inj' he rfl
      exact .inl ⟨env, msg, (List.cons.inj hev).1, hans, hk, ht⟩
    · rw [List.concat_eq_append, ← List.cons_append, ← List.append_assoc] at he
      obtain ⟨rfl, hev⟩ := List.append_inj' he rfl
      obtain rfl := (List.cons.inj hev).1
      rw [List.concat_eq_append, List.mem_append, not_or, List.mem_singleton] at hpost
      exact .inr ⟨⟨pre, env, msg, post, rfl, hans, hk, ht, hpost.1⟩, Ne.symm hpost.2⟩
  · intro h
    rcases h with ⟨env, msg, rfl, hans, hk, ht⟩ | ⟨⟨pre, env, msg, post, rfl, hans, hk, ht, hpost⟩, hev⟩
    · exact ⟨evs, env, msg, [], rfl, hans, hk, ht, List.not_mem_nil⟩
    · refine ⟨pre, env, msg, post ++ [ev], by simp, hans, hk, ht, ?_⟩
      rw [List.mem_append, not_or, List.mem_singleton]
      exact ⟨hpost, Ne.symm hev⟩

theorem heard_time (h : Heard evs k t0) : t0 ∈ evs.filterMap NodeEvent.time := by
  obtain ⟨pre, env, msg, post, rfl, -, -, rfl, -⟩ := h
  rw [List.mem_filterMap]
  exact ⟨_, List.mem_append_right pre List.mem_cons_self, rfl⟩

variable (helloInterval : UInt16)

/-- The history of a list of events. -/
def historyOf (evs : List NodeEvent) : NtHistory := evs.foldl (NodeEvent.heard helloInterval) (.init helloInterval)

theorem historyOf_concat (ev : NodeEvent) :
    historyOf helloInterval (evs ++ [ev]) = ev.heard helloInterval (historyOf helloInterval evs) := by
  simp [historyOf]

theorem historyOf_interval (evs : List NodeEvent) : (historyOf helloInterval evs).helloInterval = helloInterval := by
  induction evs using List.reverseRecOn with
  | nil => rfl
  | append_singleton evs ev ih =>
    rw [historyOf_concat]
    unfold NodeEvent.heard
    split
    · split
      · exact ih
      · exact ih
    · rfl
    · exact ih

theorem historyOf_heard (h : (historyOf helloInterval evs).last k = some t0) : Heard evs k t0 := by
  induction evs using List.reverseRecOn with
  | nil => cases h
  | append_singleton evs ev ih =>
    rw [historyOf_concat] at h
    rw [heard_concat]
    unfold NodeEvent.heard at h
    split at h
    · rename_i env msg
      split at h
      · rename_i hans
        by_cases hk : k = (msg.l2Shost, env.iface)
        · subst hk
          simp only [Function.update_self] at h
          exact .inl ⟨env, msg, rfl, hans, rfl, Option.some.inj h⟩
        · simp only [Function.update_of_ne hk] at h
          exact .inr ⟨ih h, fun he => nomatch he⟩
      · exact .inr ⟨ih h, fun he => nomatch he⟩
    · cases h
    · rename_i hreset
      exact .inr ⟨ih h, fun he => hreset he⟩

/-- Under a clock that does not go back the history remembers the last answer. -/
theorem heard_historyOf (hclock : (evs.filterMap NodeEvent.time).Pairwise (· ≤ ·)) (h : Heard evs k t0) :
    ∃ t, (historyOf helloInterval evs).last k = some t ∧ t0 ≤ t := by
  induction evs using List.reverseRecOn with
  | nil => exact absurd h heard_nil
  | append_singleton evs ev ih =>
    rw [List.filterMap_append, List.pairwise_append] at hclock
    obtain ⟨hclock, -, hlater⟩ := hclock
    rw [historyOf_concat]
    rcases heard_concat.mp h with ⟨env, msg, rfl, hans, rfl, rfl⟩ | ⟨hold, hreset⟩
    · exact ⟨env.now, by simp [NodeEvent.heard, hans], Nat.le_refl _⟩
    · obtain ⟨t, ht, hle⟩ := ih hclock hold
      unfold NodeEvent.heard
      split
      · rename_i env msg
        split
        · by_cases hk : k = (msg.l2Shost, env.iface)
          · subst hk
            refine ⟨env.now, Function.update_self _ _ _, ?_⟩
            exact hlater t0 (heard_time hold) env.now (by simp [NodeEvent.time])
          · exact ⟨t, (Function.update_of_ne hk _ _).trans ht, hle⟩
        · exact ⟨t, ht, hle⟩
      · exact absurd rfl hreset
      · exact ⟨t, ht, hle⟩

end

/-! ## Runs of a daemon -/

namespace Node

variable (L : Libdessert)

theorem step_follows {n : Node} {clock : Timeval} {h : NtHistory} (hf : Follows clock h n.nt) {ev : NodeEvent}
    (hclock : ∀ t, ev.time = some t → clock ≤ t) :
    Follows (ev.time.getD clock) (ev.heard n.cfg.helloInterval h) (n.step L ev).nt := by
  have hlater : Follows (ev.time.getD clock) h n.nt := by
    refine hf.later ?_
    cases ht : ev.time with
    | none => exact Nat.le_refl _
    | some t => exact hclock t ht
  rcases step_nt n L ev with ⟨op, hop, hstep⟩ | ⟨hop, hs⟩
  · have hnt : (n.step L ev).nt = (op.step (n.nt, n.st)).1 := congrArg Prod.fst hstep
    rw [hnt]
    cases ev with
    | mesh cb env msg =>
      cases cb with
      | dropErrors =>
        rw [ntOp_dropErrors] at hop
        split at hop
        · obtain rfl := Option.some.inj hop
          exact hf.cleanup n.st (hclock env.now rfl)
        · cases hop
      | handleHello =>
        rw [ntOp_handleHello] at hop
        by_cases hans : HelloAnswered env msg
        · rw [if_pos hans] at hop
          obtain rfl := Option.some.inj hop
          simp only [NodeEvent.heard, if_pos hans]
          exact hf.cap2Dneigh n.st n.cfg msg.l2Shost msg.u16 env.iface (hclock env.now rfl)
        · rw [if_neg hans] at hop
          cases hop
      | _ => cases hop
    | neighborReset =>
      cases hop
      exact Follows.start clock n.cfg.helloInterval n.nt.fresh
    | cleanupDatabase now =>
      simp only [ntOp] at hop
      split at hop
      · cases hop
      · obtain rfl := Option.some.inj hop
        exact hf.cleanup n.st (hclock now rfl)
    | _ => cases hop
  · refine Follows.same ?_ hs
    cases ev with
    | mesh cb env msg =>
      cases cb with
      | handleHello =>
        rw [ntOp_handleHello] at hop
        by_cases hans : HelloAnswered env msg
        · rw [if_pos hans] at hop
          cases hop
        · simp only [NodeEvent.heard, if_neg hans]
          exact hlater
      | _ => exact hlater
    | neighborReset => cases hop
    | _ => exact hlater

theorem run_follows (cfg : Config) (l25Defsrc : MacAddr) (meshiflist : List Meshif) {evs : List NodeEvent}
    (hclock : (evs.filterMap NodeEvent.time).Pairwise (· ≤ ·)) :
    let n := Runs.exec (Node.step L) (aodvDbInit cfg l25Defsrc meshiflist) evs
    n.cfg = cfg ∧ ∃ clock, (clock = 0 ∨ clock ∈ evs.filterMap NodeEvent.time) ∧
      Follows clock (historyOf cfg.helloInterval evs) n.nt := by
  induction evs using List.reverseRecOn with
  | nil => exact ⟨rfl, 0, .inl rfl, Follows.start 0 cfg.helloInterval 0⟩
  | append_singleton evs ev ih =>
    rw [List.filterMap_append, List.pairwise_append] at hclock
    obtain ⟨hbefore, -, hlater⟩ := hclock
    obtain ⟨hcfg, clock, hmem, hf⟩ := ih hbefore
    rw [Runs.exec_append]
    generalize Runs.exec (Node.step L) (aodvDbInit cfg l25Defsrc meshiflist) evs = n at hcfg hf
    refine ⟨((step_rt L n ev).2.1).trans hcfg, ev.time.getD clock, ?_, ?_⟩
    · rw [List.filterMap_append]
      cases ht : ev.time with
      | none => exact hmem.imp_right fun h => List.mem_append_left _ h
      | some t => exact .inr (List.mem_append_right _ (by simp [ht]))
    · rw [historyOf_concat, ← hcfg]
      rw [← hcfg] at hf
      refine step_follows L hf fun t ht => ?_
      rcases hmem with rfl | hmem
      · exact Nat.zero_le t
      · exact hlater clock hmem t (by simp [ht])

/-- The neighbor 1 returns a HELLO. -/
def helloBack : DessertMsg :=
  { dessertMsgNew with
    ttl := 1
    l2Shost := 1
    l2Dhost := wlan.hwaddr
    exts := [.hello { helloRcvdCount := 0, helloInterval := 1000 }] }

end Node

end DesAodv

import DesAodv.HelloCount

/-!
# The settings of a tracked neighbor

The interval of a neighbor, the number of HELLOs expected from it, the tracking
window and the lifetime of its entry are set by captures only. What each of
them is computed from decides whether a capture succeeds and whether the four
go together.
-/

namespace DesAodv

namespace PdrNeighborEntry

/-- Nothing but counts and messages has changed. -/
structure SameSettings (e e' : PdrNeighborEntry) : Prop where
  etherNeighbor : e'.etherNeighbor = e.etherNeighbor
  helloInterv : e'.helloInterv = e.helloInterv
  expectedHellos : e'.expectedHellos = e.expectedHellos
  window : e'.ts.purgeTimeout = e.ts.purgeTimeout
  purgeTv : e'.purgeTv = e.purgeTv

theorem SameSettings.refl (e : PdrNeighborEntry) : e.SameSettings e := ⟨rfl, rfl, rfl, rfl, rfl⟩

theorem countHello_settings (e : PdrNeighborEntry) (helloSeq : UInt16) (timestamp currTime : Timeval) :
    e.SameSettings (pdrCountHello e helloSeq timestamp currTime) := by
  cases hseq : Keyed.lookup PdrNeighborHelloMsg.seqNum helloSeq e.msgList with
  | none =>
    rw [countHello_unknown hseq, foldl_purge]
    exact ⟨rfl, rfl, rfl, add_timeout .., rfl⟩
  | some m =>
    rw [countHello_known hseq, foldl_purge]
    exact ⟨rfl, rfl, rfl, add_timeout .., rfl⟩

theorem cleanup_settings (e : PdrNeighborEntry) (timestamp : Timeval) : e.SameSettings (pdrNtCleanup e timestamp) := by
  unfold pdrNtCleanup
  simp only
  rw [foldl_purge]
  exact ⟨rfl, rfl, rfl, purge_timeout .., rfl⟩

end PdrNeighborEntry

namespace PdrNeighborTable

/-- What a capture makes of the settings: they are left as they are, or those of a new entry, or an old
entry is given the new interval. -/
inductive Captured (nt : PdrNeighborTable) (trackingFactor : UInt16) (etherNeighborAddr : MacAddr)
    (helloInterv : UInt16) (e₁ : PdrNeighborEntry) : Prop
  | known (mem : e₁ ∈ nt.entries)
  | created (new : ∀ e ∈ nt.entries, e.etherNeighbor ≠ etherNeighborAddr)
      (expected : pdrExpectedHellos trackingFactor helloInterv = .ok e₁.expectedHellos)
      (window : e₁.ts.purgeTimeout = pdrWatchInterval trackingFactor helloInterv)
  | updated (e : PdrNeighborEntry) (mem : e ∈ nt.entries) (addr : e.etherNeighbor = etherNeighborAddr)
      (switched : e.helloInterv ≠ helloInterv)
      (expected : pdrExpectedHellos trackingFactor helloInterv = .ok e₁.expectedHellos)
      (window : e₁.ts.purgeTimeout = e.ts.purgeTimeout)

section
variable {nt nt₁ nt' : PdrNeighborTable} {trackingFactor helloInterv : UInt16} {etherNeighborAddr : MacAddr}
  {e₁ : PdrNeighborEntry}

structure Chosen (nt nt₁ : PdrNeighborTable) (trackingFactor : UInt16) (etherNeighborAddr : MacAddr)
    (helloInterv : UInt16) (e₁ : PdrNeighborEntry) : Prop where
  addr : e₁.etherNeighbor = etherNeighborAddr
  interv : e₁.helloInterv = helloInterv
  captured : nt.Captured trackingFactor etherNeighborAddr helloInterv e₁
  others : ∀ e ∈ nt₁.entries, e ∈ nt.entries ∨ e = e₁
  expected : nt₁.nbExpectedHellos = nt.nbExpectedHellos

theorem findOrCreate_chosen (h : pdrNtFindOrCreate nt trackingFactor etherNeighborAddr helloInterv = .ok (nt₁, e₁)) :
    Chosen nt nt₁ trackingFactor etherNeighborAddr helloInterv e₁ := by
  unfold pdrNtFindOrCreate at h
  cases hl : Keyed.lookup PdrNeighborEntry.etherNeighbor etherNeighborAddr nt.entries with
  | none =>
    rw [hl] at h
    cases hx : pdrExpectedHellos trackingFactor helloInterv with
    | error f =>
      simp only [pdrNeighborEntryCreate, hx, bind, Except.bind] at h
      cases h
    | ok n =>
      simp only [pdrNeighborEntryCreate, hx, bind, Except.bind] at h
      obtain ⟨rfl, rfl⟩ := Prod.mk.inj (Except.ok.inj h)
      refine ⟨rfl, rfl, .created (Keyed.lookup_eq_none.mp hl) hx rfl, fun e he => ?_, rfl⟩
      exact (List.mem_append.mp he).imp_right List.mem_singleton.mp
  | some x =>
    have hmem := Keyed.lookup_mem hl
    have haddr : x.etherNeighbor = etherNeighborAddr := Keyed.lookup_key hl
    rw [hl] at h
    by_cases hsame : x.helloInterv = helloInterv
    · simp only [hsame, ne_eq, not_true_eq_false, if_false] at h
      obtain ⟨rfl, rfl⟩ := Prod.mk.inj (Except.ok.inj h)
      exact ⟨haddr, hsame, .known hmem, fun _ he => .inl he, rfl⟩
    · cases hx : pdrExpectedHellos trackingFactor helloInterv with
      | error f =>
        simp only [hsame, ne_eq, not_false_eq_true, if_true, pdrNeighborEntryUpdate, hx, bind, Except.bind] at h
        cases h
      | ok n =>
        simp only [hsame, ne_eq, not_false_eq_true, if_true, pdrNeighborEntryUpdate, hx, bind, Except.bind] at h
        obtain ⟨rfl, rfl⟩ := Prod.mk.inj (Except.ok.inj h)
        refine ⟨haddr, rfl, .updated x hmem haddr hsame hx rfl, fun e he => ?_, rfl⟩
        obtain ⟨a, ha, rfl⟩ := Keyed.mem_modify he
        split
        · exact .inr rfl
        · exact .inl ha

theorem renew_sub (timestamp currTime : Timeval) {e : PdrNeighborEntry}
    (he : e ∈ (pdrNtRenew nt e₁ timestamp currTime).entries) : e ∈ nt.entries := by
  simp only [pdrNtRenew, foldl_purge] at he
  exact List.mem_of_mem_filter he

theorem write_settings {ptr : Nat} {f : PdrNeighborEntry → PdrNeighborEntry}
    (hf : ∀ e : PdrNeighborEntry, e.SameSettings (f e)) (h : pdrNtWrite nt ptr f = .ok nt') :
    (∀ e' ∈ nt'.entries, ∃ e ∈ nt.entries, e.SameSettings e') ∧
      (∃ e ∈ nt.entries, e.ptr = ptr ∧ f e ∈ nt'.entries) ∧ nt'.nbExpectedHellos = nt.nbExpectedHellos := by
  unfold pdrNtWrite at h
  split at h
  · cases h
  · rename_i x hx
    obtain rfl := Except.ok.inj h
    refine ⟨fun e' he' => ?_, ⟨x, Keyed.lookup_mem hx, Keyed.lookup_key hx, ?_⟩, rfl⟩
    · obtain ⟨a, ha, rfl⟩ := Keyed.mem_modify he'
      refine ⟨a, ha, ?_⟩
      split
      · exact hf a
      · exact .refl a
    · exact List.mem_map.mpr ⟨x, Keyed.lookup_mem hx, if_pos (Keyed.lookup_key hx)⟩

/-- After a capture every entry has the settings of an old one or those of the chosen one, which is there. -/
structure CapturedBy (nt nt' : PdrNeighborTable) (trackingFactor : UInt16) (etherNeighborAddr : MacAddr)
    (helloInterv : UInt16) (e₁ : PdrNeighborEntry) : Prop where
  addr : e₁.etherNeighbor = etherNeighborAddr
  interv : e₁.helloInterv = helloInterv
  captured : nt.Captured trackingFactor etherNeighborAddr helloInterv e₁
  entries : ∀ e' ∈ nt'.entries, ∃ e, (e ∈ nt.entries ∨ e = e₁) ∧ e.SameSettings e'
  there : ∃ e' ∈ nt'.entries, e₁.SameSettings e'
  expected : nt'.nbExpectedHellos = nt.nbExpectedHellos

theorem Ok.capturedBy (hn : nt.Ok) {timestamp currTime : Timeval} {f : PdrNeighborEntry → PdrNeighborEntry}
    (hf : ∀ e : PdrNeighborEntry, e.SameSettings (f e))
    (h : (pdrNtFindOrCreate nt trackingFactor etherNeighborAddr helloInterv).bind
      (fun r => pdrNtWrite (pdrNtRenew r.1 r.2 timestamp currTime) r.2.ptr f) = .ok nt') :
    ∃ e₁, CapturedBy nt nt' trackingFactor etherNeighborAddr helloInterv e₁ := by
  by_cases h0 : helloInterv = 0
  · rw [h0, hn.notFound] at h
    cases h
  · obtain ⟨nt₁, e₁, hfound, hf₁, -⟩ := hn.found trackingFactor etherNeighborAddr h0
    rw [hfound] at h
    have hch := findOrCreate_chosen hfound
    obtain ⟨hentries, ⟨x, hx, hp, hfx⟩, hexp⟩ := write_settings hf h
    have hx₁ := renew_sub timestamp currTime hx
    obtain rfl := List.inj_on_of_nodup_map (hf₁.tracked 0).ptrs hx₁ hf₁.mem hp
    refine ⟨x, hch.addr, hch.interv, hch.captured, fun e' he' => ?_, ⟨f x, hfx, hf x⟩, ?_⟩
    · obtain ⟨e, he, hs⟩ := hentries e' he'
      exact ⟨e, hch.others e (renew_sub timestamp currTime he), hs⟩
    · rw [hexp, ← hch.expected]
      simp only [pdrNtRenew, foldl_purge]

end

theorem Ok.capture_ok_iff {nt : PdrNeighborTable} (hn : nt.Ok) (trackingFactor : UInt16) (etherNeighborAddr : MacAddr)
    (helloInterv : UInt16) (timestamp currTime : Timeval) {f : PdrNeighborEntry → PdrNeighborEntry}
    (hframe : ∀ e, (f e).ptr = e.ptr ∧ (f e).etherNeighbor = e.etherNeighbor ∧ (f e).helloInterv = e.helloInterv)
    (hok : ∀ e, e.Ok → (f e).Ok) :
    (∃ nt', (pdrNtFindOrCreate nt trackingFactor etherNeighborAddr helloInterv).bind
        (fun r => pdrNtWrite (pdrNtRenew r.1 r.2 timestamp currTime) r.2.ptr f) = .ok nt') ↔
      helloInterv ≠ 0 ∧ nt.Renews trackingFactor etherNeighborAddr helloInterv timestamp currTime := by
  by_cases h0 : helloInterv = 0
  · rw [h0, hn.notFound]
    exact iff_of_false (fun h => nomatch h.choose_spec) fun h => h.1 rfl
  · obtain ⟨nt₁, e₁, hfound, hf, hlife⟩ := hn.found trackingFactor etherNeighborAddr h0
    rw [hfound]
    rcases hf.write hn hlife timestamp currTime hframe hok with ⟨hrenews, hw⟩ | ⟨hrenews, nt₂, hw, -⟩
    · refine iff_of_false (fun h => ?_) fun h => hrenews h.2
      obtain ⟨nt', herr⟩ := h
      exact absurd (hw.symm.trans herr) fun h' => nomatch h'
    · exact iff_of_true ⟨nt₂, hw⟩ ⟨h0, hrenews⟩

end PdrNeighborTable

/-! ## Calls -/

namespace PdrOp

open PdrNeighborTable

def capture : PdrOp → Option (UInt16 × MacAddr × UInt16)
  | capHello trackingFactor addr _ helloInterv _ _ _ => some (trackingFactor, addr, helloInterv)
  | capHellorsp trackingFactor addr helloInterv _ _ _ => some (trackingFactor, addr, helloInterv)
  | _ => none

/-- The tracking factor and the own interval that a call sets the expected number from. -/
def own : PdrOp → Option (UInt16 × UInt16)
  | updExpected trackingFactor newInterval => some (trackingFactor, newInterval)
  | neighborReset trackingFactor helloInterval => some (trackingFactor, helloInterval)
  | _ => none

theorem call_captured {nt nt' : PdrNeighborTable} (hn : nt.Ok) {op : PdrOp} {trackingFactor : UInt16} {addr : MacAddr}
    {helloInterv : UInt16} (hc : op.capture = some (trackingFactor, addr, helloInterv)) (h : op.call nt = .ok nt') :
    ∃ e₁, CapturedBy nt nt' trackingFactor addr helloInterv e₁ := by
  cases op with
  | capHello =>
    cases hc
    exact hn.capturedBy (fun e => e.countHello_settings _ _ _) h
  | capHellorsp _ _ _ helloCount =>
    cases hc
    exact hn.capturedBy (f := fun e => { e with nbRcvdHelloCount := helloCount }) (fun _ => ⟨rfl, rfl, rfl, rfl, rfl⟩) h
  | _ => cases hc

/-- The captured entry outlives its renewal. -/
def Renewed (nt : PdrNeighborTable) : PdrOp → Prop
  | capHello trackingFactor addr _ helloInterv timestamp currTime _ =>
    nt.Renews trackingFactor addr helloInterv timestamp currTime
  | capHellorsp trackingFactor addr helloInterv _ timestamp currTime =>
    nt.Renews trackingFactor addr helloInterv timestamp currTime
  | _ => True

theorem call_ok_iff {nt : PdrNeighborTable} (hn : nt.Ok) (op : PdrOp) {trackingFactor : UInt16} {addr : MacAddr}
    {helloInterv : UInt16} (hc : op.capture = some (trackingFactor, addr, helloInterv)) :
    (∃ nt', op.call nt = .ok nt') ↔ helloInterv ≠ 0 ∧ op.Renewed nt := by
  cases op with
  | capHello _ _ helloSeq _ timestamp currTime currTime' =>
    cases hc
    exact hn.capture_ok_iff _ _ _ _ _ (fun e => e.countHello_frame helloSeq timestamp currTime')
      fun e ho => ho.countHello helloSeq timestamp currTime'
  | capHellorsp _ _ _ helloCount =>
    cases hc
    exact hn.capture_ok_iff _ _ _ _ _ (f := fun e => { e with nbRcvdHelloCount := helloCount })
      (fun _ => ⟨rfl, rfl, rfl⟩) fun e ho => ⟨ho.ordered, ho.tracked, ho.allocated⟩
  | _ => cases hc

theorem findCleaned_settings {nt nt' : PdrNeighborTable} (addr : MacAddr) (timestamp : Timeval)
    (h : nt' = ((pdrNtFindCleaned nt addr timestamp).map Prod.fst).getD nt) :
    (∀ e' ∈ nt'.entries, ∃ e ∈ nt.entries, e.SameSettings e') ∧ nt'.nbExpectedHellos = nt.nbExpectedHellos := by
  unfold pdrNtFindCleaned at h
  cases hl : Keyed.lookup PdrNeighborEntry.etherNeighbor addr nt.entries with
  | none =>
    rw [hl] at h
    subst h
    exact ⟨fun e he => ⟨e, he, .refl e⟩, rfl⟩
  | some x =>
    rw [hl] at h
    subst h
    refine ⟨fun e' he' => ?_, rfl⟩
    obtain ⟨a, ha, rfl⟩ := Keyed.mem_modify he'
    refine ⟨a, ha, ?_⟩
    split
    · exact a.cleanup_settings timestamp
    · exact .refl a

theorem call_uncaptured {nt nt' : PdrNeighborTable} {op : PdrOp} (hc : op.capture = none) (h : op.call nt = .ok nt') :
    (∀ e' ∈ nt'.entries, ∃ e ∈ nt.entries, e.SameSettings e') ∧
      (nt'.nbExpectedHellos = nt.nbExpectedHellos ∨
        ∃ trackingFactor interval, op.own = some (trackingFactor, interval) ∧
          pdrExpectedHellos trackingFactor interval = .ok nt'.nbExpectedHellos) := by
  have hquery : ∀ {addr timestamp}, op.query = some (addr, timestamp) →
      (∀ e' ∈ nt'.entries, ∃ e ∈ nt.entries, e.SameSettings e') ∧ nt'.nbExpectedHellos = nt.nbExpectedHellos := by
    intro addr timestamp hq
    rcases call_query hq nt with hcall | hcall
    · rw [hcall] at h
      cases h
    · rw [hcall] at h
      exact findCleaned_settings addr timestamp (Except.ok.inj h).symm
  cases op with
  | capHello => cases hc
  | capHellorsp => cases hc
  | getPdr => exact ⟨(hquery rfl).1, .inl (hquery rfl).2⟩
  | getEtxMul => exact ⟨(hquery rfl).1, .inl (hquery rfl).2⟩
  | getEtxAdd => exact ⟨(hquery rfl).1, .inl (hquery rfl).2⟩
  | getRcvdhellocount => exact ⟨(hquery rfl).1, .inl (hquery rfl).2⟩
  | cleanup timestamp =>
    obtain rfl := Except.ok.inj h
    refine ⟨fun e he => ?_, .inl ?_⟩
    · simp only [aodvDbPdrNtCleanup, foldl_purge] at he
      exact ⟨e, List.mem_of_mem_filter he, .refl e⟩
    · simp only [aodvDbPdrNtCleanup, foldl_purge]
  | updExpected trackingFactor newInterval =>
    cases hx : pdrExpectedHellos trackingFactor newInterval with
    | error f =>
      simp only [call, aodvDbPdrNtUpdExpected, hx, bind, Except.bind] at h
      cases h
    | ok n =>
      simp only [call, aodvDbPdrNtUpdExpected, hx, bind, Except.bind] at h
      obtain rfl := Except.ok.inj h
      exact ⟨fun e he => ⟨e, he, .refl e⟩, .inr ⟨_, _, rfl, hx⟩⟩
  | neighborReset trackingFactor helloInterval =>
    cases hx : pdrExpectedHellos trackingFactor helloInterval with
    | error f =>
      simp only [call, aodvDbPdrNtNeighborReset, aodvDbPdrNtInit, hx, bind, Except.bind] at h
      cases h
    | ok n =>
      simp only [call, aodvDbPdrNtNeighborReset, aodvDbPdrNtInit, hx, bind, Except.bind] at h
      obtain rfl := Except.ok.inj h
      exact ⟨fun e he => (List.not_mem_nil he).elim, .inr ⟨_, _, rfl, hx⟩⟩

theorem init_entries {trackingFactor helloInterval : UInt16} {nt : PdrNeighborTable}
    (h : aodvDbPdrNtInit trackingFactor helloInterval = .ok nt) :
    nt.entries = [] ∧ pdrExpectedHellos trackingFactor helloInterval = .ok nt.nbExpectedHellos := by
  cases hx : pdrExpectedHellos trackingFactor helloInterval with
  | error f =>
    simp only [aodvDbPdrNtInit, hx, bind, Except.bind] at h
    cases h
  | ok n =>
    simp only [aodvDbPdrNtInit, hx, bind, Except.bind] at h
    obtain rfl := Except.ok.inj h
    exact ⟨rfl, rfl⟩

theorem step_orderly {s : Except PdrFault PdrNeighborTable} (hs : Orderly s) (op : PdrOp) : Orderly (step s op) := by
  cases s with
  | error f => exact fun _ h => nomatch h
  | ok nt => exact (kept (hs nt rfl) op).1

theorem reached_ok {trackingFactor helloInterval : UInt16} {ops : List PdrOp} {nt : PdrNeighborTable}
    (h : Runs.exec step (aodvDbPdrNtInit trackingFactor helloInterval) ops = .ok nt) : nt.Ok :=
  Runs.exec_inv (I := Orderly) (fun _ op hs => step_orderly hs op) (init_orderly _ _).1 ops nt h

end PdrOp

/-! ## Captures that succeed -/

namespace PdrNeighborTable

/-- The captures of one HELLO and of one reply at `timestamp`, with the arithmetic for them. -/
structure CaptureSafe (nt : PdrNeighborTable) (trackingFactor : UInt16) (etherNeighborAddr : MacAddr)
    (helloSeq helloInterv : UInt16) (helloCount : UInt8) (timestamp : Timeval) : Prop where
  product : helloInterv.toNat * trackingFactor.toNat < 2147483648
  lifetime : helloInterv.toNat * trackingFactor.toNat * pdrTrackingPurgeFactor < 4294967296
  hello : ∃ nt', aodvDbPdrNtCapHello nt trackingFactor etherNeighborAddr helloSeq helloInterv timestamp timestamp
    timestamp = .ok nt'
  hellorsp : ∃ nt', aodvDbPdrNtCapHellorsp nt trackingFactor etherNeighborAddr helloInterv helloCount timestamp
    timestamp = .ok nt'

theorem product_le {trackingFactor : UInt16} (ht : trackingFactor.toNat ≤ 1000) (helloInterv : UInt16) :
    helloInterv.toNat * trackingFactor.toNat ≤ 65535000 :=
  (Nat.mul_le_mul (Nat.le_of_lt_succ helloInterv.toNat_lt) ht).trans (by decide)

/-- A capture goes through exactly if the interval is not 0, and the lifetime of the entry is not 0 or no
other neighbor is known. -/
theorem capture_safe_iff {trackingFactor₀ helloInterval₀ : UInt16} {ops : List PdrOp} {nt : PdrNeighborTable}
    (h : Runs.exec PdrOp.step (aodvDbPdrNtInit trackingFactor₀ helloInterval₀) ops = .ok nt)
    {trackingFactor : UInt16} (ht : trackingFactor.toNat ≤ 1000) (etherNeighborAddr : MacAddr)
    (helloSeq helloInterv : UInt16) (helloCount : UInt8) (timestamp : Timeval) :
    nt.CaptureSafe trackingFactor etherNeighborAddr helloSeq helloInterv helloCount timestamp ↔
      helloInterv ≠ 0 ∧ (0 < nt.lifetime trackingFactor etherNeighborAddr helloInterv ∨
        ∀ e ∈ nt.entries, e.etherNeighbor = etherNeighborAddr) := by
  have hn := PdrOp.reached_ok h
  have hle := product_le ht helloInterv
  have hrenews : nt.Renews trackingFactor etherNeighborAddr helloInterv timestamp timestamp ↔
      (0 < nt.lifetime trackingFactor etherNeighborAddr helloInterv ∨
        ∀ e ∈ nt.entries, e.etherNeighbor = etherNeighborAddr) := or_congr_left Nat.lt_add_right_iff_pos
  have hok := @PdrOp.call_ok_iff nt hn
  have hhello := hok (.capHello trackingFactor etherNeighborAddr helloSeq helloInterv timestamp timestamp timestamp) rfl
  have hrsp := hok (.capHellorsp trackingFactor etherNeighborAddr helloInterv helloCount timestamp timestamp) rfl
  rw [← hrenews]
  refine ⟨fun hs => hhello.mp hs.hello, fun hs => ⟨by omega, ?_, hhello.mpr hs, hrsp.mpr hs⟩⟩
  rw [pdrTrackingPurgeFactor]
  omega

theorem capture_safe_first :
    CaptureSafe { entries := [], nbExpectedHellos := 10, ts := timeslotCreate 20000000, fresh := 0 } 10 2 5 1000 3 0 :=
  (@capture_safe_iff 10 1000 [] _ rfl 10 (by decide) 2 5 1000 3 0).mpr ⟨by decide, .inl (by decide)⟩

/-- An interval of 0 ends the daemon. With a tracking factor of 0 the second neighbor is purged while it is
captured. -/
theorem capture_unsafe :
    Runs.exec PdrOp.step (aodvDbPdrNtInit 10 1000) [.capHello 10 2 5 0 0 0 0] = .error .divisionByZero ∧
      Runs.exec PdrOp.step (aodvDbPdrNtInit 10 1000) [.capHello 0 2 5 1000 0 0 0, .capHello 0 3 5 1000 1 1 1] =
        .error .useAfterFree := by
  decide

end PdrNeighborTable

/-! ## Tracking windows -/

theorem watchInterval_eq (trackingFactor helloInterv : UInt16) :
    pdrWatchInterval trackingFactor helloInterv =
      msec (max (helloInterv.toNat * trackingFactor.toNat) pdrMinTrackingInterval) := by
  unfold pdrWatchInterval
  split
  · rename_i h
    rw [Nat.max_eq_left h]
  · rename_i h
    rw [Nat.max_eq_right (Nat.le_of_not_le h)]

theorem watchInterval_inj {trackingFactor : UInt16} (ht : 1 ≤ trackingFactor.toNat) {i j : UInt16} (hne : i ≠ j) :
    pdrWatchInterval trackingFactor i = pdrWatchInterval trackingFactor j ↔
      i.toNat * trackingFactor.toNat ≤ 500 ∧ j.toNat * trackingFactor.toNat ≤ 500 := by
  have hprod : i.toNat * trackingFactor.toNat ≠ j.toNat * trackingFactor.toNat := fun h =>
    hne (UInt16.toNat_inj.mp (Nat.eq_of_mul_eq_mul_right ht h))
  have hmsec : ∀ {x y : Nat}, msec x = msec y ↔ x = y := Nat.mul_right_inj (by decide)
  rw [watchInterval_eq, watchInterval_eq, hmsec, pdrMinTrackingInterval]
  omega

/-- The expected number is the number of intervals in the window that a new entry gets. -/
theorem expectedHellos_window {trackingFactor helloInterv n : UInt16} (h0 : helloInterv ≠ 0)
    (hn : pdrExpectedHellos trackingFactor helloInterv = .ok n) :
    n.toNat = pdrWatchInterval trackingFactor helloInterv / msec helloInterv.toNat := by
  have hpos : 0 < helloInterv.toNat := Nat.pos_of_ne_zero fun h => h0 (UInt16.toNat_inj.mp h)
  unfold pdrExpectedHellos at hn
  unfold pdrWatchInterval msec
  split at hn
  · rename_i hle
    obtain rfl := Except.ok.inj hn
    rw [if_pos hle, Nat.mul_div_mul_left _ _ (by decide), Nat.mul_div_cancel_left _ hpos]
  · rename_i hlt
    obtain rfl := Except.ok.inj hn
    have hfit : pdrMinTrackingInterval / helloInterv.toNat < 65536 :=
      Nat.lt_of_le_of_lt (Nat.div_le_self _ _) (by decide)
    rw [if_neg hlt, Nat.mul_div_mul_left _ _ (by decide), UInt16.toNat_ofNat', Nat.mod_eq_of_lt hfit]

/-- The window is the one for the interval, and the expected number is the number of whole intervals in it. -/
structure PdrNeighborEntry.Windowed (trackingFactor : UInt16) (e : PdrNeighborEntry) : Prop where
  window : e.ts.purgeTimeout = msec (max (e.helloInterv.toNat * trackingFactor.toNat) pdrMinTrackingInterval)
  expected : e.expectedHellos.toNat = e.ts.purgeTimeout / msec e.helloInterv.toNat

theorem PdrNeighborEntry.SameSettings.windowed {e e' : PdrNeighborEntry} {trackingFactor : UInt16}
    (hs : e.SameSettings e') (h : e.Windowed trackingFactor) : e'.Windowed trackingFactor := by
  refine ⟨?_, ?_⟩
  · rw [hs.window, hs.helloInterv]
    exact h.window
  · rw [hs.window, hs.helloInterv, hs.expectedHellos]
    exact h.expected

theorem PdrNeighborEntry.SameSettings.windowed_iff {e e' : PdrNeighborEntry} {trackingFactor : UInt16}
    (hs : e.SameSettings e') : e'.Windowed trackingFactor ↔ e.Windowed trackingFactor :=
  ⟨PdrNeighborEntry.SameSettings.windowed
    ⟨hs.etherNeighbor.symm, hs.helloInterv.symm, hs.expectedHellos.symm, hs.window.symm, hs.purgeTv.symm⟩, hs.windowed⟩

namespace PdrOp

open PdrNeighborTable

def Windowed (trackingFactor : UInt16) : Except PdrFault PdrNeighborTable → Prop
  | .ok nt => ∀ e ∈ nt.entries, e.Windowed trackingFactor
  | .error _ => True

/-- A neighbor switches between two intervals only that the minimum applies to. -/
def Steady (trackingFactor : UInt16) : Except PdrFault PdrNeighborTable → PdrOp → Prop
  | .ok nt, op => ∀ factor addr helloInterv, op.capture = some (factor, addr, helloInterv) → op.Renewed nt →
      ∀ e ∈ nt.entries, e.etherNeighbor = addr → e.helloInterv ≠ helloInterv →
        e.helloInterv.toNat * trackingFactor.toNat ≤ 500 ∧ helloInterv.toNat * trackingFactor.toNat ≤ 500
  | .error _, _ => True

/-- The tracking factor of a capture is the fixed one, and the interval is not 0. -/
def Fixed (trackingFactor : UInt16) (op : PdrOp) : Prop :=
  ∀ factor addr helloInterv, op.capture = some (factor, addr, helloInterv) → factor = trackingFactor ∧ helloInterv ≠ 0

section
variable {trackingFactor : UInt16} {nt nt' : PdrNeighborTable} {op : PdrOp}

theorem windowed_uncaptured (hP : Windowed trackingFactor (.ok nt)) (hc : op.capture = none) :
    Windowed trackingFactor (op.call nt) := by
  cases hcall : op.call nt with
  | error f => trivial
  | ok nt' =>
    intro e' he'
    obtain ⟨e, he, hs⟩ := (call_uncaptured hc hcall).1 e' he'
    exact hs.windowed (hP e he)

theorem windowed_captured {addr : MacAddr} {helloInterv : UInt16} {e₁ : PdrNeighborEntry}
    (hP : Windowed trackingFactor (.ok nt)) (hb : CapturedBy nt nt' trackingFactor addr helloInterv e₁) :
    Windowed trackingFactor (.ok nt') ↔ e₁.Windowed trackingFactor := by
  refine ⟨fun h => ?_, fun h e' he' => ?_⟩
  · obtain ⟨e', he', hs⟩ := hb.there
    exact hs.windowed_iff.mp (h e' he')
  · obtain ⟨e, he | rfl, hs⟩ := hb.entries e' he'
    · exact hs.windowed (hP e he)
    · exact hs.windowed h

theorem windowed_step (hn : nt.Ok) (hP : Windowed trackingFactor (.ok nt)) (ht : 1 ≤ trackingFactor.toNat)
    (hf : op.Fixed trackingFactor) : Windowed trackingFactor (op.call nt) ↔ Steady trackingFactor (.ok nt) op := by
  cases hc : op.capture with
  | none => exact iff_of_true (windowed_uncaptured hP hc) fun _ _ _ h => by rw [hc] at h; cases h
  | some c =>
    obtain ⟨factor, addr, helloInterv⟩ := c
    obtain ⟨rfl, h0⟩ := hf factor addr helloInterv hc
    have hok := call_ok_iff hn op hc
    cases hcall : op.call nt with
    | error f =>
      -- the entry did not outlive the capture
      refine iff_of_true trivial fun f' a' i' hc' hr => ?_
      obtain ⟨nt', h⟩ := hok.mpr ⟨h0, hr⟩
      rw [hcall] at h
      cases h
    | ok nt' =>
      obtain ⟨e₁, hb⟩ := call_captured hn hc hcall
      have hren := (hok.mp ⟨nt', hcall⟩).2
      rw [windowed_captured hP hb]
      have hsteady : Steady factor (.ok nt) op ↔ ∀ e ∈ nt.entries, e.etherNeighbor = addr →
          e.helloInterv ≠ helloInterv →
            e.helloInterv.toNat * factor.toNat ≤ 500 ∧ helloInterv.toNat * factor.toNat ≤ 500 := by
        refine ⟨fun h => h factor addr helloInterv hc hren, fun h f' a' i' hc' _ => ?_⟩
        rw [hc] at hc'
        cases hc'
        exact h
      rw [hsteady]
      cases hb.captured with
      | known hm =>
        refine iff_of_true (hP e₁ hm) fun e he ha hne => ?_
        have hsame := List.inj_on_of_nodup_map hn.tracked.keys he hm (ha.trans hb.addr.symm)
        exact absurd (hsame ▸ hb.interv) hne
      | created hnew hexp hwin =>
        refine iff_of_true ⟨?_, ?_⟩ fun e he ha => absurd ha (hnew e he)
        · rw [hwin, hb.interv, watchInterval_eq]
        · rw [hwin, hb.interv]
          exact expectedHellos_window h0 hexp
      | updated e hm ha hne hexp hwin =>
        -- the window is still the one of the old interval
        have hold : e.ts.purgeTimeout = pdrWatchInterval factor e.helloInterv :=
          (hP e hm).window.trans (watchInterval_eq _ _).symm
        have hiff := watchInterval_inj ht hne
        refine ⟨fun h e' he' ha' _ => ?_, fun h => ?_⟩
        · have hsame := List.inj_on_of_nodup_map hn.tracked.keys he' hm (ha'.trans ha.symm)
          rw [hsame]
          refine hiff.mp ?_
          rw [← hold, ← hwin, h.window, hb.interv, watchInterval_eq]
        · have heq := hiff.mpr (h e hm ha hne)
          refine ⟨?_, ?_⟩
          · rw [hwin, hold, heq, hb.interv, watchInterval_eq]
          · rw [hwin, hold, heq, hb.interv]
            exact expectedHellos_window h0 hexp

/-- In every state of a run with a fixed tracking factor the windows are right exactly if no neighbor has
switched between intervals that the minimum does not apply to. -/
theorem windowed_iff_steady (ht : 1 ≤ trackingFactor.toNat) (helloInterval : UInt16) {ops : List PdrOp}
    (hf : ∀ op ∈ ops, op.Fixed trackingFactor) :
    Runs.Throughout step (Windowed trackingFactor) (aodvDbPdrNtInit trackingFactor helloInterval) ops ↔
      Runs.Always step (Steady trackingFactor) (aodvDbPdrNtInit trackingFactor helloInterval) ops := by
  have h0 : Windowed trackingFactor (aodvDbPdrNtInit trackingFactor helloInterval) := by
    cases hinit : aodvDbPdrNtInit trackingFactor helloInterval with
    | error f => trivial
    | ok nt =>
      have hempty := (init_entries hinit).1
      intro e he
      rw [hempty] at he
      cases he
  refine Runs.throughout_iff_always_along (J := Orderly) (fun s op hs => step_orderly hs op) (fun s op hs hP hop => ?_)
    (init_orderly trackingFactor helloInterval).1 h0 (Runs.always_of_mem hf)
  cases s with
  | error f => exact iff_of_true trivial trivial
  | ok nt => exact windowed_step (hs nt rfl) hP ht hop

def slowThenFast : List PdrOp := [.capHello 10 2 5 1000 0 1 1, .capHello 10 2 6 500 1000000 1000001 1000001]

theorem steady_same :
    Runs.Throughout step (Windowed 10) (aodvDbPdrNtInit 10 1000) [.capHello 10 2 5 1000 0 1 1] :=
  (windowed_iff_steady (by decide) 1000 (by
    intro op hop factor addr i hc
    obtain rfl := List.mem_singleton.mp hop
    cases hc
    exact ⟨rfl, by decide⟩)).mpr ⟨fun _ _ _ _ _ e he => (List.not_mem_nil he).elim, trivial⟩

theorem not_windowed_slowThenFast : ¬ Runs.Throughout step (Windowed 10) (aodvDbPdrNtInit 10 1000) slowThenFast := by
  intro h
  have hentries : (Runs.exec step (aodvDbPdrNtInit 10 1000) slowThenFast).toOption.map
      (fun nt => nt.entries.map fun e => (e.helloInterv.toNat, e.ts.purgeTimeout)) = some [(500, 10000000)] := by
    decide
  obtain ⟨nt, hs, e, he, hpair⟩ := exists_entry hentries
  obtain ⟨hinterv, hwindow⟩ := Prod.mk.inj hpair
  have hlast := Runs.throughout_iff.mp h slowThenFast [] rfl
  rw [hs] at hlast
  have hright := (hlast e he).window
  rw [hinterv, hwindow] at hright
  exact absurd hright (by decide)

end

end PdrOp

end DesAodv

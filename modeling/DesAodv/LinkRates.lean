import DesAodv.TrackerSettings

/-!
# Link rates

What the counts of a neighbor say about the link to it: the share of the
HELLOs that arrive in one direction, in both, and the expected transmissions.
The tracker computes them with integers; the expected counts it divides by are
never 0 as long as the tracking factor and all intervals are positive.
-/

namespace DesAodv

/-! ## Rates -/

/-- The counts of a link, in both directions: what is expected and, clamped to that, what has arrived. -/
structure LinkCounts where
  expected : Nat
  nbExpected : Nat
  received : Nat
  nbReceived : Nat
  expected_pos : 0 < expected
  nbExpected_pos : 0 < nbExpected
  received_le : received ≤ expected
  nbReceived_le : nbReceived ≤ nbExpected

namespace LinkCounts

/-- `c'` has received at least as much. -/
structure Below (c c' : LinkCounts) : Prop where
  expected : c'.expected = c.expected
  nbExpected : c'.nbExpected = c.nbExpected
  received : c.received ≤ c'.received
  nbReceived : c.nbReceived ≤ c'.nbReceived

def pdr (c : LinkCounts) : Nat := 65535 * c.received / c.expected

def etxMul (c : LinkCounts) : Nat := 65535 * c.received * c.nbReceived / (c.expected * c.nbExpected)

/-- The link counts as lost where one direction is. -/
def etxAdd (c : LinkCounts) : Nat :=
  if c.received = 0 ∨ c.nbReceived = 0 then 65535
  else min 65535 (256 * c.expected * c.nbExpected / (c.received * c.nbReceived))

variable {c c' : LinkCounts}

theorem pdr_le (c : LinkCounts) : c.pdr ≤ 65535 :=
  Nat.div_le_of_le_mul ((Nat.mul_le_mul_left _ c.received_le).trans_eq (Nat.mul_comm _ _))

theorem both_le (c : LinkCounts) : c.received * c.nbReceived ≤ c.expected * c.nbExpected :=
  Nat.mul_le_mul c.received_le c.nbReceived_le

theorem etxMul_le (c : LinkCounts) : c.etxMul ≤ 65535 := by
  refine Nat.div_le_of_le_mul ?_
  calc 65535 * c.received * c.nbReceived = 65535 * (c.received * c.nbReceived) := Nat.mul_assoc _ _ _
    _ ≤ 65535 * (c.expected * c.nbExpected) := Nat.mul_le_mul_left _ c.both_le
    _ = c.expected * c.nbExpected * 65535 := Nat.mul_comm _ _

theorem etxAdd_le (c : LinkCounts) : c.etxAdd ≤ 65535 := by
  unfold etxAdd
  split
  · exact Nat.le_refl _
  · exact Nat.min_le_left _ _

theorem etxAdd_ge (c : LinkCounts) : 256 ≤ c.etxAdd := by
  unfold etxAdd
  split
  · decide
  · rename_i h
    obtain ⟨hr, hn⟩ := not_or.mp h
    have hpos : 0 < c.received * c.nbReceived := Nat.mul_pos (Nat.pos_of_ne_zero hr) (Nat.pos_of_ne_zero hn)
    refine Nat.le_min.mpr ⟨by decide, (Nat.le_div_iff_mul_le hpos).mpr ?_⟩
    rw [Nat.mul_assoc]
    exact Nat.mul_le_mul_left 256 c.both_le

theorem pdr_mono (h : c.Below c') : c.pdr ≤ c'.pdr := by
  unfold pdr
  rw [h.expected]
  exact Nat.div_le_div_right (Nat.mul_le_mul_left _ h.received)

theorem etxMul_mono (h : c.Below c') : c.etxMul ≤ c'.etxMul := by
  unfold etxMul
  rw [h.expected, h.nbExpected]
  exact Nat.div_le_div_right (Nat.mul_le_mul (Nat.mul_le_mul_left _ h.received) h.nbReceived)

theorem etxAdd_anti (h : c.Below c') : c'.etxAdd ≤ c.etxAdd := by
  by_cases h0 : c.received = 0 ∨ c.nbReceived = 0
  · have hlost : c.etxAdd = 65535 := if_pos h0
    rw [hlost]
    exact c'.etxAdd_le
  · obtain ⟨hr, hn⟩ := not_or.mp h0
    have hr' : 0 < c.received := Nat.pos_of_ne_zero hr
    have hn' : 0 < c.nbReceived := Nat.pos_of_ne_zero hn
    have h0' : ¬ (c'.received = 0 ∨ c'.nbReceived = 0) := by
      have := h.received
      have := h.nbReceived
      omega
    unfold etxAdd
    rw [if_neg h0, if_neg h0', h.expected, h.nbExpected]
    have hdiv : 256 * c.expected * c.nbExpected / (c'.received * c'.nbReceived) ≤
        256 * c.expected * c.nbExpected / (c.received * c.nbReceived) :=
      Nat.div_le_div_left (Nat.mul_le_mul h.received h.nbReceived) (Nat.mul_pos hr' hn')
    omega

end LinkCounts

/-! ## Expected counts -/

/-- A tracking factor that the command line admits, and an interval that is not 0. -/
structure Admitted (trackingFactor interval : UInt16) : Prop where
  pos : 1 ≤ trackingFactor.toNat
  le : trackingFactor.toNat ≤ 1000
  interval : interval ≠ 0

theorem expectedHellos_pos {trackingFactor interval n : UInt16} (ha : Admitted trackingFactor interval)
    (h : pdrExpectedHellos trackingFactor interval = .ok n) : 0 < n.toNat := by
  unfold pdrExpectedHellos at h
  split at h
  · obtain rfl := Except.ok.inj h
    exact ha.pos
  · rename_i hlt
    rw [if_neg ha.interval] at h
    obtain rfl := Except.ok.inj h
    have hpos : 0 < interval.toNat := Nat.pos_of_ne_zero fun h0 => ha.interval (UInt16.toNat_inj.mp h0)
    -- the factor is at least 1, so the interval is below the minimum
    have hle : interval.toNat ≤ pdrMinTrackingInterval :=
      (Nat.le_mul_of_pos_right _ ha.pos).trans (Nat.le_of_lt (Nat.lt_of_not_le hlt))
    have hfit : pdrMinTrackingInterval / interval.toNat < 65536 :=
      Nat.lt_of_le_of_lt (Nat.div_le_self _ _) (by decide)
    rw [UInt16.toNat_ofNat', Nat.mod_eq_of_lt hfit]
    exact Nat.div_pos hle hpos

namespace PdrNeighborTable

/-- Something is expected of every neighbor, and by every neighbor. -/
structure Positive (nt : PdrNeighborTable) : Prop where
  expected : ∀ e ∈ nt.entries, 0 < e.expectedHellos.toNat
  nbExpected : 0 < nt.nbExpectedHellos.toNat

end PdrNeighborTable

namespace PdrOp

open PdrNeighborTable

/-- The settings and the received interval that a call works with are admitted. -/
structure Sane (op : PdrOp) : Prop where
  captured : ∀ factor addr interval, op.capture = some (factor, addr, interval) → Admitted factor interval
  own : ∀ factor interval, op.own = some (factor, interval) → Admitted factor interval

theorem call_positive {nt nt' : PdrNeighborTable} (hn : nt.Ok) (hp : nt.Positive) {op : PdrOp} (hs : op.Sane)
    (h : op.call nt = .ok nt') : nt'.Positive := by
  cases hc : op.capture with
  | none =>
    obtain ⟨hentries, hnb⟩ := call_uncaptured hc h
    refine ⟨fun e' he' => ?_, ?_⟩
    · obtain ⟨e, he, hsame⟩ := hentries e' he'
      exact hsame.expectedHellos ▸ hp.expected e he
    · rcases hnb with hnb | ⟨factor, interval, ho, hx⟩
      · exact hnb ▸ hp.nbExpected
      · exact expectedHellos_pos (hs.own factor interval ho) hx
  | some c =>
    obtain ⟨factor, addr, interval⟩ := c
    have ha := hs.captured factor addr interval hc
    obtain ⟨e₁, hb⟩ := call_captured hn hc h
    have h₁ : 0 < e₁.expectedHellos.toNat := by
      cases hb.captured with
      | known hm => exact hp.expected e₁ hm
      | created _ hx _ => exact expectedHellos_pos ha hx
      | updated _ _ _ _ hx _ => exact expectedHellos_pos ha hx
    refine ⟨fun e' he' => ?_, hb.expected ▸ hp.nbExpected⟩
    obtain ⟨e, he | rfl, hsame⟩ := hb.entries e' he'
    · exact hsame.expectedHellos ▸ hp.expected e he
    · exact hsame.expectedHellos ▸ h₁

theorem reached_positive {trackingFactor helloInterval : UInt16} (ha : Admitted trackingFactor helloInterval)
    {ops : List PdrOp} (hs : ∀ op ∈ ops, op.Sane) {nt : PdrNeighborTable}
    (h : Runs.exec step (aodvDbPdrNtInit trackingFactor helloInterval) ops = .ok nt) : nt.Ok ∧ nt.Positive := by
  let Good (s : Except PdrFault PdrNeighborTable) : Prop := ∀ nt, s = .ok nt → nt.Ok ∧ nt.Positive
  have hstep : ∀ s op, Good s → op.Sane → Good (step s op) := by
    intro s op hgood hop nt' h'
    cases s with
    | error f => cases h'
    | ok nt =>
      obtain ⟨hn, hp⟩ := hgood nt rfl
      exact ⟨(kept hn op).1 nt' h', call_positive hn hp hop h'⟩
  have hinit : Good (aodvDbPdrNtInit trackingFactor helloInterval) := by
    intro nt h'
    obtain ⟨hempty, hx⟩ := init_entries h'
    refine ⟨(init_orderly trackingFactor helloInterval).1 nt h', fun e he => ?_, expectedHellos_pos ha hx⟩
    rw [hempty] at he
    cases he
  have hrun := Runs.throughout_of_always hstep hinit (Runs.always_of_mem hs)
  exact Runs.throughout_iff.mp hrun ops [] (List.append_nil ops).symm nt h

end PdrOp

/-! ## Queries -/

/-- How many messages of the entry have expired at `timestamp`. -/
def PdrNeighborEntry.expired (e : PdrNeighborEntry) (timestamp : Timeval) : Nat :=
  (e.ts.elements.filter fun el => decide (el.purgeTime ≤ timestamp)).length

theorem PdrNeighborEntry.Ok.expired_eq {e : PdrNeighborEntry} (ho : e.Ok) (timestamp : Timeval) :
    (timeslotPurgeobjects e.ts timestamp).2.length = e.expired timestamp := by
  have hlen := PdrNeighborEntry.purge_length e.ts timestamp
  have hsplit := List.length_eq_length_filter_add (l := e.ts.elements) fun el => decide (el.purgeTime ≤ timestamp)
  rw [purge_kept ho.ordered.sorted] at hlen
  rw [PdrNeighborEntry.expired]
  omega

namespace PdrNeighborTable

section
variable {nt : PdrNeighborTable}

/-- The counts of the link to a neighbor, once its expired messages are gone. -/
def counts (hp : nt.Positive) {e : PdrNeighborEntry} (he : e ∈ nt.entries) (timestamp : Timeval) : LinkCounts where
  expected := e.expectedHellos.toNat
  nbExpected := nt.nbExpectedHellos.toNat
  received := min (pdrNtCleanup e timestamp).rcvdHelloCount.toNat e.expectedHellos.toNat
  nbReceived := min e.nbRcvdHelloCount.toNat nt.nbExpectedHellos.toNat
  expected_pos := hp.expected e he
  nbExpected_pos := hp.nbExpected
  received_le := Nat.min_le_right _ _
  nbReceived_le := Nat.min_le_right _ _

variable {etherNeighborAddr : MacAddr} {e : PdrNeighborEntry}

theorem findCleaned_known (hl : Keyed.lookup PdrNeighborEntry.etherNeighbor etherNeighborAddr nt.entries = some e)
    (timestamp : Timeval) :
    ∃ nt₁, pdrNtFindCleaned nt etherNeighborAddr timestamp = some (nt₁, pdrNtCleanup e timestamp) ∧
      nt₁.nbExpectedHellos = nt.nbExpectedHellos := by
  refine ⟨{ nt with
    entries := Keyed.modify PdrNeighborEntry.ptr e.ptr (fun e => pdrNtCleanup e timestamp) nt.entries }, ?_, rfl⟩
  rw [pdrNtFindCleaned, hl]
  rfl

theorem cleanup_nbCount (e : PdrNeighborEntry) (timestamp : Timeval) :
    (pdrNtCleanup e timestamp).nbRcvdHelloCount = e.nbRcvdHelloCount := by
  simp only [pdrNtCleanup, PdrNeighborEntry.foldl_purge]

theorem toNat_ofNat_metric {q : Nat} (h : q ≤ 65535) : (UInt16.ofNat q).toNat = q := by
  rw [UInt16.toNat_ofNat', Nat.mod_eq_of_lt (Nat.lt_succ_of_le h)]

theorem getPdr_known (hp : nt.Positive)
    (hl : Keyed.lookup PdrNeighborEntry.etherNeighbor etherNeighborAddr nt.entries = some e) (timestamp : Timeval) :
    (aodvDbPdrNtGetPdr nt etherNeighborAddr timestamp).2.map UInt16.toNat =
      some (nt.counts hp (Keyed.lookup_mem hl) timestamp).pdr := by
  obtain ⟨nt₁, hfound, -⟩ := findCleaned_known hl timestamp
  have hle := (counts hp (Keyed.lookup_mem hl) timestamp).pdr_le
  rw [aodvDbPdrNtGetPdr, hfound]
  simp only [(e.cleanup_settings timestamp).expectedHellos]
  by_cases hge : (pdrNtCleanup e timestamp).rcvdHelloCount.toNat ≥ e.expectedHellos.toNat
  · -- all that is expected has arrived
    have hfull : (counts hp (Keyed.lookup_mem hl) timestamp).pdr = 65535 := by
      simp only [LinkCounts.pdr, counts, Nat.min_eq_right hge]
      exact Nat.mul_div_cancel _ (hp.expected e (Keyed.lookup_mem hl))
    rw [if_pos hge, hfull]
    rfl
  · have hshare : (counts hp (Keyed.lookup_mem hl) timestamp).pdr =
        65535 * (pdrNtCleanup e timestamp).rcvdHelloCount.toNat / e.expectedHellos.toNat := by
      simp only [LinkCounts.pdr, counts, Nat.min_eq_left (Nat.le_of_not_le hge)]
    rw [hshare] at hle ⊢
    rw [if_neg hge]
    exact congrArg some (toNat_ofNat_metric hle)

theorem getEtxMul_known (hp : nt.Positive)
    (hl : Keyed.lookup PdrNeighborEntry.etherNeighbor etherNeighborAddr nt.entries = some e) (timestamp : Timeval) :
    ∃ nt' v, aodvDbPdrNtGetEtxMul nt etherNeighborAddr timestamp = .ok (nt', some v) ∧
      v.toNat = (nt.counts hp (Keyed.lookup_mem hl) timestamp).etxMul := by
  obtain ⟨nt₁, hfound, hnb⟩ := findCleaned_known hl timestamp
  have hpos : e.expectedHellos.toNat * nt.nbExpectedHellos.toNat ≠ 0 :=
    Nat.ne_of_gt (Nat.mul_pos (hp.expected e (Keyed.lookup_mem hl)) hp.nbExpected)
  rw [aodvDbPdrNtGetEtxMul, hfound]
  simp only [(e.cleanup_settings timestamp).expectedHellos, hnb, cleanup_nbCount, if_neg hpos]
  exact ⟨nt₁, _, rfl, toNat_ofNat_metric (counts hp (Keyed.lookup_mem hl) timestamp).etxMul_le⟩

theorem getEtxAdd_known (hp : nt.Positive)
    (hl : Keyed.lookup PdrNeighborEntry.etherNeighbor etherNeighborAddr nt.entries = some e) (timestamp : Timeval) :
    let c := nt.counts hp (Keyed.lookup_mem hl) timestamp
    ((c.received = 0 ∨ c.nbReceived = 0) ∧
        aodvDbPdrNtGetEtxAdd nt etherNeighborAddr timestamp = .error .divisionByZero) ∨
      ¬ (c.received = 0 ∨ c.nbReceived = 0) ∧
        ∃ nt' v, aodvDbPdrNtGetEtxAdd nt etherNeighborAddr timestamp = .ok (nt', some v) ∧ v.toNat = c.etxAdd := by
  intro c
  obtain ⟨nt₁, hfound, hnb⟩ := findCleaned_known hl timestamp
  have hcall : aodvDbPdrNtGetEtxAdd nt etherNeighborAddr timestamp =
      if c.received * c.nbReceived = 0 then .error .divisionByZero
      else .ok (nt₁, some (UInt16.ofNat
        (min (256 * c.expected * c.nbExpected / (c.received * c.nbReceived)) aodvMaxMetric.toNat))) := by
    rw [aodvDbPdrNtGetEtxAdd, hfound]
    simp only [(e.cleanup_settings timestamp).expectedHellos, hnb, cleanup_nbCount]
    rfl
  by_cases h0 : c.received = 0 ∨ c.nbReceived = 0
  · refine .inl ⟨h0, ?_⟩
    rw [hcall, if_pos (Nat.mul_eq_zero.mpr h0)]
  · refine .inr ⟨h0, nt₁, UInt16.ofNat c.etxAdd, ?_, toNat_ofNat_metric c.etxAdd_le⟩
    rw [hcall, if_neg fun h => h0 (Nat.mul_eq_zero.mp h), LinkCounts.etxAdd, if_neg h0, Nat.min_comm]
    rfl

theorem received_eq_zero (hn : nt.Ok) (hp : nt.Positive) (he : e ∈ nt.entries) (timestamp : Timeval) :
    (nt.counts hp he timestamp).received = 0 ↔ e.rcvdHelloCount = UInt8.ofNat (e.expired timestamp) := by
  have hpos := hp.expected e he
  have hmin : (nt.counts hp he timestamp).received = 0 ↔ (pdrNtCleanup e timestamp).rcvdHelloCount.toNat = 0 := by
    simp only [counts]
    omega
  have hcount : (pdrNtCleanup e timestamp).rcvdHelloCount = e.rcvdHelloCount - UInt8.ofNat (e.expired timestamp) := by
    simp only [pdrNtCleanup, PdrNeighborEntry.foldl_purge, (hn.hellos e he).expired_eq]
  rw [hmin, hcount]
  refine ⟨fun h => ?_, fun h => ?_⟩
  · have hsub : e.rcvdHelloCount - UInt8.ofNat (e.expired timestamp) = 0 := UInt8.toNat_inj.mp h
    rwa [UInt8.sub_eq_iff_eq_add, UInt8.zero_add] at hsub
  · rw [h, UInt8.sub_self]
    rfl

theorem nbReceived_eq_zero (hp : nt.Positive) (he : e ∈ nt.entries) (timestamp : Timeval) :
    (nt.counts hp he timestamp).nbReceived = 0 ↔ e.nbRcvdHelloCount = 0 := by
  have hpos := hp.nbExpected
  have hzero : e.nbRcvdHelloCount = 0 ↔ e.nbRcvdHelloCount.toNat = 0 := UInt8.toNat_inj.symm
  rw [hzero]
  simp only [counts]
  omega

/-- ETX_ADD for a neighbor is what the counts say, from one transmission up, and does not grow with them. -/
structure EtxAddRight (nt : PdrNeighborTable) (etherNeighborAddr : MacAddr) (timestamp : Timeval) (c : LinkCounts) :
    Prop where
  value : ∃ nt' v, aodvDbPdrNtGetEtxAdd nt etherNeighborAddr timestamp = .ok (nt', some v) ∧ v.toNat = c.etxAdd
  least : 256 ≤ c.etxAdd
  antitone : ∀ c', c.Below c' → c'.etxAdd ≤ c.etxAdd

/-- PDR and ETX_MUL for a neighbor are what the counts say, fit, and do not shrink when these grow. -/
structure RatesRight (nt : PdrNeighborTable) (etherNeighborAddr : MacAddr) (timestamp : Timeval) (c : LinkCounts) :
    Prop where
  pdr : (aodvDbPdrNtGetPdr nt etherNeighborAddr timestamp).2.map UInt16.toNat = some c.pdr
  pdr_fits : c.pdr ≤ 65535
  etxMul : ∃ nt' v, aodvDbPdrNtGetEtxMul nt etherNeighborAddr timestamp = .ok (nt', some v) ∧ v.toNat = c.etxMul
  etxMul_fits : c.etxMul ≤ 65535
  monotone : ∀ c', c.Below c' → c.pdr ≤ c'.pdr ∧ c.etxMul ≤ c'.etxMul

end

def heardBothWays : List PdrOp := [.capHello 10 2 5 1000 0 1 1, .capHellorsp 10 2 1000 5 2 3]

def heardEntry : PdrNeighborEntry :=
  { ptr := 0, etherNeighbor := 2, helloInterv := 1000, expectedHellos := 10, rcvdHelloCount := 1,
    nbRcvdHelloCount := 5, ts := { elements := [{ purgeTime := 10000000, object := 0 }], purgeTimeout := 10000000 },
    msgList := [{ ptr := 0, seqNum := 5 }], purgeTv := 20000000, freshMsg := 1 }

def heardTable : PdrNeighborTable :=
  { entries := [heardEntry], nbExpectedHellos := 10,
    ts := { elements := [{ purgeTime := 20000002, object := 0 }], purgeTimeout := 20000000 }, fresh := 1 }

theorem exec_heardBothWays : Runs.exec PdrOp.step (aodvDbPdrNtInit 10 1000) heardBothWays = .ok heardTable := by
  decide

theorem admitted_usual : Admitted 10 1000 := ⟨by decide, by decide, by decide⟩

theorem sane_heardBothWays : ∀ op ∈ heardBothWays, op.Sane := by
  intro op hop
  refine ⟨fun factor addr interval hc => ?_, fun factor interval ho => ?_⟩
  · rcases List.mem_pair.mp hop with rfl | rfl <;> (cases hc; exact admitted_usual)
  · rcases List.mem_pair.mp hop with rfl | rfl <;> cases ho

/-- In every state that admitted settings and intervals lead to, the expected counts are positive, and PDR and
ETX_MUL are right for every known neighbor. -/
theorem rates_right {trackingFactor helloInterval : UInt16} (ha : Admitted trackingFactor helloInterval)
    {ops : List PdrOp} (hs : ∀ op ∈ ops, op.Sane) {nt : PdrNeighborTable}
    (h : Runs.exec PdrOp.step (aodvDbPdrNtInit trackingFactor helloInterval) ops = .ok nt) :
    ∃ hp : nt.Positive, ∀ (etherNeighborAddr : MacAddr) (e : PdrNeighborEntry)
      (hl : Keyed.lookup PdrNeighborEntry.etherNeighbor etherNeighborAddr nt.entries = some e) (timestamp : Timeval),
        nt.RatesRight etherNeighborAddr timestamp (nt.counts hp (Keyed.lookup_mem hl) timestamp) := by
  obtain ⟨-, hp⟩ := PdrOp.reached_positive ha hs h
  refine ⟨hp, fun addr e hl timestamp => ?_⟩
  exact ⟨getPdr_known hp hl timestamp, LinkCounts.pdr_le _, getEtxMul_known hp hl timestamp, LinkCounts.etxMul_le _,
    fun c' hb => ⟨LinkCounts.pdr_mono hb, LinkCounts.etxMul_mono hb⟩⟩

theorem rates_right_heard :
    ∃ hp : heardTable.Positive,
      heardTable.RatesRight 2 3 (heardTable.counts hp (List.mem_singleton.mpr (Eq.refl heardEntry)) 3) :=
  (rates_right admitted_usual sane_heardBothWays exec_heardBothWays).imp fun _ h => h 2 heardEntry rfl 3

/-- ETX_ADD is right for a known neighbor exactly if something is left of what has arrived from it, and it has
received something itself. -/
theorem etxAdd_right_iff {trackingFactor helloInterval : UInt16} (ha : Admitted trackingFactor helloInterval)
    {ops : List PdrOp} (hs : ∀ op ∈ ops, op.Sane) {nt : PdrNeighborTable}
    (h : Runs.exec PdrOp.step (aodvDbPdrNtInit trackingFactor helloInterval) ops = .ok nt) :
    ∃ hp : nt.Positive, ∀ (etherNeighborAddr : MacAddr) (e : PdrNeighborEntry)
      (hl : Keyed.lookup PdrNeighborEntry.etherNeighbor etherNeighborAddr nt.entries = some e) (timestamp : Timeval),
        nt.EtxAddRight etherNeighborAddr timestamp (nt.counts hp (Keyed.lookup_mem hl) timestamp) ↔
          e.rcvdHelloCount ≠ UInt8.ofNat (e.expired timestamp) ∧ e.nbRcvdHelloCount ≠ 0 := by
  obtain ⟨hn, hp⟩ := PdrOp.reached_positive ha hs h
  refine ⟨hp, fun addr e hl timestamp => ?_⟩
  have hzero := not_congr (or_congr (received_eq_zero hn hp (Keyed.lookup_mem hl) timestamp)
    (nbReceived_eq_zero hp (Keyed.lookup_mem hl) timestamp))
  rw [not_or (p := e.rcvdHelloCount = _)] at hzero
  rw [← hzero]
  rcases getEtxAdd_known hp hl timestamp with ⟨h0, hfault⟩ | ⟨h0, hvalue⟩
  · -- the zero is noticed, and divided by
    refine iff_of_false (fun hr => ?_) fun hne => hne h0
    obtain ⟨nt', v, hv, -⟩ := hr.value
    exact absurd (hfault.symm.trans hv) fun h' => nomatch h'
  · exact iff_of_true ⟨hvalue, LinkCounts.etxAdd_ge _, fun c' hb => LinkCounts.etxAdd_anti hb⟩ h0

theorem etxAdd_right_heard :
    ∃ hp : heardTable.Positive,
      heardTable.EtxAddRight 2 3 (heardTable.counts hp (List.mem_singleton.mpr (Eq.refl heardEntry)) 3) :=
  (etxAdd_right_iff admitted_usual sane_heardBothWays exec_heardBothWays).imp fun _ h =>
    (h 2 heardEntry rfl 3).mpr (by decide)

/-- A neighbor that only its reply is known of. -/
theorem etxAdd_divides_by_zero :
    Runs.exec PdrOp.step (aodvDbPdrNtInit 10 1000) [.capHellorsp 10 2 1000 5 0 1, .getEtxAdd 2 2] =
      .error .divisionByZero := by
  decide

end PdrNeighborTable

end DesAodv

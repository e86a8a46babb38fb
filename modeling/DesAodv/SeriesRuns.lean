import Mathlib.Logic.Function.Basic
import DesAodv.Runs
import DesAodv.SeriesLife
import DesAodv.SeriesOwnership

/-!
# Running invocations

Any number of invocations that work on RREQ series at the same time. Every
section that runs under a lock is one step, and so is the send; the steps of
different invocations may come in any order. A step is a turn in the life of
one series.
-/

namespace DesAodv

/-- The daemon, the invocations that are running, how many messages `_create_rreq` has made, the message
each series was started with, and what happened to the series. -/
structure Discoveries where
  node : Node
  jobs : List RreqJob
  created : Nat
  carried : List Nat
  log : List (Nat × LifeEvent)

/-- One step: `aodv_send_rreq` creates its message, the `k`-th invocation goes on, `aodv_periodic_scexecute`
pops a schedule, a handler deletes a series, or something else happens to the daemon. -/
inductive DiscoveryStep
  | createRreq (host : MacAddr)
  | proceed (k : Nat) (now : Timeval)
  | popschedule (now : Timeval)
  | deleteSeriesEther (addr : MacAddr)
  | elsewhere (n : Node)

namespace Discoveries

/-- The daemon before any discovery. -/
def start (n : Node) : Discoveries :=
  { node := { n with series := seriesInit, st := [] }, jobs := [], created := 0, carried := [], log := [] }

/-- The series that were there before and are gone. -/
def freedBy (n n' : Node) : List Nat :=
  (List.range n.series.fresh).filter fun p => (n.seriesDeref p).isSome && (n'.seriesDeref p).isNone

def sentEvent : Sent → Option LifeEvent
  | .mesh msg _ => some (.rreq msg.ttl)
  | .sys _ => none

/-- An invocation takes its next step; it is not in `jobs`. -/
def proceed (d : Discoveries) (now : Timeval) : RreqJob → Discoveries
  | .newSeries id msg =>
    match d.node.aodvPipelineNewSeries msg with
    | (node, none) => { d with node }
    | (node, some ptr) => { d with node, jobs := d.jobs ++ [.send ptr], carried := d.carried ++ [id] }
  | .send ptr =>
    let (node, sent, job) := d.node.sendSeries ptr now
    { d with
      node
      jobs := d.jobs ++ job.toList
      log := d.log ++ (sent.filterMap sentEvent).map (Prod.mk ptr) }
  | job =>
    let node := d.node.letGo job
    { d with node, log := d.log ++ (freedBy d.node node).map fun ptr => (ptr, .freed) }

/-- What happens elsewhere leaves the series and their schedules alone. -/
def step (d : Discoveries) : DiscoveryStep → Discoveries
  | .createRreq host =>
    let msg := d.node.createRreq host (if d.node.cfg.ringSearch then ttlStart else ttlMax) d.node.cfg.metricStartvalue
    { d with jobs := d.jobs ++ [.newSeries d.created msg], created := d.created + 1 }
  | .proceed k now =>
    match d.jobs[k]? with
    | none => d
    | some job => { d with jobs := d.jobs.eraseIdx k }.proceed now job
  | .popschedule now =>
    match aodvDbScPopschedule d.node.st now with
    | none => d
    | some (sc, st) =>
      if sc.scheduleId = .repeatRreq then
        match sc.scheduleParam with
        | .series ptr => { d with node := { d.node with st }, jobs := d.jobs ++ [.send ptr] }
        | _ => { d with node := { d.node with st }.seriesFault }
      else d
  | .deleteSeriesEther addr =>
    let node := d.node.aodvPipelineDeleteSeriesEther addr
    { d with
      node
      log := d.log ++ (d.node.findSeriesUnlocked addr).toList.map (fun ptr => (ptr, .removed)) ++
        (freedBy d.node node).map fun ptr => (ptr, .freed) }
  | .elsewhere n =>
    if n.series = d.node.series ∧ repeatsOf n.st = repeatsOf d.node.st then { d with node := n } else d

/-! ## The life of each series -/

instance (n : Node) (p : Nat) : Decidable (n.Scheduled p) :=
  inferInstanceAs (Decidable (∃ sc ∈ repeatsOf n.st, sc.scheduleParam = .series p))

/-- The series held by the invocations. -/
def runningOf (jobs : List RreqJob) : List Nat := jobs.filterMap RreqJob.series

def holder (jobs : List RreqJob) (p : Nat) : Option RreqJob := jobs.find? fun job => decide (job.series = some p)

def placeOf : Option RreqJob → Place
  | some (.send _) => .sending
  | some (.reschedule _ _) => .rescheduling
  | some (.delete _) => .deleting
  | _ => .abandoned

def place (d : Discoveries) (p : Nat) : Place :=
  if d.node.Scheduled p then .waiting else placeOf (holder d.jobs p)

def life (d : Discoveries) (p : Nat) : Life :=
  match d.node.seriesDeref p with
  | none => if p < d.node.series.fresh then .freed else .unborn
  | some series => .there (d.place p) series.stop series.retries series.msg.ttl

theorem holder_append (jobs new : List RreqJob) (p : Nat) :
    holder (jobs ++ new) p = (holder jobs p).or (holder new p) := List.find?_append

theorem holder_none {jobs : List RreqJob} {p : Nat} (h : p ∉ runningOf jobs) : holder jobs p = none := by
  apply List.find?_eq_none.mpr
  intro job hj hp
  exact h (List.mem_filterMap.mpr ⟨job, hj, of_decide_eq_true hp⟩)

theorem split_jobs {jobs : List RreqJob} {k : Nat} {job : RreqJob} (h : jobs[k]? = some job) :
    ∃ before after, jobs = before ++ job :: after ∧ jobs.eraseIdx k = before ++ after := by
  obtain ⟨hk, rfl⟩ := List.getElem?_eq_some_iff.mp h
  refine ⟨jobs.take k, jobs.drop (k + 1), ?_, List.eraseIdx_eq_take_drop_succ ..⟩
  rw [List.getElem_cons_drop, List.take_append_drop]

theorem filterMap_perm {β : Type} (f : RreqJob → Option β) {jobs : List RreqJob} {k : Nat} {job : RreqJob}
    (h : jobs[k]? = some job) : (jobs.filterMap f).Perm ((f job).toList ++ (jobs.eraseIdx k).filterMap f) := by
  obtain ⟨before, after, hj, he⟩ := split_jobs h
  rw [he, hj, List.filterMap_append, List.filterMap_append]
  have hc : (job :: after).filterMap f = (f job).toList ++ after.filterMap f := by
    cases hs : f job with
    | none => rw [List.filterMap_cons_none hs]; rfl
    | some p => rw [List.filterMap_cons_some hs]; rfl
  rw [hc, ← List.append_assoc, ← List.append_assoc]
  exact List.perm_append_comm.append_right _

theorem running_perm {jobs : List RreqJob} {k : Nat} {job : RreqJob} (h : jobs[k]? = some job) :
    (runningOf jobs).Perm (job.series.toList ++ runningOf (jobs.eraseIdx k)) := filterMap_perm RreqJob.series h

theorem holder_other {jobs new : List RreqJob} {k : Nat} {job : RreqJob} (h : jobs[k]? = some job) {p : Nat}
    (hj : job.series ≠ some p) (hnew : p ∉ runningOf new) :
    holder (jobs.eraseIdx k ++ new) p = holder jobs p := by
  obtain ⟨before, after, hjobs, he⟩ := split_jobs h
  rw [holder_append, holder_none hnew, Option.or_none, he, hjobs, holder_append, holder_append]
  have hc : holder (job :: after) p = holder after p := List.find?_cons_of_neg (by simpa using hj)
  rw [hc]

theorem holder_self {jobs : List RreqJob} {k : Nat} {job : RreqJob} (h : jobs[k]? = some job) {p : Nat}
    (hj : job.series = some p) (hn : (runningOf jobs).Nodup) :
    holder jobs p = some job ∧ p ∉ runningOf (jobs.eraseIdx k) := by
  have hrest : p ∉ runningOf (jobs.eraseIdx k) := by
    have hp := (running_perm h).nodup_iff.mp hn
    rw [hj] at hp
    exact (List.nodup_cons.mp hp).1
  refine ⟨?_, hrest⟩
  obtain ⟨before, after, hjobs, he⟩ := split_jobs h
  rw [he] at hrest
  have hbefore : p ∉ runningOf before := by
    intro hm
    apply hrest
    unfold runningOf
    rw [List.filterMap_append]
    exact List.mem_append_left _ hm
  rw [hjobs, holder_append, holder_none hbefore, Option.none_or]
  exact List.find?_cons_of_pos (by simpa using hj)

theorem holder_one {job : RreqJob} {p : Nat} (hj : job.series = some p) : holder [job] p = some job :=
  List.find?_cons_of_pos (by simpa using hj)

theorem series_ne {job : RreqJob} {p : Nat} (hj : job.series = some p) : ∀ q, q ≠ p → job.series ≠ some q := by
  intro q hq h
  rw [hj] at h
  exact hq (Option.some.inj h).symm

section
variable {d d' : Discoveries} {p : Nat}

theorem place_held (h : ¬ d.node.Scheduled p) : d.place p = placeOf (holder d.jobs p) := if_neg h

theorem place_waiting (h : d.node.Scheduled p) : d.place p = .waiting := if_pos h

theorem life_there {series : RreqSeries} (h : d.node.seriesDeref p = some series) :
    d.life p = .there (d.place p) series.stop series.retries series.msg.ttl := by
  unfold life
  rw [h]

theorem life_freed (h : d.node.seriesDeref p = none) (hp : p < d.node.series.fresh) : d.life p = .freed := by
  unfold life
  rw [h]
  exact if_pos hp

theorem life_unborn (h : d.node.seriesDeref p = none) (hp : ¬ p < d.node.series.fresh) : d.life p = .unborn := by
  unfold life
  rw [h]
  exact if_neg hp

theorem life_same (hd : d'.node.seriesDeref p = d.node.seriesDeref p)
    (hs : d'.node.Scheduled p ↔ d.node.Scheduled p) (hh : holder d'.jobs p = holder d.jobs p)
    (hf : p < d'.node.series.fresh ↔ p < d.node.series.fresh) : d'.life p = d.life p := by
  unfold life place
  rw [hd, hh]
  simp only [hs, hf]

end

/-! ## One step is one turn -/

/-- The step from `d` to `d'` is a turn in the life of `p`. -/
structure Turns (d d' : Discoveries) (p : Nat) (es : List LifeEvent) (l : Life) : Prop where
  owned : d'.node.Owned (runningOf d'.jobs)
  turn : Turn (d.life p) es l
  life : d'.life p = l
  others : ∀ q, q ≠ p → d'.life q = d.life q
  log : d'.log = d.log ++ es.map (Prod.mk p)

/-- A series that no one will let go of any more. -/
def Doomed : Life → Prop
  | .there .deleting _ _ _ => True
  | .there .abandoned _ _ _ => True
  | _ => False

/-- The step sends the last RREQ of a series. -/
def LastSend (d : Discoveries) : DiscoveryStep → Prop
  | .proceed k now => ∃ p series, d.jobs[k]? = some (.send p) ∧ d.node.seriesDeref p = some series ∧
      rreqRetries ≤ series.retries ∧ ¬ rreqRatelimit < (rateLogCount d.node.rreqLog now).2
  | _ => False

section
variable {d d' : Discoveries} {p k : Nat} {job : RreqJob}

theorem Turns.idle (hO : d'.node.Owned (runningOf d'.jobs)) (hl : ∀ q, d'.life q = d.life q) (hlog : d'.log = d.log) :
    Turns d d' 0 [] (d.life 0) where
  owned := hO
  turn := Turn.idle _
  life := hl 0
  others := fun q _ => hl q
  log := by
    rw [hlog]
    exact (List.append_nil _).symm

theorem others_same {new : List RreqJob} (hk : d.jobs[k]? = some job) (hj : ∀ q, q ≠ p → job.series ≠ some q)
    (hjobs : d'.jobs = d.jobs.eraseIdx k ++ new) (hnew : ∀ q, q ≠ p → q ∉ runningOf new)
    (hd : ∀ q, q ≠ p → d'.node.seriesDeref q = d.node.seriesDeref q)
    (hs : ∀ q, q ≠ p → (d'.node.Scheduled q ↔ d.node.Scheduled q))
    (hf : d'.node.series.fresh = d.node.series.fresh) : ∀ q, q ≠ p → d'.life q = d.life q := by
  intro q hq
  apply life_same (hd q hq) (hs q hq)
  · rw [hjobs]
    exact holder_other hk (hj q hq) (hnew q hq)
  · rw [hf]

theorem runningOf_append (jobs new : List RreqJob) : runningOf (jobs ++ new) = runningOf jobs ++ runningOf new :=
  List.filterMap_append ..

theorem create_turn (hO : d.node.Owned (runningOf d.jobs)) (host : MacAddr) :
    Turns d (d.step (.createRreq host)) 0 [] (d.life 0) := by
  have hrun : ∀ id msg, runningOf (d.jobs ++ [.newSeries id msg]) = runningOf d.jobs := by
    intro id msg
    rw [runningOf_append]
    exact List.append_nil _
  refine Turns.idle ?_ ?_ ?_
  · show d.node.Owned (runningOf (d.jobs ++ _))
    rw [hrun]
    exact hO
  · intro q
    refine life_same rfl Iff.rfl ?_ Iff.rfl
    show holder (d.jobs ++ _) q = _
    rw [holder_append]
    exact Option.or_none ..
  · rfl

theorem proceed_started {now : Timeval} {id : Nat} {msg : DessertMsg}
    (hnone : d.node.findSeriesUnlocked msg.l25Dhost = none) :
    d.proceed now (.newSeries id msg) =
      { d with
        node := (d.node.aodvPipelineNewSeries msg).1
        jobs := d.jobs ++ [.send d.node.series.fresh]
        carried := d.carried ++ [id] } := by
  simp only [proceed]
  rw [Node.newSeries_started hnone]

theorem proceed_refused {now : Timeval} {id : Nat} {msg : DessertMsg}
    (hsome : d.node.findSeriesUnlocked msg.l25Dhost ≠ none) : d.proceed now (.newSeries id msg) = d := by
  obtain ⟨q, hf⟩ := Option.ne_none_iff_exists'.mp hsome
  simp only [proceed, Node.aodvPipelineNewSeries, hf]

theorem refused_turn (hO : d.node.Owned (runningOf d.jobs)) {id : Nat} {msg : DessertMsg}
    (hk : d.jobs[k]? = some (.newSeries id msg)) :
    Turns d { d with jobs := d.jobs.eraseIdx k } 0 [] (d.life 0) := by
  refine Turns.idle (hO.perm (running_perm hk)) (fun q => ?_) rfl
  refine life_same rfl Iff.rfl ?_ Iff.rfl
  have hh := @holder_other d.jobs [] k _ hk q (by simp [RreqJob.series]) List.not_mem_nil
  rwa [List.append_nil] at hh

theorem started_turn (hO : d.node.Owned (runningOf d.jobs)) {id : Nat} {msg : DessertMsg} (carried : List Nat)
    (hk : d.jobs[k]? = some (.newSeries id msg)) (hnone : d.node.findSeriesUnlocked msg.l25Dhost = none) :
    Turns d { d with
        node := (d.node.aodvPipelineNewSeries msg).1
        jobs := d.jobs.eraseIdx k ++ [.send d.node.series.fresh]
        carried }
      d.node.series.fresh [] (.there .sending false 0 msg.ttl) := by
  have hO' : d.node.Owned (runningOf (d.jobs.eraseIdx k)) := hO.perm (running_perm hk)
  have hderef := Node.newSeries_deref hO' hnone
  have hnew := hO'.new hnone
  have heq := Node.newSeries_started hnone
  have hst : (d.node.aodvPipelineNewSeries msg).1.st = d.node.st := by rw [heq]
  have hfresh : (d.node.aodvPipelineNewSeries msg).1.series.fresh = d.node.series.fresh + 1 := by rw [heq]
  have hsched : ∀ q, (d.node.aodvPipelineNewSeries msg).1.Scheduled q ↔ d.node.Scheduled q := by
    intro q
    unfold Node.Scheduled
    rw [hst]
  have hunborn := hO.unborn
  refine ⟨?_, ?_, ?_, ?_, (List.append_nil _).symm⟩
  · show Node.Owned _ (runningOf (_ ++ _))
    rw [runningOf_append]
    exact hnew.perm (List.perm_append_singleton _ _).symm
  · rw [life_unborn hunborn (Nat.lt_irrefl _)]
    exact Turn.start msg.ttl
  · have hs := (hderef d.node.series.fresh).trans (if_pos rfl)
    refine (life_there hs).trans ?_
    rw [place_held (hnew.exclusive _ List.mem_cons_self)]
    show Life.there (placeOf (holder (_ ++ _) _)) _ _ _ = _
    have hrest : d.node.series.fresh ∉ runningOf (d.jobs.eraseIdx k) := by
      intro hm
      obtain ⟨s, hs⟩ := hO'.allocated _ hm
      rw [hunborn] at hs
      cases hs
    rw [holder_append, holder_none hrest, Option.none_or]
    rw [@holder_one (.send d.node.series.fresh) d.node.series.fresh rfl]
    rfl
  · intro q hq
    apply life_same ((hderef q).trans (if_neg hq)) (hsched q)
    · apply holder_other hk
      · simp [RreqJob.series]
      · simpa [runningOf, RreqJob.series] using hq
    · show q < (d.node.aodvPipelineNewSeries msg).1.series.fresh ↔ _
      rw [hfresh]
      omega

theorem held_turn (hO : d.node.Owned (runningOf d.jobs)) (hk : d.jobs[k]? = some job) (hj : job.series = some p)
    {n' : Node} {job' : RreqJob} (hj' : job'.series = some p) {log : List (Nat × LifeEvent)}
    {es : List LifeEvent} {series' : RreqSeries} (hown : n'.Owned (p :: runningOf (d.jobs.eraseIdx k)))
    (hs' : n'.seriesDeref p = some series') (hother : ∀ q, q ≠ p → n'.seriesDeref q = d.node.seriesDeref q)
    (hst : n'.st = d.node.st) (hf : n'.series.fresh = d.node.series.fresh)
    (hturn : Turn (d.life p) es (.there (placeOf (some job')) series'.stop series'.retries series'.msg.ttl))
    (hlog : log = d.log ++ es.map (Prod.mk p)) :
    Turns d { d with node := n', jobs := d.jobs.eraseIdx k ++ [job'], log } p es
      (.there (placeOf (some job')) series'.stop series'.retries series'.msg.ttl) := by
  have hrun : runningOf [job'] = [p] := List.filterMap_cons_some hj'
  have hsched : ∀ q, n'.Scheduled q ↔ d.node.Scheduled q := by
    intro q
    unfold Node.Scheduled
    rw [hst]
  refine ⟨?_, hturn, ?_, ?_, hlog⟩
  · show Node.Owned _ (runningOf (_ ++ _))
    rw [runningOf_append, hrun]
    exact hown.perm (List.perm_append_singleton _ _).symm
  · refine (life_there hs').trans ?_
    rw [place_held (hown.exclusive _ List.mem_cons_self)]
    show Life.there (placeOf (holder (_ ++ _) _)) _ _ _ = _
    rw [holder_append, holder_none (holder_self hk hj hO.held).2, Option.none_or, holder_one hj']
  · apply others_same hk (series_ne hj) rfl ?_ hother (fun q _ => hsched q) hf
    intro q hq
    rw [hrun]
    simpa using hq

theorem nextTtl_le (ringSearch : Bool) (ttl : UInt8) : ttl ≤ Node.nextTtl ringSearch ttl := by
  unfold Node.nextTtl
  split
  · rename_i h
    rw [Bool.and_eq_true, decide_eq_true_eq, UInt8.le_iff_toNat_le] at h
    have h7 : ttlThreshold.toNat = 7 := rfl
    simp only
    split
    · rw [UInt8.le_iff_toNat_le]
      have hlt := ttl.toNat_lt
      have hmax : ttlMax.toNat = 255 := rfl
      omega
    · have hsum : (ttl + ttlIncrement).toNat = (ttl.toNat + 2) % 256 := UInt8.toNat_add ..
      rw [UInt8.le_iff_toNat_le, hsum]
      omega
  · exact UInt8.le_refl ttl

theorem life_held (hO : d.node.Owned (runningOf d.jobs)) (hk : d.jobs[k]? = some job) (hj : job.series = some p)
    {s : RreqSeries} (hs : d.node.seriesDeref p = some s) :
    d.life p = .there (placeOf (some job)) s.stop s.retries s.msg.ttl := by
  have hp : p ∈ runningOf d.jobs := List.mem_filterMap.mpr ⟨job, List.mem_of_getElem? hk, hj⟩
  rw [life_there hs, place_held (hO.exclusive p hp), (holder_self hk hj hO.held).1]

theorem send_turn (hO : d.node.Owned (runningOf d.jobs)) (hk : d.jobs[k]? = some (.send p)) (now : Timeval) :
    ∃ es l, Turns d ({ d with jobs := d.jobs.eraseIdx k }.proceed now (.send p)) p es l ∧
      (Doomed l ↔ Doomed (d.life p) ∨ d.LastSend (.proceed k now)) := by
  have hO' : d.node.Owned (p :: runningOf (d.jobs.eraseIdx k)) := hO.perm (running_perm hk)
  obtain ⟨s, hs⟩ := hO'.allocated p List.mem_cons_self
  have hlife : d.life p = .there .sending s.stop s.retries s.msg.ttl := life_held hO hk rfl hs
  obtain ⟨hown, -⟩ := hO'.send now
  have hlast : d.LastSend (.proceed k now) ↔
      rreqRetries ≤ s.retries ∧ ¬ rreqRatelimit < (rateLogCount d.node.rreqLog now).2 := by
    constructor
    · intro hx
      obtain ⟨q, t, hq, ht, hr⟩ := hx
      rw [hk] at hq
      obtain rfl := RreqJob.send.inj (Option.some.inj hq)
      obtain rfl := Option.some.inj (hs.symm.trans ht)
      exact hr
    · exact fun hr => ⟨p, s, hk, hs, hr⟩
  rcases Node.sendSeries_cases hs now with ⟨hc, rreqLog, when, heq⟩ |
    ⟨hc, rreqLog, seqNumGlobal, msg, httl, hdest, ⟨hr, heq⟩ | ⟨hr, when, heq⟩⟩
  · refine ⟨[], .there .rescheduling s.stop s.retries s.msg.ttl, ?_, ?_⟩
    · unfold proceed
      simp only [heq]
      rw [heq] at hown
      exact held_turn hO hk rfl rfl hown hs (fun _ _ => rfl) rfl rfl (hlife ▸ Turn.postpone _ _ _) rfl
    · rw [hlife, hlast]
      exact iff_of_false not_false fun h => h.elim not_false fun h => h.2 hc
  · have hw := Node.seriesWrite_deref { d.node with rreqLog, seqNumGlobal } p
      (f := fun s : RreqSeries => { s with msg }) fun _ => rfl
    have hself : (({ d.node with rreqLog, seqNumGlobal } : Node).seriesWrite p
        fun s => { s with msg }).seriesDeref p = some { s with msg } := by
      rw [hw, if_pos rfl]
      exact congrArg (Option.map _) hs
    have hturn : Turn (d.life p) [.rreq s.msg.ttl] (.there .deleting s.stop s.retries msg.ttl) := by
      rw [hlife, httl]
      exact Turn.sendLast _ _ _
    refine ⟨[.rreq s.msg.ttl], .there .deleting s.stop s.retries msg.ttl, ?_, ?_⟩
    · unfold proceed
      simp only [heq]
      rw [heq] at hown
      refine held_turn hO hk rfl rfl hown hself ?_ rfl rfl hturn ?_
      · exact fun q hq => (hw q).trans (if_neg hq)
      · rw [← httl]
        rfl
    · rw [hlife, hlast]
      exact iff_of_true trivial (.inr ⟨hr, hc⟩)
  · have hw := Node.seriesWrite_deref { d.node with rreqLog, seqNumGlobal } p
      (f := fun s : RreqSeries => { s with msg }) fun _ => rfl
    have hw' := Node.seriesWrite_deref
      (({ d.node with rreqLog, seqNumGlobal } : Node).seriesWrite p fun s => { s with msg }) p
      (f := fun s : RreqSeries =>
        { s with
          retries := s.retries + 1
          msg := { s.msg with ttl := Node.nextTtl d.node.cfg.ringSearch s.msg.ttl } }) fun _ => rfl
    have hself := (hw' p).trans (if_pos rfl)
    rw [hw, if_pos rfl] at hself
    have hs' : ({ d.node with rreqLog, seqNumGlobal } : Node).seriesDeref p = some s := hs
    rw [hs', Option.map_some, Option.map_some] at hself
    have hturn : Turn (d.life p) [.rreq s.msg.ttl] (.there .rescheduling s.stop (s.retries + 1)
        (Node.nextTtl d.node.cfg.ringSearch msg.ttl)) := by
      rw [hlife, httl]
      exact Turn.send _ _ _ _ hr (nextTtl_le _ _)
    refine ⟨[.rreq s.msg.ttl],
      .there .rescheduling s.stop (s.retries + 1) (Node.nextTtl d.node.cfg.ringSearch msg.ttl), ?_, ?_⟩
    · unfold proceed
      simp only [heq]
      rw [heq] at hown
      refine held_turn hO hk rfl rfl hown hself ?_ rfl rfl hturn ?_
      · intro q hq
        rw [hw', if_neg hq, hw, if_neg hq]
        rfl
      · rw [← httl]
        rfl
    · rw [hlife, hlast]
      exact iff_of_false not_false fun h => h.elim not_false fun h => Nat.not_le.mpr hr h.1

theorem mem_freedBy {n n' : Node} {q : Nat} :
    q ∈ freedBy n n' ↔ q < n.series.fresh ∧ (∃ s, n.seriesDeref q = some s) ∧ n'.seriesDeref q = none := by
  unfold freedBy
  rw [List.mem_filter, List.mem_range, Bool.and_eq_true, Option.isSome_iff_exists, Option.isNone_iff_eq_none]

theorem freedBy_nil {n n' : Node} (h : ∀ q s, n.seriesDeref q = some s → n'.seriesDeref q ≠ none) :
    freedBy n n' = [] := by
  apply List.eq_nil_iff_forall_not_mem.mpr
  intro q hq
  obtain ⟨-, ⟨s, hs⟩, hnone⟩ := mem_freedBy.mp hq
  exact h q s hs hnone

theorem freedBy_same {n n' : Node} (h : ∀ q, n'.seriesDeref q = n.seriesDeref q) : freedBy n n' = [] := by
  apply freedBy_nil
  intro q t ht
  rw [h, ht]
  exact Option.some_ne_none t

theorem freedBy_marked {n n' : Node} {p : Nat} {s : RreqSeries}
    (h : ∀ q, n'.seriesDeref q = if q = p then some s else n.seriesDeref q) : freedBy n n' = [] := by
  apply freedBy_nil
  intro q t ht
  rw [h]
  by_cases hq : q = p
  · rw [if_pos hq]
    exact Option.some_ne_none _
  · rw [if_neg hq, ht]
    exact Option.some_ne_none t

theorem freedBy_one {n n' : Node} {p : Nat} {s : RreqSeries} (hs : n.seriesDeref p = some s)
    (hp : p < n.series.fresh) (h : ∀ q, n'.seriesDeref q = if q = p then none else n.seriesDeref q) :
    freedBy n n' = [p] := by
  apply List.perm_singleton.mp
  apply (List.perm_ext_iff_of_nodup (List.nodup_range.filter _) (List.nodup_singleton p)).mpr
  intro q
  rw [List.mem_singleton]
  refine (@mem_freedBy n n' q).trans ⟨?_, ?_⟩
  · intro hx
    obtain ⟨-, ⟨t, ht⟩, hnone⟩ := hx
    by_contra hq
    rw [h, if_neg hq, ht] at hnone
    cases hnone
  · intro hx
    obtain rfl := hx
    exact ⟨hp, ⟨s, hs⟩, (h q).trans (if_pos rfl)⟩

theorem reschedule_turn (hO : d.node.Owned (runningOf d.jobs)) {when : Timeval}
    (hk : d.jobs[k]? = some (.reschedule when p)) (now : Timeval) :
    ∃ es l, Turns d ({ d with jobs := d.jobs.eraseIdx k }.proceed now (.reschedule when p)) p es l ∧
      (Doomed l ↔ Doomed (d.life p)) := by
  have hO' : d.node.Owned (p :: runningOf (d.jobs.eraseIdx k)) := hO.perm (running_perm hk)
  obtain ⟨s, hs⟩ := hO'.allocated p List.mem_cons_self
  have hlife : d.life p = .there .rescheduling s.stop s.retries s.msg.ttl := life_held hO hk rfl hs
  have hown := hO'.reschedule when
  cases hstop : s.stop with
  | true =>
    have heq := Node.reschedule_stopped hs hstop when
    have hderef := Node.seriesFree_deref d.node p
    have hfreed : freedBy d.node (d.node.seriesFree p) = [p] := freedBy_one hs (hO'.fresh p s hs) hderef
    rw [heq] at hown
    refine ⟨[.freed], .freed, ⟨?_, ?_, ?_, ?_, ?_⟩, ?_⟩
    · show Node.Owned (d.node.aodvPipelineRescheduleSeries when p) _
      rw [heq]
      exact hown
    · rw [hlife, hstop]
      exact Turn.free _ _
    · apply life_freed
      · show Node.seriesDeref (d.node.aodvPipelineRescheduleSeries when p) p = none
        rw [heq, hderef, if_pos rfl]
      · show p < (d.node.aodvPipelineRescheduleSeries when p).series.fresh
        rw [heq]
        exact hO'.fresh p s hs
    · apply others_same hk (series_ne rfl) (List.append_nil _).symm (fun _ _ => List.not_mem_nil)
      · intro q hq
        show Node.seriesDeref (d.node.aodvPipelineRescheduleSeries when p) q = _
        rw [heq, hderef, if_neg hq]
      · intro q _
        show Node.Scheduled (d.node.aodvPipelineRescheduleSeries when p) q ↔ _
        rw [heq]
        exact Iff.rfl
      · show (d.node.aodvPipelineRescheduleSeries when p).series.fresh = _
        rw [heq]
        rfl
    · show d.log ++ (freedBy d.node (d.node.aodvPipelineRescheduleSeries when p)).map _ = _
      rw [heq, hfreed]
      rfl
    · rw [hlife]
      exact Iff.rfl
  | false =>
    obtain ⟨heq, hperm⟩ := Node.reschedule_live hO' ⟨hs, hstop⟩ when
    have hsched : ∀ q, (d.node.aodvPipelineRescheduleSeries when p).Scheduled q ↔ q = p ∨ d.node.Scheduled q := by
      intro q
      constructor
      · intro h
        obtain ⟨sc, hsc, hparam⟩ := h
        rcases List.mem_cons.mp (hperm.mem_iff.mp hsc) with rfl | hsc
        · exact .inl (ScheduleParam.series.inj hparam).symm
        · exact .inr ⟨sc, hsc, hparam⟩
      · intro h
        rcases h with rfl | ⟨sc, hsc, hparam⟩
        · exact ⟨_, hperm.mem_iff.mpr List.mem_cons_self, rfl⟩
        · exact ⟨sc, hperm.mem_iff.mpr (List.mem_cons_of_mem _ hsc), hparam⟩
    have hderef : ∀ q, (d.node.aodvPipelineRescheduleSeries when p).seriesDeref q = d.node.seriesDeref q := by
      intro q
      rw [heq]
      rfl
    have hfreed : freedBy d.node (d.node.aodvPipelineRescheduleSeries when p) = [] := freedBy_same hderef
    refine ⟨[], .there .waiting s.stop s.retries s.msg.ttl, ⟨hown, ?_, ?_, ?_, ?_⟩, ?_⟩
    · rw [hlife, hstop]
      exact Turn.schedule _ _
    · refine (life_there ((hderef p).trans hs)).trans ?_
      rw [place_waiting ((hsched p).mpr (.inl rfl))]
    · apply others_same hk (series_ne rfl) (List.append_nil _).symm (fun _ _ => List.not_mem_nil)
      · exact fun q _ => hderef q
      · exact fun q hq => (hsched q).trans (or_iff_right hq)
      · show (d.node.aodvPipelineRescheduleSeries when p).series.fresh = _
        rw [heq]
    · show d.log ++ (freedBy d.node (d.node.aodvPipelineRescheduleSeries when p)).map _ = _
      rw [hfreed]
      rfl
    · rw [hlife]
      exact Iff.rfl

theorem delete_turn (hO : d.node.Owned (runningOf d.jobs)) (hk : d.jobs[k]? = some (.delete p)) (now : Timeval) :
    ∃ es l, Turns d ({ d with jobs := d.jobs.eraseIdx k }.proceed now (.delete p)) p es l ∧
      (Doomed l ↔ Doomed (d.life p)) := by
  have hO' : d.node.Owned (p :: runningOf (d.jobs.eraseIdx k)) := hO.perm (running_perm hk)
  obtain ⟨s, hs⟩ := hO'.allocated p List.mem_cons_self
  have hlife : d.life p = .there .deleting s.stop s.retries s.msg.ttl := life_held hO hk rfl hs
  -- whether it is marked already or not, it is marked afterwards and stays
  have hres : (∀ q, (d.node.aodvPipelineDeleteSeries p).seriesDeref q =
        if q = p then some { s with stop := true } else d.node.seriesDeref q) ∧
      repeatsOf (d.node.aodvPipelineDeleteSeries p).st = repeatsOf d.node.st := by
    cases hstop : s.stop with
    | true =>
      rw [Node.deleteSeries_stopped hs hstop]
      refine ⟨fun q => ?_, rfl⟩
      by_cases hq : q = p
      · rw [if_pos hq, hq, hs, ← hstop]
      · rw [if_neg hq]
    | false => exact (hO'.delete_running ⟨hs, hstop⟩ List.mem_cons_self).2
  obtain ⟨hderef, hst⟩ := hres
  have hsched : ∀ q, (d.node.aodvPipelineDeleteSeries p).Scheduled q ↔ d.node.Scheduled q :=
    fun q => Node.scheduled_congr (List.Perm.of_eq hst) q
  have hfresh := Node.deleteSeries_fresh d.node p
  have hfreed : freedBy d.node (d.node.aodvPipelineDeleteSeries p) = [] := freedBy_marked hderef
  refine ⟨[], .there .abandoned true s.retries s.msg.ttl, ⟨hO'.delete, ?_, ?_, ?_, ?_⟩, ?_⟩
  · rw [hlife]
    exact Turn.abandon _ _ _
  · refine (life_there ((hderef p).trans (if_pos rfl))).trans ?_
    rw [place_held fun h => hO'.exclusive p List.mem_cons_self ((hsched p).mp h)]
    show Life.there (placeOf (holder (d.jobs.eraseIdx k) p)) _ _ _ = _
    rw [holder_none (holder_self hk rfl hO.held).2]
    rfl
  · exact others_same hk (series_ne rfl) (List.append_nil _).symm (fun _ _ => List.not_mem_nil)
      (fun q hq => (hderef q).trans (if_neg hq)) (fun q _ => hsched q) hfresh
  · show d.log ++ (freedBy d.node (d.node.aodvPipelineDeleteSeries p)).map _ = _
    rw [hfreed]
    rfl
  · rw [hlife]
    exact Iff.rfl

theorem pop_turn (hO : d.node.Owned (runningOf d.jobs)) (now : Timeval) :
    ∃ p es l, Turns d (d.step (.popschedule now)) p es l ∧ (Doomed l ↔ Doomed (d.life p)) := by
  simp only [step]
  split
  · exact ⟨0, [], _, Turns.idle hO (fun _ => rfl) rfl, Iff.rfl⟩
  · rename_i sc st hpop
    by_cases htype : sc.scheduleId = .repeatRreq
    · obtain ⟨p, s, hparam, hl, hrep, hown⟩ := hO.pop hpop htype
      have hsc : d.node.Scheduled p := ⟨sc, hrep ▸ List.mem_cons_self, hparam⟩
      have hheld : holder d.jobs p = none := holder_none fun hm => hO.exclusive p hm hsc
      have hlife : d.life p = .there .waiting false s.retries s.msg.ttl := by
        rw [life_there hl.1, place_waiting hsc, hl.2]
      rw [if_pos htype]
      simp only [hparam]
      refine ⟨p, [], .there .sending false s.retries s.msg.ttl, ⟨?_, ?_, ?_, ?_, (List.append_nil _).symm⟩, ?_⟩
      · show Node.Owned _ (runningOf (_ ++ _))
        rw [runningOf_append]
        exact hown.perm (List.perm_append_singleton _ _).symm
      · rw [hlife]
        exact Turn.pop _ _
      · refine Eq.trans (@life_there _ _ s hl.1) ?_
        rw [place_held (hown.exclusive p List.mem_cons_self)]
        show Life.there (placeOf (holder (d.jobs ++ _) p)) _ _ _ = _
        rw [holder_append, hheld, Option.none_or, @holder_one (.send p) p rfl, hl.2]
        rfl
      · intro q hq
        refine life_same rfl ?_ ?_ Iff.rfl
        · constructor
          · intro h
            obtain ⟨x, hx, hx'⟩ := h
            exact ⟨x, hrep ▸ List.mem_cons_of_mem sc hx, hx'⟩
          · intro h
            obtain ⟨x, hx, hx'⟩ := h
            rw [hrep] at hx
            rcases List.mem_cons.mp hx with rfl | hx
            · rw [hparam] at hx'
              exact absurd (ScheduleParam.series.inj hx').symm hq
            · exact ⟨x, hx, hx'⟩
        · show holder (d.jobs ++ _) q = _
          have hnone : holder [RreqJob.send p] q = none := by
            apply holder_none
            simpa [runningOf, RreqJob.series] using hq
          rw [holder_append, hnone, Option.or_none]
      · rw [hlife]
        exact Iff.rfl
    · rw [if_neg htype]
      exact ⟨0, [], _, Turns.idle hO (fun _ => rfl) rfl, Iff.rfl⟩

theorem deleteEther_turn (hO : d.node.Owned (runningOf d.jobs)) (addr : MacAddr) :
    ∃ p es l, Turns d (d.step (.deleteSeriesEther addr)) p es l ∧ (Doomed l ↔ Doomed (d.life p)) := by
  cases hf : d.node.findSeriesUnlocked addr with
  | none =>
    have heq : d.node.aodvPipelineDeleteSeriesEther addr = d.node := by
      unfold Node.aodvPipelineDeleteSeriesEther
      rw [hf]
    have hfreed : freedBy d.node d.node = [] := freedBy_same fun _ => rfl
    have hstep : d.step (.deleteSeriesEther addr) = d := by
      show ({ d with node := _, log := _ } : Discoveries) = d
      rw [heq, hf, hfreed]
      simp
    rw [hstep]
    exact ⟨0, [], _, Turns.idle hO (fun _ => rfl) rfl, Iff.rfl⟩
  | some p =>
    obtain ⟨hm, -⟩ := Node.find_some hf
    obtain ⟨s, hl⟩ := (hO.mem_list p).mp hm
    have heq : d.node.aodvPipelineDeleteSeriesEther addr = d.node.aodvPipelineDeleteSeries p := by
      unfold Node.aodvPipelineDeleteSeriesEther
      rw [hf]
    have hstep : d.step (.deleteSeriesEther addr) =
        { d with
          node := d.node.aodvPipelineDeleteSeries p
          log := d.log ++ [(p, .removed)] ++
            (freedBy d.node (d.node.aodvPipelineDeleteSeries p)).map fun ptr => (ptr, .freed) } := by
      show ({ d with node := _, log := _ } : Discoveries) = _
      rw [heq, hf]
      rfl
    have hfresh := Node.deleteSeries_fresh d.node p
    rw [hstep]
    by_cases hsc : d.node.Scheduled p
    · obtain ⟨hown, hderef, hst⟩ := hO.delete_scheduled hl hsc
      have hlife : d.life p = .there .waiting false s.retries s.msg.ttl := by
        rw [life_there hl.1, place_waiting hsc, hl.2]
      refine ⟨p, [.removed, .freed], .freed, ⟨hown, ?_, ?_, ?_, ?_⟩, ?_⟩
      · rw [hlife]
        exact Turn.drop _ _
      · apply life_freed ((hderef p).trans (if_pos rfl))
        show p < (d.node.aodvPipelineDeleteSeries p).series.fresh
        rw [hfresh]
        exact hO.fresh p s hl.1
      · intro q hq
        refine life_same ((hderef q).trans (if_neg hq)) ?_ rfl ?_
        · constructor
          · intro hx
            obtain ⟨sc, hm, hparam⟩ := hx
            rw [hst] at hm
            exact ⟨sc, (Keyed.mem_erase.mp hm).1, hparam⟩
          · intro hx
            obtain ⟨sc, hm, hparam⟩ := hx
            refine ⟨sc, ?_, hparam⟩
            rw [hst]
            refine Keyed.mem_erase.mpr ⟨hm, ?_⟩
            intro ha
            rw [(hO.schedule_iff hl hm).mpr ha] at hparam
            exact hq (ScheduleParam.series.inj hparam).symm
        · rw [hfresh]
      · rw [freedBy_one hl.1 (hO.fresh p s hl.1) hderef, List.append_assoc]
        rfl
      · rw [hlife]
        exact Iff.rfl
    · have hr : p ∈ runningOf d.jobs := (hO.owned p s hl).resolve_right hsc
      obtain ⟨hown, hderef, hst⟩ := hO.delete_running hl hr
      have hsched : ∀ q, (d.node.aodvPipelineDeleteSeries p).Scheduled q ↔ d.node.Scheduled q :=
        fun q => Node.scheduled_congr (List.Perm.of_eq hst) q
      have hfreed : freedBy d.node (d.node.aodvPipelineDeleteSeries p) = [] := freedBy_marked hderef
      have hplace : placeOf (holder d.jobs p) ≠ .waiting := by
        unfold placeOf
        split <;> exact fun h => by cases h
      have hlife : d.life p = .there (placeOf (holder d.jobs p)) false s.retries s.msg.ttl := by
        rw [life_there hl.1, place_held hsc, hl.2]
      refine ⟨p, [.removed], .there (placeOf (holder d.jobs p)) true s.retries s.msg.ttl, ⟨hown, ?_, ?_, ?_, ?_⟩, ?_⟩
      · rw [hlife]
        exact Turn.mark _ _ _ hplace
      · refine (life_there ((hderef p).trans (if_pos rfl))).trans ?_
        rw [place_held fun h => hsc ((hsched p).mp h)]
      · intro q hq
        exact life_same ((hderef q).trans (if_neg hq)) (hsched q) rfl (by rw [hfresh])
      · rw [hfreed]
        exact List.append_nil _
      · rw [hlife]
        cases placeOf (holder d.jobs p) <;> exact Iff.rfl

theorem elsewhere_turn (hO : d.node.Owned (runningOf d.jobs)) (n : Node) :
    Turns d (d.step (.elsewhere n)) 0 [] (d.life 0) := by
  simp only [step]
  split
  · rename_i h
    have hderef : n.seriesDeref = d.node.seriesDeref := by
      unfold Node.seriesDeref
      rw [h.1]
    refine Turns.idle (hO.congr h.1 (List.Perm.of_eq h.2)) (fun q => ?_) rfl
    exact life_same (congrFun hderef q) (Node.scheduled_congr (List.Perm.of_eq h.2) q) rfl (by rw [h.1])
  · exact Turns.idle hO (fun _ => rfl) rfl

/-- Every step is a turn in the life of one series, and dooms it exactly if it sends the last RREQ. -/
theorem step_turn (hO : d.node.Owned (runningOf d.jobs)) (act : DiscoveryStep) :
    ∃ p es l, Turns d (d.step act) p es l ∧ (Doomed l ↔ Doomed (d.life p) ∨ d.LastSend act) := by
  have hidle : ∀ {p l act}, (Doomed l ↔ Doomed (d.life p)) → ¬ d.LastSend act →
      (Doomed l ↔ Doomed (d.life p) ∨ d.LastSend act) := fun h hn => h.trans (or_iff_left hn).symm
  cases act with
  | createRreq host => exact ⟨0, [], _, create_turn hO host, hidle Iff.rfl not_false⟩
  | popschedule now =>
    obtain ⟨p, es, l, ht, hd⟩ := pop_turn hO now
    exact ⟨p, es, l, ht, hidle hd not_false⟩
  | deleteSeriesEther addr =>
    obtain ⟨p, es, l, ht, hd⟩ := deleteEther_turn hO addr
    exact ⟨p, es, l, ht, hidle hd not_false⟩
  | elsewhere n => exact ⟨0, [], _, elsewhere_turn hO n, hidle Iff.rfl not_false⟩
  | proceed k now =>
    have hnot : ∀ job, d.jobs[k]? = some job → (∀ p, job ≠ .send p) → ¬ d.LastSend (.proceed k now) := by
      intro job hk hjob hx
      obtain ⟨p, series, hp, -⟩ := hx
      rw [hk] at hp
      exact hjob p (Option.some.inj hp)
    cases hk : d.jobs[k]? with
    | none =>
      have hstep : d.step (.proceed k now) = d := by
        simp only [step, hk]
      rw [hstep]
      refine ⟨0, [], _, Turns.idle hO (fun _ => rfl) rfl, hidle Iff.rfl ?_⟩
      intro hx
      obtain ⟨p, series, hp, -⟩ := hx
      rw [hk] at hp
      cases hp
    | some job =>
      have hstep : d.step (.proceed k now) = { d with jobs := d.jobs.eraseIdx k }.proceed now job := by
        simp only [step, hk]
      rw [hstep]
      cases job with
      | newSeries id msg =>
        have hn := hnot _ hk fun p h => by cases h
        cases hf : d.node.findSeriesUnlocked msg.l25Dhost with
        | none =>
          rw [@proceed_started { d with jobs := d.jobs.eraseIdx k } now id msg hf]
          refine ⟨_, _, _, started_turn hO (d.carried ++ [id]) hk hf, hidle ?_ hn⟩
          rw [life_unborn hO.unborn (Nat.lt_irrefl _)]
          exact Iff.rfl
        | some q =>
          rw [@proceed_refused { d with jobs := d.jobs.eraseIdx k } now id msg (hf ▸ Option.some_ne_none q)]
          exact ⟨0, [], _, refused_turn hO hk, hidle Iff.rfl hn⟩
      | send p =>
        obtain ⟨es, l, ht, hd⟩ := send_turn hO hk now
        exact ⟨p, es, l, ht, hd⟩
      | reschedule when p =>
        obtain ⟨es, l, ht, hd⟩ := reschedule_turn hO hk now
        exact ⟨p, es, l, ht, hidle hd (hnot _ hk fun p h => by cases h)⟩
      | delete p =>
        obtain ⟨es, l, ht, hd⟩ := delete_turn hO hk now
        exact ⟨p, es, l, ht, hidle hd (hnot _ hk fun p h => by cases h)⟩

end

/-! ## Whole calls -/

/-- The steps lead to the daemon `n` and the invocations `jobs`. -/
def Ends (d : Discoveries) (acts : List DiscoveryStep) (n : Node) (jobs : List RreqJob) : Prop :=
  (Runs.exec step d acts).node = n ∧ (Runs.exec step d acts).jobs = jobs

section
variable {d : Discoveries} {jobs : List RreqJob} {job : RreqJob}

theorem last_job (jobs : List RreqJob) (job : RreqJob) :
    (jobs ++ [job])[jobs.length]? = some job ∧ (jobs ++ [job]).eraseIdx jobs.length = jobs := by
  refine ⟨List.getElem?_concat_length, ?_⟩
  rw [List.eraseIdx_append_of_length_le (Nat.le_refl _), Nat.sub_self]
  exact List.append_nil _

theorem step_last (hj : d.jobs = jobs ++ [job]) (now : Timeval) :
    d.step (.proceed jobs.length now) = { d with jobs }.proceed now job := by
  obtain ⟨hget, herase⟩ := last_job jobs job
  simp only [step, hj, hget, herase]

theorem step_none (hj : d.jobs = jobs) (now : Timeval) : d.step (.proceed jobs.length now) = d := by
  have hnone : d.jobs[jobs.length]? = none := by
    rw [hj]
    exact List.getElem?_eq_none (Nat.le_refl _)
  simp only [step, hnone]

/-- An invocation that goes on without any other in between makes the whole call. -/
theorem exec_send {p : Nat} (hj : d.jobs = jobs ++ [.send p]) (now : Timeval) :
    Ends d [.proceed jobs.length now, .proceed jobs.length now] (d.node.aodvSendRreqReal p now).1 jobs := by
  have hfirst := step_last hj now
  have hreal := Node.sendRreqReal_eq d.node p now
  show Ends (d.step _) _ _ _
  rw [hfirst, hreal]
  cases hs : d.node.seriesDeref p with
  | none =>
    have heq : d.node.sendSeries p now = (d.node.seriesFault, [], none) := by
      unfold Node.sendSeries
      rw [hs]
    unfold proceed
    simp only [heq]
    show Ends (step _ _) [] _ _
    rw [step_none (List.append_nil _)]
    exact ⟨rfl, List.append_nil _⟩
  | some s =>
    rcases Node.sendSeries_cases hs now with ⟨-, rreqLog, when, heq⟩ |
      ⟨-, rreqLog, seqNumGlobal, msg, -, -, ⟨-, heq⟩ | ⟨-, when, heq⟩⟩
    all_goals
      unfold proceed
      simp only [heq]
      show Ends (step _ _) [] _ _
      rw [step_last rfl]
      exact ⟨rfl, rfl⟩

theorem exec_sendRreq (d : Discoveries) (host : MacAddr) (now : Timeval) :
    Ends d [.createRreq host, .proceed d.jobs.length now, .proceed d.jobs.length now, .proceed d.jobs.length now]
      (d.node.aodvSendRreq host now).1 d.jobs := by
  show Ends (step (d.step (.createRreq host)) (.proceed d.jobs.length now)) _ _ _
  simp only [step]
  obtain ⟨hget, herase⟩ := last_job d.jobs (.newSeries d.created (d.node.createRreq host
    (if d.node.cfg.ringSearch then ttlStart else ttlMax) d.node.cfg.metricStartvalue))
  simp only [hget, herase, proceed, Node.aodvSendRreq]
  cases hn : d.node.aodvPipelineNewSeries (d.node.createRreq host
      (if d.node.cfg.ringSearch then ttlStart else ttlMax) d.node.cfg.metricStartvalue) with
  | mk n' found =>
    cases found with
    | none =>
      show Ends (step _ _) _ _ _
      rw [step_none rfl]
      show Ends (step _ _) [] _ _
      rw [step_none rfl]
      exact ⟨rfl, rfl⟩
    | some ptr => exact exec_send rfl now

theorem exec_scexecute {L : Libdessert} {now : Timeval} {sc : Schedule} {st : List Schedule} {p : Nat}
    (hpop : aodvDbScPopschedule d.node.st now = some (sc, st)) (htype : sc.scheduleId = .repeatRreq)
    (hparam : sc.scheduleParam = .series p) (avgRssi : Int8) :
    Ends d [.popschedule now, .proceed d.jobs.length now, .proceed d.jobs.length now]
      (d.node.aodvPeriodicScexecute L now avgRssi).1 d.jobs := by
  have hstep : d.step (.popschedule now) =
      { d with node := { d.node with st }, jobs := d.jobs ++ [.send p] } := by
    simp only [step, hpop, htype, hparam, if_true]
  have hsc : d.node.aodvPeriodicScexecute L now avgRssi =
      ({ d.node with st } : Node).aodvSendRreqReal p now := by
    unfold Node.aodvPeriodicScexecute
    simp only [hpop, htype, hparam]
    rfl
  rw [hsc]
  show Ends (d.step (.popschedule now)) _ _ _
  rw [hstep]
  exact exec_send rfl now

end

/-! ## Histories -/

/-- What happened to one series. -/
def history (d : Discoveries) (p : Nat) : List LifeEvent :=
  (d.log.filter fun e => decide (e.1 = p)).map Prod.snd

theorem history_same {d d' : Discoveries} {p : Nat} {es : List LifeEvent} (h : d'.log = d.log ++ es.map (Prod.mk p)) :
    d'.history p = d.history p ++ es ∧ ∀ q, q ≠ p → d'.history q = d.history q := by
  unfold history
  rw [h]
  constructor
  · have hall : (es.map (Prod.mk p)).filter (fun e => decide (e.1 = p)) = es.map (Prod.mk p) := by
      apply List.filter_eq_self.mpr
      intro e he
      obtain ⟨_, -, rfl⟩ := List.mem_map.mp he
      exact decide_eq_true rfl
    rw [List.filter_append, hall, List.map_append, List.map_map]
    exact congrArg _ (List.map_id es)
  · intro q hq
    have hnone : (es.map (Prod.mk p)).filter (fun e => decide (e.1 = q)) = [] := by
      apply List.filter_eq_nil_iff.mpr
      intro e he
      obtain ⟨_, -, rfl⟩ := List.mem_map.mp he
      simpa using Ne.symm hq
    rw [List.filter_append, hnone, List.append_nil]

/-- Every series is owned, and lives a life. -/
structure Sound (d : Discoveries) : Prop where
  owned : d.node.Owned (runningOf d.jobs)
  lived : ∀ p, Lived (d.history p) (d.life p)

theorem start_sound (n : Node) : (start n).Sound := ⟨Node.start_owned n, fun _ => Lived.unborn⟩

theorem step_sound (d : Discoveries) (act : DiscoveryStep) (h : d.Sound) : (d.step act).Sound := by
  obtain ⟨p, es, l, ht, -⟩ := step_turn h.owned act
  obtain ⟨hself, hothers⟩ := history_same ht.log
  refine ⟨ht.owned, fun q => ?_⟩
  by_cases hq : q = p
  · rw [hq, hself, ht.life]
    exact (h.lived p).turn ht.turn
  · rw [hothers q hq, ht.others q hq]
    exact h.lived q

theorem sound_throughout (n : Node) (acts : List DiscoveryStep) : Runs.Throughout step Sound (start n) acts :=
  Runs.throughout_of_always (C := fun _ _ => True) (fun d act h _ => step_sound d act h) (start_sound n)
    (Runs.always_of_mem fun _ _ => trivial)

/-! ## No series is lost twice or used late -/

/-- The series the schedules refer to. -/
def scheduledOf (n : Node) : List Nat :=
  (repeatsOf n.st).filterMap fun sc =>
    match sc.scheduleParam with
    | .series p => some p
    | _ => none

/-- What the comments of `struct aodv_rreq_series` promise. -/
structure OwnershipSafe (d : Discoveries) : Prop where
  noFault : d.node.series.fault = false
  freedOnce : ∀ p, (d.history p).count .freed ≤ 1
  allocated : ∀ p ∈ runningOf d.jobs, ∃ s, d.node.seriesDeref p = some s
  nodup_list : d.node.series.seriesList.Nodup
  mem_list : ∀ p, p ∈ d.node.series.seriesList ↔ ∃ s, d.node.seriesDeref p = some s ∧ s.stop = false
  oneEach : ∀ p ∈ d.node.series.seriesList, ∀ p' ∈ d.node.series.seriesList, ∀ s s',
    d.node.seriesDeref p = some s → d.node.seriesDeref p' = some s' → s.msg.l25Dhost = s'.msg.l25Dhost → p = p'
  schedules : ∀ sc ∈ d.node.st, sc.scheduleId = .repeatRreq → ∃ p s, sc.scheduleParam = .series p ∧
    d.node.seriesDeref p = some s ∧ s.stop = false ∧ s.msg.l25Dhost = sc.etherAddr
  oneOwner : (runningOf d.jobs ++ scheduledOf d.node).Nodup

theorem mem_scheduledOf {n : Node} {p : Nat} : p ∈ scheduledOf n ↔ n.Scheduled p := by
  unfold scheduledOf Node.Scheduled
  rw [List.mem_filterMap]
  refine exists_congr fun sc => and_congr_right fun _ => ?_
  cases sc.scheduleParam <;> simp

theorem scheduledOf_nodup {n : Node} {running : List Nat} (h : n.Owned running) : (scheduledOf n).Nodup := by
  apply List.pairwise_filterMap.mpr
  have hp : (repeatsOf n.st).Pairwise fun a b => a.etherAddr ≠ b.etherAddr := List.pairwise_map.mp h.repeats
  apply hp.imp_of_mem
  intro a b ha hb hab p hpa q hqb hpq
  obtain rfl := hpq
  obtain ⟨pa, sa, hparama, hla, hka⟩ := h.scheduled a ha
  obtain ⟨pb, sb, hparamb, hlb, hkb⟩ := h.scheduled b hb
  rw [hparama] at hpa
  rw [hparamb] at hqb
  obtain rfl := Option.some.inj hpa
  obtain rfl := Option.some.inj hqb
  rw [hla.unique hlb] at hka
  exact hab (hka.symm.trans hkb)

theorem Sound.safe {d : Discoveries} (h : d.Sound) : d.OwnershipSafe where
  noFault := h.owned.safe
  freedOnce := fun p => by
    rw [(h.lived p).count_freed]
    split <;> decide
  allocated := h.owned.allocated
  nodup_list := h.owned.nodup_list
  mem_list := h.owned.mem_list
  oneEach := fun p hp p' hp' s s' hs hs' hd => by
    obtain ⟨t, ht⟩ := (h.owned.mem_list p).mp hp
    obtain ⟨t', ht'⟩ := (h.owned.mem_list p').mp hp'
    obtain rfl := Option.some.inj (ht.1.symm.trans hs)
    obtain rfl := Option.some.inj (ht'.1.symm.trans hs')
    apply h.owned.keys p t p' t' ht ht'
    rw [← h.owned.dest p t hs, ← h.owned.dest p' t' hs']
    exact hd
  schedules := fun sc hsc htype => by
    obtain ⟨p, s, hparam, hl, hk⟩ := h.owned.scheduled sc (mem_repeatsOf.mpr ⟨hsc, htype⟩)
    exact ⟨p, s, hparam, hl.1, hl.2, (h.owned.dest p s hl.1).trans hk⟩
  oneOwner := by
    apply List.Nodup.append h.owned.held (scheduledOf_nodup h.owned)
    intro p hp hp'
    exact h.owned.exclusive p hp (mem_scheduledOf.mp hp')

/-- Whatever the order of the steps, the series are owned as the comments say. -/
theorem ownership_safe (n : Node) (acts : List DiscoveryStep) :
    Runs.Throughout step OwnershipSafe (start n) acts :=
  (sound_throughout n acts).imp fun _ h => h.safe

/-! ## A discovery is bounded -/

/-- At most `RREQ_RETRIES + 1` RREQs, with ttls that do not fall, and at most one of them after
`aodv_pipeline_delete_series_ether` has removed the series. -/
def Bounded (past : List LifeEvent) : Prop :=
  (ttls past).length ≤ rreqRetries + 1 ∧ (ttls past).Pairwise (· ≤ ·) ∧ (ttls (afterRemoval past)).length ≤ 1

theorem discovery_bounded (n : Node) (acts : List DiscoveryStep) :
    Runs.Throughout step (fun d => ∀ p, Bounded (d.history p)) (start n) acts :=
  (sound_throughout n acts).imp fun _ h p => (h.lived p).bounded

end Discoveries

end DesAodv

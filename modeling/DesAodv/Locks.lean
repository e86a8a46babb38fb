import DesAodv.LockPrograms

/-!
# The locks of the daemon

Which locks each function takes and which shared variables it uses under them.
A conditional is a choice, a loop runs any number of times. What a function
does with data of its own, with libdessert or with the settings is left out.
-/

namespace DesAodv.Locks

open LockPrograms Prog

inductive Lock
  | dbRwlock | seriesListLock | seqNumLock | helloRwlock | dataSeqLock | holdQueueMutex
  deriving DecidableEq, Repr

inductive Shared
  | nt | pdrNt | ds | rt | pb | rerrLog | rreqLog | st
  | seriesList | seqNumGlobal | seqNumHello | dataSeqGlobal | holdQueue | holdQueuePeriodic
  deriving DecidableEq, Repr

abbrev Func := Prog Lock Shared

/-- The lock of a variable. -/
def guardedBy : Shared → Lock
  | .nt | .pdrNt | .ds | .rt | .pb | .rerrLog | .rreqLog | .st => .dbRwlock
  | .seriesList => .seriesListLock
  | .seqNumGlobal => .seqNumLock
  | .seqNumHello => .helloRwlock
  | .dataSeqGlobal => .dataSeqLock
  | .holdQueue | .holdQueuePeriodic => .holdQueueMutex

/-- The database is locked while the list of series is, not the other way round. -/
def rank : Lock → Fin 2
  | .seriesListLock => 0
  | _ => 1

/-! ## `aodv_database.c` -/

/-- A function that locks the database for writing around what it does to the tables. -/
def writes (tables : List Shared) : Func := locked .dbRwlock .write (uses .write tables)

def reads (tables : List Shared) : Func := locked .dbRwlock .read (uses .read tables)

def aodvDbInit : Func := writes [.nt, .pdrNt, .ds, .rt, .pb, .rerrLog, .rreqLog]
def aodvDbCleanup : Func := writes [.nt, .st, .ds, .rt, .pb, .pdrNt]
def aodvDbNeighborReset : Func := writes [.st, .nt]
def aodvDbPdrNeighborReset : Func := writes [.pdrNt]
def aodvDbPdrUpdExpected : Func := writes [.pdrNt]
def aodvDbPdrCapHello : Func := writes [.pdrNt]
def aodvDbPdrCapHellorsp : Func := writes [.pdrNt]
def aodvDbPdrGetPdr : Func := writes [.pdrNt]
def aodvDbPdrGetEtxMul : Func := writes [.pdrNt]
def aodvDbPdrGetEtxAdd : Func := writes [.pdrNt]
def aodvDbPdrGetRcvdhellocount : Func := writes [.pdrNt]
def aodvDbPushPacket : Func := writes [.pb]
def aodvDbPopPacket : Func := writes [.pb]
def aodvDbCaptRreq : Func := writes [.rt]
def aodvDbCaptRrep : Func := writes [.nt, .rt]
def aodvDbGetroute2dest : Func := writes [.rt]
def aodvDbGetnexthop : Func := reads [.rt]
def aodvDbGetDestinationSequenceNumber : Func := reads [.rt]
def aodvDbGetHopcount : Func := reads [.rt]
def aodvDbGetMetric : Func := reads [.rt]
def aodvDbMarkrouteinv : Func := writes [.rt]
def aodvDbAddPrecursor : Func := writes [.rt]
def aodvDbRemoveNexthop : Func := writes [.rt]
def aodvDbInvOverNexthop : Func := writes [.rt]
def aodvDbGetDestlist : Func := writes [.rt]
def aodvDbGetWarnEndpointsFromNeighborAndSetWarn : Func := writes [.rt]
def aodvDbGetWarnStatus : Func := writes [.rt]
def aodvDbGetActiveRoutes : Func := writes [.rt]
def aodvDbRoutingReset : Func := writes [.rt]
def aodvDbCap2Dneigh : Func := writes [.nt, .st]
def aodvDbCheck2Dneigh : Func := writes [.nt, .st]
def aodvDbResetRssi : Func := writes [.nt]
def aodvDbUpdateRssi : Func := writes [.nt]
def aodvDbAddschedule : Func := writes [.st]
def aodvDbPopschedule : Func := writes [.st]
def aodvDbScheduleExists : Func := writes [.st]
def aodvDbDropschedule : Func := writes [.st]
def aodvDbPutrreq : Func := writes [.rreqLog]
def aodvDbGetrreqcount : Func := writes [.rreqLog]
def aodvDbPutrerr : Func := writes [.rerrLog]
def aodvDbGetrerrcount : Func := writes [.rerrLog]
def aodvDbCaptDataSeq : Func := writes [.ds]
def aodvDbViewRoutingTable : Func := reads [.rt]
def aodvDbViewPdrNt : Func := reads [.pdrNt]
def aodvDbNeighborTimeslotReport : Func := reads [.nt]
def aodvDbPacketBufferTimeslotReport : Func := reads [.pb]
def aodvDbDataSeqTimeslotReport : Func := reads [.ds]

/-! ## `aodv_pipeline.c` -/

def aodvPipelineFindSeriesUnlocked : Func := uses .read [.seriesList]

def aodvPipelineNewSeries : Func :=
  locked .seriesListLock .write (block [aodvPipelineFindSeriesUnlocked, maybe (uses .write [.seriesList])])

def aodvPipelineDeleteSeriesUnlocked : Func :=
  block [uses .read [.seriesList], maybe (block [uses .write [.seriesList], aodvDbDropschedule])]

def aodvPipelineDeleteSeries : Func := locked .seriesListLock .write aodvPipelineDeleteSeriesUnlocked

def aodvPipelineDeleteSeriesEther : Func :=
  locked .seriesListLock .write
    (block [aodvPipelineFindSeriesUnlocked, maybe aodvPipelineDeleteSeriesUnlocked])

def aodvPipelineRescheduleSeries : Func :=
  locked .seriesListLock .write (block [uses .read [.seriesList], maybe aodvDbAddschedule])

def createRreq : Func := block [aodvDbGetDestinationSequenceNumber, aodvDbGetWarnStatus]

def nextSeqNum : Func := locked .seqNumLock .write (uses .write [.seqNumGlobal])

def aodvSendRreqReal : Func :=
  block [aodvDbGetrreqcount,
    choose aodvPipelineRescheduleSeries
      [block [nextSeqNum, aodvDbPutrreq, choose aodvPipelineDeleteSeries [aodvPipelineRescheduleSeries]]]]

def aodvSendRreq : Func := block [createRreq, aodvPipelineNewSeries, maybe aodvSendRreqReal]

def aodvSendRreqRepeat : Func := aodvSendRreqReal

def aodvDropErrors : Func := maybe aodvDbCheck2Dneigh

def aodvHandleHello : Func :=
  choose .skip
    [block [aodvDbPdrCapHello, aodvDbPdrGetRcvdhellocount], block [aodvDbPdrCapHellorsp, aodvDbCap2Dneigh]]

def aodvMetricDo : Func := choose .skip [aodvDbPdrGetEtxAdd, aodvDbPdrGetEtxMul, aodvDbPdrGetPdr]

/-! ## `aodv_gossip.c` -/

def aodvGossipHoldQueueSearch : Func := uses .read [.holdQueue]

def aodvGossipHoldQueueAdd : Func :=
  block [aodvGossipHoldQueueSearch, uses .write [.holdQueue], uses .read [.holdQueuePeriodic]]

def aodvGossipHoldQueueDrop : Func := block [aodvGossipHoldQueueSearch, maybe (uses .write [.holdQueue])]

def aodvGossipCaptRreq : Func :=
  locked .holdQueueMutex .write (block [aodvGossipHoldQueueSearch, maybe (uses .write [.holdQueue])])

def aodvGossip : Func :=
  choose .skip
    [locked .holdQueueMutex .write aodvGossipHoldQueueDrop, locked .holdQueueMutex .write aodvGossipHoldQueueAdd]

/-- The mutex is released while a held RREQ is sent. -/
def aodvGossip3 : Func :=
  locked .holdQueueMutex .write
    (block [.loop (block [uses .read [.holdQueue],
        maybe (block [uses .write [.holdQueue],
          maybe (block [.act (.release .holdQueueMutex), .act (.acquire .holdQueueMutex .write)])])]),
      uses .read [.holdQueue], maybe (uses .write [.holdQueuePeriodic])])

/-! ## Data -/

def nextDataSeq : Func := locked .dataSeqLock .write (uses .write [.dataSeqGlobal])

def aodvSendPacketsFromBuffer : Func :=
  block [aodvPipelineDeleteSeriesEther, .loop (block [aodvDbPopPacket, nextDataSeq]), aodvDbPopPacket]

def aodvForwardBroadcast : Func := maybe aodvDbCaptDataSeq

def aodvForward : Func :=
  maybe (block [aodvDbCaptDataSeq,
    maybe (block [aodvDbGetroute2dest, maybe (block [aodvDbGetrerrcount, maybe aodvDbPutrerr])])])

def aodvLocalUnicast : Func := maybe aodvDbCaptDataSeq

def aodvSys2rp : Func :=
  choose nextDataSeq
    [block [aodvDbGetroute2dest, choose nextDataSeq [block [aodvDbPushPacket, aodvSendRreq]]]]

/-! ## Handlers -/

def aodvHandleRreq : Func :=
  maybe (block [aodvMetricDo, aodvDbCaptRreq, aodvGossipCaptRreq,
    maybe (block [aodvDbCaptRrep, maybe aodvSendPacketsFromBuffer,
      choose nextSeqNum
        [block [aodvDbGetDestinationSequenceNumber,
          choose (maybe aodvGossip) [block [aodvDbGetMetric, aodvDbGetHopcount]]]]])])

def aodvHandleRerr : Func := maybe (.loop (block [aodvDbGetnexthop, .loop aodvDbMarkrouteinv]))

def aodvHandleRrep : Func :=
  maybe (block [aodvMetricDo, aodvDbCaptRrep,
    choose .skip
      [block [aodvDbGetroute2dest, maybe aodvDbAddPrecursor], aodvSendPacketsFromBuffer]])

/-! ## `aodv_periodic.c` -/

def aodvPeriodicSendHello : Func := locked .helloRwlock .write (uses .write [.seqNumHello])

def aodvPeriodicSendRreq : Func := block [aodvDbGetActiveRoutes, .loop aodvSendRreq]

def aodvPeriodicCleanupDatabase : Func := aodvDbCleanup

def aodvPeriodicScexecute : Func :=
  block [aodvDbPopschedule,
    choose .skip
      [aodvSendRreqRepeat,
        block [aodvDbGetrerrcount,
          maybe (block [aodvDbInvOverNexthop, maybe (block [aodvDbGetDestlist, .loop aodvDbPutrerr])])],
        block [aodvDbGetWarnEndpointsFromNeighborAndSetWarn, .loop aodvSendRreq],
        block [aodvDbUpdateRssi, maybe aodvDbAddschedule]]]

/-! ## `aodv_cli.c` -/

def cliSetHelloInterval : Func := maybe (block [aodvDbNeighborReset, aodvDbPdrUpdExpected])
def cliSetTrackingFactor : Func := maybe aodvDbPdrUpdExpected
def cliSendRreq : Func := maybe aodvSendRreq
def cliSetGossip : Func := maybe aodvDbRoutingReset
def cliSetMetric : Func := maybe aodvDbRoutingReset
def cliSetPreemptiveRreqSignalStrengthThreshold : Func := maybe aodvDbNeighborReset
def cliShowRt : Func := aodvDbViewRoutingTable
def cliShowPdrNt : Func := aodvDbViewPdrNt
def cliShowNeighborTimeslot : Func := aodvDbNeighborTimeslotReport
def cliShowPacketBufferTimeslot : Func := aodvDbPacketBufferTimeslotReport
def cliShowDataSeqTimeslot : Func := aodvDbDataSeqTimeslotReport

/-! ## The threads -/

/-- What `main` registers with libdessert: the callbacks, the periodic tasks and the commands. -/
def registered : List Func :=
  [aodvDropErrors, aodvHandleHello, aodvHandleRreq, aodvHandleRerr, aodvHandleRrep, aodvForwardBroadcast,
    aodvForward, aodvLocalUnicast, aodvSys2rp, aodvPeriodicSendHello, aodvPeriodicSendRreq,
    aodvPeriodicCleanupDatabase, aodvPeriodicScexecute, aodvGossip3, cliSetHelloInterval, cliSetTrackingFactor,
    cliSendRreq, cliSetGossip, cliSetMetric, cliSetPreemptiveRreqSignalStrengthThreshold, cliShowRt, cliShowPdrNt,
    cliShowNeighborTimeslot, cliShowPacketBufferTimeslot, cliShowDataSeqTimeslot]

theorem registered_checked : ∀ f ∈ registered, check rank guardedBy [] f = some [] := by
  decide

section
variable {ι : Type*} [DecidableEq ι]

/-- Threads that are about to make the calls, one after the other. -/
def threads (calls : ι → List Func) (i : ι) : Thread Lock Shared := ⟨[], block (calls i)⟩

variable {calls : ι → List Func} (hc : ∀ i, ∀ f ∈ calls i, f ∈ registered) {s : ι → Thread Lock Shared}
  (hr : Relation.ReflTransGen Step (threads calls) s)
include hc hr

theorem threads_ordered : Ordered rank guardedBy s := by
  refine Ordered.run (ordered_start fun i => ?_) hr
  exact check_block fun f hf => registered_checked f (hc i f hf)

/-- However many threads run whatever callbacks, tasks and commands: some thread can go on, whether or not a lock
prefers those that want to write, or all have returned and no lock is held. -/
theorem never_deadlocked : (∃ j, Runnable s j) ∨ ∀ i, (s i).prog = .skip ∧ (s i).held = [] := by
  have ho := threads_ordered hc hr
  by_cases hi : ∃ i, (s i).prog ≠ .skip
  · obtain ⟨i, hi⟩ := hi
    exact .inl (ho.progress hi)
  · have hd : ∀ i, (s i).prog = .skip := fun i => Classical.not_not.mp fun hne => hi ⟨i, hne⟩
    exact .inr fun i => ⟨hd i, ho.returned (hd i)⟩

/-- No two threads ever use a shared variable at the same time, unless both read it. -/
theorem never_racing {i j : ι} (hij : i ≠ j) {v : Shared} {m m' : Mode} {p q : Func}
    (hi : (s i).prog.Step (some (.access v m)) p) (hj : (s j).prog.Step (some (.access v m')) q) :
    m.Compatible m' :=
  (threads_ordered hc hr).no_race hij hi hj

end

/-- Two threads that show the routing table. -/
def showing (_ : Bool) : List Func := [cliShowRt]

theorem showing_registered (i : Bool) : ∀ f ∈ showing i, f ∈ registered := by
  simp [showing, registered]

theorem never_deadlocked_showing : (∃ j, Runnable (threads showing) j) ∨
    ∀ i, (threads showing i).prog = .skip ∧ (threads showing i).held = [] :=
  never_deadlocked showing_registered .refl

/-- Both have taken the lock and are about to read. -/
theorem never_racing_showing : ∃ s : Bool → Thread Lock Shared, Relation.ReflTransGen Step (threads showing) s ∧
    (∀ i, ∃ p, (s i).prog.Step (some (.access .rt .read)) p) ∧ Mode.read.Compatible .read := by
  let pair (x y : Thread Lock Shared) : Bool → Thread Lock Shared := fun i => cond i x y
  let rest : Func := block [uses .read [.rt], .act (.release .dbRwlock)]
  let shut : Thread Lock Shared := ⟨[], .seq (.seq (.act (.acquire .dbRwlock .read)) rest) .skip⟩
  let taken : Thread Lock Shared := ⟨[(.dbRwlock, .read)], .seq (.seq .skip rest) .skip⟩
  let about : Thread Lock Shared := ⟨[(.dbRwlock, .read)], .seq rest .skip⟩
  have first : ∀ {x y : Thread Lock Shared} {a p'}, x.prog.Step a p' →
      (∀ l m, a = some (.acquire l m) → Available (pair x y) l m) →
      Step (pair x y) (pair ⟨a.elim x.held (Act.after x.held), p'⟩ y) := fun {x y a p'} hs hl => by
    have h := Step.intro (s := pair x y) true hs hl
    convert h using 1
    funext i
    cases i <;> rfl
  have second : ∀ {x y : Thread Lock Shared} {a p'}, y.prog.Step a p' →
      (∀ l m, a = some (.acquire l m) → Available (pair x y) l m) →
      Step (pair x y) (pair x ⟨a.elim y.held (Act.after y.held), p'⟩) := fun {x y a p'} hs hl => by
    have h := Step.intro (s := pair x y) false hs hl
    convert h using 1
    funext i
    cases i <;> rfl
  have h₁ : Step (pair shut shut) (pair taken shut) :=
    first (a := some (.acquire .dbRwlock .read)) (.seq (.seq (.act _))) fun l m _ i => by cases i <;> exact nofun
  have h₂ : Step (pair taken shut) (pair about shut) := first (a := none) (.seq .next) nofun
  have h₃ : Step (pair about shut) (pair about taken) :=
    second (a := some (.acquire .dbRwlock .read)) (.seq (.seq (.act _))) fun l m he i m' hm => by
      obtain ⟨rfl, rfl⟩ := Act.acquire.inj (Option.some.inj he)
      cases i with
      | false => cases hm
      | true => exact ⟨rfl, (Prod.mk.inj (List.mem_singleton.mp hm)).2⟩
  have h₄ : Step (pair about taken) (pair about about) := second (a := none) (.seq .next) nofun
  have hrun : Relation.ReflTransGen Step (threads showing) (pair about about) := by
    have hstart : threads showing = pair shut shut := by funext i; cases i <;> rfl
    rw [hstart]
    exact .head h₁ (.head h₂ (.head h₃ (.single h₄)))
  have hnext : ∀ i, (pair about about i).prog.Step (some (.access .rt .read)) _ := fun i => by
    cases i <;> exact .seq (.seq (.seq (.act _)))
  exact ⟨_, hrun, fun i => ⟨_, hnext i⟩, never_racing showing_registered hrun (i := true) (j := false) nofun
    (hnext true) (hnext false)⟩

end DesAodv.Locks

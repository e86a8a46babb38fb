import DesAodv.Frames
import DesAodv.NextHopIndex

/-!
# The routing table of a daemon

Every event in the life of a daemon works on the routing table through the
operations of `RtOp`. `Node.step_rt` says which: an event captures at most one
RREQ or RREP, and whatever else it does to the table captures nothing.
-/

namespace DesAodv

/-- From `rt` to `rt'` by operations that meet `P`. -/
def Rt.Works (P : RtOp → Prop) (rt rt' : Rt) : Prop :=
  ∃ ops, (∀ op ∈ ops, P op) ∧ rt' = Runs.exec Rt.step rt ops

/-- From `rt` to `rt'` by operations that capture nothing. -/
def Rt.Quietly (rt rt' : Rt) : Prop :=
  ∃ ops, (∀ op ∈ ops, op.quiet = true) ∧ rt' = Runs.exec Rt.step rt ops

/-- If the operation reads the clock, it reads `now`. -/
def RtOp.At (now : Option Timeval) (op : RtOp) : Prop := op.time = none ∨ op.time = now

def Rt.QuietlyAt (now : Option Timeval) : Rt → Rt → Prop :=
  Rt.Works fun op => op.quiet = true ∧ op.At now

def NodeEvent.time : NodeEvent → Option Timeval
  | .mesh _ env _ => some env.now
  | .sysRx _ _ _ now => some now
  | .cliSendRreq _ now => some now
  | .sendRreq now => some now
  | .cleanupDatabase now => some now
  | .scexecute now _ => some now
  | _ => none

namespace Rt

section
variable {P Q : RtOp → Prop}

theorem Works.refl (rt : Rt) : Works P rt rt := ⟨[], by simp, rfl⟩

theorem Works.trans {r₁ r₂ r₃ : Rt} (h : Works P r₁ r₂) (h' : Works P r₂ r₃) : Works P r₁ r₃ := by
  obtain ⟨ops, hP, rfl⟩ := h
  obtain ⟨ops', hP', rfl⟩ := h'
  refine ⟨ops ++ ops', fun op ho => ?_, (Runs.exec_append r₁ ops ops').symm⟩
  rcases List.mem_append.mp ho with ho | ho
  · exact hP op ho
  · exact hP' op ho

theorem Works.of_step (rt : Rt) (op : RtOp) (h : P op) : Works P rt (rt.step op) :=
  ⟨[op], by simpa using h, rfl⟩

theorem Works.imp {rt rt' : Rt} (h : Works P rt rt') (hPQ : ∀ op, P op → Q op) : Works Q rt rt' := by
  obtain ⟨ops, hP, rfl⟩ := h
  exact ⟨ops, fun op ho => hPQ op (hP op ho), rfl⟩

end

theorem Quietly.refl (rt : Rt) : Quietly rt rt := Works.refl rt

theorem Quietly.of_step (rt : Rt) (op : RtOp) (hq : op.quiet = true) : Quietly rt (rt.step op) :=
  Works.of_step rt op hq

section
variable {now : Option Timeval} {rt rt' : Rt}

theorem QuietlyAt.quietly (h : QuietlyAt now rt rt') : Quietly rt rt' := h.imp fun _ ho => ho.1

theorem QuietlyAt.worksAt (h : QuietlyAt now rt rt') : Works (RtOp.At now) rt rt' := h.imp fun _ ho => ho.2

end

theorem Quietly.wf {rt rt' : Rt} (h : Quietly rt rt') (hw : rt.WF) : rt'.WF := by
  obtain ⟨ops, -, rfl⟩ := h
  exact hw.exec ops

theorem Quietly.shrinks {rt rt' : Rt} (h : Quietly rt rt') (hw : rt.WF) : Shrinks rt rt' := by
  obtain ⟨ops, hq, rfl⟩ := h
  exact hw.exec_quiet hq

end Rt

namespace Node

theorem captRrep_used (n : Node) (host nextHop : MacAddr) (iface : Meshif) (seq : UInt32) (metric : Metric)
    (hopCount : UInt8) (now : Timeval) :
    (n.captRrep host nextHop iface seq metric hopCount now now).2 =
      rrepUsed (rtFindOrCreate n.rt host now now).2 seq :=
  captRrep_snd n.rt host nextHop iface seq metric hopCount now now

/-! ## What leaves the routing table alone -/

/-- The settings, the addresses and the routing table are the same. -/
structure Frame (n n' : Node) : Prop where
  cfg : n'.cfg = n.cfg
  l25Defsrc : n'.l25Defsrc = n.l25Defsrc
  meshiflist : n'.meshiflist = n.meshiflist
  rt : n'.rt = n.rt

theorem Frame.refl (n : Node) : Frame n n := ⟨rfl, rfl, rfl, rfl⟩

theorem Frame.trans {a b c : Node} (h : Frame a b) (h' : Frame b c) : Frame a c :=
  ⟨h'.cfg.trans h.cfg, h'.l25Defsrc.trans h.l25Defsrc, h'.meshiflist.trans h.meshiflist, h'.rt.trans h.rt⟩

theorem SeriesWork.frame {n n' : Node} (h : SeriesWork n n') : Frame n n' := by
  obtain ⟨_, _, _, _, rfl⟩ := h
  exact ⟨rfl, rfl, rfl, rfl⟩

theorem BufferWork.frame {n n' : Node} (h : BufferWork n n') : Frame n n' := by
  obtain ⟨_, _, _, _, rfl⟩ := h
  exact ⟨rfl, rfl, rfl, rfl⟩

theorem newSeries_frame (n : Node) (msg : DessertMsg) : Frame n (n.aodvPipelineNewSeries msg).1 :=
  (newSeries_work n msg).frame

theorem sendRreqReal_frame (n : Node) (ptr : Nat) (now : Timeval) : Frame n (n.aodvSendRreqReal ptr now).1 :=
  (sendRreqReal_work n ptr now).frame

theorem sendRreq_frame (n : Node) (host : MacAddr) (now : Timeval) : Frame n (n.aodvSendRreq host now).1 :=
  (sendRreq_work n host now).frame

theorem sendRreqs_frame (n : Node) (hosts : List MacAddr) (now : Timeval) :
    Frame n (n.sendRreqs hosts now).1 :=
  (sendRreqs_work n hosts now).frame

theorem sendPackets_frame (n : Node) (host nextHop : MacAddr) (iface : Meshif) :
    Frame n (n.aodvSendPacketsFromBuffer host nextHop iface).1 :=
  (sendPackets_work n host nextHop iface).frame

/-! ## Lookups and invalidations -/

/-- The settings and addresses are the same, and nothing has been captured. -/
structure Quiet (n n' : Node) : Prop where
  cfg : n'.cfg = n.cfg
  l25Defsrc : n'.l25Defsrc = n.l25Defsrc
  meshiflist : n'.meshiflist = n.meshiflist
  rt : n.rt.Quietly n'.rt

theorem Frame.quiet {n n' : Node} (h : Frame n n') : Quiet n n' :=
  ⟨h.cfg, h.l25Defsrc, h.meshiflist, h.rt ▸ .refl n.rt⟩

theorem Quiet.trans {a b c : Node} (h : Quiet a b) (h' : Quiet b c) : Quiet a c :=
  ⟨h'.cfg.trans h.cfg, h'.l25Defsrc.trans h.l25Defsrc, h'.meshiflist.trans h.meshiflist, Rt.Works.trans h.rt h'.rt⟩

theorem quiet_op (n : Node) (op : RtOp) (hq : op.quiet = true) {n' : Node} (hc : n'.cfg = n.cfg)
    (hl : n'.l25Defsrc = n.l25Defsrc) (hm : n'.meshiflist = n.meshiflist) (hr : n'.rt = n.rt.step op) :
    Quiet n n' :=
  ⟨hc, hl, hm, hr ▸ .of_step n.rt op hq⟩

/-- The same, and the clock has been read at `now`, if at all. -/
structure QuietAt (now : Option Timeval) (n n' : Node) : Prop where
  cfg : n'.cfg = n.cfg
  l25Defsrc : n'.l25Defsrc = n.l25Defsrc
  meshiflist : n'.meshiflist = n.meshiflist
  rt : n.rt.QuietlyAt now n'.rt

theorem QuietAt.quiet {now : Option Timeval} {n n' : Node} (h : QuietAt now n n') : Quiet n n' :=
  ⟨h.cfg, h.l25Defsrc, h.meshiflist, h.rt.quietly⟩

theorem Frame.quietAt {n n' : Node} (h : Frame n n') (now : Option Timeval) : QuietAt now n n' :=
  ⟨h.cfg, h.l25Defsrc, h.meshiflist, h.rt ▸ .refl n.rt⟩

theorem QuietAt.trans {now : Option Timeval} {a b c : Node} (h : QuietAt now a b) (h' : QuietAt now b c) :
    QuietAt now a c :=
  ⟨h'.cfg.trans h.cfg, h'.l25Defsrc.trans h.l25Defsrc, h'.meshiflist.trans h.meshiflist, h.rt.trans h'.rt⟩

theorem quietAt_op {now : Option Timeval} (n : Node) (op : RtOp) (hq : op.quiet = true)
    (ht : op.At now) {n' : Node} (hc : n'.cfg = n.cfg)
    (hl : n'.l25Defsrc = n.l25Defsrc) (hm : n'.meshiflist = n.meshiflist) (hr : n'.rt = n.rt.step op) :
    QuietAt now n n' :=
  ⟨hc, hl, hm, hr ▸ .of_step n.rt op ⟨hq, ht⟩⟩

theorem getroute2dest_quietAt (n : Node) (host : MacAddr) (now : Timeval) (localUsed : Bool) :
    QuietAt (some now) n (n.getroute2dest host now now
      (if localUsed then aodvFlagsRouteLocalUsed else aodvFlagsUnused)).1 :=
  quietAt_op n (.getroute2dest host now localUsed) rfl (.inr rfl) rfl rfl rfl rfl

theorem getroute2dest_quiet (n : Node) (host : MacAddr) (now : Timeval) (localUsed : Bool) :
    Quiet n (n.getroute2dest host now now
      (if localUsed then aodvFlagsRouteLocalUsed else aodvFlagsUnused)).1 :=
  (getroute2dest_quietAt n host now localUsed).quiet

theorem rerrIface_quietlyAt (now : Option Timeval) (dest : AodvMacSeq) (nextHop : MacAddr) (acc : Rt × Bool)
    (addr : MacAddr) : acc.1.QuietlyAt now (rerrIface dest nextHop acc addr).1 := by
  unfold rerrIface
  split
  · exact .of_step acc.1 (.markrouteinv dest.host dest.sequenceNumber) ⟨rfl, .inl rfl⟩
  · exact .refl acc.1

theorem rerrIface_quietly (dest : AodvMacSeq) (nextHop : MacAddr) (acc : Rt × Bool) (addr : MacAddr) :
    acc.1.Quietly (rerrIface dest nextHop acc addr).1 :=
  (rerrIface_quietlyAt none dest nextHop acc addr).quietly

theorem rerrRecord_quietlyAt (now : Option Timeval) (rerr : AodvMsgRerr) (acc : Rt × Bool) (dest : AodvMacSeq) :
    acc.1.QuietlyAt now (rerrRecord rerr acc dest).1 := by
  have h : ∀ (nextHop : MacAddr) (ifaces : List MacAddr) (acc : Rt × Bool),
      acc.1.QuietlyAt now (ifaces.foldl (rerrIface dest nextHop) acc).1 := by
    intro nextHop ifaces
    induction ifaces with
    | nil => exact fun acc => .refl acc.1
    | cons a as ih => exact fun acc => (rerrIface_quietlyAt now dest nextHop acc a).trans (ih _)
  unfold rerrRecord
  split
  · exact .refl acc.1
  · exact (Rt.Works.of_step acc.1 (.overread _) ⟨rfl, .inl rfl⟩).trans (h _ _ _)

theorem rerrRecord_quietly (rerr : AodvMsgRerr) (acc : Rt × Bool) (dest : AodvMacSeq) :
    acc.1.Quietly (rerrRecord rerr acc dest).1 :=
  (rerrRecord_quietlyAt none rerr acc dest).quietly

theorem rerrRecords_quietlyAt (now : Option Timeval) (rerr : AodvMsgRerr) (records : List AodvMacSeq)
    (acc : Rt × Bool) : acc.1.QuietlyAt now (records.foldl (rerrRecord rerr) acc).1 := by
  induction records generalizing acc with
  | nil => exact .refl acc.1
  | cons r rs ih => exact (rerrRecord_quietlyAt now rerr acc r).trans (ih _)

theorem handleRerr_quietAt (n : Node) (env : RxEnv) (msg : DessertMsg) (now : Option Timeval) :
    QuietAt now n (n.aodvHandleRerr env msg).1 := by
  unfold aodvHandleRerr
  split
  · exact (Frame.refl n).quietAt now
  · rename_i rerr _
    have h := rerrRecords_quietlyAt now rerr msg.records (n.rt, false)
    simp only
    split <;> exact ⟨rfl, rfl, rfl, h⟩

theorem handleRerr_quiet (n : Node) (env : RxEnv) (msg : DessertMsg) : Quiet n (n.aodvHandleRerr env msg).1 :=
  (handleRerr_quietAt n env msg none).quiet

theorem dropErrors_frame (n : Node) (env : RxEnv) (msg : DessertMsg) : Frame n (n.aodvDropErrors env msg).1 := by
  obtain ⟨nt, st, h⟩ := dropErrors_eq n env msg
  rw [h]
  exact ⟨rfl, rfl, rfl, rfl⟩

theorem handleHello_frame (n : Node) (env : RxEnv) (msg : DessertMsg) : Frame n (n.aodvHandleHello env msg).1 := by
  obtain ⟨nt, st, h⟩ := handleHello_eq n env msg
  rw [h]
  exact ⟨rfl, rfl, rfl, rfl⟩

theorem forwardBroadcast_frame (n : Node) (env : RxEnv) (msg : DessertMsg) :
    Frame n (n.aodvForwardBroadcast env msg).1 := by
  obtain ⟨ds, h⟩ := forwardBroadcast_eq n env msg
  rw [h]
  exact ⟨rfl, rfl, rfl, rfl⟩

theorem localUnicast_frame (n : Node) (env : RxEnv) (msg : DessertMsg) : Frame n (n.aodvLocalUnicast env msg).1 := by
  obtain ⟨ds, h⟩ := localUnicast_eq n env msg
  rw [h]
  exact ⟨rfl, rfl, rfl, rfl⟩

/-! ## Captures -/

/-- What `aodv_handle_rreq` does to the routing table. -/
def rreqOp (n : Node) (env : RxEnv) (msg : DessertMsg) (rreq : AodvMsgRreq) : RtOp :=
  .rreq n.cfg.metricType msg.l25Dhost msg.l25Shost msg.l2Shost env.iface rreq.originatorSequenceNumber
    (n.countHop env msg).u16 (n.countHop env msg).u8 env.now

/-- What `aodv_handle_rrep` does to the routing table before it looks up the reverse route. -/
def rrepOp (n : Node) (env : RxEnv) (msg : DessertMsg) (rrep : AodvMsgRrep) : RtOp :=
  .rrep msg.l25Shost msg.l2Shost env.iface rrep.destinationSequenceNumber (n.countHop env msg).u16
    (n.countHop env msg).u8 env.now

/-- What `aodv_db_capt_rreq` reports to `aodv_handle_rreq`. -/
def captResult (n : Node) (env : RxEnv) (msg : DessertMsg) (rreq : AodvMsgRreq) : CaptRreqResult :=
  let msg := n.countHop env msg
  (n.captRreq msg.l25Dhost msg.l25Shost msg.l2Shost env.iface rreq.originatorSequenceNumber msg.u16 msg.u8
    env.now env.now).2

/-- How the entry of the originator judges a RREQ. -/
def judgeRreq (n : Node) (env : RxEnv) (msg : DessertMsg) (rreq : AodvMsgRreq) : CaptRreqResult :=
  rreqResult n.cfg.metricType (n.rt.judged msg.l25Dhost msg.l25Shost env.now).2 rreq.originatorSequenceNumber
    (n.countHop env msg).u16

section
variable (n : Node) (env : RxEnv) {msg : DessertMsg}

@[simp] theorem countHop_l25Shost (msg : DessertMsg) : (n.countHop env msg).l25Shost = msg.l25Shost := rfl
@[simp] theorem countHop_l25Dhost (msg : DessertMsg) : (n.countHop env msg).l25Dhost = msg.l25Dhost := rfl
@[simp] theorem countHop_l2Shost (msg : DessertMsg) : (n.countHop env msg).l2Shost = msg.l2Shost := rfl
@[simp] theorem countHop_exts (msg : DessertMsg) : (n.countHop env msg).exts = msg.exts := rfl

theorem captRreq_result (msg : DessertMsg) (rreq : AodvMsgRreq) :
    n.captResult env msg rreq = n.judgeRreq env msg rreq := by
  simp only [captResult, Node.captRreq, captRreq_eq, judgeRreq, countHop_l25Shost, countHop_l25Dhost]

theorem handleRreq_old {rreq : AodvMsgRreq} (hr : msg.getRreq = some rreq)
    (ho : n.judgeRreq env msg rreq = .old) :
    n.aodvHandleRreq env msg = ({ n with rt := n.rt.step (n.rreqOp env msg rreq) }, [], .drop) := by
  have hres := captRreq_result n env msg rreq
  have hs : n.rt.step (n.rreqOp env msg rreq) = (n.rt.judged msg.l25Dhost msg.l25Shost env.now).1 :=
    step_rreq_old ho
  have ho' := ho
  simp only [judgeRreq] at ho'
  rw [ho] at hres
  simp only [captResult] at hres
  simp only [aodvHandleRreq, hr, hres, if_true, hs]
  simp only [Node.captRreq, captRreq_eq, countHop_l25Shost, countHop_l25Dhost, ho', if_true]

/-- The daemon when the RREQ has been captured twice, before it is answered. -/
def captured (n : Node) (env : RxEnv) (msg : DessertMsg) (rreq : AodvMsgRreq) : Node :=
  let msg := n.countHop env msg
  let n := (n.captRreq msg.l25Dhost msg.l25Shost msg.l2Shost env.iface rreq.originatorSequenceNumber msg.u16
    msg.u8 env.now env.now).1
  (n.captRrep msg.l25Shost msg.l2Shost env.iface 0 msg.u16 msg.u8 env.now env.now).1

theorem captured_rt {rreq : AodvMsgRreq} (ho : n.judgeRreq env msg rreq ≠ .old) :
    (n.captured env msg rreq).rt = n.rt.step (n.rreqOp env msg rreq) := by
  have hs := step_rreq_new msg.l2Shost env.iface (n.countHop env msg).u8 ho
  refine Eq.trans ?_ hs.symm
  simp only [judgeRreq] at ho
  simp only [captured, Node.captRreq, Node.captRrep, captRreq_eq, countHop_l25Shost, countHop_l25Dhost,
    countHop_l2Shost, ho, if_false]

theorem rrepForMe_frame (n : Node) (env : RxEnv) (msg : DessertMsg) (rreq : AodvMsgRreq)
    (result : CaptRreqResult) : Frame n (n.rrepForMe env msg rreq result).1 := ⟨rfl, rfl, rfl, rfl⟩

theorem rreqAsRrep_frame (n : Node) (msg : DessertMsg) :
    Frame (n.captRrep msg.l25Shost msg.l2Shost env.iface 0 msg.u16 msg.u8 env.now env.now).1
      (n.rreqAsRrep env msg).1 := by
  simp only [rreqAsRrep]
  split
  · exact sendPackets_frame _ msg.l25Shost msg.l2Shost env.iface
  · exact .refl _

theorem acceptRreq_frame (n : Node) (msg : DessertMsg) (rreq : AodvMsgRreq) (result : CaptRreqResult) :
    Frame (n.captRrep msg.l25Shost msg.l2Shost env.iface 0 msg.u16 msg.u8 env.now env.now).1
      (n.acceptRreq env msg rreq result).1 := by
  refine (rreqAsRrep_frame env n msg).trans ?_
  simp only [acceptRreq]
  split
  · exact rrepForMe_frame _ env msg rreq result
  · exact .refl _

theorem captured_same (n : Node) (env : RxEnv) (msg : DessertMsg) (rreq : AodvMsgRreq) :
    (n.captured env msg rreq).cfg = n.cfg ∧ (n.captured env msg rreq).l25Defsrc = n.l25Defsrc ∧
      (n.captured env msg rreq).meshiflist = n.meshiflist := ⟨rfl, rfl, rfl⟩

theorem handleRreq_new {rreq : AodvMsgRreq} (hr : msg.getRreq = some rreq)
    (ho : n.judgeRreq env msg rreq ≠ .old) :
    n.aodvHandleRreq env msg =
      let r := (n.captRreq msg.l25Dhost msg.l25Shost msg.l2Shost env.iface rreq.originatorSequenceNumber
        (n.countHop env msg).u16 (n.countHop env msg).u8 env.now env.now).1.acceptRreq env (n.countHop env msg)
        rreq (n.judgeRreq env msg rreq)
      (r.1, r.2, .drop) := by
  have hres := captRreq_result n env msg rreq
  simp only [captResult] at hres
  simp only [aodvHandleRreq, hr, hres, ho, if_false]
  rfl

theorem handleRreq_captured {rreq : AodvMsgRreq} (hr : msg.getRreq = some rreq)
    (ho : n.judgeRreq env msg rreq ≠ .old) :
    Frame (n.captured env msg rreq) (n.aodvHandleRreq env msg).1 := by
  rw [handleRreq_new n env hr ho]
  exact acceptRreq_frame env _ (n.countHop env msg) rreq _

theorem handleRreq_rt {rreq : AodvMsgRreq} (hr : msg.getRreq = some rreq) :
    (n.aodvHandleRreq env msg).1.rt = n.rt.step (n.rreqOp env msg rreq) ∧
      (n.aodvHandleRreq env msg).1.cfg = n.cfg ∧ (n.aodvHandleRreq env msg).1.l25Defsrc = n.l25Defsrc ∧
      (n.aodvHandleRreq env msg).1.meshiflist = n.meshiflist := by
  by_cases ho : n.judgeRreq env msg rreq = .old
  · rw [handleRreq_old n env hr ho]
    exact ⟨rfl, rfl, rfl, rfl⟩
  · have h := handleRreq_captured n env hr ho
    have hs := captured_same n env msg rreq
    exact ⟨h.rt.trans (captured_rt n env ho), h.cfg.trans hs.1, h.l25Defsrc.trans hs.2.1,
      h.meshiflist.trans hs.2.2⟩

theorem handleRrep_node {rrep : AodvMsgRrep}
    (hr : msg.getRrep = some rrep) (hd : env.lflags.l2Dst = true) :
    let r := n.captRrep msg.l25Shost msg.l2Shost env.iface rrep.destinationSequenceNumber (n.countHop env msg).u16
      (n.countHop env msg).u8 env.now env.now
    (n.aodvHandleRrep env msg).1 =
      if r.2 then
        if env.lflags.l25Dst then (r.1.aodvSendPacketsFromBuffer msg.l25Shost msg.l2Shost env.iface).1
        else (r.1.getroute2dest msg.l25Dhost env.now env.now aodvFlagsUnused).1
      else r.1 := by
  intro r
  have hdef : n.captRrep (n.countHop env msg).l25Shost (n.countHop env msg).l2Shost env.iface
      rrep.destinationSequenceNumber (n.countHop env msg).u16 (n.countHop env msg).u8 env.now env.now = r := rfl
  simp only [aodvHandleRrep, hr, hd, hdef, Bool.not_true, Bool.false_eq_true, if_false]
  clear_value r
  cases r.2 with
  | false => rfl
  | true =>
    cases env.lflags.l25Dst with
    | true => rfl
    | false =>
      simp only [Bool.not_true, Bool.false_eq_true, if_false, if_true]
      split
      · rename_i n' hn
        exact (congrArg Prod.fst hn).symm
      · rename_i n' nextHop outputIface hn
        exact (congrArg Prod.fst hn).symm

theorem handleRrep_rtAt {rrep : AodvMsgRrep} (hr : msg.getRrep = some rrep) (hd : env.lflags.l2Dst = true) :
    (n.rt.step (n.rrepOp env msg rrep)).QuietlyAt (some env.now) (n.aodvHandleRrep env msg).1.rt ∧
      (n.aodvHandleRrep env msg).1.cfg = n.cfg ∧ (n.aodvHandleRrep env msg).1.l25Defsrc = n.l25Defsrc ∧
      (n.aodvHandleRrep env msg).1.meshiflist = n.meshiflist := by
  have hq : QuietAt (some env.now) (n.captRrep msg.l25Shost msg.l2Shost env.iface rrep.destinationSequenceNumber
      (n.countHop env msg).u16 (n.countHop env msg).u8 env.now env.now).1 (n.aodvHandleRrep env msg).1 := by
    rw [handleRrep_node n env hr hd]
    generalize n.captRrep msg.l25Shost msg.l2Shost env.iface rrep.destinationSequenceNumber
      (n.countHop env msg).u16 (n.countHop env msg).u8 env.now env.now = r
    split
    · split
      · exact (sendPackets_frame r.1 msg.l25Shost msg.l2Shost env.iface).quietAt _
      · exact getroute2dest_quietAt r.1 msg.l25Dhost env.now false
    · exact (Frame.refl r.1).quietAt _
  exact ⟨hq.rt, hq.cfg, hq.l25Defsrc, hq.meshiflist⟩

theorem handleRrep_rt {rrep : AodvMsgRrep} (hr : msg.getRrep = some rrep) (hd : env.lflags.l2Dst = true) :
    (n.rt.step (n.rrepOp env msg rrep)).Quietly (n.aodvHandleRrep env msg).1.rt ∧
      (n.aodvHandleRrep env msg).1.cfg = n.cfg ∧ (n.aodvHandleRrep env msg).1.l25Defsrc = n.l25Defsrc ∧
      (n.aodvHandleRrep env msg).1.meshiflist = n.meshiflist := by
  obtain ⟨hrt, hrest⟩ := handleRrep_rtAt n env hr hd
  exact ⟨hrt.quietly, hrest⟩

theorem handleRrep_drop {rrep : AodvMsgRrep} (hr : msg.getRrep = some rrep) (hd : env.lflags.l2Dst = false) :
    n.aodvHandleRrep env msg = (n, [], .drop) := by
  simp only [aodvHandleRrep, hr, hd, Bool.not_false, if_true]

end

section
variable (L : Libdessert)

theorem rerrUnroutable_frame (n : Node) (env : RxEnv) (dhost : MacAddr) :
    Frame n (n.rerrUnroutable L env dhost).1 := by
  unfold rerrUnroutable
  simp only
  split
  · exact ⟨rfl, rfl, rfl, rfl⟩
  · split <;> exact ⟨rfl, rfl, rfl, rfl⟩

theorem forward_quietAt (n : Node) (env : RxEnv) (msg : DessertMsg) :
    QuietAt (some env.now) n (n.aodvForward L env msg).1 := by
  unfold aodvForward
  split
  · exact (Frame.refl n).quietAt _
  · split
    · exact (Frame.refl n).quietAt _
    · simp only
      split
      · exact ⟨rfl, rfl, rfl, .refl n.rt⟩
      · let ds := (aodvDbDsCaptDataSeq n.ds msg.l25Shost msg.u16 env.now env.now).1
        have h := getroute2dest_quietAt { n with ds } msg.l25Dhost env.now false
        have h' : QuietAt (some env.now) n _ := ⟨h.cfg, h.l25Defsrc, h.meshiflist, h.rt⟩
        split
        · rename_i n' nextHop outputIface hn
          simp only [Bool.false_eq_true, if_false, ds, hn] at h'
          exact h'
        · rename_i n' hn
          simp only [Bool.false_eq_true, if_false, ds, hn] at h'
          exact h'.trans ((rerrUnroutable_frame L n' env msg.l25Dhost).quietAt _)

theorem forward_quiet (n : Node) (env : RxEnv) (msg : DessertMsg) : Quiet n (n.aodvForward L env msg).1 :=
  (forward_quietAt L n env msg).quiet

theorem sys2rp_quietAt (n : Node) (msg : DessertMsg) (now : Timeval) :
    QuietAt (some now) n (n.aodvSys2rp msg now).1 := by
  unfold aodvSys2rp
  simp only
  split
  · exact ⟨rfl, rfl, rfl, .refl n.rt⟩
  · split
    · exact (Frame.refl n).quietAt _
    · have h := getroute2dest_quietAt n msg.l25Dhost now true
      split
      · rename_i n' nextHop outputIface hn
        simp only [if_true, hn] at h
        exact ⟨h.cfg, h.l25Defsrc, h.meshiflist, h.rt⟩
      · rename_i n' hn
        simp only [if_true, hn] at h
        refine h.trans (Frame.quietAt (Frame.trans ?_ (sendRreq_frame _ msg.l25Dhost now)) _)
        exact ⟨rfl, rfl, rfl, rfl⟩

theorem sys2rp_quiet (n : Node) (msg : DessertMsg) (now : Timeval) : Quiet n (n.aodvSys2rp msg now).1 :=
  (sys2rp_quietAt n msg now).quiet

theorem scSendOutRerr_quietAt (n : Node) (etherAddr : MacAddr) (now : Timeval) :
    QuietAt (some now) n (n.scSendOutRerr L etherAddr now).1 := by
  unfold scSendOutRerr
  simp only
  split
  · exact ⟨rfl, rfl, rfl, .refl n.rt⟩
  · have h₁ : n.rt.QuietlyAt (some now) _ := .of_step n.rt (.invOverNexthop etherAddr) ⟨rfl, .inl rfl⟩
    have h₂ : Rt.QuietlyAt (some now) (n.rt.step (.invOverNexthop etherAddr)) _ :=
      .of_step _ (.getDestlist etherAddr) ⟨rfl, .inl rfl⟩
    split
    · exact ⟨rfl, rfl, rfl, h₁⟩
    · split
      · exact ⟨rfl, rfl, rfl, h₁.trans h₂⟩
      · exact ⟨rfl, rfl, rfl, h₁.trans h₂⟩

theorem scexecute_quietAt (n : Node) (now : Timeval) (avgRssi : Int8) :
    QuietAt (some now) n (n.aodvPeriodicScexecute L now avgRssi).1 := by
  unfold aodvPeriodicScexecute
  split
  · exact (Frame.refl n).quietAt _
  · rename_i sc st _
    have hst : QuietAt (some now) n { n with st } := ⟨rfl, rfl, rfl, .refl n.rt⟩
    simp only
    split
    · split
      · exact hst.trans ((sendRreqReal_frame _ _ now).quietAt _)
      · exact ⟨rfl, rfl, rfl, .refl n.rt⟩
    · exact hst.trans (scSendOutRerr_quietAt L _ sc.etherAddr now)
    · have h : n.rt.QuietlyAt (some now) _ := .of_step n.rt (.setWarn sc.etherAddr) ⟨rfl, .inl rfl⟩
      refine QuietAt.trans ?_ ((sendRreqs_frame _ _ now).quietAt _)
      exact ⟨rfl, rfl, rfl, h⟩
    · split
      · split <;> exact ⟨rfl, rfl, rfl, .refl n.rt⟩
      · exact hst

theorem scexecute_quiet (n : Node) (now : Timeval) (avgRssi : Int8) :
    Quiet n (n.aodvPeriodicScexecute L now avgRssi).1 :=
  (scexecute_quietAt L n now avgRssi).quiet

/-! ## One event -/

/-- What a step does to the routing table: nothing is captured, or one RREQ, or one RREP. -/
inductive RtStep (n : Node) (ev : NodeEvent) (rt : Rt) : Prop
  | quiet (h : n.rt.Quietly rt)
  | rreq (env : RxEnv) (msg : DessertMsg) (m : AodvMsgRreq) (he : ev = .mesh .handleRreq env msg)
      (hm : msg.getRreq = some m) (h : rt = n.rt.step (n.rreqOp env msg m))
  | rrep (env : RxEnv) (msg : DessertMsg) (m : AodvMsgRrep) (he : ev = .mesh .handleRrep env msg)
      (hm : msg.getRrep = some m) (hd : env.lflags.l2Dst = true)
      (h : (n.rt.step (n.rrepOp env msg m)).Quietly rt)

theorem step_rtAt (n : Node) (ev : NodeEvent) :
    (RtStep n ev (n.step L ev).rt ∧ Rt.Works (RtOp.At ev.time) n.rt (n.step L ev).rt) ∧ (n.step L ev).cfg = n.cfg ∧
      (n.step L ev).l25Defsrc = n.l25Defsrc ∧ (n.step L ev).meshiflist = n.meshiflist := by
  have quiet : ∀ {n' : Node}, QuietAt ev.time n n' →
      (RtStep n ev n'.rt ∧ Rt.Works (RtOp.At ev.time) n.rt n'.rt) ∧ n'.cfg = n.cfg ∧ n'.l25Defsrc = n.l25Defsrc ∧
        n'.meshiflist = n.meshiflist :=
    fun h => ⟨⟨.quiet h.rt.quietly, h.rt.worksAt⟩, h.cfg, h.l25Defsrc, h.meshiflist⟩
  have frame : ∀ {n' : Node}, Frame n n' →
      (RtStep n ev n'.rt ∧ Rt.Works (RtOp.At ev.time) n.rt n'.rt) ∧ n'.cfg = n.cfg ∧ n'.l25Defsrc = n.l25Defsrc ∧
        n'.meshiflist = n.meshiflist :=
    fun h => quiet (h.quietAt ev.time)
  cases ev with
  | mesh cb env msg =>
    cases cb with
    | dropErrors => exact frame (dropErrors_frame n env msg)
    | handleHello => exact frame (handleHello_frame n env msg)
    | handleRreq =>
      cases hr : msg.getRreq with
      | none =>
        have hn : n.step L (.mesh .handleRreq env msg) = n := by
          simp only [step, handle, callback, aodvHandleRreq, hr]
        rw [hn]; exact frame (Frame.refl n)
      | some rreq =>
        obtain ⟨hrt, hc, hl, hm⟩ := handleRreq_rt n env hr
        exact ⟨⟨.rreq env msg rreq rfl hr hrt, hrt ▸ .of_step n.rt _ (.inr rfl)⟩, hc, hl, hm⟩
    | handleRerr => exact quiet (handleRerr_quietAt n env msg _)
    | handleRrep =>
      cases hr : msg.getRrep with
      | none =>
        have hn : n.step L (.mesh .handleRrep env msg) = n := by
          simp only [step, handle, callback, aodvHandleRrep, hr]
        rw [hn]; exact frame (Frame.refl n)
      | some rrep =>
        cases hd : env.lflags.l2Dst with
        | false =>
          have hn : n.step L (.mesh .handleRrep env msg) = n := by
            simp only [step, handle, callback, handleRrep_drop n env hr hd]
          rw [hn]; exact frame (Frame.refl n)
        | true =>
          obtain ⟨hrt, hc, hl, hm⟩ := handleRrep_rtAt n env hr hd
          have hw := (Rt.Works.of_step n.rt (n.rrepOp env msg rrep) (.inr rfl)).trans hrt.worksAt
          exact ⟨⟨.rrep env msg rrep rfl hr hd hrt.quietly, hw⟩, hc, hl, hm⟩
    | forwardBroadcast => exact frame (forwardBroadcast_frame n env msg)
    | forwardMulticast => exact frame (Frame.refl n)
    | forward => exact quiet (forward_quietAt L n env msg)
    | localUnicast => exact frame (localUnicast_frame n env msg)
  | sysRx l25Shost l25Dhost payload now => exact quiet (sys2rp_quietAt n (sysMsg l25Shost l25Dhost payload) now)
  | cliSendRreq host now => exact frame (sendRreq_frame n host now)
  | routingReset => exact quiet (quietAt_op n (.routingReset) rfl (.inl rfl) rfl rfl rfl rfl)
  | neighborReset => exact frame ⟨rfl, rfl, rfl, rfl⟩
  | sendHello =>
    simp only [step, handle]
    split
    · exact frame (Frame.refl n)
    · exact frame ⟨rfl, rfl, rfl, rfl⟩
  | sendRreq now =>
    simp only [step, handle]
    split
    · exact frame (Frame.refl n)
    · exact frame (sendRreqs_frame n _ now)
  | cleanupDatabase now =>
    simp only [step, handle]
    split
    · exact frame (Frame.refl n)
    · exact quiet (quietAt_op n (.cleanup now) rfl (.inr rfl) rfl rfl rfl rfl)
  | scexecute now avgRssi =>
    simp only [step, handle]
    split
    · exact frame (Frame.refl n)
    · exact quiet (scexecute_quietAt L n now avgRssi)

theorem step_rt (n : Node) (ev : NodeEvent) :
    RtStep n ev (n.step L ev).rt ∧ (n.step L ev).cfg = n.cfg ∧ (n.step L ev).l25Defsrc = n.l25Defsrc ∧
      (n.step L ev).meshiflist = n.meshiflist := by
  obtain ⟨⟨hrt, -⟩, hrest⟩ := step_rtAt L n ev
  exact ⟨hrt, hrest⟩

theorem step_inv {I : Rt → Prop} (hs : ∀ rt op, I rt → I (rt.step op)) (n : Node) (ev : NodeEvent) (hI : I n.rt) :
    I (n.step L ev).rt := by
  have hq : ∀ {rt rt' : Rt}, I rt → rt.Quietly rt' → I rt' := by
    intro rt rt' h hx
    obtain ⟨ops, -, rfl⟩ := hx
    exact Runs.exec_inv hs h ops
  cases (step_rt L n ev).1 with
  | quiet h => exact hq hI h
  | rreq env msg m he hm h => rw [h]; exact hs n.rt _ hI
  | rrep env msg m he hm hd h => exact hq (hs n.rt _ hI) h

theorem times_at {now : Option Timeval} {ops : List RtOp} (h : ∀ op ∈ ops, op.At now) {t : Timeval}
    (ht : t ∈ ops.filterMap RtOp.time) : now = some t := by
  obtain ⟨op, hop, hot⟩ := List.mem_filterMap.mp ht
  rcases h op hop with hnone | hsame
  · rw [hnone] at hot
    cases hot
  · exact hsame.symm.trans hot

/-- Every run of a daemon is a run of operations on its routing table, at the times of the events. -/
theorem run_ops {n : Node} {evs : List NodeEvent} (hclock : (evs.filterMap NodeEvent.time).Pairwise (· ≤ ·)) :
    ∃ ops, (Runs.exec (Node.step L) n evs).rt = Runs.exec Rt.step n.rt ops ∧
      (ops.filterMap RtOp.time).Pairwise (· ≤ ·) ∧
      ∀ t ∈ ops.filterMap RtOp.time, t ∈ evs.filterMap NodeEvent.time := by
  induction evs generalizing n with
  | nil => exact ⟨[], rfl, .nil, fun t ht => ht⟩
  | cons ev evs ih =>
    obtain ⟨own, hat, hown⟩ := (step_rtAt L n ev).1.2
    have hrest : (evs.filterMap NodeEvent.time).Pairwise (· ≤ ·) :=
      hclock.sublist ((List.sublist_cons_self ev evs).filterMap NodeEvent.time)
    obtain ⟨ops, hrt, hle, hmem⟩ := ih (n := n.step L ev) hrest
    have hev : ∀ {t}, ev.time = some t → (ev :: evs).filterMap NodeEvent.time = t :: evs.filterMap NodeEvent.time :=
      fun h => List.filterMap_cons_some h
    refine ⟨own ++ ops, ?_, ?_, fun t ht => ?_⟩
    · rw [Runs.exec_append, ← hown]
      exact hrt
    · rw [List.filterMap_append, List.pairwise_append]
      refine ⟨List.pairwise_of_forall_mem_list fun a ha b hb => ?_, hle, fun a ha b hb => ?_⟩
      · exact Nat.le_of_eq (Option.some.inj ((times_at hat ha).symm.trans (times_at hat hb)))
      · rw [hev (times_at hat ha)] at hclock
        exact (List.pairwise_cons.mp hclock).1 b (hmem b hb)
    · rw [List.filterMap_append, List.mem_append] at ht
      rcases ht with ht | ht
      · rw [hev (times_at hat ht)]
        exact List.mem_cons_self
      · exact ((List.sublist_cons_self ev evs).filterMap NodeEvent.time).subset (hmem t ht)

/-- The states of a daemon. -/
def Reachable (n : Node) : Prop :=
  ∃ cfg l25Defsrc meshiflist evs, Runs.exec (Node.step L) (aodvDbInit cfg l25Defsrc meshiflist) evs = n

variable {L}

theorem Reachable.step {n : Node} (h : Reachable L n) (ev : NodeEvent) : Reachable L (n.step L ev) := by
  obtain ⟨cfg, l25Defsrc, meshiflist, evs, rfl⟩ := h
  exact ⟨cfg, l25Defsrc, meshiflist, evs ++ [ev], Runs.exec_append _ _ _⟩

theorem Reachable.inv {I : Node → Prop} (h0 : ∀ cfg l25Defsrc meshiflist, I (aodvDbInit cfg l25Defsrc meshiflist))
    (hs : ∀ n ev, I n → I (n.step L ev)) {n : Node} (h : Reachable L n) : I n := by
  obtain ⟨cfg, l25Defsrc, meshiflist, evs, rfl⟩ := h
  exact Runs.exec_inv hs (h0 cfg l25Defsrc meshiflist) evs

theorem Reachable.wf {n : Node} (h : Reachable L n) : n.rt.WF :=
  h.inv (I := fun n => n.rt.WF) (fun _ _ _ => init_wf) fun n ev hw => step_inv L (fun _ op h => h.step op) n ev hw

theorem Reachable.nht {n : Node} (h : Reachable L n) : NhtOk n.rt.nht :=
  (h.inv (I := fun n => n.rt.WF ∧ NhtOk n.rt.nht) (fun _ _ _ => ⟨init_wf, nhtOk_nil⟩) fun n ev hw =>
    step_inv L (I := fun rt => rt.WF ∧ NhtOk rt.nht)
      (fun _ op h => ⟨h.1.step op, Rt.step_ok h.2 h.1 op⟩) n ev hw).2

end

end Node

/-! ## Frames to play through -/

def wlan : Meshif := { ifindex := 1, hwaddr := 0x10 }

/-- A reception at time `now` over a link nothing is known about, by a node on the way. -/
def rxAt (now : Timeval) : RxEnv :=
  { lflags := { l2Src := false, l2Dst := true, l25Src := false, l25Dst := false, l25Broadcast := false,
                l25Multicast := false }
    iface := wlan
    now
    link := { avgRssi := 0, etxAdd := none, etxMul := none, pdr := none }
    gossip := true
    rcvdHellos := none }

def rreqFrom (originator destination prevHop : MacAddr) (seq : UInt32) (metric : Metric) : DessertMsg :=
  { dessertMsgNew with
    ttl := ttlMax
    u16 := metric
    l2Shost := prevHop
    l25Shost := originator
    l25Dhost := destination
    exts := [.rreq { flagU := true, flagD := false, destinationSequenceNumber := 0, originatorSequenceNumber := seq }] }

def rrepFrom (destination originator prevHop : MacAddr) (seq : UInt32) (metric : Metric) : DessertMsg :=
  { Node.createRrep destination originator wlan.hwaddr seq 0 0 metric with l2Shost := prevHop }

/-- A library with room for one more extension at any time. -/
def roomy : Libdessert := { maxExtDataLen := 253, room := fun _ _ => true }

end DesAodv

import DesAodv.Traffic

/-!
# Kinds of frames

The mesh pipeline gives a frame to the first handler whose extension it carries,
and that handler keeps it from the others.
-/

namespace DesAodv

inductive FrameKind
  | hello | rreq | rerr | rrep | data
  deriving DecidableEq, Repr

/-- The handler a frame comes to, unless it is dropped before. -/
def DessertMsg.kind (msg : DessertMsg) : FrameKind :=
  if msg.getHello.isSome then .hello
  else if msg.getRreq.isSome then .rreq
  else if msg.getRerr.isSome then .rerr
  else if msg.getRrep.isSome then .rrep
  else .data

/-- The callbacks behind the handlers. -/
def dataPipeline : List MeshCb := [.forwardBroadcast, .forwardMulticast, .forward, .localUnicast]

namespace DessertMsg

variable {msg : DessertMsg}

/-! ## Frames that are changed -/

theorem kind_congr {msg' : DessertMsg} (h : msg'.exts = msg.exts) : msg'.kind = msg.kind := by
  unfold kind getHello getRreq getRerr getRrep
  rw [h]

theorem kind_hello (h : msg.kind = .hello) : ∃ hello, msg.getHello = some hello := by
  unfold kind at h
  grind [Option.isSome_iff_exists, Option.not_isSome_iff_eq_none]

theorem kind_rreq (h : msg.kind = .rreq) : msg.getHello = none ∧ ∃ rreq, msg.getRreq = some rreq := by
  unfold kind at h
  grind [Option.isSome_iff_exists, Option.not_isSome_iff_eq_none]

theorem kind_rerr (h : msg.kind = .rerr) :
    msg.getHello = none ∧ msg.getRreq = none ∧ ∃ rerr, msg.getRerr = some rerr := by
  unfold kind at h
  grind [Option.isSome_iff_exists, Option.not_isSome_iff_eq_none]

theorem kind_rrep (h : msg.kind = .rrep) :
    msg.getHello = none ∧ msg.getRreq = none ∧ msg.getRerr = none ∧ ∃ rrep, msg.getRrep = some rrep := by
  unfold kind at h
  grind [Option.isSome_iff_exists, Option.not_isSome_iff_eq_none]

theorem kind_data (h : msg.kind = .data) :
    msg.getHello = none ∧ msg.getRreq = none ∧ msg.getRerr = none ∧ msg.getRrep = none := by
  unfold kind at h
  grind [Option.isSome_iff_exists, Option.not_isSome_iff_eq_none]

theorem setExt_none {put : Ext → Option Ext} {exts : List Ext} (h : ∀ e ∈ exts, put e = none) :
    setExt put exts = exts := by
  induction exts with
  | nil => rfl
  | cons e es ih =>
    rw [setExt, h e List.mem_cons_self]
    exact congrArg (e :: ·) (ih fun e' he => h e' (List.mem_cons_of_mem e he))

theorem setHello_none {hello : AodvMsgHello} (h : msg.getHello = none) : (msg.setHello hello).exts = msg.exts := by
  refine setExt_none fun e he => ?_
  have hno := List.findSome?_eq_none_iff.mp h e he
  cases e with
  | hello m => cases hno
  | _ => rfl

theorem setRerr_none {rerr : AodvMsgRerr} (h : msg.getRerr = none) : (msg.setRerr rerr).exts = msg.exts := by
  refine setExt_none fun e he => ?_
  have hno := List.findSome?_eq_none_iff.mp h e he
  cases e with
  | rerr m => cases hno
  | _ => rfl

theorem kind_setHello {hello : AodvMsgHello} (h : msg.kind = .hello) : (msg.setHello hello).kind = .hello := by
  obtain ⟨old, ho⟩ := kind_hello h
  have hnew : (msg.setHello hello).getHello = some hello := by
    refine findSome?_setExt_self (fun e => ?_) (by simpa [getHello] using Option.isSome_of_mem ho)
    cases e with
    | hello m => exact .inr ⟨_, rfl, rfl⟩
    | _ => exact .inl ⟨rfl, rfl⟩
  simp [kind, hnew]

theorem kind_setRerr {rerr : AodvMsgRerr} (h : msg.kind = .rerr) : (msg.setRerr rerr).kind = .rerr := by
  obtain ⟨hh, hq, old, ho⟩ := kind_rerr h
  have hnew : (msg.setRerr rerr).getRerr = some rerr := by
    refine findSome?_setExt_self (fun e => ?_) (by simpa [getRerr] using Option.isSome_of_mem ho)
    cases e with
    | rerr m => exact .inr ⟨_, rfl, rfl⟩
    | _ => exact .inl ⟨rfl, rfl⟩
  have hhello : (msg.setRerr rerr).getHello = none := by
    rw [← hh]
    refine findSome?_setExt (fun e e' hp => ?_) msg.exts
    cases e with
    | rerr m =>
      obtain rfl := Option.some.inj hp
      exact ⟨rfl, rfl⟩
    | _ => cases hp
  simp [kind, hnew, hhello, hq]

theorem kind_addRerrdl {L : Libdessert} {msg' : DessertMsg} {dl : List AodvMacSeq}
    (h : L.addRerrdl msg dl = some msg') : msg'.kind = msg.kind := by
  have happ : msg'.exts = msg.exts ++ [Ext.rerrdl dl] := by
    simp only [Libdessert.addRerrdl] at h
    repeat' split at h
    all_goals cases h
    rfl
  simp [kind, getHello, getRreq, getRerr, getRrep, happ, List.findSome?_append]

end DessertMsg

theorem kind_addRerrdls (L : Libdessert) (turns : Nat) (msg : DessertMsg) (destlist : List AodvMacSeq) :
    (addRerrdls L turns msg destlist).1.kind = msg.kind := by
  induction turns generalizing msg destlist with
  | zero => rfl
  | succ turns ih =>
    rw [addRerrdls]
    split
    · rfl
    · simp only
      split
      · rfl
      · rename_i msg' hm
        exact (ih msg' _).trans (DessertMsg.kind_addRerrdl hm)

namespace Node

variable (L : Libdessert) {n : Node}

theorem createRerr_kind {destlist rest : List AodvMacSeq} {m : DessertMsg}
    (h : n.aodvCreateRerr L destlist = some (m, rest)) : m.kind = .rerr := by
  unfold aodvCreateRerr at h
  split at h
  · cases h
  · have hk := kind_addRerrdls L destlist.length n.rerrHeader destlist
    rw [Option.some.inj h] at hk
    exact hk

theorem createRrep_kind (routeDest routeSource rrepNextHop : MacAddr) (seq : UInt32) (flags hopCount : UInt8)
    (metric : Metric) : (createRrep routeDest routeSource rrepNextHop seq flags hopCount metric).kind = .rrep := rfl

/-! ## The handler of a frame -/

/-- The handler for the kind of a frame. -/
def handleKind (n : Node) (env : RxEnv) (msg : DessertMsg) : Node × List Sent :=
  match msg.kind with
  | .hello => ((n.aodvHandleHello env msg).1, (n.aodvHandleHello env msg).2.1)
  | .rreq => ((n.aodvHandleRreq env msg).1, (n.aodvHandleRreq env msg).2.1)
  | .rerr => ((n.aodvHandleRerr env msg).1, (n.aodvHandleRerr env msg).2.1)
  | .rrep => ((n.aodvHandleRrep env msg).1, (n.aodvHandleRrep env msg).2.1)
  | .data => n.runCallbacks L env msg dataPipeline

variable {env : RxEnv} {msg : DessertMsg}

theorem countHop_kind : (n.countHop env msg).kind = msg.kind := DessertMsg.kind_congr rfl

theorem run_keep {cb : MeshCb} {cbs : List MeshCb} (h : n.callback L cb env msg = (n, [], .keep)) :
    n.runCallbacks L env msg (cb :: cbs) = n.runCallbacks L env msg cbs := by
  rw [runCallbacks, h]
  rfl

theorem run_drop {cb : MeshCb} {cbs : List MeshCb} (h : (n.callback L cb env msg).2.2 = .drop) :
    n.runCallbacks L env msg (cb :: cbs) = ((n.callback L cb env msg).1, (n.callback L cb env msg).2.1) := by
  rw [runCallbacks]
  generalize n.callback L cb env msg = r at h
  obtain ⟨n', sent, verdict⟩ := r
  obtain rfl := h
  rfl

theorem handleHello_ends {hello : AodvMsgHello} (h : msg.getHello = some hello) :
    (n.aodvHandleHello env msg).2.2 = .drop := by
  simp only [aodvHandleHello, h]
  repeat' split
  all_goals rfl

theorem handleRreq_ends {rreq : AodvMsgRreq} (h : msg.getRreq = some rreq) :
    (n.aodvHandleRreq env msg).2.2 = .drop := by
  simp only [aodvHandleRreq, h]
  split <;> rfl

theorem handleRerr_ends {rerr : AodvMsgRerr} (h : msg.getRerr = some rerr) :
    (n.aodvHandleRerr env msg).2.2 = .drop := by
  simp only [aodvHandleRerr, h]
  split <;> rfl

theorem handleRrep_ends {rrep : AodvMsgRrep} (h : msg.getRrep = some rrep) :
    (n.aodvHandleRrep env msg).2.2 = .drop := by
  simp only [aodvHandleRrep, h]
  repeat' split
  all_goals rfl

/-- A frame that is not dropped at once is handled by the handler for its kind alone. -/
theorem receive_kind : n.receive L env msg =
    if (n.aodvDropErrors env msg).2 = .drop then ((n.aodvDropErrors env msg).1, [])
    else (n.aodvDropErrors env msg).1.handleKind L env msg := by
  have hdrop : (n.callback L .dropErrors env msg) =
      ((n.aodvDropErrors env msg).1, [], (n.aodvDropErrors env msg).2) := rfl
  rw [receive, meshPipeline, runCallbacks, hdrop]
  generalize n.aodvDropErrors env msg = r
  obtain ⟨n₁, verdict⟩ := r
  cases verdict with
  | drop => rfl
  | keep =>
    have hrun : ∀ r : Node × List Sent, ((r.1, [] ++ r.2) : Node × List Sent) = r := fun _ => rfl
    simp only [hrun, reduceCtorEq, if_false, handleKind]
    cases hk : msg.kind with
    | hello =>
      obtain ⟨hello, hh⟩ := DessertMsg.kind_hello hk
      exact @run_drop L n₁ env msg .handleHello _ (handleHello_ends hh)
    | rreq =>
      obtain ⟨hh, rreq, hq⟩ := DessertMsg.kind_rreq hk
      rw [run_keep L (by simp [callback, aodvHandleHello, hh])]
      exact @run_drop L n₁ env msg .handleRreq _ (handleRreq_ends hq)
    | rerr =>
      obtain ⟨hh, hq, rerr, he⟩ := DessertMsg.kind_rerr hk
      rw [run_keep L (by simp [callback, aodvHandleHello, hh]), run_keep L (by simp [callback, aodvHandleRreq, hq])]
      exact @run_drop L n₁ env msg .handleRerr _ (@handleRerr_ends n₁ env msg rerr he)
    | rrep =>
      obtain ⟨hh, hq, he, rrep, hp⟩ := DessertMsg.kind_rrep hk
      rw [run_keep L (by simp [callback, aodvHandleHello, hh]), run_keep L (by simp [callback, aodvHandleRreq, hq]),
        run_keep L (by simp [callback, aodvHandleRerr, he])]
      exact @run_drop L n₁ env msg .handleRrep _ (handleRrep_ends hp)
    | data =>
      obtain ⟨hh, hq, he, hp⟩ := DessertMsg.kind_data hk
      rw [run_keep L (by simp [callback, aodvHandleHello, hh]), run_keep L (by simp [callback, aodvHandleRreq, hq]),
        run_keep L (by simp [callback, aodvHandleRerr, he]), run_keep L (by simp [callback, aodvHandleRrep, hp])]
      rfl

end Node

end DesAodv

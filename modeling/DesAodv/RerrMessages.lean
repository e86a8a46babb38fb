import DesAodv.NodeSteps

/-!
# The RERRs for a list of destinations

The loop of the `AODV_SC_SEND_OUT_RERR` schedule. `aodv_create_rerr` counts one
destination more than fits into an extension, so a longer list is never moved
into a message.
-/

namespace DesAodv

section
variable (L : Libdessert)

/-! ## One extension -/

theorem countDestlist_eq (dlLen : Nat) (destlist : List AodvMacSeq) (h : dlLen ≤ L.maxMacSeqPerExt + 1) :
    countDestlist L dlLen destlist = min (dlLen + destlist.length) (L.maxMacSeqPerExt + 1) := by
  induction destlist generalizing dlLen with
  | nil =>
    rw [countDestlist, List.length_nil, Nat.add_zero, Nat.min_eq_left h]
  | cons d ds ih =>
    rw [countDestlist]
    split
    · rw [ih (dlLen + 1) (by omega), List.length_cons]
      congr 1
      omega
    · rw [List.length_cons]
      omega

/-- One destination more than `MAX_MAC_SEQ_PER_EXT` does not fit. -/
theorem maxMacSeqPerExt_lt : L.maxExtDataLen < (L.maxMacSeqPerExt + 1) * sizeofAodvMacSeq := by
  have h := Nat.lt_div_mul_add (a := L.maxExtDataLen) (b := sizeofAodvMacSeq) (by decide)
  rw [Nat.add_mul, Nat.one_mul]
  exact h

theorem le_maxMacSeqPerExt {len : Nat} : len * sizeofAodvMacSeq ≤ L.maxExtDataLen ↔ len ≤ L.maxMacSeqPerExt :=
  (Nat.le_div_iff_mul_le (by decide)).symm

theorem addRerrdl_records {msg msg' : DessertMsg} {dl : List AodvMacSeq} (h : L.addRerrdl msg dl = some msg') :
    msg'.records = msg.records ++ dl := by
  unfold Libdessert.addRerrdl at h
  simp only at h
  split at h
  · cases h
  · split at h
    · rw [← Option.some.inj h]
      simp [DessertMsg.records, DessertMsg.getRerrdls]
    · cases h

theorem addRerrdls_long (turns : Nat) (msg : DessertMsg) {destlist : List AodvMacSeq}
    (h : L.maxMacSeqPerExt < destlist.length) : addRerrdls L turns msg destlist = (msg, destlist) := by
  cases turns with
  | zero => rfl
  | succ turns =>
    have hne : destlist ≠ [] := by
      intro he
      rw [he] at h
      exact Nat.not_lt_zero _ h
    have hcount : countDestlist L 0 destlist = L.maxMacSeqPerExt + 1 := by
      rw [countDestlist_eq L 0 destlist (Nat.zero_le _)]
      omega
    have hlen : (destlist.take (L.maxMacSeqPerExt + 1)).length = L.maxMacSeqPerExt + 1 := by
      rw [List.length_take]
      omega
    have hadd : L.addRerrdl msg (destlist.take (L.maxMacSeqPerExt + 1)) = none := by
      simp only [Libdessert.addRerrdl, hlen]
      exact if_pos (maxMacSeqPerExt_lt L)
    simp only [addRerrdls, hne, if_false, hcount, hadd]

theorem addRerrdls_short {msg : DessertMsg} {destlist : List AodvMacSeq} (hne : destlist ≠ [])
    (h : destlist.length ≤ L.maxMacSeqPerExt) (hr : L.room msg (destlist.length * sizeofAodvMacSeq) = true)
    (turns : Nat) :
    addRerrdls L (turns + 1) msg destlist = ({ msg with exts := msg.exts ++ [.rerrdl destlist] }, []) := by
  have hcount : countDestlist L 0 destlist = destlist.length := by
    rw [countDestlist_eq L 0 destlist (Nat.zero_le _)]
    omega
  have hadd : L.addRerrdl msg destlist = some { msg with exts := msg.exts ++ [Ext.rerrdl destlist] } := by
    simp only [Libdessert.addRerrdl, hr, if_true]
    exact if_neg (Nat.not_lt.mpr ((le_maxMacSeqPerExt L).mpr h))
  have hnil : ∀ (turns : Nat) (msg : DessertMsg), addRerrdls L turns msg [] = (msg, []) := by
    intro turns msg
    cases turns <;> simp [addRerrdls]
  simp only [addRerrdls, hne, if_false, hcount, List.take_length, hadd, List.drop_length, hnil]

/-- The destinations moved into the message and those left make up the list. -/
theorem addRerrdls_records (turns : Nat) (msg : DessertMsg) (destlist : List AodvMacSeq) :
    (addRerrdls L turns msg destlist).1.records ++ (addRerrdls L turns msg destlist).2 =
      msg.records ++ destlist := by
  induction turns generalizing msg destlist with
  | zero => rfl
  | succ turns ih =>
    rw [addRerrdls]
    split
    · rfl
    · simp only
      split
      · rfl
      · rename_i msg' hm
        rw [ih, addRerrdl_records L hm, List.append_assoc, List.take_append_drop]

end

/-! ## The loop -/

namespace Node

section
variable (L : Libdessert) (n : Node)

theorem rerrHeader_records : n.rerrHeader.records = [] := rfl

theorem sendRerrs_nil (turns : Nat) : n.sendRerrs L (turns + 1) [] = ([], true) := by
  simp [sendRerrs, aodvCreateRerr]

theorem sendRerrs_cons {destlist : List AodvMacSeq} (hne : destlist ≠ []) (turns : Nat) :
    n.sendRerrs L (turns + 1) destlist =
      let r := addRerrdls L destlist.length n.rerrHeader destlist
      (r.1 :: (n.sendRerrs L turns r.2).1, (n.sendRerrs L turns r.2).2) := by
  simp only [sendRerrs, aodvCreateRerr, hne, if_false]

/-- Once it has ended, the loop has sent every destination exactly once and in order. -/
theorem sendRerrs_records {turns : Nat} {destlist : List AodvMacSeq}
    (h : (n.sendRerrs L turns destlist).2 = true) :
    ((n.sendRerrs L turns destlist).1.map DessertMsg.records).flatten = destlist := by
  induction turns generalizing destlist with
  | zero => cases h
  | succ turns ih =>
    by_cases hne : destlist = []
    · subst hne
      rw [sendRerrs_nil]
      rfl
    · rw [sendRerrs_cons L n hne] at h ⊢
      simp only at h
      simp only [List.map_cons, List.flatten_cons, ih h, addRerrdls_records, rerrHeader_records,
        List.nil_append]

/-- Every record is one of the list, even if the loop does not end. -/
theorem sendRerrs_subset {turns : Nat} {destlist : List AodvMacSeq} {m : DessertMsg}
    (hm : m ∈ (n.sendRerrs L turns destlist).1) {dest : AodvMacSeq} (hd : dest ∈ m.records) : dest ∈ destlist := by
  induction turns generalizing destlist with
  | zero => cases hm
  | succ turns ih =>
    by_cases hne : destlist = []
    · subst hne
      rw [sendRerrs_nil] at hm
      cases hm
    · have hrec := addRerrdls_records L destlist.length n.rerrHeader destlist
      rw [rerrHeader_records, List.nil_append] at hrec
      rw [sendRerrs_cons L n hne] at hm
      rw [← hrec]
      rcases List.mem_cons.mp hm with rfl | hm
      · exact List.mem_append_left _ hd
      · exact List.mem_append_right _ (ih hm)

/-- The loop does not end on a list with more destinations than fit into an extension. -/
theorem sendRerrs_long {destlist : List AodvMacSeq} (h : L.maxMacSeqPerExt < destlist.length) (turns : Nat) :
    (n.sendRerrs L turns destlist).2 = false := by
  have hne : destlist ≠ [] := by
    intro he
    rw [he] at h
    exact Nat.not_lt_zero _ h
  induction turns with
  | zero => rfl
  | succ turns ih => simp only [sendRerrs_cons L n hne, addRerrdls_long L _ _ h, ih]

theorem sendRerrs_short (hroom : ∀ len ≤ L.maxExtDataLen, L.room n.rerrHeader len = true)
    {destlist : List AodvMacSeq} (hne : destlist ≠ []) (h : destlist.length ≤ L.maxMacSeqPerExt) (turns : Nat) :
    n.sendRerrs L (turns + 2) destlist =
      ([{ n.rerrHeader with exts := n.rerrHeader.exts ++ [.rerrdl destlist] }], true) := by
  have hr := hroom (destlist.length * sizeofAodvMacSeq) ((le_maxMacSeqPerExt L).mpr h)
  obtain ⟨k, hk⟩ := Nat.exists_eq_succ_of_ne_zero (Nat.ne_of_gt (List.length_pos_iff.mpr hne))
  have hadd := addRerrdls_short L hne h hr k
  rw [sendRerrs_cons L n hne, hk]
  simp only [hadd, sendRerrs_nil]

/-- As many turns as the list is long, and one more, tell whether the loop ends. -/
theorem sendRerrs_ended {turns : Nat} {destlist : List AodvMacSeq}
    (hroom : ∀ len ≤ L.maxExtDataLen, L.room n.rerrHeader len = true)
    (h : (n.sendRerrs L turns destlist).2 = true) : (n.sendRerrs L (destlist.length + 1) destlist).2 = true := by
  by_cases hne : destlist = []
  · rw [hne, sendRerrs_nil]
  · have hle : destlist.length ≤ L.maxMacSeqPerExt := by
      by_contra hlt
      rw [sendRerrs_long L n (Nat.not_le.mp hlt)] at h
      cases h
    obtain ⟨k, hk⟩ := Nat.exists_eq_succ_of_ne_zero (Nat.ne_of_gt (List.length_pos_iff.mpr hne))
    rw [hk]
    rw [sendRerrs_short L n hroom hne hle k]

/-- The loop ends, with every listed destination in exactly one record and in order, exactly if the list
is no longer than `MAX_MAC_SEQ_PER_EXT`. -/
theorem sendRerrs_covers_iff (hroom : ∀ len ≤ L.maxExtDataLen, L.room n.rerrHeader len = true)
    (destlist : List AodvMacSeq) :
    (∃ turns, (n.sendRerrs L turns destlist).2 = true ∧
        ((n.sendRerrs L turns destlist).1.map DessertMsg.records).flatten = destlist) ↔
      destlist.length ≤ L.maxMacSeqPerExt := by
  constructor
  · intro h
    obtain ⟨turns, he, -⟩ := h
    by_contra hlt
    rw [sendRerrs_long L n (Nat.not_le.mp hlt)] at he
    cases he
  · intro hle
    by_cases hne : destlist = []
    · subst hne
      refine ⟨1, ?_, ?_⟩
      · rw [sendRerrs_nil]
      · rw [sendRerrs_nil]
        rfl
    · have hs := sendRerrs_short L n hroom hne hle 0
      have he : (n.sendRerrs L 2 destlist).2 = true := by rw [hs]
      exact ⟨2, he, sendRerrs_records L n he⟩

end

theorem sendRerrs_full :
    ∃ turns, ((aodvDbInit {} 8 [wlan]).sendRerrs roomy turns (List.replicate 25 ⟨5, 1⟩)).2 = true ∧
      ((((aodvDbInit {} 8 [wlan]).sendRerrs roomy turns (List.replicate 25 ⟨5, 1⟩)).1.map
        DessertMsg.records).flatten = List.replicate 25 ⟨5, 1⟩) :=
  (sendRerrs_covers_iff roomy (aodvDbInit {} 8 [wlan]) (fun _ _ => rfl) (List.replicate 25 ⟨5, 1⟩)).mpr
    (by decide)

theorem sendRerrs_endless :
    ¬ ∃ turns, ((aodvDbInit {} 8 [wlan]).sendRerrs roomy turns (List.replicate 26 ⟨5, 1⟩)).2 = true := by
  intro hx
  obtain ⟨turns, h⟩ := hx
  rw [sendRerrs_long roomy (aodvDbInit {} 8 [wlan]) (by decide)] at h
  cases h

end Node

end DesAodv

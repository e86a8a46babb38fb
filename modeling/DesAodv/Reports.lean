import DesAodv.TextBuffer
import DesAodv.PdrTracker
import DesAodv.RtOps

/-!
# Reports

The texts that `timeslot_report`, `aodv_db_rt_report` and `aodv_db_pdr_nt_report`
put together for the command line. The size of a buffer is fixed before the loop
that fills it; `overrun` of the buffer tells whether the loop wrote behind it.
`sizeBits` is the width of `size_t`, and `mac` formats a hardware address.
-/

namespace DesAodv

open Printf

def reportRtStrLen : Nat := 150

/-! ## Timeslots -/

/-- `"%ld.%.6ld\n"` with the seconds and microseconds. -/
def timevalText (t : Timeval) : String :=
  toString (t / 1000000) ++ "." ++ String.leftpad 6 '0' (toString (t % 1000000)) ++ "\n"

def timeslotReport {α : Type} (ts : Option (Timeslot α)) : TextBuffer :=
  let output := TextBuffer.alloc 1024
  match ts with
  | none => output.strcat (snprintf 128 "Time Slot: NULL\n")
  | some ts =>
    match ts.elements.getLast? with
    | none => output.strcat (snprintf 128 "Time Slot: EMPTY\n")
    | some head =>
      let output := output.strcat (snprintf 128 "---------- Time Slot  -------------\n")
      let output := output.strcat
        (snprintf 128 ("Timeslot size : " ++ toString (ts.elements.length % 2 ^ 32) ++ "\n"))
      let output := output.strcat (snprintf 128 ("max timestamp : " ++ timevalText head.purgeTime))
      ts.elements.foldl (fun output searchEl =>
        (output.strcat (snprintf 128 "element       : ")).strcat (snprintf 128 (timevalText searchEl.purgeTime)))
        output

/-! ## Tables -/

def reportLen {α : Type} (entries : List α) : UInt32 :=
  entries.foldl (fun len _ => len + UInt32.ofNat (reportRtStrLen * 2)) 0

def reportSize (sizeBits : Nat) (len : UInt32) : Nat := (reportRtStrLen * (4 + len).toNat + 1) % 2 ^ sizeBits

section
variable (sizeBits : Nat) (mac : MacAddr → String)

def rtReportRule : String :=
  "+-------------------+-------------------+-------------------+-------------+---------------+\n"

def rtReportNames : String :=
  "|    destination    |      next hop     |  out iface addr   |  route inv  | next hop unkn |\n"

def rtReportHeader : String := rtReportRule ++ rtReportNames ++ rtReportRule

/-- The line of an entry; `none` where the interface of a known next hop is missing. -/
def rtReportLine (e : RtEntry) : Option String :=
  let routeInv := String.leftpad 5 ' ' (if e.flags.routeInvalid then "true" else "false")
  if e.flags.nextHopUnknown then
    some (snprintf reportRtStrLen ("| " ++ mac e.addr ++ " |                   |                   |   " ++
      routeInv ++ "     |     true      |\n"))
  else
    e.outputIface.map fun iface =>
      snprintf reportRtStrLen ("| " ++ mac e.addr ++ " | " ++ mac e.nextHop ++ " | " ++ mac iface.hwaddr ++ " |    " ++
        routeInv ++ "    |     false     |\n")

def aodvDbRtReport (rt : Rt) : Option TextBuffer :=
  let output := TextBuffer.alloc (reportSize sizeBits (reportLen rt.entries))
  rt.entries.foldlM (fun output e => (rtReportLine mac e).map fun line => (output.strcat line).strcat rtReportRule)
    (output.strcat rtReportHeader)

def pdrReportRule : String :=
  "+-------------------+-------------------+-------------------+-------------------+----------------------+\n"

def pdrReportNames : String :=
  "|     neighbor      |  hello interval   |  received hellos  |  expected hellos  | neighbor rcvd hellos |\n"

def pdrReportHeader : String := pdrReportRule ++ pdrReportNames ++ pdrReportRule

def pdrReportLine (e : PdrNeighborEntry) : String :=
  snprintf reportRtStrLen ("| " ++ mac e.etherNeighbor ++ " |      " ++ toString e.helloInterv.toNat ++
    " ms      |        " ++ toString e.rcvdHelloCount.toNat ++ "        |       " ++
    toString e.expectedHellos.toNat ++ "       |        " ++ toString e.nbRcvdHelloCount.toNat ++ "        |\n")

def aodvDbPdrNtReport (pdrNt : PdrNeighborTable) : TextBuffer :=
  let output := TextBuffer.alloc (reportSize sizeBits (reportLen pdrNt.entries))
  pdrNt.entries.foldl (fun output e => (output.strcat (pdrReportLine mac e)).strcat pdrReportRule)
    (output.strcat pdrReportHeader)

end

/-! ## Lengths -/

theorem length_rtReportRule : rtReportRule.length = 92 := by decide

theorem length_rtReportHeader : rtReportHeader.length = 276 := by
  have hnames : rtReportNames.length = 92 := by decide
  rw [rtReportHeader, String.length_append, String.length_append, length_rtReportRule, hnames]

theorem length_pdrReportRule : pdrReportRule.length = 105 := by decide

theorem length_pdrReportHeader : pdrReportHeader.length = 315 := by
  have hnames : pdrReportNames.length = 105 := by decide
  rw [pdrReportHeader, String.length_append, String.length_append, length_pdrReportRule, hnames]

theorem length_timevalText (t : Timeval) : (timevalText t).length = decimalLength (t / 1000000) + 8 := by
  have husec : decimalLength (t % 1000000) ≤ 6 :=
    (decimalLength_le_iff (by decide)).mpr (Nat.mod_lt t (by decide))
  have hpad : (String.leftpad 6 '0' (toString (t % 1000000))).length = 6 := by
    rw [String.length_leftpad, length_toString, Nat.max_eq_left husec]
  have hdot : ".".length = 1 := by decide
  have hnl : "\n".length = 1 := by decide
  rw [timevalText, String.length_append, String.length_append, String.length_append, length_toString, hpad, hdot, hnl]

theorem length_sizeLine (n : Nat) :
    (snprintf 128 ("Timeslot size : " ++ toString (n % 2 ^ 32) ++ "\n")).length = 17 + decimalLength (n % 2 ^ 32) := by
  have hd : decimalLength (n % 2 ^ 32) ≤ 10 :=
    (decimalLength_le_iff (by decide)).mpr (Nat.lt_trans (Nat.mod_lt n (by decide)) (by decide))
  have hlabel : "Timeslot size : ".length = 16 := by decide
  have hnl : "\n".length = 1 := by decide
  rw [length_snprintf, String.length_append, String.length_append, length_toString, hlabel, hnl]
  omega

theorem length_maxLine (t : Timeval) : (snprintf 128 ("max timestamp : " ++ timevalText t)).length =
    min 127 (24 + decimalLength (t / 1000000)) := by
  have hlabel : "max timestamp : ".length = 16 := by decide
  rw [length_snprintf, String.length_append, length_timevalText, hlabel]
  omega

theorem length_elementTime (t : Timeval) :
    (snprintf 128 (timevalText t)).length = min 127 (8 + decimalLength (t / 1000000)) := by
  rw [length_snprintf, length_timevalText, Nat.add_comm 8]

theorem timeslotReport_fits_iff {α : Type} {ts : Timeslot α} {head : TimeslotElement α}
    (hh : ts.elements.getLast? = some head) : (timeslotReport (some ts)).Fits ↔
      53 + decimalLength (ts.elements.length % 2 ^ 32) + min 127 (24 + decimalLength (head.purgeTime / 1000000)) +
        (ts.elements.map fun el => 16 + min 127 (8 + decimalLength (el.purgeTime / 1000000))).sum < 1024 := by
  have hrule : (snprintf 128 "---------- Time Slot  -------------\n").length = 36 := by decide
  have hlabel : (snprintf 128 "element       : ").length = 16 := by decide
  have hstep : ∀ (b : TextBuffer) (el : TimeslotElement α),
      ((b.strcat (snprintf 128 "element       : ")).strcat (snprintf 128 (timevalText el.purgeTime))).text.length =
        b.text.length + (16 + min 127 (8 + decimalLength (el.purgeTime / 1000000))) := by
    intro b el
    rw [TextBuffer.strcat_length, TextBuffer.strcat_length, hlabel, length_elementTime, Nat.add_assoc]
  simp only [timeslotReport, hh]
  rw [TextBuffer.foldl_fits hstep fun _ _ => rfl]
  simp only [TextBuffer.strcat_length, TextBuffer.strcat_size, TextBuffer.alloc_length, TextBuffer.alloc_size,
    hrule, length_sizeLine, length_maxLine]
  omega

/-- The times of our days have ten digits, of which 27 fit. -/
theorem timeslotReport_fits_iff_ten {α : Type} {ts : Timeslot α} (hne : ts.elements ≠ [])
    (hten : ∀ el ∈ ts.elements, decimalLength (el.purgeTime / 1000000) = 10) :
    (timeslotReport (some ts)).Fits ↔ ts.elements.length ≤ 27 := by
  have hhead := List.getLast?_eq_some_getLast hne
  have hsum : (ts.elements.map fun el => 16 + min 127 (8 + decimalLength (el.purgeTime / 1000000))).sum =
      ts.elements.length * 34 := by
    rw [List.map_congr_left (g := fun _ => 34) fun el hel => by rw [hten el hel]; rfl, List.map_const',
      List.sum_replicate_nat]
  rw [timeslotReport_fits_iff hhead, hten _ (List.getLast_mem hne), hsum]
  have hpos : 1 ≤ decimalLength (ts.elements.length % 2 ^ 32) := Nat.le_add_left 1 _
  refine ⟨fun h => by omega, fun h => ?_⟩
  have htwo : decimalLength (ts.elements.length % 2 ^ 32) ≤ 2 := (decimalLength_le_iff (by decide)).mpr (by omega)
  omega

theorem foldl_len {α : Type} (entries : List α) (len : UInt32) :
    (entries.foldl (fun len _ => len + UInt32.ofNat (reportRtStrLen * 2)) len).toNat =
      (len.toNat + 300 * entries.length) % 2 ^ 32 := by
  induction entries generalizing len with
  | nil => exact (Nat.mod_eq_of_lt len.toNat_lt).symm
  | cons e es ih =>
    have hadd : (len + UInt32.ofNat (reportRtStrLen * 2)).toNat = (len.toNat + 300) % 2 ^ 32 := UInt32.toNat_add len _
    rw [List.foldl_cons, ih, hadd, Nat.mod_add_mod, List.length_cons]
    congr 1
    omega

/-- The size is reduced twice: where the entries are counted, and to what `size_t` holds. -/
theorem reportSize_eq {α : Type} (sizeBits : Nat) (entries : List α) : reportSize sizeBits (reportLen entries) =
    (150 * ((4 + 300 * entries.length) % 2 ^ 32) + 1) % 2 ^ sizeBits := by
  have hlen : (4 + reportLen entries).toNat = (4 + 300 * entries.length) % 2 ^ 32 := by
    rw [UInt32.toNat_add, reportLen, foldl_len, Nat.add_mod_mod]
    congr 1
    simp
  rw [reportSize, hlen, reportRtStrLen]

section
variable {sizeBits : Nat} {mac : MacAddr → String} (hmac : ∀ a, (mac a).length = 17)
include hmac

theorem length_rtReportLine {e : RtEntry} {line : String} (h : rtReportLine mac e = some line) : line.length = 92 := by
  have hinv : (String.leftpad 5 ' ' (if e.flags.routeInvalid then "true" else "false")).length = 5 := by
    split <;> decide
  unfold rtReportLine at h
  simp only at h
  split at h
  · rw [← Option.some.inj h, length_snprintf]
    simp only [String.length_append, hmac, hinv]
    decide
  · obtain ⟨iface, -, rfl⟩ := Option.map_eq_some_iff.mp h
    rw [length_snprintf]
    simp only [String.length_append, hmac, hinv]
    decide

theorem length_pdrReportLine (e : PdrNeighborEntry) : (pdrReportLine mac e).length =
    87 + decimalLength e.helloInterv.toNat + decimalLength e.rcvdHelloCount.toNat +
      decimalLength e.expectedHellos.toNat + decimalLength e.nbRcvdHelloCount.toNat := by
  have h₀ : "| ".length = 2 := by decide
  have h₁ : " |      ".length = 8 := by decide
  have h₂ : " ms      |        ".length = 18 := by decide
  have h₃ : "        |       ".length = 16 := by decide
  have h₄ : "       |        ".length = 16 := by decide
  have h₅ : "        |\n".length = 10 := by decide
  have hinterv : decimalLength e.helloInterv.toNat ≤ 5 :=
    (decimalLength_le_iff (by decide)).mpr (Nat.lt_trans e.helloInterv.toNat_lt (by decide))
  have hexpected : decimalLength e.expectedHellos.toNat ≤ 5 :=
    (decimalLength_le_iff (by decide)).mpr (Nat.lt_trans e.expectedHellos.toNat_lt (by decide))
  have hrcvd : decimalLength e.rcvdHelloCount.toNat ≤ 3 :=
    (decimalLength_le_iff (by decide)).mpr (Nat.lt_trans e.rcvdHelloCount.toNat_lt (by decide))
  have hnb : decimalLength e.nbRcvdHelloCount.toNat ≤ 3 :=
    (decimalLength_le_iff (by decide)).mpr (Nat.lt_trans e.nbRcvdHelloCount.toNat_lt (by decide))
  -- so no line is cut off
  rw [pdrReportLine, length_snprintf, reportRtStrLen]
  simp only [String.length_append, hmac, length_toString, h₀, h₁, h₂, h₃, h₄, h₅]
  omega

theorem foldlM_rtReport {es : List RtEntry} {b output : TextBuffer}
    (h : es.foldlM (fun output e => (rtReportLine mac e).map fun line => (output.strcat line).strcat rtReportRule) b =
      some output) : output.size = b.size ∧ output.text.length = b.text.length + 184 * es.length := by
  induction es generalizing b with
  | nil =>
    obtain rfl := Option.some.inj h
    exact ⟨rfl, rfl⟩
  | cons e es ih =>
    rw [List.foldlM_cons] at h
    obtain ⟨b', hb', hes⟩ := Option.bind_eq_some_iff.mp h
    obtain ⟨line, hline, rfl⟩ := Option.map_eq_some_iff.mp hb'
    obtain ⟨hsize, hlen⟩ := ih hes
    refine ⟨hsize, ?_⟩
    rw [hlen, TextBuffer.strcat_length, TextBuffer.strcat_length, length_rtReportLine hmac hline,
      length_rtReportRule, List.length_cons]
    omega

theorem rtReport_fits_iff {rt : Rt} {output : TextBuffer} (h : aodvDbRtReport sizeBits mac rt = some output) :
    output.Fits ↔ 276 + 184 * rt.entries.length <
      (150 * ((4 + 300 * rt.entries.length) % 2 ^ 32) + 1) % 2 ^ sizeBits := by
  obtain ⟨hsize, hlen⟩ := foldlM_rtReport hmac h
  rw [TextBuffer.Fits, hsize, hlen, TextBuffer.strcat_length, length_rtReportHeader, TextBuffer.alloc_length,
    TextBuffer.strcat_size, TextBuffer.alloc_size, reportSize_eq, Nat.zero_add, Nat.add_one_le_iff]

theorem pdrReport_fits_iff (pdrNt : PdrNeighborTable) : (aodvDbPdrNtReport sizeBits mac pdrNt).Fits ↔
    315 + (pdrNt.entries.map fun e => 192 + decimalLength e.helloInterv.toNat +
        decimalLength e.rcvdHelloCount.toNat + decimalLength e.expectedHellos.toNat +
        decimalLength e.nbRcvdHelloCount.toNat).sum <
      (150 * ((4 + 300 * pdrNt.entries.length) % 2 ^ 32) + 1) % 2 ^ sizeBits := by
  have hstep : ∀ (b : TextBuffer) (e : PdrNeighborEntry),
      ((b.strcat (pdrReportLine mac e)).strcat pdrReportRule).text.length =
        b.text.length + (192 + decimalLength e.helloInterv.toNat + decimalLength e.rcvdHelloCount.toNat +
          decimalLength e.expectedHellos.toNat + decimalLength e.nbRcvdHelloCount.toNat) := by
    intro b e
    rw [TextBuffer.strcat_length, TextBuffer.strcat_length, length_pdrReportLine hmac,
      length_pdrReportRule]
    omega
  simp only [aodvDbPdrNtReport]
  rw [TextBuffer.foldl_fits hstep fun _ _ => rfl, TextBuffer.strcat_length, length_pdrReportHeader,
    TextBuffer.alloc_length, TextBuffer.strcat_size, TextBuffer.alloc_size, reportSize_eq, Nat.zero_add]

end

theorem rtReport_isSome (sizeBits : Nat) (mac : MacAddr → String) {rt : Rt} (hw : rt.WF) :
    (aodvDbRtReport sizeBits mac rt).isSome = true := by
  have hline : ∀ e ∈ rt.entries, (rtReportLine mac e).isSome = true := by
    intro e he
    unfold rtReportLine
    simp only
    split
    · rfl
    · rename_i hk
      rw [Option.isSome_map]
      exact hw.routed e he (by simpa using hk)
  unfold aodvDbRtReport
  simp only
  generalize (TextBuffer.alloc (reportSize sizeBits (reportLen rt.entries))).strcat rtReportHeader = output
  generalize rt.entries = es at hline
  induction es generalizing output with
  | nil => rfl
  | cons e es ih =>
    obtain ⟨line, hl⟩ := Option.isSome_iff_exists.mp (hline e List.mem_cons_self)
    rw [List.foldlM_cons, hl]
    exact ih ((output.strcat line).strcat rtReportRule) fun e' he' => hline e' (List.mem_cons_of_mem e he')

/-! ## Which reports fit -/

/-- Up to here no size has been reduced, and every line has room to spare. -/
theorem reportSize_small {n sizeBits : Nat} (hn : n ≤ 95443) (hb : 32 ≤ sizeBits) :
    (150 * ((4 + 300 * n) % 2 ^ 32) + 1) % 2 ^ sizeBits = 150 * (4 + 300 * n) + 1 := by
  have hpow : 2 ^ 32 ≤ 2 ^ sizeBits := Nat.pow_le_pow_right (by decide) hb
  rw [Nat.mod_eq_of_lt (a := 4 + 300 * n) (by omega), Nat.mod_eq_of_lt (by omega)]

theorem rtReport_small {sizeBits : Nat} {mac : MacAddr → String} (hmac : ∀ a, (mac a).length = 17) {rt : Rt}
    (hw : rt.WF) (hn : rt.entries.length ≤ 95443) (hb : 32 ≤ sizeBits) :
    ∃ output, aodvDbRtReport sizeBits mac rt = some output ∧ output.Fits := by
  obtain ⟨output, h⟩ := Option.isSome_iff_exists.mp (rtReport_isSome sizeBits mac hw)
  refine ⟨output, h, ?_⟩
  rw [rtReport_fits_iff hmac h, reportSize_small hn hb]
  omega

/-- A report fits exactly if its lines are as long as the buffer at most: the lines of a timeslot in 1024
bytes, those of a table in what is left of 45000 bytes for every entry after two reductions. -/
theorem reports_fit_iff (sizeBits : Nat) {mac : MacAddr → String} (hmac : ∀ a, (mac a).length = 17) :
    (∀ α : Type, (timeslotReport (none : Option (Timeslot α))).Fits) ∧
    (∀ (α : Type) (ts : Timeslot α), (timeslotReport (some ts)).Fits ↔
      ∀ head, ts.elements.getLast? = some head →
        53 + decimalLength (ts.elements.length % 2 ^ 32) + min 127 (24 + decimalLength (head.purgeTime / 1000000)) +
          (ts.elements.map fun el => 16 + min 127 (8 + decimalLength (el.purgeTime / 1000000))).sum < 1024) ∧
    (∀ rt output, aodvDbRtReport sizeBits mac rt = some output → (output.Fits ↔
      276 + 184 * rt.entries.length < (150 * ((4 + 300 * rt.entries.length) % 2 ^ 32) + 1) % 2 ^ sizeBits)) ∧
    ∀ pdrNt, (aodvDbPdrNtReport sizeBits mac pdrNt).Fits ↔
      315 + (pdrNt.entries.map fun e => 192 + decimalLength e.helloInterv.toNat +
          decimalLength e.rcvdHelloCount.toNat + decimalLength e.expectedHellos.toNat +
          decimalLength e.nbRcvdHelloCount.toNat).sum <
        (150 * ((4 + 300 * pdrNt.entries.length) % 2 ^ 32) + 1) % 2 ^ sizeBits := by
  refine ⟨fun α => ?_, fun α ts => ?_, fun rt output h => rtReport_fits_iff hmac h,
    fun pdrNt => pdrReport_fits_iff hmac pdrNt⟩
  · simp only [timeslotReport, TextBuffer.Fits]
    decide
  · cases hl : ts.elements.getLast? with
    | none =>
      refine iff_of_true ?_ fun head hh => (Option.some_ne_none head hh.symm).elim
      simp only [timeslotReport, hl, TextBuffer.Fits]
      decide
    | some head =>
      rw [timeslotReport_fits_iff hl]
      refine ⟨fun h head' hh => ?_, fun h => h head rfl⟩
      obtain rfl := Option.some.inj hh
      exact h

/-- Objects that come within a second, as data packets of different sources do. -/
def crowded (n : Nat) : Timeslot Nat :=
  (List.range n).foldl (fun ts i =>
    (timeslotAddobject ts (1700000000000000 + i) (1700000000000000 + i) i).1) (timeslotCreate (msec 10000))

/-- Six bytes of two hexadecimal digits. -/
def hexMac (addr : MacAddr) : String :=
  let byte (i : Nat) : List Char :=
    [Nat.digitChar (addr.toNat / 16 ^ (2 * i + 1) % 16), Nat.digitChar (addr.toNat / 16 ^ (2 * i) % 16)]
  String.ofList (byte 5 ++ ':' :: byte 4 ++ ':' :: byte 3 ++ ':' :: byte 2 ++ ':' :: byte 1 ++ ':' :: byte 0)

theorem length_hexMac (addr : MacAddr) : (hexMac addr).length = 17 := String.length_ofList

theorem reports_fit_iff_hex :
    (timeslotReport (some (crowded 2))).Fits ∧
      ∀ output, aodvDbRtReport 64 hexMac (Rt.step aodvDbRtInit (.rrep 9 1 ⟨1, 16⟩ 1 0 0 0)) = some output →
        output.Fits :=
  ⟨((reports_fit_iff 64 length_hexMac).2.1 Nat (crowded 2)).mpr (by decide),
    fun output h => ((reports_fit_iff 64 length_hexMac).2.2.1 _ output h).mpr (by decide)⟩

/-- The report of 28 objects has 1041 characters. -/
theorem crowded_overruns :
    ¬ (timeslotReport (some (crowded 28))).Fits ∧ (timeslotReport (some (crowded 28))).overrun = true := by
  have hne : (crowded 28).elements ≠ [] := by decide
  have hten : ∀ el ∈ (crowded 28).elements, decimalLength (el.purgeTime / 1000000) = 10 := by decide
  have hlong : ¬ (timeslotReport (some (crowded 28))).Fits := by
    rw [timeslotReport_fits_iff_ten hne hten]
    decide
  refine ⟨hlong, ?_⟩
  rw [TextBuffer.fits_iff, Bool.not_eq_false] at hlong
  exact hlong

end DesAodv

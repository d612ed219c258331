import CoverageVP.Platform.UartFifos

/-!
# Delivery through the queues of the serial interface

Without new bytes and new accesses the threads come to rest. They never wait for each other in a circle,
so that at rest every accepted byte has been transmitted, and a read returns the oldest byte that was
received and not read.
-/

namespace CoverageVP.Platform

open Lib

namespace Uart

/-! ## Work -/

/-- The steps that the receiver has left. -/
def Receive.work : Receive → Nat
  | .idle => 0
  | .waiting _ => 5
  | .locking _ => 4
  | .pushing _ => 3
  | .unlocking => 2
  | .notifying => 1

/-- The steps that the transmitter has left for the byte that it has claimed. -/
def Transmit.work : Transmit → Nat
  | .waiting => 0
  | .locking => 5
  | .popping => 4
  | .unlocking _ => 3
  | .notifying _ => 2
  | .writing _ => 1

/-- At least the steps that the bus has left, and those of the transmitter for the byte that it is going
to post. -/
def Bus.work : Bus → Nat
  | .idle => 0
  | .readCalling _ _ | .irqTriggering _ => 1
  | .txdataUnlocking _ | .rxdataUnlocking _ | .ipRxUnlocking _ _ | .irqTxUnlocking _ => 2
  | .txdataReading _ | .rxdataPosting _ | .ipRxReading _ _ | .irqTxReading _ => 3
  | .txdataLocking _ | .rxdataPopping _ | .ipRxLocking _ _ | .irqTxLocking _ => 4
  | .rxdataLocking _ | .ipTxUnlocking _ _ | .irqTx _ => 5
  | .ipTxReading _ | .irqRxUnlocking _ => 6
  | .ipTxLocking _ | .irqRxReading | .posting => 7
  | .irqRxLocking | .pushUnlocking _ => 8
  | .irqRx | .pushing _ => 9
  | .pushChecking _ => 10
  | .pushLocking _ => 11
  | .notifying _ => 12
  | .writeCalling _ _ => 13

/-- The moves of the threads on their own. -/
def threads : List Move := [.receive, .bus, .transmit]

variable (s : Uart)

/-- A bound for the steps of the threads: the transmitter takes six for each byte that is posted. -/
def work : Nat := s.receive.work + s.bus.work + s.transmit.work + 6 * s.txfull

/-- No thread can take a step. -/
def Settled : Prop := ∀ m ∈ threads, ∀ s', step s m ≠ .ok s'

variable {s} {s' : Uart}

theorem receiveStep_work (h : s.receiveStep = .ok s') : s'.work < s.work := by
  obtain ⟨regs, txFifo, rxFifo, txfull, rxempty, txmtx, rcvmtx, asyncEvent, receive, bus, transmit,
    pushed, reads, accepted, transmitted, notifications, triggers⟩ := s
  cases receive with
  | idle => cases h
  | waiting data =>
    obtain ⟨-, rfl⟩ := ite_error_eq_ok.mp h
    simp only [work, Receive.work]
    omega
  | locking data =>
    obtain ⟨-, h⟩ := lockRcv_bind_eq_ok.mp h
    cases h
    simp only [work, Receive.work]
    omega
  | pushing data | unlocking | notifying =>
    cases h
    simp only [work, notify, Receive.work]
    omega

theorem transmitStep_work (h : s.transmitStep = .ok s') : s'.work < s.work := by
  obtain ⟨regs, txFifo, rxFifo, txfull, rxempty, txmtx, rcvmtx, asyncEvent, receive, bus, transmit,
    pushed, reads, accepted, transmitted, notifications, triggers⟩ := s
  cases transmit with
  | waiting =>
    obtain ⟨hcount, rfl⟩ := ite_error_eq_ok.mp h
    have hpos : txfull ≠ 0 := hcount
    simp only [work, Transmit.work]
    omega
  | locking =>
    obtain ⟨-, h⟩ := lockTx_bind_eq_ok.mp h
    cases h
    simp only [work, Transmit.work]
    omega
  | popping =>
    cases txFifo with
    | nil => cases h
    | cons data rest =>
      cases h
      simp only [work, Transmit.work]
      omega
  | unlocking data | notifying data | writing data =>
    cases h
    simp only [work, notify, Transmit.work]
    omega

theorem busStep_work (h : s.busStep = .ok s') : s'.work < s.work := by
  obtain ⟨regs, txFifo, rxFifo, txfull, rxempty, txmtx, rcvmtx, asyncEvent, receive, bus, transmit,
    pushed, reads, accepted, transmitted, notifications, triggers⟩ := s
  cases bus with
  | idle => cases h
  | txdataLocking r | ipTxLocking r | pushLocking w | irqTxLocking trigger =>
    obtain ⟨-, h⟩ := lockTx_bind_eq_ok.mp h
    cases h
    simp only [work, Bus.work]
    omega
  | rxdataLocking r | ipRxLocking r ret | irqRxLocking =>
    obtain ⟨-, h⟩ := lockRcv_bind_eq_ok.mp h
    cases h
    simp only [work, Bus.work]
    omega
  | rxdataPopping r =>
    cases rxFifo with
    | nil | cons data rest =>
      cases h
      simp only [work, setReg, Bus.work]
      omega
  | writeCalling w notify =>
    cases h
    simp only [work, setReg]
    split
    case isTrue =>
      simp only [Bus.work]
      omega
    case isFalse =>
      split <;> simp only [Bus.work] <;> omega
  | notifying w =>
    cases h
    simp only [work, notify]
    split <;> simp only [Bus.work] <;> omega
  | pushChecking w =>
    change (if fifoDepth ≤ txFifo.length then _ else _) = _ at h
    split at h <;>
      cases h <;>
      simp only [work, Bus.work] <;>
      omega
  | pushUnlocking pushed =>
    cases h
    simp only [work]
    split <;> simp only [Bus.work] <;> omega
  | irqRx | irqTx trigger =>
    cases h
    simp only [work]
    split <;> simp only [Bus.work] <;> omega
  | txdataReading r | ipTxReading r | irqTxReading trigger | txdataUnlocking r | ipTxUnlocking r ret
  | irqTxUnlocking trigger | ipRxReading r ret | irqRxReading | rxdataUnlocking r
  | ipRxUnlocking r ret | irqRxUnlocking trigger | rxdataPosting r | readCalling reg r | pushing w
  | posting
  | irqTriggering trigger =>
    cases h
    simp only [work, setReg, Bus.work]
    omega

theorem step_work {m : Move} (hm : m ∈ threads) (h : step s m = .ok s') : s'.work < s.work := by
  simp only [threads, List.mem_cons, List.not_mem_nil, or_false] at hm
  obtain rfl | rfl | rfl := hm
  · exact receiveStep_work h
  · exact busStep_work h
  · exact transmitStep_work h

theorem length_le_work {moves : List Move} (hmoves : ∀ m ∈ moves, m ∈ threads)
    (h : moves.foldlM step s = .ok s') : moves.length + s'.work ≤ s.work := by
  induction moves generalizing s with
  | nil =>
    cases h
    exact (Nat.zero_add _).le
  | cons m moves ih =>
    rw [List.foldlM_cons] at h
    obtain ⟨s₁, hm, h⟩ := bind_eq_ok.mp h
    have hstep := step_work (hmoves m List.mem_cons_self) hm
    have hrest := ih (fun m hm ↦ hmoves m (List.mem_cons_of_mem _ hm)) h
    rw [List.length_cons]
    omega

/-! ## Waiting -/

theorem lockTx_bind_eq_error {t : Thread} {f : Uart → Uart} {e : Stop}
    (h : (s.lockTx t >>= fun s ↦ return f s) = .error e) : e = .blocked ∧ s.txmtx ≠ none := by
  unfold lockTx at h
  split at h
  case isTrue => cases h
  case isFalse hlocked =>
    cases h
    exact ⟨rfl, hlocked⟩

theorem lockRcv_bind_eq_error {t : Thread} {f : Uart → Uart} {e : Stop}
    (h : (s.lockRcv t >>= fun s ↦ return f s) = .error e) : e = .blocked ∧ s.rcvmtx ≠ none := by
  unfold lockRcv at h
  split at h
  case isTrue => cases h
  case isFalse hlocked =>
    cases h
    exact ⟨rfl, hlocked⟩

/-- The receiver waits for a byte, for room or for the lock. -/
theorem receiveStep_eq_error {e : Stop} (h : s.receiveStep = .error e) :
    e = .blocked ∧ s.receive.locks = false ∧
      (s.receive = .idle ∨ (∃ data, s.receive = .waiting data) ∧ s.rxempty = 0 ∨ s.rcvmtx ≠ none) := by
  obtain ⟨regs, txFifo, rxFifo, txfull, rxempty, txmtx, rcvmtx, asyncEvent, receive, bus, transmit,
    pushed, reads, accepted, transmitted, notifications, triggers⟩ := s
  cases receive with
  | idle =>
    cases h
    exact ⟨rfl, rfl, .inl rfl⟩
  | waiting data =>
    change (if rxempty = 0 then _ else _) = _ at h
    split at h
    case isTrue hzero =>
      cases h
      exact ⟨rfl, rfl, .inr (.inl ⟨⟨data, rfl⟩, hzero⟩)⟩
    case isFalse => cases h
  | locking data =>
    obtain ⟨rfl, hlocked⟩ := lockRcv_bind_eq_error h
    exact ⟨rfl, rfl, .inr (.inr hlocked)⟩
  | pushing data | unlocking | notifying => cases h

/-- The transmitter waits for a byte or for the lock. -/
theorem transmitStep_eq_error {e : Stop} (htx : s.txCounted.Balanced fifoDepth)
    (h : s.transmitStep = .error e) :
    e = .blocked ∧ s.transmit.locks = false ∧
      (s.transmit = .waiting ∧ s.txfull = 0 ∨ s.txmtx ≠ none) := by
  obtain ⟨regs, txFifo, rxFifo, txfull, rxempty, txmtx, rcvmtx, asyncEvent, receive, bus, transmit,
    pushed, reads, accepted, transmitted, notifications, triggers⟩ := s
  cases transmit with
  | waiting =>
    change (if txfull = 0 then _ else _) = _ at h
    split at h
    case isTrue hzero =>
      cases h
      exact ⟨rfl, rfl, .inl ⟨rfl, hzero⟩⟩
    case isFalse => cases h
  | locking =>
    obtain ⟨rfl, hlocked⟩ := lockTx_bind_eq_error h
    exact ⟨rfl, rfl, .inr hlocked⟩
  | popping =>
    cases txFifo with
    | nil => exact absurd rfl (htx.queue_ne_nil Nat.one_pos)
    | cons data rest => cases h
  | unlocking data | notifying data | writing data => cases h

/-- The bus waits for an access or for one of the locks. -/
theorem busStep_eq_error {e : Stop} (h : s.busStep = .error e) :
    e = .blocked ∧ s.bus.locksTx = false ∧ s.bus.locksRcv = false ∧
      (s.bus = .idle ∨ s.txmtx ≠ none ∨ s.rcvmtx ≠ none) := by
  obtain ⟨regs, txFifo, rxFifo, txfull, rxempty, txmtx, rcvmtx, asyncEvent, receive, bus, transmit,
    pushed, reads, accepted, transmitted, notifications, triggers⟩ := s
  cases bus with
  | idle =>
    cases h
    exact ⟨rfl, rfl, rfl, .inl rfl⟩
  | txdataLocking r | ipTxLocking r | pushLocking w | irqTxLocking trigger =>
    obtain ⟨rfl, hlocked⟩ := lockTx_bind_eq_error h
    exact ⟨rfl, rfl, rfl, .inr (.inl hlocked)⟩
  | rxdataLocking r | ipRxLocking r ret | irqRxLocking =>
    obtain ⟨rfl, hlocked⟩ := lockRcv_bind_eq_error h
    exact ⟨rfl, rfl, rfl, .inr (.inr hlocked)⟩
  | rxdataPopping r => cases rxFifo with
    | nil | cons data rest => cases h
  | pushChecking w =>
    change (if fifoDepth ≤ txFifo.length then _ else _) = _ at h
    split at h <;> cases h
  | writeCalling w notify | notifying w | pushUnlocking pushed | irqRx | irqTx trigger
  | txdataReading r | ipTxReading r | irqTxReading trigger | txdataUnlocking r | ipTxUnlocking r ret
  | irqTxUnlocking trigger | ipRxReading r ret | irqRxReading | rxdataUnlocking r
  | ipRxUnlocking r ret | irqRxUnlocking trigger | rxdataPosting r | readCalling reg r | pushing w
  | posting
  | irqTriggering trigger => cases h

/-- A step that is not taken waits: the transmitter never takes a byte out of an empty queue. -/
theorem Consistent.blocked (hs : s.Consistent) {m : Move} {e : Stop} (h : s.step m = .error e) :
    e = .blocked := by
  cases m with
  | receive => exact (receiveStep_eq_error h).1
  | bus => exact (busStep_eq_error h).1
  | transmit => exact (transmitStep_eq_error hs.tx h).1
  | rxpush data | request r | interrupt =>
    change (if _ then _ else _) = _ at h
    split at h <;> cases h
    rfl

section Settled

variable (hs : s.Consistent) (hsettled : s.Settled)

include hsettled

theorem Settled.error {m : Move} (hm : m ∈ threads) : ∃ e, step s m = .error e := by
  cases h : step s m with
  | ok s' => exact absurd h (hsettled m hm s')
  | error e => exact ⟨e, rfl⟩

include hs

/-- What the threads wait for. -/
theorem Settled.waits :
    (s.receive.locks = false ∧
      (s.receive = .idle ∨ (∃ data, s.receive = .waiting data) ∧ s.rxempty = 0 ∨ s.rcvmtx ≠ none)) ∧
    (s.bus.locksTx = false ∧ s.bus.locksRcv = false ∧
      (s.bus = .idle ∨ s.txmtx ≠ none ∨ s.rcvmtx ≠ none)) ∧
    s.transmit.locks = false ∧ (s.transmit = .waiting ∧ s.txfull = 0 ∨ s.txmtx ≠ none) := by
  obtain ⟨_, hreceive⟩ := hsettled.error (m := .receive) (by simp [threads])
  obtain ⟨_, hbus⟩ := hsettled.error (m := .bus) (by simp [threads])
  obtain ⟨_, htransmit⟩ := hsettled.error (m := .transmit) (by simp [threads])
  exact ⟨(receiveStep_eq_error hreceive).2, (busStep_eq_error hbus).2,
    (transmitStep_eq_error hs.tx htransmit).2⟩

/-- A thread that waits for a lock has none, so that nobody waits for a lock. -/
theorem Settled.unlocked : s.txmtx = none ∧ s.rcvmtx = none := by
  obtain ⟨⟨hreceive, -⟩, ⟨hbusTx, hbusRcv, -⟩, htransmit, -⟩ := Settled.waits hs hsettled
  constructor
  · apply hs.txm.owner_eq_none
    intro t
    cases t with
    | receive => rfl
    | bus => exact hbusTx
    | transmit => exact htransmit
  · apply hs.rcv.owner_eq_none
    intro t
    cases t with
    | receive => exact hreceive
    | bus => exact hbusRcv
    | transmit => rfl

/-- The receiver has no byte or no room, the bus has no access, and the transmitter has no byte. -/
theorem Settled.positions :
    (s.receive = .idle ∨ (∃ data, s.receive = .waiting data) ∧ s.rxempty = 0) ∧ s.bus = .idle ∧
      s.transmit = .waiting ∧ s.txfull = 0 := by
  obtain ⟨htxmtx, hrcvmtx⟩ := Settled.unlocked hs hsettled
  obtain ⟨⟨-, hreceive⟩, ⟨-, -, hbus⟩, -, htransmit⟩ := Settled.waits hs hsettled
  rw [htxmtx] at hbus htransmit
  rw [hrcvmtx] at hreceive hbus
  simp only [ne_eq, not_true_eq_false, or_false] at hreceive hbus htransmit
  exact ⟨hreceive, hbus, htransmit⟩

theorem Settled.transmitted_eq : s.transmitted = s.accepted.map Writing.byte := by
  obtain ⟨-, hbus, htransmit, hcount⟩ := Settled.positions hs hsettled
  have hconserves : s.accepted.map Writing.byte =
      s.transmitted ++ s.transmit.carried ++ s.txFifo ++ s.accepting := hs.tx.conserves
  have helements : s.txFifo.length = s.txfull + s.bus.unposted + s.transmit.claimed := hs.tx.elements
  have hqueue : s.txFifo = [] := by
    apply List.eq_nil_of_length_eq_zero
    rw [helements, hcount, hbus, htransmit]
    rfl
  have haccepting : s.accepting = [] := by
    rw [accepting, hbus]
    rfl
  rw [hconserves, hqueue, haccepting, htransmit]
  simp only [Transmit.carried, List.append_nil]

/-- What a read of `rxdata` does at rest. -/
theorem Settled.read {data : BitVec 8} {rest : List (BitVec 8)} (hqueue : s.rxFifo = data :: rest)
    (r : Read) :
    ∃ s', [.request (.read .rxdata r), .bus, .bus, .bus, .bus, .bus].foldlM step s = .ok s' ∧
      s'.reads = s.reads ++ [⟨r, data.setWidth 32, r.data (data.setWidth 32)⟩] := by
  obtain ⟨-, hrcvmtx⟩ := Settled.unlocked hs hsettled
  obtain ⟨-, hbus, -⟩ := Settled.positions hs hsettled
  obtain ⟨regs, txFifo, rxFifo, txfull, rxempty, txmtx, rcvmtx, asyncEvent, receive, bus, transmit,
    pushed, reads, accepted, transmitted, notifications, triggers⟩ := s
  subst hqueue hrcvmtx hbus
  exact ⟨_, rfl, rfl⟩

end Settled

/-! ## Runs -/

/-- The bytes that were received have been returned by reads, exactly once and in this order, are held by
a read that has not ended, or are waiting. -/
def ReturnsAll (s : Uart) : Prop :=
  s.pushed = s.reads.filterMap Reading.returned ++ s.holding ++ s.rxFifo ++ s.receive.carried

instance : Decidable s.ReturnsAll := inferInstanceAs (Decidable (_ = _))

/-- What holds of the queues whatever the order of the steps was. -/
structure Disciplined (s : Uart) : Prop where
  rx_le : s.rxFifo.length ≤ fifoDepth
  rx_entries : s.rxempty + s.rxFifo.length + s.receive.pending + s.bus.freed = fifoDepth
  tx_le : s.txFifo.length ≤ fifoDepth
  defined : ∀ m, step s m ≠ .error .undefined
  received : s.pushed =
    s.reads.filterMap Reading.taken ++ s.holding ++ s.rxFifo ++ s.receive.carried
  returned : ∀ r ∈ s.reads, r.returned = if r.read.Covers then r.taken else none
  returnsAll_iff : s.ReturnsAll ↔ ∀ r ∈ s.reads, r.taken.isSome → r.read.Covers
  sent : s.accepted.map Writing.byte =
    s.transmitted ++ s.transmit.carried ++ s.txFifo ++ s.accepting
  written : ∀ a ∈ s.accepted, a.write.Covers → a.write.data.head? = some a.byte

/-- All bytes are returned if and only if every read that takes one covers it. -/
theorem Consistent.returnsAll_iff (hs : s.Consistent) :
    s.ReturnsAll ↔ ∀ r ∈ s.reads, r.taken.isSome → r.read.Covers := by
  have hreceived : s.pushed =
      s.reads.filterMap Reading.taken ++ s.holding ++ s.rxFifo ++ s.receive.carried := hs.rx.conserves
  have hreturned : ∀ r ∈ s.reads, r.returned = none ∨ r.returned = r.taken := by
    intro r hr
    rw [hs.recorded.returned_eq hr]
    split
    case isTrue => exact .inr rfl
    case isFalse => exact .inl rfl
  rw [ReturnsAll, hreceived]
  simp only [List.append_left_inj]
  rw [eq_comm, filterMap_eq_filterMap_iff hreturned]
  refine forall₂_congr fun r hr ↦ ?_
  rw [hs.recorded.returned_eq hr]
  cases htaken : r.taken with
  | none => simp
  | some byte => simp

theorem Consistent.disciplined (hs : s.Consistent) : s.Disciplined where
  rx_le := by
    have hentries : s.rxempty + s.rxFifo.length + s.receive.pending + s.bus.freed = fifoDepth :=
      hs.rx.entries
    omega
  rx_entries := hs.rx.entries
  tx_le := (Nat.le_add_right _ _).trans hs.tx.room
  defined := by
    intro m h
    have hblocked := hs.blocked h
    cases hblocked
  received := hs.rx.conserves
  returned := fun _ hr ↦ hs.recorded.returned_eq hr
  returnsAll_iff := hs.returnsAll_iff
  sent := hs.tx.conserves
  written := hs.recorded.accepted

/-- In every run the queues are disciplined. From there the threads come to rest after a bounded number
of steps in whatever order they take them, and at rest every accepted byte has been transmitted, the
bytes that were received have been read or are waiting, and a read that covers the next one returns it. -/
theorem fifo_discipline {moves : List Move} (h : moves.foldlM step initial = .ok s) :
    s.Disciplined ∧ ∀ (more : List Move) s', (∀ m ∈ more, m ∈ threads) → more.foldlM step s = .ok s' →
      more.length ≤ s.work ∧ (s'.Settled →
        s'.transmitted = s'.accepted.map Writing.byte ∧
        s'.pushed = s'.reads.filterMap Reading.taken ++ s'.rxFifo ++ s'.receive.carried ∧
        ∀ data rest (r : Read), s'.rxFifo = data :: rest →
          ∃ s'', [.request (.read .rxdata r), .bus, .bus, .bus, .bus, .bus].foldlM step s' = .ok s'' ∧
            s''.reads = s'.reads ++ [⟨r, data.setWidth 32, r.data (data.setWidth 32)⟩] ∧
            (r.Covers → (r.data (data.setWidth 32)).head? = some data)) := by
  have hs := consistent_of_run h
  refine ⟨hs.disciplined, fun more s' hmore hrun ↦ ⟨?_, fun hsettled ↦ ?_⟩⟩
  · exact (Nat.le_add_right _ _).trans (length_le_work hmore hrun)
  · have hs' : s'.Consistent := invariant_of_foldlM (fun _ _ _ hs h ↦ hs.step h) more hs hrun
    refine ⟨hsettled.transmitted_eq hs', ?_, fun data rest r hqueue ↦ ?_⟩
    · have hreceived := hs'.disciplined.received
      obtain ⟨-, hbus, -⟩ := hsettled.positions hs'
      rw [holding, hbus] at hreceived
      simpa only [Bus.returning, Bool.false_eq_true, if_false, List.append_nil] using hreceived
    · obtain ⟨s'', hread, hreads⟩ := hsettled.read hs' hqueue r
      refine ⟨s'', hread, hreads, fun hcovers ↦ ?_⟩
      rw [hcovers.head_data, BitVec.setWidth_setWidth_of_le _ (by decide), BitVec.setWidth_eq]

/-- A byte is received and read while another one is written, and transmitted. -/
def exchange : List Move :=
  [.rxpush 0x61#8, .receive, .receive,
    .request (.write ⟨.txdata, 0, [0x62#8, 0#8, 0#8, 0#8], [], le_rfl⟩), .bus, .bus, .bus, .receive, .bus,
    .receive, .bus, .bus, .transmit, .request (.read .rxdata ⟨0, 4, le_rfl⟩), .transmit, .bus, .bus,
    .transmit, .receive, .bus, .bus, .bus, .transmit, .transmit, .transmit]

theorem fifo_discipline_exchange :
    exchange.foldlM step initial = .ok (outcome (exchange.foldlM step initial) initial) ∧
      (outcome (exchange.foldlM step initial) initial).Disciplined ∧
      (outcome (exchange.foldlM step initial) initial).reads.map Reading.data =
        [[0x61#8, 0#8, 0#8, 0#8]] ∧
      (outcome (exchange.foldlM step initial) initial).transmitted = [0x62#8] := by
  have hrun := eq_ok_of_isOk (m := exchange.foldlM step initial) (by decide +kernel) initial
  exact ⟨hrun, (fifo_discipline hrun).1, by decide +kernel, by decide +kernel⟩

/-- A byte is received and the upper half of `rxdata` is read, and a byte is written to the second place
of `txdata`. -/
def upperBytes : List Move :=
  [.rxpush 0x61#8] ++ List.replicate 5 .receive ++
    [.request (.read .rxdata ⟨2, 2, le_rfl⟩)] ++ List.replicate 5 .bus ++
    [.request (.write ⟨.txdata, 1, [0x62#8], [], by decide⟩)] ++ List.replicate 6 .bus ++
    List.replicate 6 .transmit

/-- The byte that was received is lost, and another byte than the one that was written is transmitted. -/
theorem not_returnsAll_upperBytes :
    ∃ s, upperBytes.foldlM step initial = .ok s ∧ ¬ s.ReturnsAll ∧
      s.pushed = [0x61#8] ∧ s.reads.map Reading.data = [[0#8, 0#8]] ∧ s.rxFifo = [] ∧
      s.accepted.map (fun a ↦ a.write.data) = [[0x62#8]] ∧ s.transmitted = [0#8] := by
  have hrun := eq_ok_of_isOk (m := upperBytes.foldlM step initial) (by decide +kernel) initial
  exact ⟨_, hrun, by decide +kernel, by decide +kernel, by decide +kernel, by decide +kernel,
    by decide +kernel, by decide +kernel⟩

end Uart

end CoverageVP.Platform

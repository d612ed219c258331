import CoverageVP.Lib.Channel
import CoverageVP.Lib.Checks
import CoverageVP.Platform.Uart

/-!
# The queues of the serial interface

Whatever the order of the steps is, the semaphores account for the queues and for the threads that are
between a semaphore and a queue, a queue is accessed by one thread at a time, and no byte is lost,
duplicated or overtaken between the threads.
-/

namespace CoverageVP.Platform

open Lib

namespace Uart

/-! ## Positions of the threads -/

/-- The receiver has waited for room and not pushed its byte yet. -/
def Receive.pending : Receive → Nat
  | .locking _ => 1
  | .pushing _ => 1
  | _ => 0

/-- The byte that the receiver has been given and not pushed yet. -/
def Receive.carried : Receive → List (BitVec 8)
  | .waiting data => [data]
  | .locking data => [data]
  | .pushing data => [data]
  | _ => []

def Receive.locks : Receive → Bool
  | .pushing _ => true
  | .unlocking => true
  | _ => false

/-- The transmitter has waited for a byte and not taken it yet. -/
def Transmit.claimed : Transmit → Nat
  | .locking => 1
  | .popping => 1
  | _ => 0

/-- The byte that the transmitter has taken and not written yet. -/
def Transmit.carried : Transmit → List (BitVec 8)
  | .unlocking data => [data]
  | .notifying data => [data]
  | .writing data => [data]
  | _ => []

def Transmit.locks : Transmit → Bool
  | .popping => true
  | .unlocking _ => true
  | _ => false

/-- The bus has taken a byte and not posted the room yet. -/
def Bus.freed : Bus → Nat
  | .rxdataPosting _ => 1
  | _ => 0

/-- The bus has pushed a byte and not posted it yet. -/
def Bus.unposted : Bus → Nat
  | .pushUnlocking true => 1
  | .posting => 1
  | _ => 0

def Bus.locksRcv : Bus → Bool
  | .rxdataPopping _ => true
  | .rxdataPosting _ => true
  | .rxdataUnlocking _ => true
  | .ipRxReading _ _ => true
  | .ipRxUnlocking _ _ => true
  | .irqRxReading => true
  | .irqRxUnlocking _ => true
  | _ => false

def Bus.locksTx : Bus → Bool
  | .txdataReading _ => true
  | .txdataUnlocking _ => true
  | .ipTxReading _ => true
  | .ipTxUnlocking _ _ => true
  | .pushChecking _ => true
  | .pushing _ => true
  | .pushUnlocking _ => true
  | .irqTxReading _ => true
  | .irqTxUnlocking _ => true
  | _ => false

/-- The register `rxdata` holds what a read is going to return. -/
def Bus.returning : Bus → Bool
  | .rxdataPosting _ => true
  | .rxdataUnlocking _ => true
  | .readCalling .rxdata _ => true
  | _ => false

/-- The bus has accepted a byte and not pushed it yet. -/
def Bus.accepts : Bus → Bool
  | .pushing _ => true
  | _ => false

/-- The byte of a value of `rxdata`, unless it says that the queue was empty. -/
def rxByte (value : BitVec 32) : Option (BitVec 8) :=
  if value &&& FULL = 0#32 then some (value.setWidth 8) else none

/-- The byte that a read of `rxdata` took out of the queue. -/
def Reading.taken (r : Reading) : Option (BitVec 8) := rxByte r.value

/-- A read covers the byte of `rxdata`. -/
def Read.Covers (r : Read) : Prop := r.off = 0 ∧ 0 < r.len

instance (r : Read) : Decidable r.Covers := inferInstanceAs (Decidable (_ ∧ _))

/-- A write covers the byte of `txdata`. -/
def Write.Covers (w : Write) : Prop := w.off = 0 ∧ 0 < w.data.length

instance (w : Write) : Decidable w.Covers := inferInstanceAs (Decidable (_ ∧ _))

/-- The byte of the queue that is among the bytes that a read returned. -/
def Reading.returned (r : Reading) : Option (BitVec 8) :=
  if r.read.Covers ∧ r.taken.isSome then r.data.head? else none

/-- The byte that the bus is going to push is the first one of its write. -/
def Bus.Wrote (byte : BitVec 8) : Bus → Prop
  | .notifying w => w.reg = .txdata → w.Covers → w.data.head? = some byte
  | .pushLocking w => w.Covers → w.data.head? = some byte
  | .pushChecking w => w.Covers → w.data.head? = some byte
  | .pushing w => w.Covers → w.data.head? = some byte
  | _ => True

/-! ## Abstraction -/

variable (s : Uart)

/-- The byte that the bus has taken and whose read has not ended yet. -/
def holding : List (BitVec 8) :=
  if s.bus.returning then (rxByte (s.regs .rxdata)).toList else []

/-- The byte that the bus has accepted and not pushed yet. -/
def accepting : List (BitVec 8) := if s.bus.accepts then [s.txByte] else []

/-- The receive queue from the receiver to the reads of `rxdata`. -/
def rxCredits : Credits (BitVec 8) where
  channel := ⟨s.pushed, s.receive.carried, s.rxFifo, s.holding, s.reads.filterMap Reading.taken⟩
  free := s.rxempty
  taken := s.receive.pending
  freed := s.bus.freed

/-- The transmit queue from the writes of `txdata` to the transmitter. -/
def txCounted : Counted (BitVec 8) where
  channel := ⟨s.accepted.map Writing.byte, s.accepting, s.txFifo, s.transmit.carried, s.transmitted⟩
  count := s.txfull
  unposted := s.bus.unposted
  claimed := s.transmit.claimed

def rcvLock : Lock Thread where
  owner := s.rcvmtx
  holds
    | .receive => s.receive.locks
    | .bus => s.bus.locksRcv
    | .transmit => false

def txLock : Lock Thread where
  owner := s.txmtx
  holds
    | .receive => false
    | .bus => s.bus.locksTx
    | .transmit => s.transmit.locks

/-- A step of the interface is a step of each of its queues and locks. -/
structure Refines (s s' : Uart) : Prop where
  rx : Credits.Step s.rxCredits s'.rxCredits
  tx : Counted.Step fifoDepth s.txCounted s'.txCounted
  rcv : Lock.Step s.rcvLock s'.rcvLock
  txm : Lock.Step s.txLock s'.txLock

variable {s} {s' : Uart}

theorem lockTx_bind_eq_ok {t : Thread} {f : Uart → Except Stop Uart} :
    (s.lockTx t >>= f) = .ok s' ↔ s.txmtx = none ∧ f { s with txmtx := some t } = .ok s' := by
  unfold lockTx
  split
  case isTrue h => exact (and_iff_right h).symm
  case isFalse h =>
    refine iff_of_false (fun h' ↦ ?_) fun h' ↦ h h'.1
    cases h'

theorem lockRcv_bind_eq_ok {t : Thread} {f : Uart → Except Stop Uart} :
    (s.lockRcv t >>= f) = .ok s' ↔ s.rcvmtx = none ∧ f { s with rcvmtx := some t } = .ok s' := by
  unfold lockRcv
  split
  case isTrue h => exact (and_iff_right h).symm
  case isFalse h =>
    refine iff_of_false (fun h' ↦ ?_) fun h' ↦ h h'.1
    cases h'

section Locks

variable (hreceive : s'.receive.locks = s.receive.locks) (htransmit : s'.transmit.locks = s.transmit.locks)

include hreceive

theorem rcvLock_stays (howner : s'.rcvmtx = s.rcvmtx) (hbus : s'.bus.locksRcv = s.bus.locksRcv) :
    Lock.Step s.rcvLock s'.rcvLock := by
  refine .stay howner fun t ↦ ?_
  cases t with
  | receive => exact hreceive
  | bus => exact hbus
  | transmit => rfl

theorem rcvLock_locks (hnone : s.rcvmtx = none) (howner : s'.rcvmtx = some .bus)
    (hbus : s'.bus.locksRcv = true) : Lock.Step s.rcvLock s'.rcvLock := by
  refine .lock .bus hnone howner hbus fun t ht ↦ ?_
  cases t with
  | receive => exact hreceive
  | bus => exact absurd rfl ht
  | transmit => rfl

theorem rcvLock_unlocks (hheld : s.bus.locksRcv = true) (howner : s'.rcvmtx = none)
    (hbus : s'.bus.locksRcv = false) : Lock.Step s.rcvLock s'.rcvLock := by
  refine .unlock .bus hheld howner hbus fun t ht ↦ ?_
  cases t with
  | receive => exact hreceive
  | bus => exact absurd rfl ht
  | transmit => rfl

omit hreceive

include htransmit

theorem txLock_stays (howner : s'.txmtx = s.txmtx) (hbus : s'.bus.locksTx = s.bus.locksTx) :
    Lock.Step s.txLock s'.txLock := by
  refine .stay howner fun t ↦ ?_
  cases t with
  | receive => rfl
  | bus => exact hbus
  | transmit => exact htransmit

theorem txLock_locks (hnone : s.txmtx = none) (howner : s'.txmtx = some .bus)
    (hbus : s'.bus.locksTx = true) : Lock.Step s.txLock s'.txLock := by
  refine .lock .bus hnone howner hbus fun t ht ↦ ?_
  cases t with
  | receive => rfl
  | bus => exact absurd rfl ht
  | transmit => exact htransmit

theorem txLock_unlocks (hheld : s.bus.locksTx = true) (howner : s'.txmtx = none)
    (hbus : s'.bus.locksTx = false) : Lock.Step s.txLock s'.txLock := by
  refine .unlock .bus hheld howner hbus fun t ht ↦ ?_
  cases t with
  | receive => rfl
  | bus => exact absurd rfl ht
  | transmit => exact htransmit

end Locks

/-! ## Steps of the threads -/

/-- The byte that is taken out of the queue is the one that is returned. -/
theorem rxByte_setWidth (data : BitVec 8) : rxByte (data.setWidth 32) = some data := by
  have hflags : ∀ n < 256, (BitVec.ofNat 8 n).setWidth 32 &&& FULL = 0#32 := by decide +kernel
  have hflag := hflags data.toNat data.isLt
  rw [BitVec.ofNat_toNat, BitVec.setWidth_eq] at hflag
  rw [rxByte, if_pos hflag, BitVec.setWidth_setWidth_of_le _ (by decide), BitVec.setWidth_eq]

theorem filterMap_taken_append (reads : List Reading) (r : Reading) :
    (reads ++ [r]).filterMap Reading.taken = reads.filterMap Reading.taken ++ r.taken.toList := by
  rw [List.filterMap_append]
  cases hbyte : r.taken with
  | none => rw [List.filterMap_cons_none hbyte]; rfl
  | some byte => rw [List.filterMap_cons_some hbyte]; rfl

theorem receiveStep_refines (h : s.receiveStep = .ok s') : Refines s s' := by
  obtain ⟨regs, txFifo, rxFifo, txfull, rxempty, txmtx, rcvmtx, asyncEvent, receive, bus, transmit,
    pushed, reads, accepted, transmitted, notifications, triggers⟩ := s
  cases receive with
  | idle => cases h
  | waiting data =>
    obtain ⟨hpos, rfl⟩ := ite_error_eq_ok.mp h
    exact ⟨.take (Nat.pos_of_ne_zero hpos), .stay _, rcvLock_stays rfl rfl rfl,
      txLock_stays rfl rfl rfl⟩
  | locking data =>
    obtain ⟨hnone, h⟩ := lockRcv_bind_eq_ok.mp h
    cases h
    refine ⟨.stay _, .stay _, .lock .receive hnone rfl rfl fun t ht ↦ ?_, txLock_stays rfl rfl rfl⟩
    cases t with
    | receive => exact absurd rfl ht
    | bus | transmit => rfl
  | pushing data =>
    cases h
    exact ⟨.enter rfl, .stay _, rcvLock_stays rfl rfl rfl, txLock_stays rfl rfl rfl⟩
  | unlocking =>
    cases h
    refine ⟨.stay _, .stay _, .unlock .receive rfl rfl rfl fun t ht ↦ ?_, txLock_stays rfl rfl rfl⟩
    cases t with
    | receive => exact absurd rfl ht
    | bus | transmit => rfl
  | notifying =>
    cases h
    exact ⟨.stay _, .stay _, rcvLock_stays rfl rfl rfl, txLock_stays rfl rfl rfl⟩

theorem transmitStep_refines (h : s.transmitStep = .ok s') : Refines s s' := by
  obtain ⟨regs, txFifo, rxFifo, txfull, rxempty, txmtx, rcvmtx, asyncEvent, receive, bus, transmit,
    pushed, reads, accepted, transmitted, notifications, triggers⟩ := s
  cases transmit with
  | waiting =>
    obtain ⟨hpos, rfl⟩ := ite_error_eq_ok.mp h
    exact ⟨.stay _, .claim (Nat.pos_of_ne_zero hpos), rcvLock_stays rfl rfl rfl,
      txLock_stays rfl rfl rfl⟩
  | locking =>
    obtain ⟨hnone, h⟩ := lockTx_bind_eq_ok.mp h
    cases h
    refine ⟨.stay _, .stay _, rcvLock_stays rfl rfl rfl, .lock .transmit hnone rfl rfl fun t ht ↦ ?_⟩
    cases t with
    | transmit => exact absurd rfl ht
    | bus | receive => rfl
  | popping =>
    cases txFifo with
    | nil => cases h
    | cons data rest =>
      cases h
      exact ⟨.stay _, .leave rfl Nat.one_pos, rcvLock_stays rfl rfl rfl, txLock_stays rfl rfl rfl⟩
  | unlocking data =>
    cases h
    refine ⟨.stay _, .stay _, rcvLock_stays rfl rfl rfl, .unlock .transmit rfl rfl rfl fun t ht ↦ ?_⟩
    cases t with
    | transmit => exact absurd rfl ht
    | bus | receive => rfl
  | notifying data =>
    cases h
    exact ⟨.stay _, .stay _, rcvLock_stays rfl rfl rfl, txLock_stays rfl rfl rfl⟩
  | writing data =>
    cases h
    exact ⟨.stay _, .deliver, rcvLock_stays rfl rfl rfl, txLock_stays rfl rfl rfl⟩

theorem busStep_refines (h : s.busStep = .ok s') : Refines s s' := by
  obtain ⟨regs, txFifo, rxFifo, txfull, rxempty, txmtx, rcvmtx, asyncEvent, receive, bus, transmit,
    pushed, reads, accepted, transmitted, notifications, triggers⟩ := s
  cases bus with
  | idle => cases h
  | txdataLocking r | ipTxLocking r | pushLocking w | irqTxLocking trigger =>
    obtain ⟨hnone, h⟩ := lockTx_bind_eq_ok.mp h
    cases h
    exact ⟨.stay _, .stay _, rcvLock_stays rfl rfl rfl, txLock_locks rfl hnone rfl rfl⟩
  | txdataReading r | ipTxReading r | irqTxReading trigger =>
    cases h
    exact ⟨.stay _, .stay _, rcvLock_stays rfl rfl rfl, txLock_stays rfl rfl rfl⟩
  | txdataUnlocking r | ipTxUnlocking r ret | irqTxUnlocking trigger =>
    cases h
    exact ⟨.stay _, .stay _, rcvLock_stays rfl rfl rfl, txLock_unlocks rfl rfl rfl rfl⟩
  | rxdataLocking r | ipRxLocking r ret | irqRxLocking =>
    obtain ⟨hnone, h⟩ := lockRcv_bind_eq_ok.mp h
    cases h
    exact ⟨.stay _, .stay _, rcvLock_locks rfl hnone rfl rfl, txLock_stays rfl rfl rfl⟩
  | ipRxReading r ret | irqRxReading =>
    cases h
    exact ⟨.stay _, .stay _, rcvLock_stays rfl rfl rfl, txLock_stays rfl rfl rfl⟩
  | rxdataUnlocking r | ipRxUnlocking r ret | irqRxUnlocking trigger =>
    cases h
    exact ⟨.stay _, .stay _, rcvLock_unlocks rfl rfl rfl rfl, txLock_stays rfl rfl rfl⟩
  | rxdataPopping r =>
    cases rxFifo with
    | nil =>
      cases h
      refine ⟨?_, .stay _, rcvLock_stays rfl rfl rfl, txLock_stays rfl rfl rfl⟩
      have hholding : (rxByte FULL).toList = [] := by decide
      refine Eq.subst (motive := Credits.Step _) ?_ (Credits.Step.stay _)
      exact congrArg (fun leaving ↦ Credits.mk (Channel.mk pushed receive.carried [] leaving
        (reads.filterMap Reading.taken)) rxempty receive.pending 0) hholding.symm
    | cons data rest =>
      cases h
      refine ⟨?_, .stay _, rcvLock_stays rfl rfl rfl, txLock_stays rfl rfl rfl⟩
      have hholding : (rxByte (data.setWidth 32)).toList = [] ++ [data] := by
        rw [rxByte_setWidth]
        rfl
      refine Eq.subst (motive := Credits.Step _) ?_ (Credits.Step.leave rfl)
      exact congrArg (fun leaving ↦ Credits.mk (Channel.mk pushed receive.carried rest leaving
        (reads.filterMap Reading.taken)) rxempty receive.pending 1) hholding.symm
  | rxdataPosting r =>
    cases h
    exact ⟨.post, .stay _, rcvLock_stays rfl rfl rfl, txLock_stays rfl rfl rfl⟩
  | readCalling reg r =>
    cases h
    refine ⟨?_, .stay _, rcvLock_stays rfl rfl rfl, txLock_stays rfl rfl rfl⟩
    by_cases hreg : reg = .rxdata
    · subst hreg
      have htaken := filterMap_taken_append reads ⟨r, regs .rxdata, r.data (regs .rxdata)⟩
      refine Eq.subst (motive := Credits.Step _) ?_ Credits.Step.deliver
      exact congrArg (fun output ↦ Credits.mk (Channel.mk pushed receive.carried rxFifo [] output)
        rxempty receive.pending 0) htaken.symm
    · cases reg with
      | rxdata => exact absurd rfl hreg
      | txdata | txctrl | rxctrl | ie | ip | div => exact .stay _
  | writeCalling w notify =>
    obtain ⟨reg, off, data, after, fits⟩ := w
    cases h
    cases notify <;> cases reg <;>
      exact ⟨.stay _, .stay _, rcvLock_stays rfl rfl rfl, txLock_stays rfl rfl rfl⟩
  | notifying w =>
    obtain ⟨reg, off, data, after, fits⟩ := w
    cases h
    cases reg <;> exact ⟨.stay _, .stay _, rcvLock_stays rfl rfl rfl, txLock_stays rfl rfl rfl⟩
  | pushChecking w =>
    change (if fifoDepth ≤ txFifo.length then _ else _) = _ at h
    split at h
    case isTrue =>
      cases h
      exact ⟨.stay _, .stay _, rcvLock_stays rfl rfl rfl, txLock_stays rfl rfl rfl⟩
    case isFalse hroom =>
      cases h
      refine ⟨.stay _, ?_, rcvLock_stays rfl rfl rfl, txLock_stays rfl rfl rfl⟩
      have haccepted : (accepted ++ [Writing.mk w ((regs .txdata).setWidth 8)]).map Writing.byte =
          accepted.map Writing.byte ++ [(regs .txdata).setWidth 8] := List.map_append
      refine Eq.subst (motive := Counted.Step fifoDepth _) ?_
        (Counted.Step.accept ((regs .txdata).setWidth 8) (Nat.lt_of_not_le hroom) rfl)
      exact congrArg (fun input ↦ Counted.mk (Channel.mk input [(regs .txdata).setWidth 8] txFifo
        transmit.carried transmitted) txfull 0 transmit.claimed) haccepted.symm
  | pushing w =>
    cases h
    exact ⟨.stay _, .enter, rcvLock_stays rfl rfl rfl, txLock_stays rfl rfl rfl⟩
  | pushUnlocking pushed =>
    cases h
    cases pushed <;>
      exact ⟨.stay _, .stay _, rcvLock_stays rfl rfl rfl, txLock_unlocks rfl rfl rfl rfl⟩
  | posting =>
    cases h
    exact ⟨.stay _, .post, rcvLock_stays rfl rfl rfl, txLock_stays rfl rfl rfl⟩
  | irqRx | irqTx trigger =>
    cases h
    split <;> exact ⟨.stay _, .stay _, rcvLock_stays rfl rfl rfl, txLock_stays rfl rfl rfl⟩
  | irqTriggering trigger =>
    cases h
    exact ⟨.stay _, .stay _, rcvLock_stays rfl rfl rfl, txLock_stays rfl rfl rfl⟩

theorem step_refines {m : Move} (h : step s m = .ok s') : Refines s s' := by
  cases m with
  | receive => exact receiveStep_refines h
  | bus => exact busStep_refines h
  | transmit => exact transmitStep_refines h
  | rxpush data =>
    obtain ⟨regs, txFifo, rxFifo, txfull, rxempty, txmtx, rcvmtx, asyncEvent, receive, bus, transmit,
      pushed, reads, accepted, transmitted, notifications, triggers⟩ := s
    obtain ⟨hidle, rfl⟩ := ite_ok_eq_ok.mp h
    subst hidle
    exact ⟨.accept data, .stay _, rcvLock_stays rfl rfl rfl, txLock_stays rfl rfl rfl⟩
  | request r =>
    obtain ⟨regs, txFifo, rxFifo, txfull, rxempty, txmtx, rcvmtx, asyncEvent, receive, bus, transmit,
      pushed, reads, accepted, transmitted, notifications, triggers⟩ := s
    obtain ⟨hidle, rfl⟩ := ite_ok_eq_ok.mp h
    subst hidle
    cases r with
    | read reg r =>
      cases reg <;> exact ⟨.stay _, .stay _, rcvLock_stays rfl rfl rfl, txLock_stays rfl rfl rfl⟩
    | write w => exact ⟨.stay _, .stay _, rcvLock_stays rfl rfl rfl, txLock_stays rfl rfl rfl⟩
  | interrupt =>
    obtain ⟨regs, txFifo, rxFifo, txfull, rxempty, txmtx, rcvmtx, asyncEvent, receive, bus, transmit,
      pushed, reads, accepted, transmitted, notifications, triggers⟩ := s
    obtain ⟨⟨hidle, -⟩, rfl⟩ := ite_ok_eq_ok.mp h
    subst hidle
    exact ⟨.stay _, .stay _, rcvLock_stays rfl rfl rfl, txLock_stays rfl rfl rfl⟩

/-! ## Accesses -/

theorem Read.Covers.head_data {r : Read} (h : r.Covers) (value : BitVec 32) :
    (r.data value).head? = some (value.setWidth 8) := by
  obtain ⟨hoff, hlen⟩ := h
  obtain ⟨len, hlen⟩ := Nat.exists_eq_succ_of_ne_zero hlen.ne'
  rw [Read.data, Bytes.read, hoff, hlen, List.range_succ_eq_map, List.map_cons, List.head?_cons]
  rfl

theorem Write.Covers.head_data {w : Write} (h : w.Covers) (old : BitVec 32) :
    w.data.head? = some ((w.value old).setWidth 8) := by
  obtain ⟨hoff, hlength⟩ := h
  obtain ⟨byte, data, hdata⟩ := List.exists_cons_of_length_pos hlength
  have hvalue : (w.value old).setWidth 8 = byte := by
    apply BitVec.eq_of_getLsbD_eq
    intro i hi
    rw [BitVec.getLsbD_setWidth, decide_eq_true hi, Bool.true_and, Write.value,
      Bytes.getLsbD_word _ (by decide) _ (by omega), hoff, hdata, Nat.div_eq_of_lt hi,
      Nat.mod_eq_of_lt hi]
    rfl
  rw [hdata, hvalue, List.head?_cons]

/-- What is recorded of the accesses: a read returned its bytes of the register, and a write that covers
the byte of `txdata` had its first byte put into the queue. -/
structure Recorded (s : Uart) : Prop where
  reads : ∀ r ∈ s.reads, r.data = r.read.data r.value
  accepted : ∀ a ∈ s.accepted, a.write.Covers → a.write.data.head? = some a.byte
  bus : s.bus.Wrote s.txByte

/-- The receiver and the transmitter leave the accesses to the bus. -/
structure Apart (s s' : Uart) : Prop where
  reads : s'.reads = s.reads
  accepted : s'.accepted = s.accepted
  bus : s'.bus = s.bus
  regs : s'.regs = s.regs

theorem receiveStep_apart (h : s.receiveStep = .ok s') : Apart s s' := by
  obtain ⟨regs, txFifo, rxFifo, txfull, rxempty, txmtx, rcvmtx, asyncEvent, receive, bus, transmit,
    pushed, reads, accepted, transmitted, notifications, triggers⟩ := s
  cases receive with
  | idle => cases h
  | waiting data =>
    obtain ⟨-, rfl⟩ := ite_error_eq_ok.mp h
    exact ⟨rfl, rfl, rfl, rfl⟩
  | locking data =>
    obtain ⟨-, h⟩ := lockRcv_bind_eq_ok.mp h
    cases h
    exact ⟨rfl, rfl, rfl, rfl⟩
  | pushing data | unlocking | notifying =>
    cases h
    exact ⟨rfl, rfl, rfl, rfl⟩

theorem transmitStep_apart (h : s.transmitStep = .ok s') : Apart s s' := by
  obtain ⟨regs, txFifo, rxFifo, txfull, rxempty, txmtx, rcvmtx, asyncEvent, receive, bus, transmit,
    pushed, reads, accepted, transmitted, notifications, triggers⟩ := s
  cases transmit with
  | waiting =>
    obtain ⟨-, rfl⟩ := ite_error_eq_ok.mp h
    exact ⟨rfl, rfl, rfl, rfl⟩
  | locking =>
    obtain ⟨-, h⟩ := lockTx_bind_eq_ok.mp h
    cases h
    exact ⟨rfl, rfl, rfl, rfl⟩
  | popping =>
    cases txFifo with
    | nil => cases h
    | cons data rest =>
      cases h
      exact ⟨rfl, rfl, rfl, rfl⟩
  | unlocking data | notifying data | writing data =>
    cases h
    exact ⟨rfl, rfl, rfl, rfl⟩

theorem Recorded.apart (hs : s.Recorded) (h : Apart s s') : s'.Recorded where
  reads := h.reads ▸ hs.reads
  accepted := h.accepted ▸ hs.accepted
  bus := by
    rw [txByte, h.bus, h.regs]
    exact hs.bus

/-- After a write of `txdata` that covers the byte, it is the one that is going to be transmitted. -/
theorem head_data_setReg {w : Write} (hreg : w.reg = .txdata) (hcovers : w.Covers) :
    w.data.head? = some (s.setReg w.reg (w.value (s.regs w.reg))).txByte := by
  have hvalue : (s.setReg w.reg (w.value (s.regs w.reg))).regs .txdata = w.value (s.regs w.reg) :=
    if_pos hreg.symm
  rw [txByte, hvalue]
  exact hcovers.head_data _

theorem Recorded.busStep (hs : s.Recorded) (h : s.busStep = .ok s') : s'.Recorded := by
  obtain ⟨regs, txFifo, rxFifo, txfull, rxempty, txmtx, rcvmtx, asyncEvent, receive, bus, transmit,
    pushed, reads, accepted, transmitted, notifications, triggers⟩ := s
  obtain ⟨hreads, haccepted, hbus⟩ := hs
  cases bus with
  | idle => cases h
  | txdataLocking r | ipTxLocking r | irqTxLocking trigger =>
    obtain ⟨-, h⟩ := lockTx_bind_eq_ok.mp h
    cases h
    exact ⟨hreads, haccepted, trivial⟩
  | rxdataLocking r | ipRxLocking r ret | irqRxLocking =>
    obtain ⟨-, h⟩ := lockRcv_bind_eq_ok.mp h
    cases h
    exact ⟨hreads, haccepted, trivial⟩
  | pushLocking w =>
    obtain ⟨-, h⟩ := lockTx_bind_eq_ok.mp h
    cases h
    exact ⟨hreads, haccepted, hbus⟩
  | rxdataPopping r =>
    cases rxFifo with
    | nil | cons data rest =>
      cases h
      exact ⟨hreads, haccepted, trivial⟩
  | readCalling reg r =>
    cases h
    refine ⟨fun a ha ↦ ?_, haccepted, trivial⟩
    dsimp only at ha
    split at ha
    case isFalse => exact hreads a ha
    case isTrue =>
      obtain ha | ha := List.mem_append.mp ha
      · exact hreads a ha
      · rw [List.mem_singleton.mp ha]
  | writeCalling w notify =>
    cases h
    refine ⟨hreads, haccepted, ?_⟩
    dsimp only
    split
    case isTrue => exact head_data_setReg
    case isFalse =>
      split
      case isTrue hreg => exact head_data_setReg hreg
      case isFalse => trivial
  | notifying w =>
    cases h
    refine ⟨hreads, haccepted, ?_⟩
    dsimp only
    split
    case isTrue hreg => exact hbus hreg
    case isFalse => trivial
  | pushChecking w =>
    change (if fifoDepth ≤ txFifo.length then _ else _) = _ at h
    split at h
    case isTrue =>
      cases h
      exact ⟨hreads, haccepted, trivial⟩
    case isFalse =>
      cases h
      refine ⟨hreads, fun a ha ↦ ?_, hbus⟩
      obtain ha | ha := List.mem_append.mp ha
      · exact haccepted a ha
      · rw [List.mem_singleton.mp ha]
        exact hbus
  | pushUnlocking pushed | irqRx | irqTx trigger =>
    cases h
    refine ⟨hreads, haccepted, ?_⟩
    dsimp only
    split <;> trivial
  | txdataReading r | ipTxReading r | irqTxReading trigger | txdataUnlocking r | ipTxUnlocking r ret
  | irqTxUnlocking trigger | ipRxReading r ret | irqRxReading | rxdataUnlocking r
  | ipRxUnlocking r ret | irqRxUnlocking trigger | rxdataPosting r | pushing w | posting
  | irqTriggering trigger =>
    cases h
    exact ⟨hreads, haccepted, trivial⟩

theorem Recorded.step (hs : s.Recorded) {m : Move} (h : s.step m = .ok s') : s'.Recorded := by
  cases m with
  | receive => exact hs.apart (receiveStep_apart h)
  | bus => exact hs.busStep h
  | transmit => exact hs.apart (transmitStep_apart h)
  | rxpush data =>
    obtain ⟨-, rfl⟩ := ite_ok_eq_ok.mp h
    exact ⟨hs.reads, hs.accepted, hs.bus⟩
  | request r =>
    obtain ⟨-, rfl⟩ := ite_ok_eq_ok.mp h
    refine ⟨hs.reads, hs.accepted, ?_⟩
    cases r with
    | read reg r => cases reg <;> trivial
    | write w => trivial
  | interrupt =>
    obtain ⟨-, rfl⟩ := ite_ok_eq_ok.mp h
    exact ⟨hs.reads, hs.accepted, trivial⟩

/-- A read that covers the byte of `rxdata` returns what it has taken, and any other one returns no byte
of the queue. -/
theorem Recorded.returned_eq (hs : s.Recorded) {r : Reading} (hr : r ∈ s.reads) :
    r.returned = if r.read.Covers then r.taken else none := by
  rw [Reading.returned, hs.reads r hr]
  by_cases hcovers : r.read.Covers
  · rw [if_pos hcovers, hcovers.head_data]
    unfold Reading.taken rxByte
    split
    case isTrue => exact if_pos ⟨hcovers, rfl⟩
    case isFalse => exact if_neg fun h ↦ Bool.false_ne_true h.2
  · rw [if_neg hcovers, if_neg fun h ↦ hcovers h.1]

/-- The queues are balanced, the locks are owned by the threads that unlock them, and the accesses are
recorded. -/
structure Consistent (s : Uart) : Prop where
  rx : s.rxCredits.Balanced fifoDepth
  tx : s.txCounted.Balanced fifoDepth
  rcv : s.rcvLock.Owned
  txm : s.txLock.Owned
  recorded : s.Recorded

theorem consistent_initial : initial.Consistent where
  rx := ⟨rfl, rfl⟩
  tx := ⟨rfl, by decide, rfl⟩
  rcv := by
    intro t
    cases t <;> exact iff_of_false Bool.false_ne_true (Option.some_ne_none _).symm
  txm := by
    intro t
    cases t <;> exact iff_of_false Bool.false_ne_true (Option.some_ne_none _).symm
  recorded := ⟨fun _ h ↦ absurd h List.not_mem_nil, fun _ h ↦ absurd h List.not_mem_nil, trivial⟩

theorem Consistent.step (hs : s.Consistent) {m : Move} (h : step s m = .ok s') : s'.Consistent := by
  have hrefines := step_refines h
  exact ⟨hs.rx.step hrefines.rx, hs.tx.step hrefines.tx, hs.rcv.step hrefines.rcv,
    hs.txm.step hrefines.txm, hs.recorded.step h⟩

theorem consistent_of_run {moves : List Move} (h : moves.foldlM step initial = .ok s) :
    s.Consistent :=
  invariant_of_foldlM (fun _ _ _ hs h ↦ hs.step h) moves consistent_initial h

end Uart

end CoverageVP.Platform

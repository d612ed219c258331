import CoverageVP.Platform.UartFifos

/-!
# The watermark interrupts of the serial interface

An interrupt is due while a queue is beyond its threshold. Nobody looks at the queues unless the event is
notified, so a step that makes an interrupt due has to be followed by a notification. The threads notify
after every change of a queue and after every write of `ie`, and after a write of a threshold only if it
is lowered: this is the direction in which the receive queue gets beyond its threshold, and not that of
the transmit queue.
-/

namespace CoverageVP.Platform

open Lib

namespace Uart

variable (s : Uart)

/-! ## Interrupts that are due -/

def rxWatermark : Bool := s.regs .ie &&& RXWM ≠ 0#32 && s.rxAbove

def txWatermark : Bool := s.regs .ie &&& TXWM ≠ 0#32 && s.txBelow

/-- The interrupt is due. -/
def Watermark : Prop := s.rxWatermark = true ∨ s.txWatermark = true

instance : Decidable s.Watermark := inferInstanceAs (Decidable (_ ∨ _))

/-- The thread that takes a move. -/
def Move.thread : Move → Thread
  | .receive | .rxpush _ => .receive
  | .bus | .request _ | .interrupt => .bus
  | .transmit => .transmit

/-- The next step of a thread. -/
def Thread.move : Thread → Move
  | .receive => .receive
  | .bus => .bus
  | .transmit => .transmit

/-- Whatever the other threads do, a thread can go on until it has notified the event, which it has after
a number of its steps. -/
def Notifies (t : Thread) : Prop :=
  ∃ k, ∀ (more : List Move) s', more.foldlM step s = .ok s' →
    (s.notifications < s'.notifications ∨ ∃ s'', step s' t.move = .ok s'') ∧
    (k ≤ more.countP (fun m ↦ m.thread = t) → s.notifications < s'.notifications)

/-- A move that makes the interrupt due is followed by a notification. -/
def Notified (m : Move) : Prop :=
  ∀ s', step s m = .ok s' → ¬ s.Watermark → s'.Watermark → s'.Notifies m.thread

/-- A write moves a threshold such that a queue gets beyond it, while the interrupt is not due. -/
def Crosses (w : Write) : Prop :=
  match w.reg with
  | .txctrl =>
    s.regs .ie &&& TXWM ≠ 0#32 ∧ s.rxWatermark = false ∧
      ctrlCnt (s.regs .txctrl) ≤ s.txFifo.length ∧ s.txFifo.length < ctrlCnt (w.value (s.regs .txctrl))
  | .rxctrl =>
    s.regs .ie &&& RXWM ≠ 0#32 ∧ s.txWatermark = false ∧
      s.rxFifo.length ≤ ctrlCnt (s.regs .rxctrl) ∧ ctrlCnt (w.value (s.regs .rxctrl)) < s.rxFifo.length
  | _ => False

/-- A write of a threshold that makes the interrupt due lowers the threshold. -/
def Noticed (m : Move) : Prop :=
  ∀ w notify, m = .bus → s.bus = .writeCalling w notify → s.Crosses w → s.lowers w = true

variable {s} {s' : Uart}

theorem watermark_of_le (hregs : ∀ reg, reg = .ie ∨ reg = .rxctrl ∨ reg = .txctrl →
      s'.regs reg = s.regs reg) (hrx : s.rxFifo.length ≤ s'.rxFifo.length)
    (htx : s'.txFifo.length ≤ s.txFifo.length) (h : s.Watermark) : s'.Watermark := by
  unfold Watermark rxWatermark txWatermark rxAbove txBelow at *
  rw [hregs .ie (.inl rfl), hregs .rxctrl (.inr (.inl rfl)), hregs .txctrl (.inr (.inr rfl))]
  simp only [Bool.and_eq_true, decide_eq_true_eq] at *
  obtain ⟨hie, hlt⟩ | ⟨hie, hlt⟩ := h
  · exact .inl ⟨hie, hlt.trans_le hrx⟩
  · exact .inr ⟨hie, htx.trans_lt hlt⟩

/-- What the receiver and the transmitter leave to the bus. -/
structure Around (s s' : Uart) : Prop where
  bus : s'.bus = s.bus
  regs : s'.regs = s.regs
  rx : s.rxFifo.length ≤ s'.rxFifo.length
  tx : s'.txFifo.length ≤ s.txFifo.length
  notifications : s.notifications ≤ s'.notifications
  triggers : s'.triggers = s.triggers

theorem receiveStep_around (h : s.receiveStep = .ok s') :
    Around s s' ∧ s'.transmit = s.transmit ∧
      (s'.Watermark → s.Watermark ∨ s'.receive = .unlocking) := by
  obtain ⟨regs, txFifo, rxFifo, txfull, rxempty, txmtx, rcvmtx, asyncEvent, receive, bus, transmit,
    pushed, reads, accepted, transmitted, notifications, triggers⟩ := s
  cases receive with
  | idle => cases h
  | waiting data =>
    obtain ⟨-, rfl⟩ := ite_error_eq_ok.mp h
    exact ⟨⟨rfl, rfl, le_rfl, le_rfl, le_rfl, rfl⟩, rfl, fun h ↦ .inl h⟩
  | locking data =>
    obtain ⟨-, h⟩ := lockRcv_bind_eq_ok.mp h
    cases h
    exact ⟨⟨rfl, rfl, le_rfl, le_rfl, le_rfl, rfl⟩, rfl, fun h ↦ .inl h⟩
  | pushing data =>
    cases h
    refine ⟨⟨rfl, rfl, ?_, le_rfl, le_rfl, rfl⟩, rfl, fun _ ↦ .inr rfl⟩
    exact (List.sublist_append_left _ _).length_le
  | unlocking =>
    cases h
    exact ⟨⟨rfl, rfl, le_rfl, le_rfl, le_rfl, rfl⟩, rfl, fun h ↦ .inl h⟩
  | notifying =>
    cases h
    exact ⟨⟨rfl, rfl, le_rfl, le_rfl, Nat.le_succ _, rfl⟩, rfl, fun h ↦ .inl h⟩

theorem transmitStep_around (h : s.transmitStep = .ok s') :
    Around s s' ∧ s'.receive = s.receive ∧
      (s'.Watermark → s.Watermark ∨ ∃ data, s'.transmit = .unlocking data) := by
  obtain ⟨regs, txFifo, rxFifo, txfull, rxempty, txmtx, rcvmtx, asyncEvent, receive, bus, transmit,
    pushed, reads, accepted, transmitted, notifications, triggers⟩ := s
  cases transmit with
  | waiting =>
    obtain ⟨-, rfl⟩ := ite_error_eq_ok.mp h
    exact ⟨⟨rfl, rfl, le_rfl, le_rfl, le_rfl, rfl⟩, rfl, fun h ↦ .inl h⟩
  | locking =>
    obtain ⟨-, h⟩ := lockTx_bind_eq_ok.mp h
    cases h
    exact ⟨⟨rfl, rfl, le_rfl, le_rfl, le_rfl, rfl⟩, rfl, fun h ↦ .inl h⟩
  | popping =>
    cases txFifo with
    | nil => cases h
    | cons data rest =>
      cases h
      exact ⟨⟨rfl, rfl, le_rfl, Nat.le_succ _, le_rfl, rfl⟩, rfl,
        fun _ ↦ .inr ⟨data, rfl⟩⟩
  | unlocking data | writing data =>
    cases h
    exact ⟨⟨rfl, rfl, le_rfl, le_rfl, le_rfl, rfl⟩, rfl, fun h ↦ .inl h⟩
  | notifying data =>
    cases h
    exact ⟨⟨rfl, rfl, le_rfl, le_rfl, Nat.le_succ _, rfl⟩, rfl, fun h ↦ .inl h⟩

/-- What the bus does to the rest: only a write of a register may make the interrupt due. -/
structure Within (s s' : Uart) : Prop where
  receive : s'.receive = s.receive
  transmit : s'.transmit = s.transmit
  notifications : s.notifications ≤ s'.notifications
  triggers : s.triggers ≤ s'.triggers
  called : ∀ w notify, s'.bus ≠ .writeCalling w notify
  watermark : (∀ w notify, s.bus ≠ .writeCalling w notify) → s'.Watermark → s.Watermark

theorem busStep_within (h : s.busStep = .ok s') : Within s s' := by
  obtain ⟨regs, txFifo, rxFifo, txfull, rxempty, txmtx, rcvmtx, asyncEvent, receive, bus, transmit,
    pushed, reads, accepted, transmitted, notifications, triggers⟩ := s
  cases bus with
  | idle => cases h
  | txdataLocking r | ipTxLocking r | pushLocking w | irqTxLocking trigger =>
    obtain ⟨-, h⟩ := lockTx_bind_eq_ok.mp h
    cases h
    exact ⟨rfl, rfl, le_rfl, le_rfl, by simp, fun _ h ↦ h⟩
  | rxdataLocking r | ipRxLocking r ret | irqRxLocking =>
    obtain ⟨-, h⟩ := lockRcv_bind_eq_ok.mp h
    cases h
    exact ⟨rfl, rfl, le_rfl, le_rfl, by simp, fun _ h ↦ h⟩
  | rxdataPopping r =>
    cases rxFifo with
    | nil =>
      cases h
      exact ⟨rfl, rfl, le_rfl, le_rfl, by simp, fun _ h ↦ h⟩
    | cons data rest =>
      cases h
      refine ⟨rfl, rfl, le_rfl, le_rfl, by simp, fun _ ↦ watermark_of_le (fun reg hreg ↦ ?_) ?_ ?_⟩
      · obtain rfl | rfl | rfl := hreg <;> rfl
      · exact Nat.le_succ _
      · exact le_rfl
  | pushing w =>
    cases h
    refine ⟨rfl, rfl, le_rfl, le_rfl, by simp, fun _ ↦ watermark_of_le ?_ ?_ ?_⟩
    · exact fun _ _ ↦ rfl
    · exact le_rfl
    · exact (List.sublist_append_left _ _).length_le
  | pushChecking w =>
    change (if fifoDepth ≤ txFifo.length then _ else _) = _ at h
    split at h <;>
      cases h <;>
      exact ⟨rfl, rfl, le_rfl, le_rfl, by simp, fun _ h ↦ h⟩
  | writeCalling w notify =>
    cases h
    refine ⟨rfl, rfl, le_rfl, le_rfl, fun w' notify' hcalled ↦ ?_, fun hcalled ↦ ?_⟩
    · dsimp only at hcalled
      split at hcalled
      case isTrue => cases hcalled
      case isFalse => split at hcalled <;> cases hcalled
    · exact absurd rfl (hcalled w notify)
  | notifying w =>
    cases h
    refine ⟨rfl, rfl, Nat.le_succ _, le_rfl, fun w' notify' hcalled ↦ ?_, fun _ h ↦ h⟩
    dsimp only at hcalled
    split at hcalled <;> cases hcalled
  | pushUnlocking pushed | irqRx | irqTx trigger =>
    cases h
    refine ⟨rfl, rfl, le_rfl, le_rfl, fun w' notify' hcalled ↦ ?_, fun _ h ↦ h⟩
    dsimp only at hcalled
    split at hcalled <;> cases hcalled
  | irqTriggering trigger =>
    cases h
    refine ⟨rfl, rfl, le_rfl, ?_, by simp, fun _ h ↦ h⟩
    dsimp only
    split
    case isTrue => exact Nat.le_succ _
    case isFalse => exact le_rfl
  | txdataReading r | ipTxReading r | irqTxReading trigger | txdataUnlocking r | ipTxUnlocking r ret
  | irqTxUnlocking trigger | ipRxReading r ret | irqRxReading | rxdataUnlocking r
  | ipRxUnlocking r ret | irqRxUnlocking trigger | rxdataPosting r | readCalling reg r | posting =>
    cases h
    exact ⟨rfl, rfl, le_rfl, le_rfl, by simp, fun _ h ↦ h⟩

/-! ## Notifications -/

/-- The steps up to the notification that the receiver is going to make. -/
def Receive.remaining : Receive → Nat
  | .unlocking => 2
  | .notifying => 1
  | _ => 0

/-- The steps up to the notification that the transmitter is going to make. -/
def Transmit.remaining : Transmit → Nat
  | .unlocking _ => 2
  | .notifying _ => 1
  | _ => 0

/-- The steps up to the notification that the bus is going to make. -/
def Bus.remaining : Bus → Nat
  | .notifying _ => 1
  | _ => 0

def remaining (s : Uart) : Thread → Nat
  | .receive => s.receive.remaining
  | .bus => s.bus.remaining
  | .transmit => s.transmit.remaining

/-- A thread that is going to notify does so, or is one of its steps nearer to it. -/
def Nears (t : Thread) (m : Move) (s s' : Uart) : Prop :=
  s.notifications < s'.notifications ∨
    0 < s'.remaining t ∧ s'.remaining t + (decide (m.thread = t)).toNat ≤ s.remaining t

/-- The other threads leave the position of a thread. -/
theorem nears_of_eq {t : Thread} {m : Move} (hm : m.thread ≠ t) (hpos : 0 < s.remaining t)
    (h : s'.remaining t = s.remaining t) : Nears t m s s' := by
  right
  rw [h, decide_eq_false hm]
  exact ⟨hpos, le_rfl⟩

theorem receiveStep_nears (hpos : 0 < s.remaining .receive) (h : s.receiveStep = .ok s') :
    Nears .receive .receive s s' := by
  obtain ⟨regs, txFifo, rxFifo, txfull, rxempty, txmtx, rcvmtx, asyncEvent, receive, bus, transmit,
    pushed, reads, accepted, transmitted, notifications, triggers⟩ := s
  cases receive with
  | idle | waiting data | locking data | pushing data => cases hpos
  | unlocking =>
    cases h
    exact .inr ⟨Nat.one_pos, le_rfl⟩
  | notifying =>
    cases h
    exact .inl (Nat.lt_succ_self _)

theorem transmitStep_nears (hpos : 0 < s.remaining .transmit) (h : s.transmitStep = .ok s') :
    Nears .transmit .transmit s s' := by
  obtain ⟨regs, txFifo, rxFifo, txfull, rxempty, txmtx, rcvmtx, asyncEvent, receive, bus, transmit,
    pushed, reads, accepted, transmitted, notifications, triggers⟩ := s
  cases transmit with
  | waiting | locking | popping | writing data => cases hpos
  | unlocking data =>
    cases h
    exact .inr ⟨Nat.one_pos, le_rfl⟩
  | notifying data =>
    cases h
    exact .inl (Nat.lt_succ_self _)

theorem Bus.notifying_of_remaining {bus : Bus} (hpos : 0 < bus.remaining) :
    ∃ w, bus = .notifying w := by
  unfold remaining at hpos
  split at hpos
  case h_1 w => exact ⟨w, rfl⟩
  case h_2 => cases hpos

theorem busStep_nears (hpos : 0 < s.remaining .bus) (h : s.busStep = .ok s') :
    Nears .bus .bus s s' := by
  obtain ⟨w, hbus⟩ := Bus.notifying_of_remaining hpos
  rw [busStep, hbus] at h
  cases h
  exact .inl (Nat.lt_succ_self _)

/-- A thread that is going to notify is not idle, so that nothing else starts on it. -/
theorem step_nears {t : Thread} {m : Move} (hpos : 0 < s.remaining t) (h : step s m = .ok s') :
    Nears t m s s' := by
  cases m with
  | receive =>
    obtain ⟨haround, htransmit, -⟩ := receiveStep_around h
    cases t with
    | receive => exact receiveStep_nears hpos h
    | bus => exact nears_of_eq Thread.noConfusion hpos (congrArg Bus.remaining haround.bus)
    | transmit => exact nears_of_eq Thread.noConfusion hpos (congrArg Transmit.remaining htransmit)
  | bus =>
    have hwithin := busStep_within h
    cases t with
    | receive => exact nears_of_eq Thread.noConfusion hpos (congrArg Receive.remaining hwithin.receive)
    | bus => exact busStep_nears hpos h
    | transmit =>
      exact nears_of_eq Thread.noConfusion hpos (congrArg Transmit.remaining hwithin.transmit)
  | transmit =>
    obtain ⟨haround, hreceive, -⟩ := transmitStep_around h
    cases t with
    | receive => exact nears_of_eq Thread.noConfusion hpos (congrArg Receive.remaining hreceive)
    | bus => exact nears_of_eq Thread.noConfusion hpos (congrArg Bus.remaining haround.bus)
    | transmit => exact transmitStep_nears hpos h
  | rxpush data =>
    obtain ⟨hidle, rfl⟩ := ite_ok_eq_ok.mp h
    cases t with
    | receive =>
      rw [remaining, hidle] at hpos
      cases hpos
    | bus | transmit => exact nears_of_eq Thread.noConfusion hpos rfl
  | request r =>
    obtain ⟨hidle, rfl⟩ := ite_ok_eq_ok.mp h
    cases t with
    | bus =>
      rw [remaining, hidle] at hpos
      cases hpos
    | receive | transmit => exact nears_of_eq Thread.noConfusion hpos rfl
  | interrupt =>
    obtain ⟨⟨hidle, -⟩, rfl⟩ := ite_ok_eq_ok.mp h
    cases t with
    | bus =>
      rw [remaining, hidle] at hpos
      cases hpos
    | receive | transmit => exact nears_of_eq Thread.noConfusion hpos rfl

theorem step_notifications_le {m : Move} (h : step s m = .ok s') :
    s.notifications ≤ s'.notifications := by
  cases m with
  | receive => exact (receiveStep_around h).1.notifications
  | bus => exact (busStep_within h).notifications
  | transmit => exact (transmitStep_around h).1.notifications
  | rxpush data | request r | interrupt =>
    obtain ⟨-, rfl⟩ := ite_ok_eq_ok.mp h
    exact le_rfl

/-- A thread does not have to wait before the notification that it is going to make. -/
theorem step_of_remaining {t : Thread} (hpos : 0 < s.remaining t) : ∃ s', step s t.move = .ok s' := by
  obtain ⟨regs, txFifo, rxFifo, txfull, rxempty, txmtx, rcvmtx, asyncEvent, receive, bus, transmit,
    pushed, reads, accepted, transmitted, notifications, triggers⟩ := s
  cases t with
  | receive =>
    cases receive with
    | idle | waiting data | locking data | pushing data => cases hpos
    | unlocking | notifying => exact ⟨_, rfl⟩
  | bus =>
    obtain ⟨w, rfl⟩ := Bus.notifying_of_remaining hpos
    exact ⟨_, rfl⟩
  | transmit =>
    cases transmit with
    | waiting | locking | popping | writing data => cases hpos
    | unlocking data | notifying data => exact ⟨_, rfl⟩

theorem notifies_of_remaining {t : Thread} (hpos : 0 < s.remaining t) : s.Notifies t := by
  have hdone : ∀ s₁ m s₂, s.notifications < s₁.notifications → step s₁ m = .ok s₂ →
      s.notifications < s₂.notifications := by
    intro s₁ m s₂ hlt hstep
    exact hlt.trans_le (step_notifications_le hstep)
  have hgoing : ∀ s₁ m s₂, (0 < s₁.remaining t ∧ s.notifications ≤ s₁.notifications) →
      step s₁ m = .ok s₂ → s.notifications < s₂.notifications ∨
        (0 < s₂.remaining t ∧ s.notifications ≤ s₂.notifications) ∧
          s₂.remaining t + (decide (m.thread = t)).toNat ≤ s₁.remaining t := by
    rintro s₁ m s₂ ⟨hgoing, hle⟩ hstep
    obtain hlt | hnears := step_nears hgoing hstep
    · exact .inl (hle.trans_lt hlt)
    · exact .inr ⟨⟨hnears.1, hle.trans (step_notifications_le hstep)⟩, hnears.2⟩
  refine ⟨s.remaining t, fun more s' hrun ↦ ?_⟩
  obtain hlt | ⟨⟨hpos', -⟩, hle⟩ := progress_of_foldlM hdone hgoing more ⟨hpos, le_rfl⟩ hrun
  · exact ⟨.inl hlt, fun _ ↦ hlt⟩
  · refine ⟨.inr (step_of_remaining hpos'), fun hcount ↦ ?_⟩
    omega

/-- A bus without an access notifies nobody. -/
theorem not_notifies_of_idle (hbus : s.bus = .idle) : ¬ s.Notifies .bus := by
  rintro ⟨k, hnotifies⟩
  obtain ⟨hlt | ⟨s'', hstep⟩, -⟩ := hnotifies [] s rfl
  · exact lt_irrefl _ hlt
  · change s.busStep = _ at hstep
    rw [busStep, hbus] at hstep
    cases hstep

/-! ## Writes of registers -/

theorem becomes_iff (other : Bool) (enabled before after : Prop) :
    ¬ (other = true ∨ enabled ∧ before) ∧ (other = true ∨ enabled ∧ after) ↔
      enabled ∧ other = false ∧ ¬ before ∧ after := by
  cases other with
  | true => simp
  | false =>
    simp only [Bool.false_eq_true, false_or, true_and]
    tauto

/-- The writes that make the interrupt due, other than those of `ie`. -/
theorem setReg_watermark_iff {w : Write} (hreg : w.reg ≠ .ie) :
    ¬ s.Watermark ∧ (s.setReg w.reg (w.value (s.regs w.reg))).Watermark ↔ s.Crosses w := by
  obtain ⟨reg, off, data, after, fits⟩ := w
  cases reg with
  | ie => exact absurd rfl hreg
  | txdata | rxdata | ip | div =>
    refine iff_of_false ?_ not_false
    rintro ⟨hbefore, hafter⟩
    exact hbefore hafter
  | txctrl =>
    have hiff := becomes_iff s.rxWatermark (s.regs .ie &&& TXWM ≠ 0#32)
      (s.txFifo.length < ctrlCnt (s.regs .txctrl))
      (s.txFifo.length < ctrlCnt (Write.value ⟨.txctrl, off, data, after, fits⟩ (s.regs .txctrl)))
    rw [Nat.not_lt] at hiff
    rw [Crosses, ← hiff]
    simp only [Watermark, txWatermark, txBelow, Bool.and_eq_true, decide_eq_true_eq]
    rfl
  | rxctrl =>
    have hiff := becomes_iff s.txWatermark (s.regs .ie &&& RXWM ≠ 0#32)
      (ctrlCnt (s.regs .rxctrl) < s.rxFifo.length)
      (ctrlCnt (Write.value ⟨.rxctrl, off, data, after, fits⟩ (s.regs .rxctrl)) < s.rxFifo.length)
    have hor : ∀ s : Uart, s.Watermark ↔ s.txWatermark = true ∨ s.rxWatermark = true :=
      fun _ ↦ or_comm
    rw [Nat.not_lt] at hiff
    rw [Crosses, ← hiff, hor, hor]
    simp only [rxWatermark, rxAbove, Bool.and_eq_true, decide_eq_true_eq]
    rfl

/-- Of a write of a whole register the word of the access is the value. -/
theorem Write.value_eq_nv {w : Write} (h : w.data.length = 4) (old : BitVec 32) : w.value old = w.nv := by
  have hoff : w.off = 0 := by
    have hfits := w.fits
    omega
  rw [value, nv, hoff]
  apply Bytes.word_congr _ (by decide)
  intro i hi
  have hlt : i < w.data.length := hi.trans_eq h.symm
  rw [Nat.zero_add, Bytes.write, Bytes.write, if_pos (Nat.zero_le i), if_pos (Nat.zero_le i), Nat.sub_zero,
    List.getElem?_append_left hlt, List.getElem?_eq_getElem hlt]
  rfl

/-- If a write of a whole register gets a queue beyond its threshold, it lowers the threshold exactly if
the queue is the receive queue. -/
theorem Crosses.lowers_iff {w : Write} (h : s.Crosses w) (hwhole : w.data.length = 4) :
    s.lowers w = true ↔ w.reg = .rxctrl := by
  unfold Crosses at h
  rw [w.value_eq_nv hwhole, w.value_eq_nv hwhole] at h
  unfold lowers
  split at h
  case h_1 hreg =>
    rw [hreg]
    refine iff_of_false (fun hlt ↦ ?_) Register.noConfusion
    have hlt' := of_decide_eq_true (Bool.and_eq_true_iff.mp hlt).2
    omega
  case h_2 hreg =>
    rw [hreg]
    refine iff_of_true ?_ rfl
    refine Bool.and_eq_true_iff.mpr ⟨rfl, decide_eq_true ?_⟩
    omega
  case h_3 => exact h.elim

/-- The first half of a write knows the threshold that the second half changes. -/
def Announced (s : Uart) : Prop := ∀ w notify, s.bus = .writeCalling w notify → notify = s.lowers w

theorem Announced.step {m : Move} (hs : s.Announced) (h : s.step m = .ok s') : s'.Announced := by
  intro w notify hbus
  cases m with
  | receive =>
    have haround := (receiveStep_around h).1
    rw [lowers, haround.regs]
    exact hs w notify (haround.bus ▸ hbus)
  | transmit =>
    have haround := (transmitStep_around h).1
    rw [lowers, haround.regs]
    exact hs w notify (haround.bus ▸ hbus)
  | bus => exact absurd hbus ((busStep_within h).called w notify)
  | rxpush data =>
    obtain ⟨-, rfl⟩ := ite_ok_eq_ok.mp h
    exact hs w notify hbus
  | request r =>
    obtain ⟨-, rfl⟩ := ite_ok_eq_ok.mp h
    cases r with
    | read reg r => cases reg <;> cases hbus
    | write w' =>
      cases hbus
      rfl
  | interrupt =>
    obtain ⟨-, rfl⟩ := ite_ok_eq_ok.mp h
    cases hbus

theorem Crosses.reg_eq {w : Write} (h : s.Crosses w) : w.reg = .txctrl ∨ w.reg = .rxctrl := by
  unfold Crosses at h
  split at h
  case h_1 hreg => exact .inl hreg
  case h_2 hreg => exact .inr hreg
  case h_3 => exact h.elim

/-- A write of a register notifies if it is one of `ie`, or if it was announced that it lowers a
threshold. -/
theorem writeCalling_notified_iff {w : Write} {notify : Bool} (hbus : s.bus = .writeCalling w notify) :
    s.Notified .bus ↔ (s.Crosses w → notify = true) := by
  have hstep : s.step .bus = .ok { s.setReg w.reg (w.value (s.regs w.reg)) with
      bus := if notify || w.reg = .ie then .notifying w
        else if w.reg = .txdata then .pushLocking w else .idle } := by
    change s.busStep = _
    rw [busStep, hbus]
  constructor
  · intro hnotified hcrosses
    have hie : w.reg ≠ .ie := by
      obtain hreg | hreg := hcrosses.reg_eq <;>
        rw [hreg] <;>
        exact Register.noConfusion
    have htxdata : w.reg ≠ .txdata := by
      obtain hreg | hreg := hcrosses.reg_eq <;>
        rw [hreg] <;>
        exact Register.noConfusion
    obtain ⟨hbefore, hafter⟩ := (setReg_watermark_iff hie).mpr hcrosses
    by_contra hfalse
    refine not_notifies_of_idle ?_ (hnotified _ hstep hbefore hafter)
    dsimp only
    rw [Bool.eq_false_iff.mpr hfalse, Bool.false_or, decide_eq_false hie, if_neg Bool.false_ne_true,
      if_neg htxdata]
  · intro hcrosses s' h hbefore hafter
    rw [hstep] at h
    cases h
    have hnotify : (notify || decide (w.reg = .ie)) = true := by
      by_cases hie : w.reg = .ie
      · rw [decide_eq_true hie, Bool.or_true]
      · rw [hcrosses ((setReg_watermark_iff hie).mp ⟨hbefore, hafter⟩), Bool.true_or]
    apply notifies_of_remaining
    change 0 < Bus.remaining (if _ then _ else _)
    rw [if_pos hnotify]
    exact Nat.one_pos

/-- Only a write of a threshold can make the interrupt due without a notification. -/
theorem notified_of_not_writeCalling {m : Move}
    (hbus : m = .bus → ∀ w notify, s.bus ≠ .writeCalling w notify) : s.Notified m := by
  intro s' h hbefore hafter
  cases m with
  | receive =>
    apply notifies_of_remaining
    change 0 < s'.receive.remaining
    rw [((receiveStep_around h).2.2 hafter).resolve_left hbefore]
    exact Nat.two_pos
  | transmit =>
    obtain ⟨data, htransmit⟩ := ((transmitStep_around h).2.2 hafter).resolve_left hbefore
    apply notifies_of_remaining
    change 0 < s'.transmit.remaining
    rw [htransmit]
    exact Nat.two_pos
  | bus => exact absurd ((busStep_within h).watermark (hbus rfl) hafter) hbefore
  | rxpush data | request r | interrupt =>
    obtain ⟨-, rfl⟩ := ite_ok_eq_ok.mp h
    exact absurd hafter hbefore

theorem notified_iff_noticed (hs : s.Announced) (m : Move) : s.Notified m ↔ s.Noticed m := by
  by_cases hwrite : m = .bus ∧ ∃ w notify, s.bus = .writeCalling w notify
  · obtain ⟨rfl, w, notify, hbus⟩ := hwrite
    rw [writeCalling_notified_iff hbus, hs w notify hbus]
    constructor
    · intro h w' notify' _ hbus'
      cases hbus.symm.trans hbus'
      exact h
    · intro h
      exact h w notify rfl hbus
  · refine iff_of_true (notified_of_not_writeCalling fun hm w notify hbus ↦ ?_) ?_
    · exact hwrite ⟨hm, w, notify, hbus⟩
    · intro w notify hm hbus
      exact absurd ⟨hm, w, notify, hbus⟩ hwrite

theorem announced_initial : initial.Announced := by
  intro w notify hbus
  cases hbus

/-! ## The method for the interrupts -/

/-- The method is going to trigger the interrupt: what it has not looked at yet is still due, since the
other threads only fill the receive queue and empty the transmit queue. -/
def Seen (s : Uart) : Prop :=
  match s.bus with
  | .irqRx | .irqRxLocking | .irqRxReading => s.Watermark
  | .irqRxUnlocking trigger | .irqTx trigger | .irqTxLocking trigger | .irqTxReading trigger =>
    trigger = true ∨ s.txWatermark = true
  | .irqTxUnlocking trigger | .irqTriggering trigger => trigger = true
  | _ => False

theorem Around.txWatermark (h : Around s s') (hs : s.txWatermark = true) : s'.txWatermark = true := by
  unfold Uart.txWatermark txBelow at *
  rw [h.regs]
  simp only [Bool.and_eq_true, decide_eq_true_eq] at *
  exact ⟨hs.1, h.tx.trans_lt hs.2⟩

theorem Seen.around (hs : s.Seen) (h : Around s s') : s'.Seen := by
  have hwatermark : s.Watermark → s'.Watermark :=
    watermark_of_le (fun reg _ ↦ congrFun h.regs reg) h.rx h.tx
  unfold Seen at *
  rw [h.bus]
  split at hs
  case h_1 | h_2 | h_3 => exact hwatermark hs
  case h_4 | h_5 | h_6 | h_7 => exact hs.imp_right h.txWatermark
  case h_8 | h_9 => exact hs
  case h_10 => exact hs.elim

theorem Seen.busStep (hs : s.Seen) (h : s.busStep = .ok s') :
    s.triggers < s'.triggers ∨ s'.Seen := by
  unfold Seen at hs
  split at hs
  case h_1 hbus =>
    rw [Uart.busStep, hbus] at h
    cases h
    right
    by_cases hie : s.regs .ie &&& RXWM ≠ 0#32
    · rw [if_pos hie]
      exact hs
    · rw [if_neg hie]
      refine .inr (hs.resolve_left fun hrx ↦ hie ?_)
      exact of_decide_eq_true (Bool.and_eq_true_iff.mp hrx).1
  case h_2 hbus =>
    rw [Uart.busStep, hbus] at h
    obtain ⟨-, h⟩ := lockRcv_bind_eq_ok.mp h
    cases h
    exact .inr hs
  case h_3 hbus =>
    rw [Uart.busStep, hbus] at h
    cases h
    right
    exact hs.imp_left fun hrx ↦ (Bool.and_eq_true_iff.mp hrx).2
  case h_4 trigger hbus =>
    rw [Uart.busStep, hbus] at h
    cases h
    exact .inr hs
  case h_5 trigger hbus =>
    rw [Uart.busStep, hbus] at h
    cases h
    right
    by_cases hie : s.regs .ie &&& TXWM ≠ 0#32
    · rw [if_pos hie]
      exact hs
    · rw [if_neg hie]
      refine hs.resolve_right fun htx ↦ hie ?_
      exact of_decide_eq_true (Bool.and_eq_true_iff.mp htx).1
  case h_6 trigger hbus =>
    rw [Uart.busStep, hbus] at h
    obtain ⟨-, h⟩ := lockTx_bind_eq_ok.mp h
    cases h
    exact .inr hs
  case h_7 trigger hbus =>
    rw [Uart.busStep, hbus] at h
    cases h
    right
    exact Bool.or_eq_true_iff.mpr (hs.imp_right fun htx ↦ (Bool.and_eq_true_iff.mp htx).2)
  case h_8 trigger hbus =>
    rw [Uart.busStep, hbus] at h
    cases h
    exact .inr hs
  case h_9 trigger hbus =>
    rw [Uart.busStep, hbus] at h
    cases h
    left
    rw [if_pos hs]
    exact Nat.lt_succ_self _
  case h_10 => exact hs.elim

/-- The method triggers the interrupt or goes on. -/
theorem Seen.step {m : Move} (hs : s.Seen) (h : s.step m = .ok s') :
    s.triggers < s'.triggers ∨ s'.Seen ∧ s.triggers ≤ s'.triggers := by
  have hidle : s.bus ≠ .idle := by
    intro hbus
    rw [Seen, hbus] at hs
    exact hs
  cases m with
  | receive =>
    have haround := (receiveStep_around h).1
    exact .inr ⟨hs.around haround, haround.triggers.ge⟩
  | transmit =>
    have haround := (transmitStep_around h).1
    exact .inr ⟨hs.around haround, haround.triggers.ge⟩
  | bus => exact (hs.busStep h).imp_right fun hs' ↦ ⟨hs', (busStep_within h).triggers⟩
  | rxpush data =>
    obtain ⟨-, rfl⟩ := ite_ok_eq_ok.mp h
    exact .inr ⟨hs, le_rfl⟩
  | request r =>
    obtain ⟨hbus, -⟩ := ite_ok_eq_ok.mp h
    exact absurd hbus hidle
  | interrupt =>
    obtain ⟨⟨hbus, -⟩, -⟩ := ite_ok_eq_ok.mp h
    exact absurd hbus hidle

theorem step_triggers_le {m : Move} (h : step s m = .ok s') : s.triggers ≤ s'.triggers := by
  cases m with
  | receive => exact (receiveStep_around h).1.triggers.ge
  | bus => exact (busStep_within h).triggers
  | transmit => exact (transmitStep_around h).1.triggers.ge
  | rxpush data | request r | interrupt =>
    obtain ⟨-, rfl⟩ := ite_ok_eq_ok.mp h
    exact le_rfl

/-- A method that starts while the interrupt is due has triggered it when it has ended. -/
theorem interrupt_triggers (hdue : s.Watermark) (hstart : step s .interrupt = .ok s')
    {more : List Move} {s'' : Uart} (hrun : more.foldlM step s' = .ok s'') (hend : s''.bus = .idle) :
    s.triggers < s''.triggers := by
  obtain ⟨-, rfl⟩ := ite_ok_eq_ok.mp hstart
  have hstep : ∀ s₁ m s₂,
      (s.triggers < s₁.triggers ∨ s₁.Seen ∧ s.triggers ≤ s₁.triggers) → step s₁ m = .ok s₂ →
        s.triggers < s₂.triggers ∨ s₂.Seen ∧ s.triggers ≤ s₂.triggers := by
    rintro s₁ m s₂ (hlt | ⟨hseen, hle⟩) hstep
    · exact .inl (hlt.trans_le (step_triggers_le hstep))
    · obtain hlt | ⟨hseen', hle'⟩ := hseen.step hstep
      · exact .inl (hle.trans_lt hlt)
      · exact .inr ⟨hseen', hle.trans hle'⟩
  have hseen : Seen { s with asyncEvent := false, bus := .irqRx } := hdue
  obtain hlt | ⟨hseen, -⟩ := invariant_of_foldlM hstep more (.inr ⟨hseen, le_rfl⟩) hrun
  · exact hlt
  · rw [Seen, hend] at hseen
    exact hseen.elim

/-- Every move of a run that makes the interrupt due is followed by a notification exactly if every write
of a threshold that makes it due lowers the threshold. Whenever the method starts while the interrupt is
due, it has triggered the interrupt when it has ended. -/
theorem watermark_notified_iff (moves : List Move) :
    (Along step Notified initial moves ↔ Along step Noticed initial moves) ∧
      ∀ s, moves.foldlM step initial = .ok s → s.Watermark → ∀ s', step s .interrupt = .ok s' →
        ∀ (more : List Move) s'', more.foldlM step s' = .ok s'' → s''.bus = .idle →
          s.triggers < s''.triggers := by
  constructor
  · exact along_iff_of_invariant (I := Announced) (fun _ _ _ _ hs _ h ↦ hs.step h)
      (fun m _ _ hs ↦ notified_iff_noticed hs m) announced_initial
  · intro s _ hdue s' hstart more s'' hrun hend
    exact interrupt_triggers hdue hstart hrun hend

/-- The receive interrupt is enabled, and a byte is received. -/
def receivedByte : List Move :=
  [.request (.write ⟨.ie, 0, [2#8, 0#8, 0#8, 0#8], [], le_rfl⟩), .bus, .bus, .rxpush 0x61#8, .receive,
    .receive, .receive, .receive, .receive]

theorem watermark_notified_receivedByte :
    (outcome (receivedByte.foldlM step initial) initial).Watermark ∧
      (outcome (receivedByte.foldlM step initial) initial).triggers <
        (outcome ((receivedByte ++ Move.interrupt :: List.replicate 6 Move.bus).foldlM step initial)
          initial).triggers := by
  have hrun := eq_ok_of_isOk (m := receivedByte.foldlM step initial) (by decide +kernel) initial
  have hdue : (outcome (receivedByte.foldlM step initial) initial).Watermark := by decide +kernel
  exact ⟨hdue, (watermark_notified_iff receivedByte).2 _ hrun hdue _ rfl (List.replicate 6 .bus) _ rfl
    rfl⟩

/-- The transmit interrupt is enabled, and its threshold is raised. -/
def raisedThreshold : List Move :=
  [.request (.write ⟨.ie, 0, [1#8, 0#8, 0#8, 0#8], [], le_rfl⟩), .bus, .bus,
    .request (.write ⟨.txctrl, 0, [0#8, 0#8, 1#8, 0#8], [], le_rfl⟩)]

theorem not_watermark_notified :
    ¬ Along step Notified initial (raisedThreshold ++ [.bus]) := by
  intro h
  have hrun := eq_ok_of_isOk (m := raisedThreshold.foldlM step initial) (by decide +kernel) initial
  have hnotified := Along.last raisedThreshold h hrun
  have hbus : (outcome (raisedThreshold.foldlM step initial) initial).bus =
      .writeCalling ⟨.txctrl, 0, [0#8, 0#8, 1#8, 0#8], [], le_rfl⟩ false := by
    decide +kernel
  have hnotify := (writeCalling_notified_iff hbus).mp hnotified
    ⟨by decide +kernel, by decide +kernel, by decide +kernel, by decide +kernel⟩
  cases hnotify

end Uart

end CoverageVP.Platform

import CoverageVP.Lib.Bits

/-!
# Control and status registers

The physical registers of the CSR table, the addresses they are mapped to, the masks of the
registers that are only partly readable or writable, and the bit fields that the simulator uses.
Several addresses can share one physical register.
-/

namespace CoverageVP.Iss

/-! ## Privilege levels -/

def UserMode : Nat := 0b00
def SupervisorMode : Nat := 0b01
def HypervisorMode : Nat := 0b10
def MachineMode : Nat := 0b11

/-- The physical registers. The 64-bit counters are kept as two halves. -/
inductive CsrReg
  | cycle | cycleh | time | timeh | instret | instreth
  | mvendorid | marchid | mimpid | mhartid
  | mstatus | misa | medeleg | mideleg | mie | mtvec | mcounteren | mcountinhibit
  | mscratch | mepc | mcause | mtval | mip
  | pmpaddr (i : Fin 16) | pmpcfg (i : Fin 4)
  | sedeleg | sideleg | stvec | scounteren | sscratch | sepc | scause | stval | satp
  | utvec | uscratch | uepc | ucause | utval
  | fcsr
  deriving DecidableEq, Repr

abbrev CsrTable := CsrReg → BitVec 32

namespace CsrTable

def set (csrs : CsrTable) (r : CsrReg) (value : BitVec 32) : CsrTable :=
  fun r' ↦ if r' = r then value else csrs r'

@[simp]
theorem set_self (csrs : CsrTable) (r : CsrReg) (value : BitVec 32) : csrs.set r value r = value :=
  if_pos rfl

theorem set_of_ne (csrs : CsrTable) {r r' : CsrReg} (value : BitVec 32) (h : r' ≠ r) :
    csrs.set r value r' = csrs r' :=
  if_neg h

/-- A 64-bit counter of two halves. -/
def set64 (csrs : CsrTable) (low high : CsrReg) (value : BitVec 64) : CsrTable :=
  (csrs.set low (value.setWidth 32)).set high (value.extractLsb' 32 32)

def get64 (csrs : CsrTable) (low high : CsrReg) : BitVec 64 := csrs high ++ csrs low

end CsrTable

/-! ## Bit fields -/

def field (v : BitVec 32) (start len : Nat) : BitVec len := v.extractLsb' start len

def setField (v : BitVec 32) (start : Nat) {len : Nat} (x : BitVec len) : BitVec 32 :=
  (v &&& ~~~((BitVec.allOnes len).setWidth 32 <<< start)) ||| (x.setWidth 32 <<< start)

theorem getLsbD_setField (v : BitVec 32) (start : Nat) {len i : Nat} (x : BitVec len)
    (hi : i < 32) :
    (setField v start x).getLsbD i =
      if start ≤ i ∧ i < start + len then x.getLsbD (i - start) else v.getLsbD i := by
  simp only [setField, BitVec.getLsbD_or, BitVec.getLsbD_and, BitVec.getLsbD_not,
    BitVec.getLsbD_shiftLeft, BitVec.getLsbD_setWidth, BitVec.getLsbD_allOnes]
  by_cases hstart : start ≤ i
  · have hlt : i - start < 32 := by omega
    by_cases hlen : i < start + len
    · have hin : i - start < len := by omega
      simp [hi, hlt, hstart, hlen, hin, Nat.not_lt.mpr hstart]
    · have hout : len ≤ i - start := by omega
      simp [hi, hstart, hlen, Nat.not_lt.mpr hstart, Nat.not_lt.mpr hout,
        BitVec.getLsbD_of_ge x _ hout]
  · simp [hi, hstart, Nat.not_le.mp hstart]

@[simp]
theorem field_setField_self (v : BitVec 32) {start len : Nat} (x : BitVec len)
    (h : start + len ≤ 32) : field (setField v start x) start len = x := by
  apply BitVec.eq_of_getLsbD_eq
  intro i hi
  rw [field, BitVec.getLsbD_extractLsb', getLsbD_setField v start x (by omega)]
  simp [hi]

theorem field_setField_of_disjoint (v : BitVec 32) {start len start' len' : Nat} (x : BitVec len)
    (h' : start' + len' ≤ 32) (hdisjoint : start' + len' ≤ start ∨ start + len ≤ start') :
    field (setField v start x) start' len' = field v start' len' := by
  apply BitVec.eq_of_getLsbD_eq
  intro i hi
  rw [field, field, BitVec.getLsbD_extractLsb', BitVec.getLsbD_extractLsb',
    getLsbD_setField v start x (by omega), if_neg (by omega)]

namespace CsrTable

variable (csrs : CsrTable)

def mstatusUie : BitVec 1 := field (csrs .mstatus) 0 1
def mstatusSie : BitVec 1 := field (csrs .mstatus) 1 1
def mstatusMie : BitVec 1 := field (csrs .mstatus) 3 1
def mstatusUpie : BitVec 1 := field (csrs .mstatus) 4 1
def mstatusSpie : BitVec 1 := field (csrs .mstatus) 5 1
def mstatusMpie : BitVec 1 := field (csrs .mstatus) 7 1
def mstatusSpp : BitVec 1 := field (csrs .mstatus) 8 1
def mstatusMpp : BitVec 2 := field (csrs .mstatus) 11 2
def mstatusMprv : BitVec 1 := field (csrs .mstatus) 17 1
def mstatusSum : BitVec 1 := field (csrs .mstatus) 18 1
def mstatusMxr : BitVec 1 := field (csrs .mstatus) 19 1
def mstatusTvm : BitVec 1 := field (csrs .mstatus) 20 1
def mstatusTw : BitVec 1 := field (csrs .mstatus) 21 1
def satpPpn : BitVec 22 := field (csrs .satp) 0 22
def satpMode : BitVec 1 := field (csrs .satp) 31 1
def fcsrFflags : BitVec 5 := field (csrs .fcsr) 0 5
def fcsrFrm : BitVec 3 := field (csrs .fcsr) 5 3

def setMstatus (start : Nat) {len : Nat} (x : BitVec len) : CsrTable :=
  csrs.set .mstatus (setField (csrs .mstatus) start x)

theorem setMstatus_self (start : Nat) {len : Nat} (x : BitVec len) :
    csrs.setMstatus start x .mstatus = setField (csrs .mstatus) start x :=
  set_self _ _ _

theorem setMstatus_of_ne (start : Nat) {len : Nat} (x : BitVec len) {r : CsrReg}
    (h : r ≠ .mstatus) : csrs.setMstatus start x r = csrs r :=
  set_of_ne _ _ h

def hasExtension (bit : Nat) : Bool := (csrs .misa).getLsbD bit

def hasCExtension : Bool := csrs.hasExtension 2
def hasEBaseIsa : Bool := csrs.hasExtension 4
def hasFExtension : Bool := csrs.hasExtension 5
def hasSupervisorModeExtension : Bool := csrs.hasExtension 18
def hasUserModeExtension : Bool := csrs.hasExtension 20

/-- The bits that an instruction address may have set. -/
def pcAlignmentMask : BitVec 32 := if csrs.hasCExtension then ~~~1#32 else ~~~3#32

/-- The address in a vector register; its two low bits are the mode. -/
def baseAddress (r : CsrReg) : BitVec 32 := (field (csrs r) 2 30).setWidth 32 <<< 2

def Vectored : BitVec 2 := 1#2

def vectorMode (r : CsrReg) : BitVec 2 := field (csrs r) 0 2

def causeInterrupt (r : CsrReg) : BitVec 1 := field (csrs r) 31 1

def causeExceptionCode (r : CsrReg) : BitVec 31 := field (csrs r) 0 31

end CsrTable

/-- The extensions IMACF, N, U and S of a 32-bit machine. -/
def misaDefault : BitVec 32 := 0x40143125#32

def MIE_MASK : BitVec 32 := 0b101110111011#32
def SIE_MASK : BitVec 32 := 0b001100110011#32
def UIE_MASK : BitVec 32 := 0b000100010001#32
def MIP_WRITE_MASK : BitVec 32 := 0b001100110011#32
def MIP_READ_MASK : BitVec 32 := MIE_MASK
def SIP_MASK : BitVec 32 := 0b11#32
def UIP_MASK : BitVec 32 := 0b1#32
def MEDELEG_MASK : BitVec 32 := 0b1011101111111111#32
def MIDELEG_MASK : BitVec 32 := MIE_MASK
def MTVEC_MASK : BitVec 32 := ~~~2#32
def MCOUNTEREN_MASK : BitVec 32 := 0b111#32
def MCOUNTINHIBIT_MASK : BitVec 32 := 0b101#32
def SEDELEG_MASK : BitVec 32 := 0b1011000111111111#32
def SIDELEG_MASK : BitVec 32 := MIDELEG_MASK
def MSTATUS_MASK : BitVec 32 := 0b10000000011111111111100110111011#32
def SSTATUS_MASK : BitVec 32 := 0b10000000000011011110000100110011#32
def USTATUS_MASK : BitVec 32 := 0b00000000000000000000000000010001#32
def SATP_MASK : BitVec 32 := 0b10000000001111111111111111111111#32
def FCSR_MASK : BitVec 32 := 0b11111111#32

/-! ## Addresses -/

namespace Csr

@[match_pattern] def CYCLE_ADDR : Nat := 0xC00
@[match_pattern] def CYCLEH_ADDR : Nat := 0xC80
@[match_pattern] def TIME_ADDR : Nat := 0xC01
@[match_pattern] def TIMEH_ADDR : Nat := 0xC81
@[match_pattern] def INSTRET_ADDR : Nat := 0xC02
@[match_pattern] def INSTRETH_ADDR : Nat := 0xC82
@[match_pattern] def MCYCLE_ADDR : Nat := 0xB00
@[match_pattern] def MCYCLEH_ADDR : Nat := 0xB80
@[match_pattern] def MTIME_ADDR : Nat := 0xB01
@[match_pattern] def MTIMEH_ADDR : Nat := 0xB81
@[match_pattern] def MINSTRET_ADDR : Nat := 0xB02
@[match_pattern] def MINSTRETH_ADDR : Nat := 0xB82
@[match_pattern] def TSELECT_ADDR : Nat := 0x7A0
@[match_pattern] def TDATA1_ADDR : Nat := 0x7A1
@[match_pattern] def TDATA2_ADDR : Nat := 0x7A2
@[match_pattern] def TDATA3_ADDR : Nat := 0x7A3
@[match_pattern] def DCSR_ADDR : Nat := 0x7B0
@[match_pattern] def DPC_ADDR : Nat := 0x7B1
@[match_pattern] def DSCRATCH0_ADDR : Nat := 0x7B2
@[match_pattern] def DSCRATCH1_ADDR : Nat := 0x7B3
def MVENDORID_ADDR : Nat := 0xF11
def MARCHID_ADDR : Nat := 0xF12
def MIMPID_ADDR : Nat := 0xF13
def MHARTID_ADDR : Nat := 0xF14
@[match_pattern] def MSTATUS_ADDR : Nat := 0x300
@[match_pattern] def MISA_ADDR : Nat := 0x301
@[match_pattern] def MEDELEG_ADDR : Nat := 0x302
@[match_pattern] def MIDELEG_ADDR : Nat := 0x303
@[match_pattern] def MIE_ADDR : Nat := 0x304
@[match_pattern] def MTVEC_ADDR : Nat := 0x305
@[match_pattern] def MCOUNTEREN_ADDR : Nat := 0x306
@[match_pattern] def MCOUNTINHIBIT_ADDR : Nat := 0x320
def MSCRATCH_ADDR : Nat := 0x340
@[match_pattern] def MEPC_ADDR : Nat := 0x341
def MCAUSE_ADDR : Nat := 0x342
def MTVAL_ADDR : Nat := 0x343
@[match_pattern] def MIP_ADDR : Nat := 0x344
def PMPCFG0_ADDR : Nat := 0x3A0
def PMPADDR0_ADDR : Nat := 0x3B0
@[match_pattern] def SSTATUS_ADDR : Nat := 0x100
@[match_pattern] def SEDELEG_ADDR : Nat := 0x102
@[match_pattern] def SIDELEG_ADDR : Nat := 0x103
@[match_pattern] def SIE_ADDR : Nat := 0x104
@[match_pattern] def STVEC_ADDR : Nat := 0x105
@[match_pattern] def SCOUNTEREN_ADDR : Nat := 0x106
def SSCRATCH_ADDR : Nat := 0x140
@[match_pattern] def SEPC_ADDR : Nat := 0x141
def SCAUSE_ADDR : Nat := 0x142
def STVAL_ADDR : Nat := 0x143
@[match_pattern] def SIP_ADDR : Nat := 0x144
@[match_pattern] def SATP_ADDR : Nat := 0x180
@[match_pattern] def USTATUS_ADDR : Nat := 0x000
@[match_pattern] def UIE_ADDR : Nat := 0x004
@[match_pattern] def UTVEC_ADDR : Nat := 0x005
def USCRATCH_ADDR : Nat := 0x040
@[match_pattern] def UEPC_ADDR : Nat := 0x041
def UCAUSE_ADDR : Nat := 0x042
def UTVAL_ADDR : Nat := 0x043
@[match_pattern] def UIP_ADDR : Nat := 0x044
@[match_pattern] def FFLAGS_ADDR : Nat := 0x001
@[match_pattern] def FRM_ADDR : Nat := 0x002
@[match_pattern] def FCSR_ADDR : Nat := 0x003

/-- The performance counters and events 3 to 31, none of which is implemented. -/
def isHpmCounter (addr : Nat) : Bool :=
  (0xC03 ≤ addr && addr ≤ 0xC1F) || (0xC83 ≤ addr && addr ≤ 0xC9F) ||
    (0xB03 ≤ addr && addr ≤ 0xB1F) || (0xB83 ≤ addr && addr ≤ 0xB9F) ||
    (0x323 ≤ addr && addr ≤ 0x33F)

/-- The addresses that are mapped to a physical register. -/
def registerMapping : List (Nat × CsrReg) :=
  [(CYCLE_ADDR, .cycle), (CYCLEH_ADDR, .cycleh), (TIME_ADDR, .time), (TIMEH_ADDR, .timeh),
    (INSTRET_ADDR, .instret), (INSTRETH_ADDR, .instreth), (MCYCLE_ADDR, .cycle),
    (MCYCLEH_ADDR, .cycleh), (MTIME_ADDR, .time), (MTIMEH_ADDR, .timeh), (MINSTRET_ADDR, .instret),
    (MINSTRETH_ADDR, .instreth), (MVENDORID_ADDR, .mvendorid), (MARCHID_ADDR, .marchid),
    (MIMPID_ADDR, .mimpid), (MHARTID_ADDR, .mhartid), (MSTATUS_ADDR, .mstatus), (MISA_ADDR, .misa),
    (MEDELEG_ADDR, .medeleg), (MIDELEG_ADDR, .mideleg), (MIE_ADDR, .mie), (MTVEC_ADDR, .mtvec),
    (MCOUNTEREN_ADDR, .mcounteren), (MCOUNTINHIBIT_ADDR, .mcountinhibit),
    (MSCRATCH_ADDR, .mscratch), (MEPC_ADDR, .mepc), (MCAUSE_ADDR, .mcause), (MTVAL_ADDR, .mtval),
    (MIP_ADDR, .mip)] ++
  (List.finRange 16).map (fun i ↦ (PMPADDR0_ADDR + i.val, CsrReg.pmpaddr i)) ++
  (List.finRange 4).map (fun i ↦ (PMPCFG0_ADDR + i.val, CsrReg.pmpcfg i)) ++
  [(SEDELEG_ADDR, .sedeleg), (SIDELEG_ADDR, .sideleg), (STVEC_ADDR, .stvec),
    (SCOUNTEREN_ADDR, .scounteren), (SSCRATCH_ADDR, .sscratch), (SEPC_ADDR, .sepc),
    (SCAUSE_ADDR, .scause), (STVAL_ADDR, .stval), (SATP_ADDR, .satp), (UTVEC_ADDR, .utvec),
    (USCRATCH_ADDR, .uscratch), (UEPC_ADDR, .uepc), (UCAUSE_ADDR, .ucause), (UTVAL_ADDR, .utval),
    (FCSR_ADDR, .fcsr)]

def registerAt (addr : Nat) : Option CsrReg := registerMapping.lookup addr

/-- The registers that are read under a mask. -/
def readMask : Nat → Option (CsrReg × BitVec 32)
  | MSTATUS_ADDR => some (.mstatus, MSTATUS_MASK)
  | SSTATUS_ADDR => some (.mstatus, SSTATUS_MASK)
  | USTATUS_ADDR => some (.mstatus, USTATUS_MASK)
  | MIP_ADDR => some (.mip, MIP_READ_MASK)
  | SIP_ADDR => some (.mip, SIP_MASK)
  | UIP_ADDR => some (.mip, UIP_MASK)
  | MIE_ADDR => some (.mie, MIE_MASK)
  | SIE_ADDR => some (.mie, SIE_MASK)
  | UIE_ADDR => some (.mie, UIE_MASK)
  | FCSR_ADDR => some (.fcsr, FCSR_MASK)
  | _ => none

/-- The registers that are written under a mask. A program counter is kept aligned. -/
def writeMask (pcAlignmentMask : BitVec 32) : Nat → Option (CsrReg × BitVec 32)
  | MTVEC_ADDR => some (.mtvec, MTVEC_MASK)
  | STVEC_ADDR => some (.stvec, MTVEC_MASK)
  | UTVEC_ADDR => some (.utvec, MTVEC_MASK)
  | MEPC_ADDR => some (.mepc, pcAlignmentMask)
  | SEPC_ADDR => some (.sepc, pcAlignmentMask)
  | UEPC_ADDR => some (.uepc, pcAlignmentMask)
  | MSTATUS_ADDR => some (.mstatus, MSTATUS_MASK)
  | SSTATUS_ADDR => some (.mstatus, SSTATUS_MASK)
  | USTATUS_ADDR => some (.mstatus, USTATUS_MASK)
  | MIP_ADDR => some (.mip, MIP_WRITE_MASK)
  | SIP_ADDR => some (.mip, SIP_MASK)
  | UIP_ADDR => some (.mip, UIP_MASK)
  | MIE_ADDR => some (.mie, MIE_MASK)
  | SIE_ADDR => some (.mie, SIE_MASK)
  | UIE_ADDR => some (.mie, UIE_MASK)
  | MIDELEG_ADDR => some (.mideleg, MIDELEG_MASK)
  | MEDELEG_ADDR => some (.medeleg, MEDELEG_MASK)
  | SIDELEG_ADDR => some (.sideleg, SIDELEG_MASK)
  | SEDELEG_ADDR => some (.sedeleg, SEDELEG_MASK)
  | MCOUNTEREN_ADDR => some (.mcounteren, MCOUNTEREN_MASK)
  | SCOUNTEREN_ADDR => some (.scounteren, MCOUNTEREN_MASK)
  | MCOUNTINHIBIT_ADDR => some (.mcountinhibit, MCOUNTINHIBIT_MASK)
  | FCSR_ADDR => some (.fcsr, FCSR_MASK)
  | _ => none

/-- The debug registers are not supported and hardwired. -/
def isDebug : Nat → Bool
  | TSELECT_ADDR | TDATA1_ADDR | TDATA2_ADDR | TDATA3_ADDR => true
  | DCSR_ADDR | DPC_ADDR | DSCRATCH0_ADDR | DSCRATCH1_ADDR => true
  | _ => false

end Csr

end CoverageVP.Iss

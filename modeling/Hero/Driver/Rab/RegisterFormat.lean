import Hero.Driver.Rab.Operations

/-!
# The registers of the slices

Where and how the driver writes a slice of the RAB, and where and how the runtime of the accelerator
does.  Both see one register file, by offsets in bytes.
-/

namespace Hero.Rab

open Driver

/-- The configuration registers, by their offset. -/
abbrev RegFile := Nat → BitVec 32

/-- `RAB_SLICE_SIZE_B` -/
def sliceSizeB : Nat := 0x1C

/-- `RAB_L1_PORT_1_OFFSET` -/
def l1Port1Offset : Nat := 0x1000

/-- The offset of a slice for the driver; `RAB_SLICE_BASE_OFFSET_B` is 0. -/
def sliceOffset (port : Port) (slice : Nat) : Nat :=
  sliceSizeB * slice + match port with
    | .port0 => 0
    | .port1 => l1Port1Offset

def sliceAddrStartOffsetB : Nat := 0x0
def sliceAddrEndOffsetB : Nat := 0x8
def sliceAddrOffsetOffsetB : Nat := 0x10
def sliceFlagsOffsetB : Nat := 0x18

namespace RegFile

variable (regs : RegFile)

def iowrite32 (data : BitVec 32) (offset : Nat) : RegFile := Function.update regs offset data

/-- `IOWRITE_L` -/
def iowriteL (plat : Platform) (data : BitVec 64) (offset : Nat) : RegFile :=
  match plat with
  | .juno | .te0808 =>
    let lower := regs.iowrite32 (data.extractLsb' 0 32) offset
    lower.iowrite32 (data.extractLsb' 32 32) (offset + 4)
  | _ => regs.iowrite32 (data.extractLsb' 0 32) offset

/-- `IOREAD_L` -/
def ioreadL (plat : Platform) (offset : Nat) : Nat :=
  match plat with
  | .juno | .te0808 => (regs (offset + 4) ++ regs offset).toNat
  | _ => (regs offset).toNat

/-- The writes of `pulp_rab_slice_setup` -/
def configureSlice (plat : Platform) (req : SliceReq) : RegFile :=
  let offset := sliceOffset req.rabPort req.rabSlice
  let regs := regs.iowrite32 (BitVec.ofNat 32 (req.addrStart / pageSize))
    (offset + sliceAddrStartOffsetB)
  let regs := regs.iowrite32 (BitVec.ofNat 32 (req.addrEnd / pageSize))
    (offset + sliceAddrEndOffsetB)
  let regs := regs.iowriteL plat (BitVec.ofNat 64 (req.addrOffset / pageSize))
    (offset + sliceAddrOffsetOffsetB)
  regs.iowrite32 (req.flagsHw.zeroExtend 32) (offset + sliceFlagsOffsetB)

/-- The registers after `pulp_rab_slice_setup` in a state of the driver. -/
def sliceSetup (plat : Platform) (s : RabState) (req : SliceReq) : RegFile :=
  if s.configures req then regs.configureSlice plat req else regs

/-- A slice as the driver reads it. -/
def hwSlice (plat : Platform) (port : Port) (slice : Nat) : HwSlice :=
  let offset := sliceOffset port slice
  { addrStart := (regs (offset + sliceAddrStartOffsetB)).toNat
    addrEnd := (regs (offset + sliceAddrEndOffsetB)).toNat
    addrOffset := regs.ioreadL plat (offset + sliceAddrOffsetOffsetB)
    flags := (regs (offset + sliceFlagsOffsetB)).extractLsb' 0 8 }

end RegFile

/-- `HOST_ARCH` -/
inductive HostArch where
  | arm
  | arm64
  | riscv64
  deriving DecidableEq, Repr

/-- `rab_cfg_val_t` -/
structure RabCfgVal where
  vaStart : BitVec 32
  vaEnd : BitVec 32
  offset : BitVec 64
  flags : Flags
  deriving DecidableEq, Repr

/-- The arguments of `config_rab_slice` -/
structure SliceConfig where
  begin : BitVec 32
  stop : BitVec 32
  physAddr : BitVec 64
  rdonly : Bool
  cacheCoherent : Bool

/-- The offset of `RAB_CFG_BPTR + slice` -/
def rabCfgPtr (slice : Nat) : Nat := 4 * 8 + (nSlicesPort0 + slice) * 32

/-- `copy_phys_addr` between variables -/
def copyPhysAddr (arch : HostArch) (src : BitVec 64) : BitVec 64 :=
  match arch with
  | .arm => (src.extractLsb' 0 32).zeroExtend 64
  | .arm64 => (src.extractLsb' 0 40).zeroExtend 64
  | .riscv64 => src

namespace RegFile

variable (regs : RegFile)

/-- `copy_phys_addr` from registers -/
def readPhysAddr (arch : HostArch) (offset : Nat) : BitVec 64 :=
  copyPhysAddr arch (regs (offset + 4) ++ regs offset)

/-- `copy_phys_addr` to registers; for 64-bit ARM, the upper part is one byte. -/
def writePhysAddr (arch : HostArch) (src : BitVec 64) (offset : Nat) : RegFile :=
  let lower := regs.iowrite32 (src.extractLsb' 0 32) offset
  match arch with
  | .arm => lower
  | .arm64 =>
    lower.iowrite32 ((lower (offset + 4)).extractLsb' 8 24 ++ src.extractLsb' 32 8) (offset + 4)
  | .riscv64 => lower.iowrite32 (src.extractLsb' 32 32) (offset + 4)

/-- `read_rab_cfg_val` of a slice -/
def readRabCfgVal (arch : HostArch) (slice : Nat) : RabCfgVal :=
  let src := rabCfgPtr slice
  { vaStart := regs src
    vaEnd := regs (src + 4 * 2)
    offset := regs.readPhysAddr arch (src + 4 * 4)
    flags := (regs (src + 4 * 6)).extractLsb' 0 8 }

/-- `write_rab_cfg_val` to a slice, which is disabled before. -/
def writeRabCfgVal (arch : HostArch) (slice : Nat) (src : RabCfgVal) : RegFile :=
  let dst := rabCfgPtr slice
  let regs := regs.iowrite32 0#32 (dst + 4 * 6)
  let regs := regs.iowrite32 src.vaStart dst
  let regs := regs.iowrite32 src.vaEnd (dst + 4 * 2)
  let regs := regs.writePhysAddr arch src.offset (dst + 4 * 4)
  regs.iowrite32 (src.flags.zeroExtend 32) (dst + 4 * 6)

end RegFile

open Flags in
/-- The flags `config_rab_slice` writes; `RAB_CFG_FLAG_*` are the same bits as for the driver. -/
def SliceConfig.flags (cfg : SliceConfig) : Flags :=
  hwEn ||| hwRead ||| (if cfg.rdonly then 0#8 else hwWrite) |||
    if cfg.cacheCoherent then hwCc else 0#8

/-- `config_rab_slice` -/
def RegFile.configRabSlice (regs : RegFile) (arch : HostArch) (slice : Nat) (cfg : SliceConfig) :
    RegFile :=
  regs.writeRabCfgVal arch slice {
    vaStart := cfg.begin
    vaEnd := cfg.stop - 1
    offset := copyPhysAddr arch cfg.physAddr
    flags := cfg.flags }

/-- `rab_slice_contains_virt_addr` -/
def RabCfgVal.containsVirtAddr (cfg : RabCfgVal) (a : BitVec 32) : Prop :=
  cfg.vaStart ≤ a ∧ a ≤ cfg.vaEnd

/-- The address a slice translates to. -/
def RabCfgVal.translate (cfg : RabCfgVal) (a : BitVec 32) : BitVec 64 :=
  cfg.offset + (a - cfg.vaStart).zeroExtend 64

/-- The addresses of a request; the end may be the last one or the next after the last one. -/
def SliceReq.Contains (inclusive : Bool) (req : SliceReq) (a : BitVec 32) : Prop :=
  req.addrStart ≤ a.toNat ∧ if inclusive then a.toNat ≤ req.addrEnd else a.toNat < req.addrEnd

/-- The addresses of a slice in pages -/
def HwSlice.Contains (inclusive : Bool) (h : HwSlice) (a : BitVec 32) : Prop :=
  h.addrStart ≤ a.toNat / pageSize ∧
    if inclusive then a.toNat / pageSize ≤ h.addrEnd else a.toNat / pageSize < h.addrEnd

/-- The accelerator reads the request in a slice. -/
structure SeenByAccelerator (arch : HostArch) (inclusive : Bool) (regs : RegFile) (slice : Nat)
    (req : SliceReq) : Prop where
  addresses : ∀ a, (regs.readRabCfgVal arch slice).containsVirtAddr a ↔ req.Contains inclusive a
  translation : ∀ a, req.Contains inclusive a →
    (regs.readRabCfgVal arch slice).translate a =
      BitVec.ofNat 64 (req.addrOffset + (a.toNat - req.addrStart))
  flags : (regs.readRabCfgVal arch slice).flags = req.flagsHw

/-- The driver reads in a slice what the accelerator was asked to configure. -/
structure SeenByDriver (plat : Platform) (inclusive : Bool) (regs : RegFile) (slice : Nat)
    (cfg : SliceConfig) : Prop where
  addresses : ∀ a, (regs.hwSlice plat .port1 slice).Contains inclusive a ↔
    cfg.begin ≤ a ∧ a ≤ cfg.stop - 1
  translation : ∀ a, cfg.begin ≤ a ∧ a ≤ cfg.stop - 1 →
    (regs.hwSlice plat .port1 slice).addrOffset * pageSize + a.toNat =
      cfg.physAddr.toNat + (a - cfg.begin).toNat +
        (regs.hwSlice plat .port1 slice).addrStart * pageSize
  flags : (regs.hwSlice plat .port1 slice).flags = cfg.flags

namespace RegFile

variable {regs : RegFile} {plat : Platform} {arch : HostArch} {req : SliceReq} {s : RabState}

theorem configureSlice_frame {offset : Nat}
    (hne : ∀ d < sliceSizeB, offset ≠ sliceOffset req.rabPort req.rabSlice + d) :
    regs.configureSlice plat req offset = regs offset := by
  simp only [sliceSizeB] at hne
  have hne0 := hne 0 (by decide)
  rw [Nat.add_zero] at hne0
  rw [configureSlice]
  cases plat <;> simp [iowriteL, iowrite32, sliceAddrStartOffsetB, sliceAddrEndOffsetB,
    sliceAddrOffsetOffsetB, sliceFlagsOffsetB, hne, hne0, Nat.add_assoc]

/-- What the driver writes for Port 1 lies behind `RAB_L1_PORT_1_OFFSET`. -/
private theorem sliceSetup_below (hport : req.rabPort = .port1) {offset : Nat}
    (hlt : offset < l1Port1Offset) : regs.sliceSetup plat s req offset = regs offset := by
  have hbase : l1Port1Offset ≤ sliceOffset req.rabPort req.rabSlice := by
    rw [hport]
    exact Nat.le_add_left _ _
  rw [RegFile.sliceSetup]
  split
  · apply configureSlice_frame
    intro d _
    omega
  · rfl

/-- What the accelerator writes lies before `RAB_L1_PORT_1_OFFSET`. -/
private theorem configRabSlice_above {slice : Nat} (hslice : slice < 32) (cfg : SliceConfig)
    {offset : Nat} (hle : l1Port1Offset ≤ offset) :
    regs.configRabSlice arch slice cfg offset = regs offset := by
  have hne : ∀ d < 32, offset ≠ rabCfgPtr slice + d := by
    intro d hd
    simp only [l1Port1Offset, rabCfgPtr, nSlicesPort0] at *
    omega
  have hne0 := hne 0 (by decide)
  rw [Nat.add_zero] at hne0
  rw [configRabSlice, writeRabCfgVal]
  cases arch <;> simp [writePhysAddr, iowrite32, hne, hne0, Nat.add_assoc]

private theorem readRabCfgVal_congr {regs' : RegFile} {slice : Nat} (hslice : slice < 32)
    (h : ∀ offset < l1Port1Offset, regs' offset = regs offset) :
    regs'.readRabCfgVal arch slice = regs.readRabCfgVal arch slice := by
  have hlt : ∀ d < 32, rabCfgPtr slice + d < l1Port1Offset := by
    intro d hd
    simp only [l1Port1Offset, rabCfgPtr, nSlicesPort0]
    omega
  have hregs : ∀ d < 32, regs' (rabCfgPtr slice + d) = regs (rabCfgPtr slice + d) :=
    fun d hd => h _ (hlt d hd)
  have hregs0 := hregs 0 (by decide)
  rw [Nat.add_zero] at hregs0
  simp [readRabCfgVal, readPhysAddr, Nat.add_assoc, hregs, hregs0]

private theorem hwSlice_congr {regs' : RegFile} (slice : Nat)
    (h : ∀ offset, l1Port1Offset ≤ offset → regs' offset = regs offset) :
    regs'.hwSlice plat .port1 slice = regs.hwSlice plat .port1 slice := by
  have hregs : ∀ d, regs' (sliceOffset .port1 slice + d) = regs (sliceOffset .port1 slice + d) := by
    intro d
    apply h
    simp only [sliceOffset]
    omega
  cases plat <;> simp [hwSlice, ioreadL, Nat.add_assoc, hregs]

private theorem extract_flags (flags : Flags) : (flags.zeroExtend 32).extractLsb' 0 8 = flags := by
  ext i hi
  simp [show i < 32 by omega, BitVec.getLsbD_eq_getElem hi]

/-- The accelerator reads in a slice what it has configured. -/
theorem readRabCfgVal_configRabSlice (slice : Nat) (cfg : SliceConfig) :
    (regs.configRabSlice arch slice cfg).readRabCfgVal arch slice =
      ⟨cfg.begin, cfg.stop - 1, copyPhysAddr arch cfg.physAddr, cfg.flags⟩ := by
  have hphys : (regs.configRabSlice arch slice cfg).readPhysAddr arch (rabCfgPtr slice + 4 * 4) =
      copyPhysAddr arch cfg.physAddr := by
    ext i hi
    cases arch <;>
      simp [configRabSlice, writeRabCfgVal, writePhysAddr, readPhysAddr, iowrite32, copyPhysAddr,
        Nat.add_assoc] <;> grind
  rw [readRabCfgVal, hphys]
  cases arch <;> simp [configRabSlice, writeRabCfgVal, writePhysAddr, iowrite32, Nat.add_assoc,
    extract_flags]

private theorem toNat_join (x : BitVec 64) :
    (x.extractLsb' 32 32 ++ x.extractLsb' 0 32).toNat = x.toNat := by
  congr 1
  ext i hi
  simp
  grind

/-- The driver reads in a slice what it has configured. -/
private theorem hwSlice_configureSlice (hstart : req.addrStart / pageSize < 4294967296)
    (hend : req.addrEnd / pageSize < 4294967296) (hoffset : req.addrOffset / pageSize < 4294967296) :
    (regs.configureSlice plat req).hwSlice plat req.rabPort req.rabSlice =
      ⟨req.addrStart / pageSize, req.addrEnd / pageSize, req.addrOffset / pageSize, req.flagsHw⟩ := by
  have hlong : (regs.configureSlice plat req).ioreadL plat
      (sliceOffset req.rabPort req.rabSlice + sliceAddrOffsetOffsetB) = req.addrOffset / pageSize := by
    cases plat <;> simp [configureSlice, iowriteL, ioreadL, iowrite32, sliceAddrStartOffsetB,
      sliceAddrEndOffsetB, sliceAddrOffsetOffsetB, sliceFlagsOffsetB, Nat.add_assoc, toNat_join] <;>
      omega
  rw [hwSlice, hlong, HwSlice.mk.injEq]
  refine ⟨?_, ?_, rfl, ?_⟩
  all_goals
    cases plat <;> simp [configureSlice, iowriteL, iowrite32, sliceAddrStartOffsetB,
      sliceAddrEndOffsetB, sliceAddrOffsetOffsetB, sliceFlagsOffsetB, Nat.add_assoc, extract_flags,
      Nat.mod_eq_of_lt hstart, Nat.mod_eq_of_lt hend]

private theorem hwSlice_frame {regs' : RegFile} {p : Port} {k : Nat}
    (h : ∀ d < sliceSizeB, regs' (sliceOffset p k + d) = regs (sliceOffset p k + d)) :
    regs'.hwSlice plat p k = regs.hwSlice plat p k := by
  simp only [sliceSizeB] at h
  have h0 := h 0 (by decide)
  rw [Nat.add_zero] at h0
  cases plat <;> simp [hwSlice, ioreadL, sliceAddrStartOffsetB, sliceAddrEndOffsetB,
    sliceAddrOffsetOffsetB, sliceFlagsOffsetB, Nat.add_assoc, h, h0]

/-- Different slices have no register in common. -/
private theorem sliceOffset_ne {p p' : Port} {k k' d d' : Nat} (hk : k < 32) (hk' : k' < 32)
    (hd : d < sliceSizeB) (hd' : d' < sliceSizeB) (hne : ¬ (p = p' ∧ k = k')) :
    sliceOffset p k + d ≠ sliceOffset p' k' + d' := by
  cases p <;> cases p' <;> simp only [sliceOffset, sliceSizeB, l1Port1Offset] at * <;> grind

/-- The registers of the driver's slices refine its model of them. -/
theorem sliceSetup_refines (pages : Option PageArray) (hreq : req.rabSlice < plat.nSlicesPort1)
    (hstart : req.addrStart / pageSize < 4294967296) (hend : req.addrEnd / pageSize < 4294967296)
    (hoffset : req.addrOffset / pageSize < 4294967296)
    (h : ∀ p, ∀ k < plat.nSlicesPort1, regs.hwSlice plat p k = s.hw p k) :
    ∀ p, ∀ k < plat.nSlicesPort1,
      (regs.sliceSetup plat s req).hwSlice plat p k = (s.sliceSetup req pages).hw p k := by
  intro p k hk
  have hmax : plat.nSlicesPort1 ≤ 32 := by cases plat <;> decide
  rw [RabState.sliceSetup_hw, RegFile.sliceSetup]
  cases hconf : s.configures req with
  | false => simpa using h p k hk
  | true =>
    rw [if_pos rfl]
    simp only [true_and]
    by_cases hsame : p = req.rabPort ∧ k = req.rabSlice
    · rw [if_pos hsame, hsame.1, hsame.2]
      exact hwSlice_configureSlice hstart hend hoffset
    · rw [if_neg hsame, ← h p k hk]
      apply hwSlice_frame
      intro d hd
      apply configureSlice_frame
      intro d' hd'
      exact sliceOffset_ne (by omega) (by omega) hd hd' hsame

end RegFile

/-- The driver and the accelerator place the slices at different offsets: each of them reads in a
slice what the other one has written there only where it has read that before. -/
theorem formats_agree_iff (plat : Platform) (arch : HostArch) (inclusive : Bool) (regs : RegFile)
    (s : RabState) (req : SliceReq) (slice : Nat) (cfg : SliceConfig) (hport : req.rabPort = .port1)
    (hreq : req.rabSlice < plat.nSlicesPort1) (hslice : slice < plat.nSlicesPort1) :
    SeenByAccelerator arch inclusive (regs.sliceSetup plat s req) req.rabSlice req ∧
        SeenByDriver plat inclusive (regs.configRabSlice arch slice cfg) slice cfg ↔
      SeenByAccelerator arch inclusive regs req.rabSlice req ∧
        SeenByDriver plat inclusive regs slice cfg := by
  have hmax : plat.nSlicesPort1 ≤ 32 := by cases plat <;> decide
  have hacc : (regs.sliceSetup plat s req).readRabCfgVal arch req.rabSlice =
      regs.readRabCfgVal arch req.rabSlice :=
    RegFile.readRabCfgVal_congr (by omega) fun _ hlt => RegFile.sliceSetup_below hport hlt
  have hdrv : (regs.configRabSlice arch slice cfg).hwSlice plat .port1 slice =
      regs.hwSlice plat .port1 slice :=
    RegFile.hwSlice_congr slice fun _ hle => RegFile.configRabSlice_above (by omega) cfg hle
  constructor
  · intro h
    exact ⟨⟨hacc ▸ h.1.addresses, hacc ▸ h.1.translation, hacc ▸ h.1.flags⟩,
      ⟨hdrv ▸ h.2.addresses, hdrv ▸ h.2.translation, hdrv ▸ h.2.flags⟩⟩
  · intro h
    exact ⟨⟨hacc.symm ▸ h.1.addresses, hacc.symm ▸ h.1.translation, hacc.symm ▸ h.1.flags⟩,
      ⟨hdrv.symm ▸ h.2.addresses, hdrv.symm ▸ h.2.translation, hdrv.symm ▸ h.2.flags⟩⟩

/-- The request for the contiguous L3, in the first slice of Port 1. -/
private def l3Req : SliceReq :=
  { SliceReq.blank with
    rabPort := .port1, addrStart := 0x80000000, addrEnd := 0x88000000, flagsHw := 7#8 }

/-- The page at 4096, configured by the accelerator. -/
private def pageConfig : SliceConfig := ⟨0x1000#32, 0x2000#32, 0x5000#64, false, false⟩

theorem formats_agree_never_seen :
    SeenByAccelerator .arm64 false (RegFile.sliceSetup (fun _ => 0#32) .juno (.reset .juno) l3Req) 0
        l3Req ∧
        SeenByDriver .juno false (RegFile.configRabSlice (fun _ => 0#32) .arm64 1 pageConfig) 1
          pageConfig ↔
      SeenByAccelerator .arm64 false (fun _ => 0#32) 0 l3Req ∧
        SeenByDriver .juno false (fun _ => 0#32) 1 pageConfig :=
  formats_agree_iff .juno .arm64 false (fun _ => 0#32) (.reset .juno) l3Req 1 pageConfig rfl
    (by decide) (by decide)

/-- The accelerator does not see that the driver has configured a slice. -/
theorem not_formats_agree_l3 : (RabState.reset .juno).configures l3Req = true ∧
    ¬ (SeenByAccelerator .arm64 false
        (RegFile.sliceSetup (fun _ => 0#32) .juno (.reset .juno) l3Req) 0 l3Req ∧
      SeenByDriver .juno false (RegFile.configRabSlice (fun _ => 0#32) .arm64 1 pageConfig) 1
        pageConfig) := by
  refine ⟨by decide, ?_⟩
  intro h
  have hflags := h.1.flags
  revert hflags
  decide +kernel

end Hero.Rab

import UcVfs.Framework.Memory
import UcVfs.Vfs.Types

/-!
# The RAM disk

The functions of `ramdisk.c`. Sizes and addresses are 32-bit unsigned numbers, offsets are
32-bit signed ones. A disk is the memory from `disk->mem` on, so that what is beyond the array
can be told apart from what is in it.
-/

namespace UcVfs

open Framework

def CONFIG_RAM_SEC_SIZE : UInt32 := 512
def CONFIG_RAM_N_SECS : UInt32 := 1024
def RAMDISK_MAX_SIZE : UInt32 := CONFIG_RAM_SEC_SIZE * CONFIG_RAM_N_SECS

/-- `ramdisk_open`. -/
def ramdiskOpen (no : Nat) : Option (Fin 2) := if h : no < 2 then some ⟨no,h⟩ else none

/-- The end of the range check: the first address. -/
def rangeEnd (startAddr sz : UInt32) : Except Int UInt32 :=
  let endAddr := startAddr + sz
  if endAddr > RAMDISK_MAX_SIZE ∨ endAddr < startAddr then
    .error (-EOVERFLOW)
  else
    .ok startAddr

/-- The range check of the functions that take a sector and an offset. -/
def secRange (startSec : UInt32) (off : Int) (sz : UInt32) : Except Int UInt32 :=
  if startSec ≥ CONFIG_RAM_N_SECS ∨ off < 0 then
    .error (-EINVAL)
  else
    rangeEnd (startSec * CONFIG_RAM_SEC_SIZE + UInt32.ofInt off) sz

/-- The range check of the functions that take an address. -/
def addrRange (addr sz : UInt32) : Except Int UInt32 :=
  if addr ≥ RAMDISK_MAX_SIZE then .error (-EINVAL) else rangeEnd addr sz

/-- A function of the disk that returns `sz` when it has done what it is for, and 0 for an
empty range; a null pointer is `none`. Returns what is left behind the pointer it writes to. -/
def transfer (range : Except Int UInt32) (sz : UInt32) (done : UInt32 → Mem) (old : Mem) :
    Int × Mem :=
  if sz = 0 then
    (0,old)
  else
    match range with
    | .error res => (res,old)
    | .ok start => (sz.toNat,done start)

def ramdiskRead (disk buf : Option Mem) (startSec : UInt32) (off : Int) (sz : UInt32) :
    Int × Option Mem :=
  match disk,buf with
  | some disk,some buf =>
    let (res,buf) := transfer (secRange startSec off sz) sz
      (fun start => memcpy buf 0 disk start.toNat sz.toNat) buf
    (res,some buf)
  | _,buf => (-EINVAL,buf)

def ramdiskReadAddr (disk buf : Option Mem) (addr sz : UInt32) : Int × Option Mem :=
  match disk,buf with
  | some disk,some buf =>
    let (res,buf) := transfer (addrRange addr sz) sz
      (fun start => memcpy buf 0 disk start.toNat sz.toNat) buf
    (res,some buf)
  | _,buf => (-EINVAL,buf)

def ramdiskWrite (disk buf : Option Mem) (startSec : UInt32) (off : Int) (sz : UInt32) :
    Int × Option Mem :=
  match disk,buf with
  | some disk,some buf =>
    let (res,disk) := transfer (secRange startSec off sz) sz
      (fun start => memcpy disk start.toNat buf 0 sz.toNat) disk
    (res,some disk)
  | disk,_ => (-EINVAL,disk)

def ramdiskWriteAddr (disk buf : Option Mem) (addr sz : UInt32) : Int × Option Mem :=
  match disk,buf with
  | some disk,some buf =>
    let (res,disk) := transfer (addrRange addr sz) sz
      (fun start => memcpy disk start.toNat buf 0 sz.toNat) disk
    (res,some disk)
  | disk,_ => (-EINVAL,disk)

def ramdiskEraseAddr (disk : Option Mem) (addr sz : UInt32) : Int × Option Mem :=
  match disk with
  | some disk =>
    let (res,disk) := transfer (addrRange addr sz) sz
      (fun start => memset disk start.toNat 0xFF sz.toNat) disk
    (res,some disk)
  | none => (-EINVAL,none)

/-- A range of bytes inside the array. -/
def InDisk (start len : ℕ) : Prop := start + len ≤ RAMDISK_MAX_SIZE.toNat

instance (start len : ℕ) : Decidable (InDisk start len) := inferInstanceAs (Decidable (_ ≤ _))

/-- The check of a non-empty range passes exactly when it is inside the array, with its first
address. -/
def Checks (start len : ℕ) (range : Except Int UInt32) : Prop :=
  (InDisk start len ∧ ∃ addr,addr.toNat = start ∧ range = .ok addr) ∨
  (¬InDisk start len ∧ ∃ res < 0,range = .error res)

theorem rangeEnd_checks (startAddr sz : UInt32) :
    Checks startAddr.toNat sz.toNat (rangeEnd startAddr sz) := by
  have hmax : RAMDISK_MAX_SIZE.toNat = 524288 := rfl
  have hstart := startAddr.toNat_lt
  have hsz := sz.toNat_lt
  have hadd := UInt32.toNat_add startAddr sz
  by_cases hin : startAddr.toNat + sz.toNat ≤ 524288
  · have hno : ¬(startAddr + sz > RAMDISK_MAX_SIZE ∨ startAddr + sz < startAddr) := by
      simp only [gt_iff_lt,UInt32.lt_iff_toNat_lt]
      omega
    exact Or.inl ⟨hin,startAddr,rfl,if_neg hno⟩
  · have hover : startAddr + sz > RAMDISK_MAX_SIZE ∨ startAddr + sz < startAddr := by
      simp only [gt_iff_lt,UInt32.lt_iff_toNat_lt]
      omega
    exact Or.inr ⟨hin,-EOVERFLOW,by decide,if_pos hover⟩

theorem addrRange_checks {addr sz : UInt32} (hsz : sz ≠ 0) :
    Checks addr.toNat sz.toNat (addrRange addr sz) := by
  by_cases haddr : addr ≥ RAMDISK_MAX_SIZE
  · have hpos : sz.toNat ≠ 0 := fun h => hsz (UInt32.toNat_inj.mp h)
    have hle : RAMDISK_MAX_SIZE.toNat ≤ addr.toNat := UInt32.le_iff_toNat_le.mp haddr
    have hout : ¬InDisk addr.toNat sz.toNat := by
      show ¬addr.toNat + sz.toNat ≤ RAMDISK_MAX_SIZE.toNat
      omega
    exact Or.inr ⟨hout,-EINVAL,by decide,if_pos haddr⟩
  · rw [addrRange,if_neg haddr]
    exact rangeEnd_checks addr sz

theorem secRange_checks {startSec sz : UInt32} {off : ℕ} (hsz : sz ≠ 0) (hoff : off < 2 ^ 31) :
    Checks (startSec.toNat * 512 + off) sz.toNat (secRange startSec off sz) := by
  have hpos : sz.toNat ≠ 0 := fun h => hsz (UInt32.toNat_inj.mp h)
  have hsecs : CONFIG_RAM_N_SECS.toNat = 1024 := rfl
  have hsize : CONFIG_RAM_SEC_SIZE.toNat = 512 := rfl
  have hneg : ¬(off : Int) < 0 := by omega
  by_cases hsec : startSec ≥ CONFIG_RAM_N_SECS
  · have hle := UInt32.le_iff_toNat_le.mp hsec
    have hout : ¬InDisk (startSec.toNat * 512 + off) sz.toNat := by
      show ¬startSec.toNat * 512 + off + sz.toNat ≤ 524288
      omega
    exact Or.inr ⟨hout,-EINVAL,by decide,if_pos (Or.inl hsec)⟩
  · have hlt : startSec.toNat < 1024 := by
      rw [ge_iff_le,UInt32.le_iff_toNat_le,hsecs] at hsec
      omega
    have haddr : (startSec * CONFIG_RAM_SEC_SIZE + UInt32.ofInt off).toNat =
        startSec.toNat * 512 + off := by
      rw [UInt32.toNat_add,UInt32.toNat_mul,hsize]
      have hint : (UInt32.ofInt off).toNat = off := by
        simp [UInt32.ofInt]
        omega
      omega
    have hchecks := rangeEnd_checks (startSec * CONFIG_RAM_SEC_SIZE + UInt32.ofInt off) sz
    rw [haddr] at hchecks
    rwa [secRange,if_neg (not_or.mpr ⟨hsec,hneg⟩)]

theorem secRange_neg {startSec sz : UInt32} {off : Int} (hoff : off < 0) :
    secRange startSec off sz = .error (-EINVAL) := if_pos (Or.inr hoff)

theorem transfer_empty (range : Except Int UInt32) (done : UInt32 → Mem) (old : Mem) :
    transfer range 0 done old = (0,old) := if_pos rfl

/-- A non-empty range: done with a positive result, or an error and nothing changed. -/
theorem transfer_checks {range : Except Int UInt32} {start : ℕ} {sz : UInt32} (hsz : sz ≠ 0)
    (h : Checks start sz.toNat range) (done : ℕ → Mem) (old : Mem) :
    (InDisk start sz.toNat ∧
      transfer range sz (fun a => done a.toNat) old = ((sz.toNat : Int),done start)) ∨
    (¬InDisk start sz.toNat ∧
      ∃ res < 0,transfer range sz (fun a => done a.toNat) old = (res,old)) := by
  rcases h with ⟨hin,addr,rfl,rfl⟩ | ⟨hout,res,hres,rfl⟩
  · exact Or.inl ⟨hin,by simp [transfer,hsz]⟩
  · exact Or.inr ⟨hout,res,hres,by simp [transfer,hsz]⟩

end UcVfs

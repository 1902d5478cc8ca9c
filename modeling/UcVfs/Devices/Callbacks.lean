import UcVfs.Devices.Ramdisk

/-!
# Block-device callbacks

The data callbacks that `diskio.c`, `littlefs_vfs.c` and `spiffs_vfs.c` give to the file
systems, each a wrapper around the functions of the RAM disk, and when their answers can be
trusted.
-/

namespace UcVfs

open Framework

/-- `DRESULT`, as far as it is returned. -/
inductive DResult
  | ok
  | error
  deriving DecidableEq

namespace Fatfs

/-- `disk_read` from `fat_disk`; returns what is left in `buff` as well. -/
def diskRead (fatDisk : Option Mem) (buff : Mem) (sector count : UInt32) :
    DResult × Option Mem :=
  let (res,buff) := ramdiskRead fatDisk (some buff) sector 0 (count * CONFIG_RAM_SEC_SIZE)
  if res < 0 then (.error,buff) else (.ok,buff)

/-- Returns what is left on the disk as well. -/
def diskWrite (fatDisk : Option Mem) (buff : Mem) (sector count : UInt32) :
    DResult × Option Mem :=
  let (res,disk) := ramdiskWrite fatDisk (some buff) sector 0 (count * CONFIG_RAM_SEC_SIZE)
  if res < 0 then (.error,disk) else (.ok,disk)

end Fatfs

namespace Littlefs

/-- A block offset, passed as an `off_t`. -/
def toOff (off : UInt32) : Int := (off.toNat : Int).bmod (2 ^ 32)

def devRead (disk : Option Mem) (sectorsPerBlock : UInt16) (block off : UInt32) (buffer : Mem)
    (size : UInt32) : Int × Option Mem :=
  let startSec := block * sectorsPerBlock.toUInt32
  (0,(ramdiskRead disk (some buffer) startSec (toOff off) size).2)

def devWrite (disk : Option Mem) (sectorsPerBlock : UInt16) (block off : UInt32) (buffer : Mem)
    (size : UInt32) : Int × Option Mem :=
  let startSec := block * sectorsPerBlock.toUInt32
  (0,(ramdiskWrite disk (some buffer) startSec (toOff off) size).2)

end Littlefs

namespace Spiffs

def devRead (disk : Option Mem) (addr size : UInt32) (dst : Mem) : Int × Option Mem :=
  (0,(ramdiskReadAddr disk (some dst) addr size).2)

def devWrite (disk : Option Mem) (addr size : UInt32) (src : Mem) : Int × Option Mem :=
  (0,(ramdiskWriteAddr disk (some src) addr size).2)

def devErase (disk : Option Mem) (addr size : UInt32) : Int × Option Mem :=
  (0,(ramdiskEraseAddr disk addr size).2)

end Spiffs

/-- A call of one of the seven data callbacks. -/
inductive DeviceCall
  | diskRead (sector count : UInt32)
  | diskWrite (sector count : UInt32)
  | lfsRead (sectorsPerBlock : UInt16) (block off size : UInt32)
  | lfsWrite (sectorsPerBlock : UInt16) (block off size : UInt32)
  | spiffsRead (addr size : UInt32)
  | spiffsWrite (addr size : UInt32)
  | spiffsErase (addr size : UInt32)

namespace DeviceCall

/-- The first byte that the call asks for, as an exact number. -/
def start : DeviceCall → ℕ
  | diskRead sector _ | diskWrite sector _ => sector.toNat * 512
  | lfsRead sectorsPerBlock block off _ | lfsWrite sectorsPerBlock block off _ =>
    block.toNat * sectorsPerBlock.toNat * 512 + off.toNat
  | spiffsRead addr _ | spiffsWrite addr _ | spiffsErase addr _ => addr.toNat

/-- How many bytes the call asks for. -/
def len : DeviceCall → ℕ
  | diskRead _ count | diskWrite _ count => count.toNat * 512
  | lfsRead _ _ _ size | lfsWrite _ _ _ size => size.toNat
  | spiffsRead _ size | spiffsWrite _ size | spiffsErase _ size => size.toNat

/-- Whether the call reports success, what is then in the caller's buffer and on the disk. -/
def run (disk buf : Mem) : DeviceCall → Bool × Mem × Mem
  | diskRead sector count =>
    let (res,buff) := Fatfs.diskRead (some disk) buf sector count
    (res = .ok,buff.getD buf,disk)
  | diskWrite sector count =>
    let (res,disk') := Fatfs.diskWrite (some disk) buf sector count
    (res = .ok,buf,disk'.getD disk)
  | lfsRead sectorsPerBlock block off size =>
    let (res,buffer) := Littlefs.devRead (some disk) sectorsPerBlock block off buf size
    (res = 0,buffer.getD buf,disk)
  | lfsWrite sectorsPerBlock block off size =>
    let (res,disk') := Littlefs.devWrite (some disk) sectorsPerBlock block off buf size
    (res = 0,buf,disk'.getD disk)
  | spiffsRead addr size =>
    let (res,dst) := Spiffs.devRead (some disk) addr size buf
    (res = 0,dst.getD buf,disk)
  | spiffsWrite addr size =>
    let (res,disk') := Spiffs.devWrite (some disk) addr size buf
    (res = 0,buf,disk'.getD disk)
  | spiffsErase addr size =>
    let (res,disk') := Spiffs.devErase (some disk) addr size
    (res = 0,buf,disk'.getD disk)

/-- What a call that reports success must have done to exactly the bytes it asks for. -/
def Done (call : DeviceCall) (disk buf : Mem) (after : Mem × Mem) : Prop :=
  match call with
  | diskRead _ _ | lfsRead _ _ _ _ | spiffsRead _ _ =>
    after.2 = disk ∧ (∀ i < call.len,after.1 i = disk (call.start + i)) ∧
      ∀ i,call.len ≤ i → after.1 i = buf i
  | diskWrite _ _ | lfsWrite _ _ _ _ | spiffsWrite _ _ =>
    (∀ i < call.len,after.2 (call.start + i) = buf i) ∧
      ∀ a,a < call.start ∨ call.start + call.len ≤ a → after.2 a = disk a
  | spiffsErase _ _ =>
    (∀ i < call.len,after.2 (call.start + i) = 0xFF) ∧
      ∀ a,a < call.start ∨ call.start + call.len ≤ a → after.2 a = disk a

/-- The answer can be trusted: success means that the whole range is inside the disk and was
transferred, an error that the disk is as it was. -/
def Trusted (call : DeviceCall) (disk buf : Mem) : Prop :=
  let (ok,after) := call.run disk buf
  if ok then (call.len = 0 ∨ InDisk call.start call.len) ∧ call.Done disk buf after
  else after.2 = disk

/-- The ranges for which it can. A byte count of FatFs loses the sectors beyond `2 ^ 23`, and the
other callbacks report no error. -/
def Fits : DeviceCall → Prop
  | diskRead sector count | diskWrite sector count =>
    count.toNat < 2 ^ 23 ∨
      (count.toNat % 2 ^ 23 ≠ 0 ∧ 1024 < sector.toNat + count.toNat % 2 ^ 23)
  | call => call.len = 0 ∨ InDisk call.start call.len

section Transfers

variable {range : Except Int UInt32} {start : ℕ} {sz : UInt32}

/-- A range that is empty or inside the disk is transferred. -/
theorem transfer_fits {old : Mem} (doneAt : ℕ → Mem)
    (hchecks : sz ≠ 0 → InDisk start sz.toNat → Checks start sz.toNat range)
    (hzero : sz = 0 → doneAt start = old) (hfit : sz.toNat = 0 ∨ InDisk start sz.toNat) :
    0 ≤ (transfer range sz (fun a => doneAt a.toNat) old).1 ∧
      (transfer range sz (fun a => doneAt a.toNat) old).2 = doneAt start := by
  by_cases hsz : sz = 0
  · rw [hzero hsz]
    subst hsz
    rw [transfer_empty]
    exact ⟨le_refl _,rfl⟩
  · have hpos : sz.toNat ≠ 0 := fun h => hsz (UInt32.toNat_inj.mp h)
    have hin := hfit.resolve_left hpos
    rcases transfer_checks hsz (hchecks hsz hin) doneAt old with ⟨_,he⟩ | ⟨hout,_⟩
    · rw [he]
      exact ⟨Int.natCast_nonneg _,rfl⟩
    · exact absurd hin hout

/-- A range that is neither is refused. -/
theorem transfer_refused {old : Mem} (doneAt : ℕ → Mem)
    (hchecks : sz ≠ 0 → Checks start sz.toNat range)
    (hfit : ¬(sz.toNat = 0 ∨ InDisk start sz.toNat)) :
    (transfer range sz (fun a => doneAt a.toNat) old).1 < 0 ∧
      (transfer range sz (fun a => doneAt a.toNat) old).2 = old := by
  obtain ⟨hpos,hout⟩ := not_or.mp hfit
  have hsz : sz ≠ 0 := fun h => hpos (by rw [h]; rfl)
  rcases transfer_checks hsz (hchecks hsz) doneAt old with ⟨hin,_⟩ | ⟨_,res,hres,he⟩
  · exact absurd hin hout
  · rw [he]
    exact ⟨hres,rfl⟩

/-- Inside the disk neither the product nor the offset of `littlefs` overflows. -/
theorem lfsRange_checks {sectorsPerBlock : UInt16} {block off : UInt32} (hsz : sz ≠ 0)
    (hin : InDisk (block.toNat * sectorsPerBlock.toNat * 512 + off.toNat) sz.toNat) :
    Checks (block.toNat * sectorsPerBlock.toNat * 512 + off.toNat) sz.toNat
      (secRange (block * sectorsPerBlock.toUInt32) (Littlefs.toOff off) sz) := by
  have hle : block.toNat * sectorsPerBlock.toNat * 512 + off.toNat + sz.toNat ≤ 524288 := hin
  have hoff : off.toNat < 2 ^ 31 := by omega
  have hto : Littlefs.toOff off = (off.toNat : ℕ) := by
    apply Int.bmod_eq_of_le <;> omega
  have hmul : (block * sectorsPerBlock.toUInt32).toNat =
      block.toNat * sectorsPerBlock.toNat := by
    rw [UInt32.toNat_mul,UInt16.toNat_toUInt32]
    exact Nat.mod_eq_of_lt (by omega)
  rw [hto,← hmul]
  exact secRange_checks hsz hoff

end Transfers

section Copies

variable {disk buf : Mem} {start n : ℕ}

theorem memcpy_read :
    (∀ i < n,memcpy buf 0 disk start n i = disk (start + i)) ∧
      ∀ i,n ≤ i → memcpy buf 0 disk start n i = buf i := by
  constructor
  · intro i hi
    have hcopied := @memcpy_inside buf disk 0 start n i hi
    rwa [Nat.zero_add] at hcopied
  · exact fun i hi => memcpy_outside (Or.inr (by omega))

theorem memcpy_write :
    (∀ i < n,memcpy disk start buf 0 n (start + i) = buf i) ∧
      ∀ a,a < start ∨ start + n ≤ a → memcpy disk start buf 0 n a = disk a := by
  constructor
  · intro i hi
    rw [memcpy_inside hi,Nat.zero_add]
  · exact fun a ha => memcpy_outside ha

theorem memset_erase :
    (∀ i < n,memset disk start 0xFF n (start + i) = 0xFF) ∧
      ∀ a,a < start ∨ start + n ≤ a → memset disk start 0xFF n a = disk a :=
  ⟨fun _ hi => memset_inside hi,fun _ ha => memset_outside ha⟩

end Copies

section Trust

variable {range : Except Int UInt32} {start : ℕ} {sz : UInt32} {disk buf : Mem}

theorem read_transferred
    (hchecks : sz ≠ 0 → InDisk start sz.toNat → Checks start sz.toNat range)
    (hfit : sz.toNat = 0 ∨ InDisk start sz.toNat) :
    let t := transfer range sz (fun a => memcpy buf 0 disk a.toNat sz.toNat) buf
    0 ≤ t.1 ∧ (∀ i < sz.toNat,t.2 i = disk (start + i)) ∧ ∀ i,sz.toNat ≤ i → t.2 i = buf i := by
  have hzero : sz = 0 → memcpy buf 0 disk start sz.toNat = buf := by
    intro hsz
    rw [hsz]
    exact memcpy_zero _ _ _ _
  have hdone := transfer_fits (fun a => memcpy buf 0 disk a sz.toNat) hchecks hzero hfit
  refine ⟨hdone.1,?_⟩
  simp only [hdone.2]
  exact memcpy_read

theorem write_transferred
    (hchecks : sz ≠ 0 → InDisk start sz.toNat → Checks start sz.toNat range)
    (hfit : sz.toNat = 0 ∨ InDisk start sz.toNat) :
    let t := transfer range sz (fun a => memcpy disk a.toNat buf 0 sz.toNat) disk
    0 ≤ t.1 ∧ (∀ i < sz.toNat,t.2 (start + i) = buf i) ∧
      ∀ a,a < start ∨ start + sz.toNat ≤ a → t.2 a = disk a := by
  have hzero : sz = 0 → memcpy disk start buf 0 sz.toNat = disk := by
    intro hsz
    rw [hsz]
    exact memcpy_zero _ _ _ _
  have hdone := transfer_fits (fun a => memcpy disk a buf 0 sz.toNat) hchecks hzero hfit
  refine ⟨hdone.1,?_⟩
  simp only [hdone.2]
  exact memcpy_write

theorem erase_transferred
    (hchecks : sz ≠ 0 → InDisk start sz.toNat → Checks start sz.toNat range)
    (hfit : sz.toNat = 0 ∨ InDisk start sz.toNat) :
    let t := transfer range sz (fun a => memset disk a.toNat 0xFF sz.toNat) disk
    (∀ i < sz.toNat,t.2 (start + i) = 0xFF) ∧
      ∀ a,a < start ∨ start + sz.toNat ≤ a → t.2 a = disk a := by
  have hzero : sz = 0 → memset disk start 0xFF sz.toNat = disk := by
    intro hsz
    rw [hsz]
    exact memset_zero _ _ _
  have hdone := transfer_fits (fun a => memset disk a 0xFF sz.toNat) hchecks hzero hfit
  simp only [hdone.2]
  exact memset_erase

variable {call : DeviceCall} {after : Mem × Mem}

/-- A callback that always reports success. -/
theorem trusted_silent (hrun : call.run disk buf = (true,after))
    (hdone : call.len = 0 ∨ InDisk call.start call.len → call.Done disk buf after) :
    call.Trusted disk buf ↔ call.len = 0 ∨ InDisk call.start call.len := by
  simp only [Trusted,hrun,if_true]
  exact ⟨fun h => h.1,fun h => ⟨h,hdone h⟩⟩

/-- A callback that asks the disk for `sz` bytes and returns its errors, where `sz` is what 32
bits hold of a number of sectors. -/
theorem trusted_checked {ok : Bool} {sector count : UInt32}
    (hrun : call.run disk buf = (ok,after))
    (hstart : call.start = sector.toNat * 512) (hlen : call.len = count.toNat * 512)
    (hfits : count.toNat % 2 ^ 23 * 512 = 0 ∨
        InDisk (sector.toNat * 512) (count.toNat % 2 ^ 23 * 512) →
      ok = true ∧ (count.toNat < 2 ^ 23 → call.Done disk buf after))
    (hrefused : ¬(count.toNat % 2 ^ 23 * 512 = 0 ∨
        InDisk (sector.toNat * 512) (count.toNat % 2 ^ 23 * 512)) →
      ok = false ∧ after.2 = disk) :
    call.Trusted disk buf ↔ count.toNat < 2 ^ 23 ∨
      (count.toNat % 2 ^ 23 ≠ 0 ∧ 1024 < sector.toNat + count.toNat % 2 ^ 23) := by
  have hinside (n : ℕ) : InDisk (sector.toNat * 512) (n * 512) ↔ sector.toNat + n ≤ 1024 := by
    show sector.toNat * 512 + n * 512 ≤ 524288 ↔ sector.toNat + n ≤ 1024
    omega
  simp only [Trusted,hrun]
  rw [hinside] at hfits hrefused
  rw [hstart,hlen,hinside]
  by_cases hfit : count.toNat % 2 ^ 23 * 512 = 0 ∨ sector.toNat + count.toNat % 2 ^ 23 ≤ 1024
  · obtain ⟨rfl,hdone⟩ := hfits hfit
    rw [if_pos rfl]
    constructor
    · intro htrusted
      omega
    · intro hcount
      have hsmall : count.toNat < 2 ^ 23 := by omega
      rw [Nat.mod_eq_of_lt hsmall] at hfit
      have hin : count.toNat * 512 = 0 ∨ sector.toNat + count.toNat ≤ 1024 := hfit
      exact ⟨hin,hdone hsmall⟩
  · obtain ⟨rfl,hsame⟩ := hrefused hfit
    rw [if_neg Bool.false_ne_true]
    exact iff_of_true hsame (by omega)

/-- What `diskio.c` makes of an answer of the disk. -/
theorem diskRead_run (sector count : UInt32) :
    let t := transfer (secRange sector 0 (count * CONFIG_RAM_SEC_SIZE))
      (count * CONFIG_RAM_SEC_SIZE)
      (fun a => memcpy buf 0 disk a.toNat (count * CONFIG_RAM_SEC_SIZE).toNat) buf
    (diskRead sector count).run disk buf = (decide (0 ≤ t.1),t.2,disk) := by
  intro t
  have hcall : Fatfs.diskRead (some disk) buf sector count =
    if t.1 < 0 then (.error,some t.2) else (.ok,some t.2) := rfl
  by_cases hres : t.1 < 0
  · rw [run,hcall,if_pos hres,decide_eq_false (not_le.mpr hres)]
    rfl
  · rw [run,hcall,if_neg hres,decide_eq_true (not_lt.mp hres)]
    rfl

theorem diskWrite_run (sector count : UInt32) :
    let t := transfer (secRange sector 0 (count * CONFIG_RAM_SEC_SIZE))
      (count * CONFIG_RAM_SEC_SIZE)
      (fun a => memcpy disk a.toNat buf 0 (count * CONFIG_RAM_SEC_SIZE).toNat) disk
    (diskWrite sector count).run disk buf = (decide (0 ≤ t.1),buf,t.2) := by
  intro t
  have hcall : Fatfs.diskWrite (some disk) buf sector count =
    if t.1 < 0 then (.error,some t.2) else (.ok,some t.2) := rfl
  by_cases hres : t.1 < 0
  · rw [run,hcall,if_pos hres,decide_eq_false (not_le.mpr hres)]
    rfl
  · rw [run,hcall,if_neg hres,decide_eq_true (not_lt.mp hres)]
    rfl

end Trust

/-- Bytes of a number of sectors, as `diskio.c` computes them. -/
theorem sectors_toNat (count : UInt32) :
    (count * CONFIG_RAM_SEC_SIZE).toNat = count.toNat % 2 ^ 23 * 512 := by
  have hsize : CONFIG_RAM_SEC_SIZE.toNat = 512 := rfl
  rw [UInt32.toNat_mul,hsize]
  omega

theorem sectors_checks {sector count : UInt32} (hsz : count * CONFIG_RAM_SEC_SIZE ≠ 0) :
    Checks (sector.toNat * 512) (count * CONFIG_RAM_SEC_SIZE).toNat
      (secRange sector 0 (count * CONFIG_RAM_SEC_SIZE)) := by
  have hchecks := @secRange_checks sector (count * CONFIG_RAM_SEC_SIZE) 0 hsz (by omega)
  rw [Nat.add_zero] at hchecks
  exact hchecks

/-- Every callback's answer can be trusted for exactly these ranges. -/
theorem block_callbacks (call : DeviceCall) (disk buf : Mem) :
    call.Trusted disk buf ↔ call.Fits := by
  cases call with
  | diskRead sector count =>
    have hbytes := sectors_toNat count
    have hchecks := @sectors_checks sector count
    apply trusted_checked (diskRead_run sector count) rfl rfl
    · rw [← hbytes]
      intro hfit
      obtain ⟨hok,hdone⟩ := read_transferred (fun hsz _ => hchecks hsz) hfit
      refine ⟨decide_eq_true hok,fun hsmall => ⟨rfl,?_⟩⟩
      rw [hbytes,Nat.mod_eq_of_lt hsmall] at hdone ⊢
      exact hdone
    · rw [← hbytes]
      intro hfit
      obtain ⟨hres,_⟩ := transfer_refused (fun a => memcpy buf 0 disk a _) hchecks hfit
      exact ⟨decide_eq_false (not_le.mpr hres),rfl⟩
  | diskWrite sector count =>
    have hbytes := sectors_toNat count
    have hchecks := @sectors_checks sector count
    apply trusted_checked (diskWrite_run sector count) rfl rfl
    · rw [← hbytes]
      intro hfit
      obtain ⟨hok,hdone⟩ := write_transferred (fun hsz _ => hchecks hsz) hfit
      refine ⟨decide_eq_true hok,fun hsmall => ?_⟩
      rw [hbytes,Nat.mod_eq_of_lt hsmall] at hdone ⊢
      exact hdone
    · rw [← hbytes]
      intro hfit
      obtain ⟨hres,hsame⟩ := transfer_refused (fun a => memcpy disk a buf 0 _) hchecks hfit
      exact ⟨decide_eq_false (not_le.mpr hres),hsame⟩
  | lfsRead sectorsPerBlock block off size =>
    apply trusted_silent rfl
    exact fun hfit => ⟨rfl,(read_transferred lfsRange_checks hfit).2⟩
  | lfsWrite sectorsPerBlock block off size =>
    apply trusted_silent rfl
    exact fun hfit => (write_transferred lfsRange_checks hfit).2
  | spiffsRead addr size =>
    apply trusted_silent rfl
    exact fun hfit => ⟨rfl,(read_transferred (fun hsz _ => addrRange_checks hsz) hfit).2⟩
  | spiffsWrite addr size =>
    apply trusted_silent rfl
    exact fun hfit => (write_transferred (fun hsz _ => addrRange_checks hsz) hfit).2
  | spiffsErase addr size =>
    apply trusted_silent rfl
    exact fun hfit => erase_transferred (fun hsz _ => addrRange_checks hsz) hfit

/-- A read behind the disk that reports success and leaves the buffer as it was. -/
theorem unread_success :
    ∃ (call : DeviceCall) (disk buf : Mem),call = spiffsRead 524288 1 ∧
      (call.run disk buf).1 = true ∧ ¬InDisk call.start call.len ∧
      (call.run disk buf).2.1 0 ≠ disk 524288 ∧ ¬call.Trusted disk buf := by
  refine ⟨spiffsRead 524288 1,fun _ => 7,fun _ => 0,rfl,rfl,by decide,by decide,?_⟩
  rw [Trusted]
  intro htrusted
  have hinside : InDisk 524288 1 := htrusted.1.resolve_left (by decide)
  exact absurd hinside (by decide)

end DeviceCall

end UcVfs

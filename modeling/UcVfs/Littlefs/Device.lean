import UcVfs.Devices.Callbacks

/-!
# The part of a disk that littlefs uses

`prepare` of `littlefs_vfs.c` fills in the configuration of a descriptor. Its data callbacks
then turn a block and an offset into an address of the disk.
-/

namespace UcVfs.Littlefs

open Framework

def CONFIG_PAGE_SIZE : UInt32 := 64
def CONFIG_PAGES_PER_SEC : UInt32 := CONFIG_RAM_SEC_SIZE / CONFIG_PAGE_SIZE
def CONFIG_LITTLEFS2_CACHE_PAGES : UInt32 := 1
def CONFIG_LITTLEFS2_BLOCK_CYCLES : Int := 512
def CONFIG_LITTLEFS2_LOOKAHEAD_SIZE : UInt32 := 64

/-- The numbers of `struct lfs_config`. -/
structure Config where
  readSize : UInt32
  progSize : UInt32
  blockSize : UInt32
  blockCount : UInt32
  blockCycles : Int
  cacheSize : UInt32
  lookaheadSize : UInt32
  deriving DecidableEq

/-- `littlefs2_desc_t` around the state of littlefs itself; `lock` says how deep the mutex is
nested. -/
structure Desc where
  config : Config
  disk : Option (Fin 2)
  lock : Nat
  baseAddr : UInt32
  sectorsPerBlock : UInt16
  deriving DecidableEq

/-- A member that is filled in when it is zero. -/
def orDefault (preset byDefault : UInt32) : UInt32 := if preset = 0 then byDefault else preset

def Desc.prepared (fs : Desc) (disk : Fin 2) : Desc :=
  let blockSize := CONFIG_PAGES_PER_SEC * CONFIG_PAGE_SIZE
  let sectorsPerBlock := (blockSize / (CONFIG_PAGES_PER_SEC * CONFIG_PAGE_SIZE)).toUInt16
  let blockCount := CONFIG_RAM_N_SECS / sectorsPerBlock.toUInt32
  { fs with
    disk := some disk
    sectorsPerBlock := sectorsPerBlock
    config :=
      { readSize := orDefault fs.config.readSize CONFIG_PAGE_SIZE
        progSize := orDefault fs.config.progSize CONFIG_PAGE_SIZE
        blockSize := orDefault fs.config.blockSize blockSize
        blockCount := orDefault fs.config.blockCount (blockCount - fs.baseAddr)
        blockCycles :=
          if fs.config.blockCycles = 0 then CONFIG_LITTLEFS2_BLOCK_CYCLES
          else fs.config.blockCycles
        cacheSize :=
          orDefault fs.config.cacheSize (CONFIG_PAGE_SIZE * CONFIG_LITTLEFS2_CACHE_PAGES)
        lookaheadSize := CONFIG_LITTLEFS2_LOOKAHEAD_SIZE } }

/-- Returns with the mutex held when it succeeds. -/
def prepare (fs : Desc) (dno : UInt8) : Int × Desc :=
  let fs := { fs with lock := fs.lock + 1 }
  match ramdiskOpen dno.toNat with
  | none => (-EINVAL,{ fs with lock := fs.lock - 1 })
  | some disk => (0,fs.prepared disk)

/-- Where the first byte of a transfer is on the disk. -/
def Desc.address (fs : Desc) (block off : UInt32) : Except Int UInt32 :=
  secRange (block * fs.sectorsPerBlock.toUInt32) (toOff off) 1

/-- The byte is the one that both data callbacks get at. -/
theorem Desc.address_transferred {fs : Desc} {block off addr : UInt32}
    (h : fs.address block off = .ok addr) (disk buf : Mem) :
    (devRead (some disk) fs.sectorsPerBlock block off buf 1).2 =
        some (memcpy buf 0 disk addr.toNat 1) ∧
      (devWrite (some disk) fs.sectorsPerBlock block off buf 1).2 =
        some (memcpy disk addr.toNat buf 0 1) := by
  have hone : (1 : UInt32) ≠ 0 := by decide
  rw [address] at h
  constructor
  · simp [devRead,ramdiskRead,transfer,h,hone]
  · simp [devWrite,ramdiskWrite,transfer,h,hone]

/-- A byte of one of the blocks of a file system. -/
structure Desc.Byte (fs : Desc) where
  block : UInt32
  off : UInt32
  isBlock : block < fs.config.blockCount
  isOff : off < fs.config.blockSize

/-- Every byte is on the disk, not below the first block, and no two are the same one. -/
structure Desc.OwnPart (fs : Desc) : Prop where
  inside : ∀ x : fs.Byte,∃ addr,fs.address x.block x.off = .ok addr ∧
    addr < RAMDISK_MAX_SIZE ∧
    fs.baseAddr.toNat * fs.config.blockSize.toNat ≤ addr.toNat
  apart : ∀ x y : fs.Byte,fs.address x.block x.off = fs.address y.block y.off →
    x.block = y.block ∧ x.off = y.off

/-- The block size that is used. -/
def Desc.blockSize (fs : Desc) : ℕ :=
  if fs.config.blockSize = 0 then 512 else fs.config.blockSize.toNat

/-- A descriptor as its owner may set it up. -/
structure Desc.Valid (fs : Desc) : Prop where
  sectors : 512 ∣ fs.blockSize
  divides : fs.blockSize ∣ RAMDISK_MAX_SIZE.toNat
  base : fs.baseAddr.toNat < RAMDISK_MAX_SIZE.toNat / fs.blockSize
  count : fs.config.blockCount = 0 ∨
    (fs.baseAddr.toNat + fs.config.blockCount.toNat) * fs.blockSize ≤ RAMDISK_MAX_SIZE.toNat

theorem Desc.Valid.locked {fs : Desc} (h : fs.Valid) (depth : Nat) :
    ({ fs with lock := depth } : Desc).Valid :=
  ⟨h.sectors,h.divides,h.base,h.count⟩

/-- It starts at the first block and has blocks of one sector, or only one block. -/
def Desc.FromStart (fs : Desc) : Prop :=
  fs.baseAddr = 0 ∧ (fs.config.blockSize = 0 ∨ fs.config.blockSize = 512 ∨ fs.config.blockCount = 1)

namespace Desc

section Prepared

variable {fs fs' : Desc} {dno : UInt8} {disk : Fin 2}

theorem prepare_ok (h : prepare fs dno = (0,fs')) :
    ∃ disk,ramdiskOpen dno.toNat = some disk ∧
      fs' = { fs with lock := fs.lock + 1 }.prepared disk := by
  cases hopen : ramdiskOpen dno.toNat with
  | none =>
    have hres : -EINVAL = 0 := by
      rw [prepare,hopen] at h
      exact congrArg Prod.fst h
    exact absurd hres (by decide)
  | some disk =>
    rw [prepare,hopen] at h
    exact ⟨disk,rfl,(congrArg Prod.snd h).symm⟩

theorem prepared_sectorsPerBlock : (fs.prepared disk).sectorsPerBlock = 1 := rfl

theorem prepared_baseAddr : (fs.prepared disk).baseAddr = fs.baseAddr := rfl

theorem prepared_blockSize : (fs.prepared disk).config.blockSize.toNat = fs.blockSize := by
  show (orDefault fs.config.blockSize 512).toNat = fs.blockSize
  by_cases hsize : fs.config.blockSize = 0
  · rw [orDefault,if_pos hsize,blockSize,if_pos hsize]
    rfl
  · rw [orDefault,if_neg hsize,blockSize,if_neg hsize]

/-- At least a sector, and at most the disk. -/
theorem Valid.blockSize_bounds (h : fs.Valid) : 512 ≤ fs.blockSize ∧ fs.blockSize ≤ 524288 := by
  have hmax : RAMDISK_MAX_SIZE.toNat = 524288 := rfl
  have hle := Nat.le_of_dvd (by omega) h.divides
  have hpos : 0 < fs.blockSize := Nat.pos_of_dvd_of_pos h.divides (by omega)
  exact ⟨Nat.le_of_dvd hpos h.sectors,hle⟩

theorem Valid.base_sector (h : fs.Valid) : fs.baseAddr.toNat < 1024 := by
  calc fs.baseAddr.toNat < 524288 / fs.blockSize := h.base
    _ ≤ 524288 / 512 := Nat.div_le_div_left h.blockSize_bounds.1 (by omega)

theorem prepared_blockCount_preset (hcount : fs.config.blockCount ≠ 0) :
    (fs.prepared disk).config.blockCount = fs.config.blockCount := if_neg hcount

theorem prepared_blockCount_default (h : fs.Valid) (hcount : fs.config.blockCount = 0) :
    (fs.prepared disk).config.blockCount.toNat = 1024 - fs.baseAddr.toNat := by
  have hbase := h.base_sector
  show (orDefault fs.config.blockCount (1024 - fs.baseAddr)).toNat = _
  have hle : fs.baseAddr ≤ 1024 := UInt32.le_iff_toNat_le.mpr (le_of_lt hbase)
  rw [orDefault,if_pos hcount,UInt32.toNat_sub_of_le _ _ hle]
  rfl

/-- Where a byte is: blocks follow each other in sectors, whatever their size is, from the first
sector of the disk. -/
theorem address_checks (block : UInt32) {off : UInt32} (hspb : fs.sectorsPerBlock = 1)
    (hoff : off.toNat < 2 ^ 31) :
    Checks (block.toNat * 512 + off.toNat) 1 (fs.address block off) := by
  have hto : toOff off = (off.toNat : ℕ) := by
    apply Int.bmod_eq_of_le <;> omega
  have hmul : block * fs.sectorsPerBlock.toUInt32 = block := by
    rw [hspb]
    exact UInt32.mul_one block
  rw [address,hto,hmul]
  have hone : (1 : UInt32) ≠ 0 := by decide
  exact secRange_checks hone hoff

/-- A byte on the disk is found at its address. -/
theorem address_inside {block off : UInt32} (hspb : fs.sectorsPerBlock = 1)
    (hin : InDisk (block.toNat * 512 + off.toNat) 1) :
    ∃ addr,addr.toNat = block.toNat * 512 + off.toNat ∧ fs.address block off = .ok addr := by
  have hle : block.toNat * 512 + off.toNat + 1 ≤ 524288 := hin
  have hoff : off.toNat < 2 ^ 31 := by omega
  rcases address_checks block hspb hoff with ⟨_,hok⟩ | ⟨hout,_⟩
  · exact hok
  · exact absurd hin hout

theorem Byte.off_lt (x : (fs.prepared disk).Byte) : x.off.toNat < fs.blockSize := by
  have hoff := UInt32.lt_iff_toNat_lt.mp x.isOff
  rwa [prepared_blockSize] at hoff

theorem Byte.block_lt (x : (fs.prepared disk).Byte) :
    x.block.toNat < (fs.prepared disk).config.blockCount.toNat :=
  UInt32.lt_iff_toNat_lt.mp x.isBlock

theorem prepared_blockCount_pos (h : fs.Valid) (disk : Fin 2) :
    0 < (fs.prepared disk).config.blockCount := by
  rw [UInt32.lt_iff_toNat_lt]
  by_cases hcount : fs.config.blockCount = 0
  · rw [prepared_blockCount_default h hcount]
    exact Nat.sub_pos_of_lt h.base_sector
  · rw [prepared_blockCount_preset hcount]
    exact Nat.pos_of_ne_zero fun hzero => hcount (UInt32.toNat_inj.mp hzero)

theorem prepared_blockSize_pos (h : fs.Valid) (disk : Fin 2) :
    0 < (fs.prepared disk).config.blockSize := by
  rw [UInt32.lt_iff_toNat_lt,prepared_blockSize]
  exact lt_of_lt_of_le (by decide) h.blockSize_bounds.1

/-- The first byte of the first block. -/
def firstByte (h : fs.Valid) (disk : Fin 2) : (fs.prepared disk).Byte :=
  ⟨0,0,prepared_blockCount_pos h disk,prepared_blockSize_pos h disk⟩

theorem firstByte_address (h : fs.Valid) (disk : Fin 2) :
    (fs.prepared disk).address (firstByte h disk).block (firstByte h disk).off = .ok 0 := by
  show secRange (0 * 1) (toOff 0) 1 = .ok 0
  decide

/-- With `FromStart` a block is one sector, or it is the only one. -/
theorem FromStart.blocks (h : fs.Valid) (hstart : fs.FromStart) (disk : Fin 2) :
    (fs.blockSize = 512 ∧ (fs.prepared disk).config.blockCount.toNat ≤ 1024) ∨
      (fs.prepared disk).config.blockCount.toNat = 1 := by
  obtain ⟨hbase,hblocks⟩ := hstart
  have hzero : fs.baseAddr.toNat = 0 := by rw [hbase]; rfl
  by_cases hone : fs.config.blockCount = 1
  · right
    rw [prepared_blockCount_preset (by rw [hone]; decide),hone]
    rfl
  · left
    have hsize : fs.blockSize = 512 := by
      rcases hblocks with hpreset | hpreset | hcount
      · rw [blockSize,if_pos hpreset]
      · rw [blockSize,hpreset]
        rfl
      · exact absurd hcount hone
    refine ⟨hsize,?_⟩
    by_cases hcount : fs.config.blockCount = 0
    · rw [prepared_blockCount_default h hcount]
      omega
    · have hmax : RAMDISK_MAX_SIZE.toNat = 524288 := rfl
      have hfit := h.count.resolve_left hcount
      rw [prepared_blockCount_preset hcount]
      rw [hsize,hzero,hmax] at hfit
      omega

theorem FromStart.byte_inside (h : fs.Valid) (hstart : fs.FromStart)
    (x : (fs.prepared disk).Byte) : InDisk (x.block.toNat * 512 + x.off.toNat) 1 := by
  show _ ≤ 524288
  have hblock := x.block_lt
  have hoff := x.off_lt
  have hmax := h.blockSize_bounds.2
  rcases hstart.blocks h disk with ⟨hsize,hcount⟩ | hone <;> omega

theorem OwnPart.baseAddr_zero (h : fs.Valid) (hown : (fs.prepared disk).OwnPart) :
    fs.baseAddr = 0 := by
  have hsize := h.blockSize_bounds.1
  obtain ⟨addr,hok,_,hbase⟩ := hown.inside (firstByte h disk)
  rw [firstByte_address h disk] at hok
  have haddr : addr.toNat = 0 := by
    rw [← Except.ok.inj hok]
    rfl
  rw [haddr,prepared_baseAddr,prepared_blockSize] at hbase
  rcases Nat.mul_eq_zero.mp (Nat.le_zero.mp hbase) with hzero | hzero
  · exact UInt32.toNat_inj.mp hzero
  · omega

/-- With larger blocks the second sector of the first block is the start of the second one. -/
theorem OwnPart.oneBlock (h : fs.Valid) (hown : (fs.prepared disk).OwnPart)
    (hlarge : 512 < fs.blockSize) : fs.config.blockCount = 1 := by
  by_contra hone
  have htwo : 1 < (fs.prepared disk).config.blockCount.toNat := by
    by_cases hcount : fs.config.blockCount = 0
    · have hbase : fs.baseAddr.toNat = 0 := by rw [hown.baseAddr_zero h]; rfl
      rw [prepared_blockCount_default h hcount]
      omega
    · rw [prepared_blockCount_preset hcount]
      have hzero : fs.config.blockCount.toNat ≠ 0 := fun hn => hcount (UInt32.toNat_inj.mp hn)
      have hnotOne : fs.config.blockCount.toNat ≠ 1 := fun hn => hone (UInt32.toNat_inj.mp hn)
      omega
  have hsector : (512 : UInt32) < (fs.prepared disk).config.blockSize := by
    rw [UInt32.lt_iff_toNat_lt,prepared_blockSize]
    exact hlarge
  let x : (fs.prepared disk).Byte := ⟨0,512,prepared_blockCount_pos h disk,hsector⟩
  let y : (fs.prepared disk).Byte :=
    ⟨1,0,UInt32.lt_iff_toNat_lt.mpr htwo,prepared_blockSize_pos h disk⟩
  have hsame : (fs.prepared disk).address x.block x.off =
      (fs.prepared disk).address y.block y.off := by
    show secRange (0 * 1) (toOff 512) 1 = secRange (1 * 1) (toOff 0) 1
    decide
  have hzero : (0 : UInt32) = 1 := (hown.apart x y hsame).1
  exact absurd hzero (by decide)

theorem OwnPart.fromStart (h : fs.Valid) (hown : (fs.prepared disk).OwnPart) :
    fs.FromStart := by
  refine ⟨hown.baseAddr_zero h,?_⟩
  by_cases hsize : fs.config.blockSize = 0
  · exact Or.inl hsize
  · right
    by_cases hsector : fs.config.blockSize = 512
    · exact Or.inl hsector
    · right
      have hbounds := h.blockSize_bounds.1
      have hnot : fs.blockSize ≠ 512 := by
        rw [blockSize,if_neg hsize]
        exact fun hn => hsector (UInt32.toNat_inj.mp hn)
      exact hown.oneBlock h (by omega)

theorem ownPart_prepared (h : fs.Valid) : (fs.prepared disk).OwnPart ↔ fs.FromStart := by
  constructor
  · exact OwnPart.fromStart h
  · intro hstart
    constructor
    · intro x
      have hin := hstart.byte_inside h x
      obtain ⟨addr,haddr,hok⟩ := address_inside prepared_sectorsPerBlock hin
      refine ⟨addr,hok,?_,?_⟩
      · rw [UInt32.lt_iff_toNat_lt,haddr]
        exact hin
      · rw [prepared_baseAddr,hstart.1,UInt32.toNat_zero,Nat.zero_mul]
        exact Nat.zero_le _
    · intro x y heq
      have hblocks := hstart.blocks h disk
      obtain ⟨a,ha,hoka⟩ := address_inside prepared_sectorsPerBlock (hstart.byte_inside h x)
      obtain ⟨b,hb,hokb⟩ := address_inside prepared_sectorsPerBlock (hstart.byte_inside h y)
      have hab : a = b := Except.ok.inj (hoka.symm.trans (heq.trans hokb))
      have hx := x.off_lt
      have hy := y.off_lt
      have hbx := x.block_lt
      have hby := y.block_lt
      rw [hab] at ha
      rw [← UInt32.toNat_inj,← UInt32.toNat_inj]
      omega

end Prepared

/-- After `prepare`, the blocks of a file system are its own part of the disk exactly when it
starts at the first block with blocks of one sector or with one block; and it has a byte of the
disk in common with every other file system there. -/
theorem prepare_ownPart {fs fs' : Desc} {dno : UInt8} (h : prepare fs dno = (0,fs'))
    (hvalid : fs.Valid) :
    (fs'.OwnPart ↔ fs.FromStart) ∧
    ∀ gs gs' : Desc,prepare gs dno = (0,gs') → gs.Valid →
      ∃ (x : fs'.Byte) (y : gs'.Byte),
        fs'.address x.block x.off = gs'.address y.block y.off := by
  obtain ⟨disk,hdisk,rfl⟩ := prepare_ok h
  have hlocked := hvalid.locked (fs.lock + 1)
  refine ⟨ownPart_prepared hlocked,?_⟩
  intro gs gs' hother hgs
  obtain ⟨disk',_,rfl⟩ := prepare_ok hother
  have hglocked := hgs.locked (gs.lock + 1)
  refine ⟨firstByte hlocked disk,firstByte hglocked disk',?_⟩
  rw [firstByte_address,firstByte_address]

/-- A descriptor whose first block is 4 and that leaves the rest to the defaults. -/
def fromFour : Desc := ⟨⟨0,0,0,0,0,0,0⟩,none,0,4,0⟩

theorem fromFour_valid : fromFour.Valid where
  sectors := by decide
  divides := by decide
  base := by decide
  count := Or.inl rfl

def fromFourPrepared : Desc := (prepare fromFour 1).2

theorem prepare_ownPart_fromFour :
    (fromFourPrepared.OwnPart ↔ fromFour.FromStart) ∧
    ∀ gs gs' : Desc,prepare gs 1 = (0,gs') → gs.Valid →
      ∃ (x : fromFourPrepared.Byte) (y : gs'.Byte),
        fromFourPrepared.address x.block x.off = gs'.address y.block y.off :=
  prepare_ownPart rfl fromFour_valid

/-- It reads and writes the first sector of the disk. -/
theorem below_first_block :
    prepare fromFour 1 = (0,fromFourPrepared) ∧ fromFour.Valid ∧
      fromFourPrepared.address 0 0 = .ok 0 ∧ ¬fromFourPrepared.OwnPart := by
  refine ⟨rfl,fromFour_valid,by decide,?_⟩
  intro hown
  have hzero := OwnPart.baseAddr_zero (fromFour_valid.locked 1) hown
  exact absurd hzero (by decide)

end Desc

end UcVfs.Littlefs
